import K3sm.Svclb.Hoster

/-!
# The text of a bound report

The entries are sorted and joined behind the incarnation, up to the first that would take the
text past its cap.  A report that is read and written again has the same entries without the
empty and the repeated ones, so it is no longer than it was.
-/

namespace K3sm.Svclb

open K3sm.Core List
open K3sm.Core.Filepath (Str)

/-- The report that lists these entries. -/
def boundText (incarnation : Str) (entries : List Str) : Str :=
  incarnation ++ ';' :: [','].intercalate entries

theorem byteLength_append (left right : Str) :
    byteLength (left ++ right) = byteLength left + byteLength right := by
  simp [byteLength]

theorem byteLength_intercalate {entries : List Str} (hsome : entries ≠ []) :
    byteLength ([','].intercalate entries) + 1 =
      (entries.map fun entry => byteLength entry + 1).sum := by
  have hcomma : byteLength [','] = 1 := by decide
  induction entries with
  | nil => exact absurd rfl hsome
  | cons entry rest ih =>
    cases rest with
    | nil => simp
    | cons second rest =>
      rw [intercalate_cons_cons, byteLength_append, byteLength_append, hcomma, map_cons, sum_cons,
        ← ih (by simp)]
      omega

theorem byteLength_boundText (incarnation : Str) (entries : List Str) :
    byteLength (boundText incarnation entries) =
      byteLength incarnation + max 1 (entries.map fun entry => byteLength entry + 1).sum := by
  have hcolon : byteLength [';'] = 1 := by decide
  rw [boundText, ← singleton_append, byteLength_append, byteLength_append, hcolon]
  by_cases hsome : entries = []
  · subst hsome
    rfl
  · have := byteLength_intercalate hsome
    omega

theorem boundText_concat (incarnation : Str) (entries : List Str) (entry : Str) :
    boundText incarnation entries ++ (if entries = [] then [] else [',']) ++ entry =
      boundText incarnation (entries ++ [entry]) := by
  have hjoin : [','].intercalate entries ++ (if entries = [] then [] else [',']) ++ entry =
      [','].intercalate (entries ++ [entry]) := by
    induction entries with
    | nil => simp
    | cons first rest ih =>
      cases rest with
      | nil => simp [intercalate_cons_cons]
      | cons second rest =>
        rw [cons_append, cons_append, intercalate_cons_cons, intercalate_cons_cons, ← cons_append,
          ← ih]
        simp
  rw [boundText, boundText, ← hjoin]
  simp

/-- Entries are appended as long as the text stays within the cap. -/
theorem appendEntries_spec (incarnation : Str) (done rest : List Str)
    (hdone : byteLength (boundText incarnation done) ≤ maxBoundBytes) :
    ∃ listed left, done ++ rest = listed ++ left ∧
      appendEntries (boundText incarnation done) (if done = [] then [] else [',']) rest =
        (boundText incarnation listed, decide (left ≠ [])) ∧
      byteLength (boundText incarnation listed) ≤ maxBoundBytes ∧
      ∀ entry, left.head? = some entry →
        maxBoundBytes < byteLength (boundText incarnation (listed ++ [entry])) := by
  induction rest generalizing done with
  | nil => exact ⟨done, [], rfl, rfl, hdone, nofun⟩
  | cons entry rest ih =>
    have hseparator : byteLength (if done = [] then [] else [',']) =
        (if done = [] then [] else [',']).length := by
      split_ifs <;> rfl
    have hlength : byteLength (boundText incarnation done) +
        (if done = [] then [] else [',']).length + byteLength entry =
          byteLength (boundText incarnation (done ++ [entry])) := by
      rw [← boundText_concat, byteLength_append, byteLength_append, hseparator]
    rw [appendEntries, hlength, boundText_concat]
    by_cases hfull : maxBoundBytes < byteLength (boundText incarnation (done ++ [entry]))
    · refine ⟨done, entry :: rest, rfl, by rw [if_pos hfull]; rfl, hdone, ?_⟩
      rintro other ⟨⟩
      exact hfull
    · obtain ⟨listed, left, hsplit, hvalue, hshort, hleft⟩ := ih (done ++ [entry]) (not_lt.1 hfull)
      rw [if_neg (by simp)] at hvalue
      exact ⟨listed, left, by simpa using hsplit, by rw [if_neg hfull, hvalue], hshort, hleft⟩

theorem parseBound_boundText (incarnation : Incarnation) {entries : List Str}
    (hplain : ∀ entry ∈ entries, ',' ∉ entry ∧ entry ≠ [])
    (hshort : byteLength (boundText incarnation.text entries) ≤ maxBoundBytes) :
    parseBound (boundText incarnation.text entries) = some ⟨incarnation.text, entries⟩ := by
  have hread : (([','].intercalate entries).splitOn ',').filter (· ≠ []) = entries := by
    cases entries with
    | nil => rfl
    | cons entry rest =>
      rw [splitOn_intercalate ',' (fun other hother => (hplain other hother).1) (by simp),
        filter_eq_self]
      intro other hother
      simpa using (hplain other hother).2
  have hinc : ¬ maxIncarnationLen < byteLength incarnation.text := not_lt.2 incarnation.short
  have hcut : cut ';' (boundText incarnation.text entries) =
      (incarnation.text, some ([','].intercalate entries)) := cut_append incarnation.plain _
  simp only [parseBound, if_neg (not_lt.2 hshort), hcut, Option.map_some, hread]
  simp [incarnation.nonempty, hinc]

theorem parseBound_formatBound (incarnation : Incarnation) (entries : List Str)
    (hplain : ∀ entry ∈ entries, ',' ∉ entry ∧ entry ≠ []) :
    ∃ listed left, entries.insertionSort (· ≤ ·) = listed ++ left ∧
      formatBound incarnation.text entries =
        (boundText incarnation.text listed, decide (left ≠ [])) ∧
      parseBound (formatBound incarnation.text entries).1 = some ⟨incarnation.text, listed⟩ ∧
      byteLength (boundText incarnation.text listed) ≤ maxBoundBytes ∧
      ∀ entry, left.head? = some entry →
        maxBoundBytes < byteLength (boundText incarnation.text (listed ++ [entry])) := by
  have hstart : byteLength (boundText incarnation.text []) ≤ maxBoundBytes := by
    have := incarnation.short
    rw [byteLength_boundText]
    simp only [maxIncarnationLen, maxBoundBytes, map_nil, sum_nil] at *
    omega
  obtain ⟨listed, left, hsplit, hvalue, hshort, hleft⟩ := appendEntries_spec incarnation.text []
    (entries.insertionSort (· ≤ ·)) hstart
  have hformat : formatBound incarnation.text entries = _ := hvalue
  refine ⟨listed, left, hsplit, hformat, ?_, hshort, hleft⟩
  rw [hformat]
  refine parseBound_boundText incarnation (fun entry hentry => ?_) hshort
  refine hplain entry ((mem_insertionSort (· ≤ ·)).1 ?_)
  rw [show entries.insertionSort (· ≤ ·) = listed ++ left from hsplit]
  exact mem_append_left _ hentry

theorem byteLength_boundText_le (incarnation : Str) {entries others : List Str}
    (hentries : entries <+~ others) :
    byteLength (boundText incarnation entries) ≤ byteLength (boundText incarnation others) := by
  obtain ⟨middle, hperm, hsublist⟩ := hentries
  have hmap := (hperm.map fun entry => byteLength entry + 1).sum_eq
  have hsum := (hsublist.map fun entry => byteLength entry + 1).sum_le_sum (by simp)
  rw [byteLength_boundText, byteLength_boundText]
  omega

/-- The longest front of the entries whose report is within the cap. -/
structure LongestFitting (incarnation : Str) (entries listed : List Str) : Prop where
  front : listed <+: entries
  fits : byteLength (boundText incarnation listed) ≤ maxBoundBytes
  longest : ∀ other, other <+: entries →
    byteLength (boundText incarnation other) ≤ maxBoundBytes → other <+: listed

theorem longestFitting_of_left {incarnation : Str} {listed left : List Str}
    (hfits : byteLength (boundText incarnation listed) ≤ maxBoundBytes)
    (hleft : ∀ entry, left.head? = some entry →
      maxBoundBytes < byteLength (boundText incarnation (listed ++ [entry]))) :
    LongestFitting incarnation (listed ++ left) listed := by
  refine ⟨List.prefix_append _ _, hfits, fun other hother hshort => ?_⟩
  obtain hfront | ⟨more, rfl⟩ :=
    List.prefix_or_prefix_of_prefix hother ( List.prefix_append listed left)
  · exact hfront
  cases more with
  | nil => simp
  | cons entry more =>
    obtain ⟨rest, rfl⟩ := (List.prefix_append_right_inj listed).1 hother
    have hmore : listed ++ [entry] <+~ listed ++ entry :: more := ⟨_, .rfl, by simp⟩
    exact absurd (hleft entry rfl)
      (not_lt.2 ((byteLength_boundText_le incarnation hmore).trans hshort))

theorem parseBound_some {value : Str} {report : BoundReport}
    (hparse : parseBound value = some report) :
    ∃ (incarnation : Incarnation) (parts : List Str), incarnation.text = report.incarnation ∧
      report.entries = parts.filter (· ≠ []) ∧ (∀ part ∈ parts, ',' ∉ part) ∧
      byteLength (boundText incarnation.text parts) ≤ maxBoundBytes := by
  by_cases hfound : ';' ∈ value
  · obtain ⟨text, list, rfl, hplain⟩ := eq_append_cons_of_mem hfound
    simp only [parseBound, cut_append hplain] at hparse
    split_ifs at hparse with hlong hbad
    cases hparse
    simp only [Bool.or_eq_true, decide_eq_true_eq, not_or,
      not_lt] at hbad
    refine ⟨⟨text, hbad.1, hplain, hbad.2⟩, list.splitOn ',', rfl, rfl,
      fun part => Filepath.not_mem_of_mem_splitOn, ?_⟩
    rw [boundText, intercalate_splitOn]
    exact not_lt.1 hlong
  · simp [parseBound, cut_of_not_mem hfound] at hparse

/-- A report that is written is read back: the incarnation, and the entries or, past the cap, as
many as fit.  What was read from any text is written in full, and read back. -/
theorem bound_report_round_trips :
    (∀ (incarnation : Str) (entries : List Str), incarnation ≠ [] →
      byteLength incarnation ≤ maxIncarnationLen → ';' ∉ incarnation →
      (∀ entry ∈ entries, ',' ∉ entry ∧ entry ≠ []) →
      ∃ listed, parseBound (formatBound incarnation entries).1 = some ⟨incarnation, listed⟩ ∧
        ((formatBound incarnation entries).2 = false → ∀ entry, entry ∈ listed ↔ entry ∈ entries) ∧
        ((formatBound incarnation entries).2 = true →
          LongestFitting incarnation (entries.insertionSort (· ≤ ·)) listed)) ∧
    ∀ (value : Str) (report : BoundReport) (keys : List Str), parseBound value = some report →
      keys.Nodup → (∀ entry, entry ∈ keys ↔ entry ∈ report.entries) →
      (formatBound report.incarnation keys).2 = false ∧
        ∃ again, parseBound (formatBound report.incarnation keys).1 =
            some ⟨report.incarnation, again⟩ ∧ ∀ entry, entry ∈ again ↔ entry ∈ report.entries := by
  constructor
  · intro incarnation entries hnonempty hshort hplain hentries
    obtain ⟨listed, left, hsplit, hformat, hparse, hfits, hleft⟩ :=
      parseBound_formatBound ⟨incarnation, hnonempty, hplain, hshort⟩ entries hentries
    refine ⟨listed, hparse, fun hwhole entry => ?_, fun _ => ?_⟩
    · have hnone : left = [] := by simpa [hformat] using hwhole
      rw [← mem_insertionSort (l := entries) (· ≤ ·), hsplit, hnone, append_nil]
    · rw [hsplit]
      exact longestFitting_of_left hfits hleft
  rintro value ⟨_, entries⟩ keys hparse hnodup hkeys
  obtain ⟨incarnation, parts, rfl, rfl, hplain, hcap⟩ := parseBound_some hparse
  have hmem : ∀ entry ∈ keys, entry ∈ parts ∧ entry ≠ [] := by
    intro entry hentry
    simpa using (hkeys entry).1 hentry
  obtain ⟨listed, left, hsplit, hformat, hagain, -, hleft⟩ := parseBound_formatBound incarnation
    keys fun entry hentry => ⟨hplain entry (hmem entry hentry).1, (hmem entry hentry).2⟩
  have hnone : left = [] := by
    cases left with
    | nil => rfl
    | cons entry rest =>
      have hsub : listed ++ [entry] <+~ parts := by
        have hfront : listed ++ [entry] <+ keys.insertionSort (· ≤ ·) := by
          rw [hsplit]
          simp
        exact hfront.subperm.trans ((perm_insertionSort _ keys).subperm.trans
          (subperm_of_subset hnodup fun _ hentry => (hmem _ hentry).1))
      exact absurd (hleft entry rfl)
        (not_lt.2 ((byteLength_boundText_le incarnation.text hsub).trans hcap))
  refine ⟨by simp [hformat, hnone], listed, hagain, fun entry => ?_⟩
  rw [← hkeys, ← mem_insertionSort (l := keys) (· ≤ ·), hsplit, hnone, append_nil]

end K3sm.Svclb

import K3sm.Registry.Referrers
import K3sm.Registry.RepoWalk

/-!
# Listing repositories, tags and referrers page by page

The three listings take a page size and a cursor and answer with entries and, when more may
follow, with a Link whose cursor is the last entry they sent.  They end a page for different
reasons: the tag list when it is full, the catalog also when it has looked at enough names the
caller may not read, the referrers also when the page has grown too large.
-/

namespace K3sm.Registry.Listing

open K3sm.Core K3sm.Core.Filepath K3sm.Registry.Ref List

variable {Bytes : Type}

/-- The values of a request's query keys; `none` for a key that is not there. -/
structure Query (Cursor : Type) where
  n : Option (List Str)
  last : Option (List Cursor)
  artifactType : List Text

inductive ListError where
  | denied
  | repositoryUnknown
  | numberInvalid
  | lastRepeated
  | lastInvalid
  | digestInvalid
  | tooManyArtifactTypes
  | catalogCeiling
  | referrersBusy
  deriving DecidableEq

def maxPage : ℕ := 10000

def defaultPage : ℕ := 1000

def digitsOnly (text : Str) : Bool :=
  !text.isEmpty && text.all fun char => '0' ≤ char && char ≤ '9'

/-- The page size: `default` when the request names none, and at most `most`. -/
def parseNumber (default most : ℕ) : Option (List Str) → Except ListError ℕ
  | none => .ok default
  | some [text] =>
    if digitsOnly text = true ∧ text.length ≤ 9 then
      .ok (min (Nat.ofDigitChars 10 text 0) most)
    else .error .numberInvalid
  | some _ => .error .numberInvalid

def parseLast {Cursor : Type} (valid : Cursor → Bool) :
    Option (List Cursor) → Except ListError (Option Cursor)
  | none => .ok none
  | some [last] => if valid last then .ok (some last) else .error .lastInvalid
  | some _ => .error .lastRepeated

/-- `parsePage`.  No caller has a page without a limit. -/
def parsePage {Cursor : Type} (query : Query Cursor) (default most : ℕ)
    (valid : Cursor → Bool) : Except ListError (ℕ × Option Cursor) := do
  let n ← parseNumber default most query.n
  let last ← parseLast valid query.last
  return (n, last)

/-- `setNextLink`: the query of the Link. -/
def nextQuery {Cursor : Type} (n : ℕ) (types : List Text) (last : Cursor) : Query Cursor where
  n := some [Nat.toDigits 10 n]
  last := some [last]
  artifactType := types

/-- The items after the place where a binary search finds the cursor, or would put
it. -/
def afterCursor {Item Key : Type} [LinearOrder Key] (key : Item → Key) (items : List Item)
    (last : Key) : List Item :=
  let found := (items.takeWhile fun item => key item < last).length
  if (items[found]?.map key) = some last then items.drop (found + 1) else items.drop found

/-- The items a page starts from: all, or those after the cursor. -/
def leftAfter {Item Key : Type} [LinearOrder Key] (key : Item → Key) (items : List Item) :
    Option Key → List Item
  | none => items
  | some last => afterCursor key items last

def catalogVisits (n : ℕ) : ℕ := max (4 * n) 1000

def catalogCeilingFactor : ℕ := 64

def catalogCeilingMax : ℕ := 64000

def catalogCeiling (n : ℕ) : ℕ := min (catalogCeilingFactor * catalogVisits n) catalogCeilingMax

/-- The catalog's variables.  `stopped` is `errCatalogCeiling`. -/
structure CatalogWalk where
  page : List Str
  more : Bool
  visits : ℕ
  stopped : Bool

def CatalogWalk.start : CatalogWalk := { page := [], more := false, visits := 0, stopped := false }

def visitRepository (readable : Str → Bool) (n : ℕ) (walk : CatalogWalk) (name : Str) :
    CatalogWalk × Bool :=
  if catalogCeiling n ≤ walk.visits then
    if walk.page.length = n then ({ walk with more := true }, false)
    else ({ walk with stopped := true }, false)
  else if readable name = false then ({ walk with visits := walk.visits + 1 }, true)
  else if walk.page.length = n then
    ({ walk with visits := walk.visits + 1, more := true }, false)
  else if catalogVisits n ≤ walk.visits + 1 ∧ walk.page.length + 1 < n then
    ({ walk with visits := walk.visits + 1, page := walk.page ++ [name], more := true }, false)
  else ({ walk with visits := walk.visits + 1, page := walk.page ++ [name] }, true)

/-- A page of the repository names the caller may read. -/
def catalog (withName : WithName) (tree : Tree) (authorize : Option Str → Bool)
    (query : Query Str) : Except ListError (Page Str (Query Str)) :=
  if authorize none = false then .error .denied
  else do
    let (n, last) ← parsePage query defaultPage maxPage (accepts withName)
    let walk := if 0 < n then
        walkRepositories withName tree (visitRepository (authorize ∘ some) n) (last.getD [])
          CatalogWalk.start
      else CatalogWalk.start
    if walk.stopped then .error .catalogCeiling
    else return {
      entries := walk.page
      next := if walk.more then walk.page.getLast?.map (nextQuery n []) else none }

/-- `slices.Compact`. -/
def compact : List Str → List Str
  | first :: second :: rest =>
    if first = second then compact (second :: rest) else first :: compact (second :: rest)
  | items => items

def storeTags (rows : List Row) : List Str :=
  compact (((rows.filterMap Row.refName).map String.toList).insertionSort (· ≤ ·))

/-- `pageOf`: the page, whether more remain, and the size used. -/
def pageOf (items : List Str) (query : Query Str) (default : ℕ) (valid : Str → Bool) :
    Except ListError (List Str × Bool × ℕ) := do
  let (n, last) ← parsePage query default maxPage valid
  let left := leftAfter id items last
  if n < left.length then return (left.take n, decide (0 < n), n)
  else return (left, false, n)

/-- `GET /v2/<name>/tags/list`; `rows` is the repository's index.json. -/
def tags (withTag : Str → Bool) (authorized : Bool) (rows : Option (List Row))
    (query : Query Str) : Except ListError (Page Str (Query Str)) :=
  if authorized = false then .error .denied
  else match rows with
    | none => .error .repositoryUnknown
    | some rows => do
      let (page, more, size) ← pageOf (storeTags rows) query defaultPage (parseTag withTag)
      return {
        entries := page
        next := if more then page.getLast?.map (nextQuery size []) else none }

def referrersPage : ℕ := 1000

def referrersPageBytes : ℕ := 4 * 2 ^ 20

def maxArtifactTypes : ℕ := 8

def textChars : Text → Str
  | .sha256 encoded => "sha256:".toList ++ (Nat.toDigits 16 encoded).leftpad 64 '0'
  | .sha512 encoded => "sha512:".toList ++ (Nat.toDigits 16 encoded).leftpad 128 '0'
  | .plain text => text.toList

/-- `slices.Sorted` of the filter's keys. -/
def sortedTypes (types : List Text) : List Text :=
  types.insertionSort fun left right => textChars left ≤ textChars right

structure ReferrersWalk where
  manifests : List ReferrerDescriptor
  used : ℕ
  more : Bool

def ReferrersWalk.start : ReferrersWalk := { manifests := [], used := 0, more := false }

def matchesFilter (types : List Text) (entry : RefEntry) : Bool :=
  types.isEmpty || types.contains entry.desc.artifactType

def visitReferrer (types : List Text) (size : ℕ) (walk : ReferrersWalk) (entry : RefEntry) :
    ReferrersWalk × Bool :=
  if matchesFilter types entry = false then (walk, true)
  else if walk.manifests.length = size ∨
      (0 < walk.manifests.length ∧ referrersPageBytes < walk.used + entry.size) then
    ({ walk with more := true }, false)
  else ({ walk with
    manifests := walk.manifests ++ [entry.desc], used := walk.used + entry.size }, true)

/-- A page of a manifest's referrers. -/
def referrers (store : ReferrerStore Bytes) (authorized : Bool) (rows : Option (List Row))
    (subject : Text) (query : Query Text) :
    Except ListError (Page ReferrerDescriptor (Query Text)) :=
  if authorized = false then .error .denied
  else match parseDigest subject with
    | none => .error .digestInvalid
    | some digest => do
      let (size, last) ← parsePage query referrersPage referrersPage
        fun last => (parseDigest last).isSome
      if maxArtifactTypes < query.artifactType.length then .error .tooManyArtifactTypes
      else
        let types := query.artifactType.dedup
        match referrersOf store rows digest with
        | none => .error .referrersBusy
        | some all =>
          let left := leftAfter (fun entry => digestRank entry.desc.digest) all
            (last.map digestRank)
          let walk := if 0 < size then
              (runUntil (visitReferrer types size) ReferrersWalk.start left).1
            else ReferrersWalk.start
          return {
            entries := walk.manifests
            next := if walk.more then
                walk.manifests.getLast?.map fun final =>
                  nextQuery size (sortedTypes types) final.digest
              else none }

/-! ## A Link's query is read back -/

theorem digitsOnly_toDigits (n : ℕ) : digitsOnly (Nat.toDigits 10 n) = true := by
  have hdigits : ∀ char ∈ Nat.toDigits 10 n, ('0' ≤ char && char ≤ '9') = true := by
    intro char hchar
    have hdigit := Nat.isDigit_of_mem_toDigits (by decide) (le_refl 10) hchar
    simpa [Char.isDigit, Char.le_def, UInt32.le_iff_toNat_le] using hdigit
  rw [digitsOnly, Bool.and_eq_true]
  exact ⟨by simp [Nat.toDigits_ne_nil], all_eq_true.2 hdigits⟩

variable {n default most : ℕ}

theorem parseNumber_toDigits (hmost : n ≤ most) (hdigits : most < 10 ^ 9) :
    parseNumber default most (some [Nat.toDigits 10 n]) = .ok n := by
  have hlength : (Nat.toDigits 10 n).length ≤ 9 :=
    (Nat.length_toDigits_le_iff (by decide) (by decide)).2 (hmost.trans_lt hdigits)
  rw [parseNumber, if_pos ⟨digitsOnly_toDigits n, hlength⟩, Nat.ofDigitChars_ten_toDigits,
    min_eq_left hmost]

theorem parseNumber_le {numbers : Option (List Str)} (hdefault : default ≤ most)
    (hparse : parseNumber default most numbers = .ok n) : n ≤ most := by
  unfold parseNumber at hparse
  split at hparse
  · rw [← Except.ok.inj hparse]
    exact hdefault
  · split_ifs at hparse
    rw [← Except.ok.inj hparse]
    exact min_le_right _ _
  · cases hparse

theorem parsePage_eq_ok {Cursor : Type} {query : Query Cursor} {valid : Cursor → Bool}
    {last : Option Cursor} :
    parsePage query default most valid = .ok (n, last) ↔
      parseNumber default most query.n = .ok n ∧ parseLast valid query.last = .ok last := by
  unfold parsePage
  cases parseNumber default most query.n <;> cases parseLast valid query.last <;>
    simp [bind, Except.bind, pure, Except.pure]

theorem parsePage_nextQuery {Cursor : Type} {query : Query Cursor} {valid : Cursor → Bool}
    {last : Option Cursor} {final : Cursor} (hdefault : default ≤ most) (hdigits : most < 10 ^ 9)
    (hparse : parsePage query default most valid = .ok (n, last)) (hvalid : valid final = true)
    (types : List Text) :
    parsePage (nextQuery n types final) default most valid = .ok (n, some final) := by
  have hmost := parseNumber_le hdefault (parsePage_eq_ok.1 hparse).1
  apply parsePage_eq_ok.2
  refine ⟨parseNumber_toDigits hmost hdigits, ?_⟩
  simp [nextQuery, parseLast, hvalid]

theorem afterCursor_eq {Item Key : Type} [LinearOrder Key] {key : Item → Key}
    {items : List Item} (hsorted : items.Pairwise fun left right => key left < key right)
    (last : Key) : afterCursor key items last = items.filter fun item => last < key item := by
  induction items with
  | nil => simp [afterCursor]
  | cons item items ih =>
    obtain ⟨hafter, hrest⟩ := pairwise_cons.1 hsorted
    have hfilter : last ≤ key item → items.filter (fun entry => last < key entry) = items := by
      intro hle
      apply filter_eq_self.2
      intro other hother
      simpa using hle.trans_lt (hafter other hother)
    rcases lt_trichotomy (key item) last with hlt | heq | hgt
    · rw [filter_cons_of_neg (by simpa using hlt.le), ← ih hrest, afterCursor, afterCursor,
        takeWhile_cons_of_pos (by simpa using hlt)]
      simp
    · rw [filter_cons_of_neg (by simp [heq]), hfilter heq.ge, afterCursor,
        takeWhile_cons_of_neg (by simp [heq])]
      simp [heq]
    · rw [filter_cons_of_pos (by simpa using hgt), hfilter hgt.le, afterCursor,
        takeWhile_cons_of_neg (by simpa using hgt.le)]
      simp [hgt.ne']

theorem leftAfter_eq {Item Key : Type} [LinearOrder Key] {key : Item → Key}
    {items : List Item} (hsorted : items.Pairwise fun left right => key left < key right)
    (last : Option Key) : leftAfter key items last = afterLast key items last := by
  cases last with
  | none => rfl
  | some last => exact afterCursor_eq hsorted last

/-- The catalog's walk, unless it stops at its ceiling, adds to the page a front part of
the readable names, all when it says no more follow. -/
theorem runUntil_visitRepository (readable : Str → Bool) (hn : 0 < n) (names : List Str)
    (walk : CatalogWalk) (hmore : walk.more = false) (hlength : walk.page.length ≤ n) :
    (runUntil (visitRepository readable n) walk names).1.stopped = true ∨
    ∃ taken left, names.filter readable = taken ++ left ∧
      (runUntil (visitRepository readable n) walk names).1.page = walk.page ++ taken ∧
      ((runUntil (visitRepository readable n) walk names).1.more = true → walk.page ++ taken ≠ []) ∧
      ((runUntil (visitRepository readable n) walk names).1.more = false → left = []) := by
  induction names generalizing walk with
  | nil => exact .inr ⟨[], [], by simp [runUntil, hmore]⟩
  | cons name names ih =>
    have hfull : walk.page.length = n → walk.page ≠ [] := by
      intro hsame hempty
      rw [hempty] at hsame
      exact hn.ne hsame
    rw [runUntil, visitRepository]
    split_ifs with hceiling hpage hdenied hpage hbudget
    · exact .inr ⟨[], _, rfl, by simp, by simpa using hfull hpage, by simp⟩
    · exact .inl rfl
    · rw [filter_cons_of_neg (by simpa using hdenied)]
      exact ih { walk with visits := walk.visits + 1 } hmore hlength
    · exact .inr ⟨[], _, rfl, by simp, by simpa using hfull hpage, by simp⟩
    · rw [filter_cons_of_pos (by simpa using hdenied)]
      exact .inr ⟨[name], _, rfl, rfl, by simp, by simp⟩
    rw [filter_cons_of_pos (by simpa using hdenied)]
    have hroom : (walk.page ++ [name]).length ≤ n := by
      rw [length_append, length_singleton]
      omega
    rcases ih { walk with visits := walk.visits + 1, page := walk.page ++ [name] } hmore hroom
      with hstopped | ⟨taken, left, hsplit, htaken, hend⟩
    · exact .inl hstopped
    refine .inr ⟨name :: taken, left, by rw [hsplit, cons_append], ?_, ?_⟩
    · simpa using htaken
    · simpa using hend

theorem runUntil_visitReferrer (types : List Text) {size : ℕ} (hsize : 0 < size)
    (entries : List RefEntry) (walk : ReferrersWalk) (hmore : walk.more = false) :
    ∃ taken left, (entries.filter (matchesFilter types)).map RefEntry.desc = taken ++ left ∧
      (runUntil (visitReferrer types size) walk entries).1.manifests = walk.manifests ++ taken ∧
      ((runUntil (visitReferrer types size) walk entries).1.more = true →
        walk.manifests ++ taken ≠ []) ∧
      ((runUntil (visitReferrer types size) walk entries).1.more = false → left = []) := by
  induction entries generalizing walk with
  | nil => exact ⟨[], [], by simp [runUntil, hmore]⟩
  | cons entry entries ih =>
    rw [runUntil, visitReferrer]
    split_ifs with hother hfull
    · rw [filter_cons_of_neg (by simpa using hother)]
      exact ih walk hmore
    · refine ⟨[], _, rfl, by simp, ?_, by simp⟩
      have hpositive : 0 < walk.manifests.length := by omega
      simpa using length_pos_iff.1 hpositive
    · rw [filter_cons_of_pos (by simpa using hother), map_cons]
      obtain ⟨taken, left, hsplit, htaken, hend⟩ := ih { walk with
        manifests := walk.manifests ++ [entry.desc], used := walk.used + entry.size } hmore
      refine ⟨entry.desc :: taken, left, by rw [hsplit, cons_append], ?_, ?_⟩
      · simpa using htaken
      · simpa using hend

def Asks {Cursor Key : Type} (default most : ℕ) (valid : Cursor → Bool) (key : Cursor → Key)
    (query : Query Cursor) (last : Option Key) : Prop :=
  ∃ n cursor, parsePage query default most valid = .ok (n, cursor) ∧ 0 < n ∧ last = cursor.map key

theorem Asks.next {Cursor Key : Type} {valid : Cursor → Bool} {key : Cursor → Key}
    {query : Query Cursor} {last : Option Cursor} {final : Cursor} (hdefault : default ≤ most)
    (hdigits : most < 10 ^ 9) (hparse : parsePage query default most valid = .ok (n, last))
    (hn : 0 < n) (hvalid : valid final = true) (types : List Text) :
    Asks default most valid key (nextQuery n types final) (some (key final)) :=
  ⟨n, some final, parsePage_nextQuery hdefault hdigits hparse hvalid types, hn, rfl⟩

section Catalog

variable {withName : WithName} {tree : Tree} {authorize : Option Str → Bool}

def readableRepositories (withName : WithName) (tree : Tree) (authorize : Option Str → Bool) :
    List Str :=
  (repositories withName tree).filter (authorize ∘ some)

theorem repositories_after (last : Option Str) :
    (repositories withName tree).filter (fun name => last.getD [] < name) =
      afterLast id (repositories withName tree) last := by
  cases last with
  | some last => exact filter_congr fun name _ => by simp
  | none =>
    apply filter_eq_self.2
    intro name hname
    have hlength := (mem_repositories.1 hname).1.longer.2
    cases name with
    | nil => cases hlength
    | cons char name => simp

theorem catalog_pager (hallowed : authorize none = true) :
    CursorPager (catalog withName tree authorize) id (readableRepositories withName tree authorize)
      (Asks defaultPage maxPage (accepts withName) id) (· = .catalogCeiling) where
  sorted := (repositories_pairwise withName tree).filter _
  step := by
    rintro query _ ⟨n, last, hparse, hn, rfl⟩
    have hpage : catalog withName tree authorize query =
        let walk := (runUntil (visitRepository (authorize ∘ some) n) CatalogWalk.start
          (afterLast id (repositories withName tree) last)).1
        if walk.stopped then .error .catalogCeiling
        else .ok ⟨walk.page, if walk.more then walk.page.getLast?.map (nextQuery n [])
          else none⟩ := by
      rw [catalog, if_neg (by simp [hallowed]), hparse]
      simp only [bind, Except.bind, if_pos hn, walkRepositories_eq, repositories_after]
      rfl
    rw [hpage, Option.map_id, id_eq, readableRepositories, afterLast_filter]
    set walk := (runUntil (visitRepository (authorize ∘ some) n) CatalogWalk.start
      (afterLast id (repositories withName tree) last)).1
    by_cases hstopped : walk.stopped = true
    · exact .inl ⟨.catalogCeiling, if_pos hstopped, rfl⟩
    obtain ⟨taken, left, hsplit, htaken, hmore, hend⟩ := (runUntil_visitRepository
      (authorize ∘ some) hn (afterLast id (repositories withName tree) last) CatalogWalk.start
      rfl (Nat.zero_le _)).resolve_left hstopped
    have hentries : walk.page = taken := htaken
    have hnonempty : walk.more = true → walk.page ≠ [] := hentries ▸ hmore
    rw [← hentries] at hsplit
    refine .inr ⟨_, left, if_neg hstopped, hsplit, ?_⟩
    rcases link_or_end (nextQuery n []) hnonempty hend with hnone | ⟨final, hnext, hfinal⟩
    · exact .inl hnone
    refine .inr ⟨_, final, hnext, hfinal, ?_⟩
    -- the cursor is the name of a repository
    have hmem : final ∈ readableRepositories withName tree authorize := by
      have hpart : final ∈ walk.page ++ left :=
        mem_append_left _ (mem_of_getLast? hfinal)
      rw [← hsplit, ← afterLast_filter] at hpart
      exact mem_of_mem_afterLast hpart
    exact Asks.next (by decide) (by decide) hparse hn
      (mem_repositories.1 (mem_of_mem_filter hmem)).1.accepted []

end Catalog

section Tags

variable {withTag : Str → Bool} {rows : List Row}

theorem mem_compact {items : List Str} {item : Str} : item ∈ compact items ↔ item ∈ items := by
  fun_induction compact items with
  | case1 first rest ih =>
    rw [ih]
    simp
  | case2 first second rest hne ih => rw [mem_cons, ih, ← mem_cons]
  | case3 items => rfl

theorem compact_pairwise {items : List Str} (hsorted : items.Pairwise (· ≤ ·)) :
    (compact items).Pairwise (· < ·) := by
  fun_induction compact items with
  | case1 first rest ih => exact ih hsorted.of_cons
  | case2 first second rest hne ih =>
    rw [pairwise_cons] at hsorted ⊢
    refine ⟨?_, ih hsorted.2⟩
    intro item hitem
    have hlt : first < second := lt_of_le_of_ne (hsorted.1 second mem_cons_self) hne
    rcases mem_cons.1 (mem_compact.1 hitem) with rfl | hrest
    · exact hlt
    · exact hlt.trans_le ((pairwise_cons.1 hsorted.2).1 item hrest)
  | case3 items hshort =>
    cases items with
    | nil => exact List.Pairwise.nil
    | cons first rest =>
      cases rest with
      | nil => exact pairwise_singleton _ _
      | cons second rest => exact absurd rfl (hshort first second rest)

theorem storeTags_pairwise (rows : List Row) : (storeTags rows).Pairwise (· < ·) :=
  compact_pairwise (pairwise_insertionSort _ _)

theorem mem_storeTags {tag : Str} :
    tag ∈ storeTags rows ↔ ∃ row ∈ rows, row.refName = some (String.ofList tag) := by
  rw [storeTags, mem_compact, mem_insertionSort, mem_map]
  constructor
  · rintro ⟨text, htext, rfl⟩
    obtain ⟨row, hrow, hname⟩ := mem_filterMap.1 htext
    exact ⟨row, hrow, by simpa using hname⟩
  · rintro ⟨row, hrow, hname⟩
    exact ⟨String.ofList tag, mem_filterMap.2 ⟨row, hrow, hname⟩, by simp⟩

theorem tags_pager (hgrammar : ∀ tag ∈ storeTags rows, parseTag withTag tag = true) :
    CursorPager (tags withTag true (some rows)) id (storeTags rows)
      (Asks defaultPage maxPage (parseTag withTag) id) (fun _ => False) where
  sorted := storeTags_pairwise rows
  step := by
    rintro query _ ⟨n, last, hparse, hn, rfl⟩
    set left := afterLast id (storeTags rows) last with hleft
    have hpage : tags withTag true (some rows) query =
        .ok ⟨left.take n, if decide (n < left.length) then
          (left.take n).getLast?.map (nextQuery n []) else none⟩ := by
      have hafter : leftAfter id (storeTags rows) last = left :=
        leftAfter_eq (storeTags_pairwise rows) last
      rw [tags, if_neg (by simp), pageOf, hparse]
      simp only [bind, Except.bind, pure, Except.pure, hafter]
      by_cases hlong : n < left.length
      · simp [hlong, hn]
      · simp [hlong, take_of_length_le (not_lt.1 hlong)]
    rw [hpage, Option.map_id, id_eq, ← hleft]
    refine .inr ⟨_, left.drop n, rfl, (take_append_drop n left).symm, ?_⟩
    have hnonempty : decide (n < left.length) = true → left.take n ≠ [] := by
      intro hlong
      have hlong := of_decide_eq_true hlong
      apply length_pos_iff.1
      rw [length_take]
      omega
    have hend : decide (n < left.length) = false → left.drop n = [] := by
      intro hshort
      exact drop_eq_nil_of_le (not_lt.1 (of_decide_eq_false hshort))
    rcases link_or_end (nextQuery n []) hnonempty hend with hnone | ⟨final, hnext, hfinal⟩
    · exact .inl hnone
    refine .inr ⟨_, final, hnext, hfinal, ?_⟩
    have hmem : final ∈ storeTags rows :=
      mem_of_mem_afterLast (mem_of_mem_take (mem_of_getLast? hfinal))
    exact Asks.next (by decide) (by decide) hparse hn (hgrammar final hmem) []

end Tags

section Referrers

variable {store : ReferrerStore Bytes} {rows : Option (List Row)} {digest : Digest}
  {all : List RefEntry}

theorem matchesFilter_congr {types others : List Text}
    (hsame : ∀ text, text ∈ types ↔ text ∈ others)
    (entry : RefEntry) : matchesFilter types entry = matchesFilter others entry := by
  have hempty : types = [] ↔ others = [] := by
    simp only [eq_nil_iff_forall_not_mem, hsame]
  rw [Bool.eq_iff_iff]
  simp [matchesFilter, hempty, hsame]

def matchingReferrers (all : List RefEntry) (types : List Text) : List ReferrerDescriptor :=
  (all.filter (matchesFilter types)).map RefEntry.desc

def AsksReferrers (types : List Text) (query : Query Text) (last : Option (ℕ ×ₗ ℕ)) : Prop :=
  Asks referrersPage referrersPage (fun last => (parseDigest last).isSome) digestRank query last ∧
    query.artifactType.length ≤ maxArtifactTypes ∧ ∀ text, text ∈ query.artifactType ↔ text ∈ types

theorem referrers_pager (types : List Text) (hall : referrersOf store rows digest = some all)
    (hdigest : parseDigest digest = some digest) :
    CursorPager (referrers store true rows digest) (fun desc => digestRank desc.digest)
      (matchingReferrers all types) (AsksReferrers types) (fun _ => False) where
  sorted := pairwise_map.2 ((referrersOf_pairwise hall).filter _)
  step := by
    rintro query _ ⟨⟨size, last, hparse, hsize, rfl⟩, htypes, hsame⟩
    set asked := query.artifactType.dedup with hasked
    have hfilter : matchesFilter asked = matchesFilter types := by
      funext entry
      exact matchesFilter_congr (fun text => by rw [hasked, mem_dedup, hsame]) entry
    set walk := (runUntil (visitReferrer asked size) ReferrersWalk.start
      (afterLast (fun entry => digestRank entry.desc.digest) all (last.map digestRank))).1
    have hpage : referrers store true rows digest query =
        .ok ⟨walk.manifests, if walk.more then walk.manifests.getLast?.map fun final =>
          nextQuery size (sortedTypes asked) final.digest else none⟩ := by
      rw [referrers, if_neg (by simp), hdigest]
      simp only [hparse, hall, bind, Except.bind, if_neg (not_lt.2 htypes), if_pos hsize,
        leftAfter_eq (referrersOf_pairwise hall)]
      rfl
    obtain ⟨taken, left, hsplit, htaken, hmore, hend⟩ := runUntil_visitReferrer asked hsize
      (afterLast (fun entry => digestRank entry.desc.digest) all (last.map digestRank))
      ReferrersWalk.start rfl
    have hentries : walk.manifests = taken := htaken
    have hnonempty : walk.more = true → walk.manifests ≠ [] := hentries ▸ hmore
    rw [← hentries, hfilter, ← afterLast_filter] at hsplit
    rw [hpage, matchingReferrers, afterLast_map]
    refine .inr ⟨_, left, rfl, hsplit, ?_⟩
    rcases link_or_end (fun final : ReferrerDescriptor =>
      nextQuery size (sortedTypes asked) final.digest) hnonempty
        hend with hnone | ⟨final, hnext, hfinal⟩
    · exact .inl hnone
    refine .inr ⟨_, final, hnext, hfinal, ?_⟩
    have hpart : final ∈ (afterLast (fun entry => digestRank entry.desc.digest)
        (all.filter (matchesFilter types)) (last.map digestRank)).map RefEntry.desc := by
      rw [hsplit]
      exact mem_append_left _ (mem_of_getLast? hfinal)
    obtain ⟨entry, hentry, rfl⟩ := mem_map.1 hpart
    have hparses := referrersOf_parses hall (mem_of_mem_filter (mem_of_mem_afterLast hentry))
    refine ⟨Asks.next le_rfl (by decide) hparse hsize hparses _, ?_, ?_⟩
    · -- the Link names each type once
      calc (sortedTypes asked).length = asked.length := length_insertionSort _ _
        _ ≤ query.artifactType.length := (dedup_sublist _).length_le
        _ ≤ maxArtifactTypes := htypes
    · intro text
      calc text ∈ sortedTypes asked ↔ text ∈ asked := mem_insertionSort _
        _ ↔ text ∈ query.artifactType := mem_dedup
        _ ↔ text ∈ types := hsame text

end Referrers

/-- A client that follows the Links of any first request gets the repositories it may
read, the tags, or the descriptors that match, in order and each once. -/
theorem pages_deliver_each_once :
    (∀ (withName : WithName) (tree : Tree) (authorize : Option Str → Bool) (query : Query Str)
        (n : ℕ), authorize none = true →
      parsePage query defaultPage maxPage (accepts withName) = .ok (n, none) → 0 < n →
      ∃ readable : List Str, readable.Pairwise (· < ·) ∧
        (∀ name, name ∈ readable ↔ Below withName tree [] name ∧ tree.isRepo name = true ∧
          authorize (some name) = true) ∧
        Delivers (catalog withName tree authorize) (· = .catalogCeiling) query readable) ∧
    (∀ (withTag : Str → Bool) (rows : List Row) (query : Query Str) (n : ℕ),
      (∀ row ∈ rows, ∀ tag, row.refName = some tag → parseTag withTag tag.toList = true) →
      parsePage query defaultPage maxPage (parseTag withTag) = .ok (n, none) → 0 < n →
      ∃ all : List Str, all.Pairwise (· < ·) ∧
        (∀ tag, tag ∈ all ↔ ∃ row ∈ rows, row.refName = some (String.ofList tag)) ∧
        Delivers (tags withTag true (some rows)) (fun _ => False) query all) ∧
    (∀ (Bytes : Type) (store : ReferrerStore Bytes) (rows : Option (List Row)) (subject : Digest)
        (all : List RefEntry) (query : Query Text) (n : ℕ),
      parseDigest subject = some subject → referrersOf store rows subject = some all →
      parsePage query referrersPage referrersPage (fun last => (parseDigest last).isSome) =
        .ok (n, none) → 0 < n → query.artifactType.length ≤ maxArtifactTypes →
      ∃ found : List ReferrerDescriptor,
        (found.Pairwise fun left right => digestRank left.digest < digestRank right.digest) ∧
        (∀ desc, desc ∈ found ↔ ∃ row body, Represents (rows.getD []) row ∧
          readManifestBlob store row = .ok body ∧ (entryOf store row body).subject = some subject ∧
          desc = (entryOf store row body).desc ∧
          (query.artifactType = [] ∨ desc.artifactType ∈ query.artifactType)) ∧
        Delivers (referrers store true rows subject) (fun _ => False) query found) := by
  refine ⟨?_, ?_, ?_⟩
  · intro withName tree authorize query n hallowed hparse hn
    have hpager : CursorPager (catalog withName tree authorize) _ _ _ _ := catalog_pager hallowed
    refine ⟨readableRepositories withName tree authorize, hpager.sorted, ?_,
      hpager.exact.delivers ⟨none, ⟨n, none, hparse, hn, rfl⟩, rfl⟩⟩
    intro name
    rw [readableRepositories, mem_filter, mem_repositories, and_assoc, Function.comp_apply]
  · intro withTag rows query n hgrammar hparse hn
    have htags : ∀ tag ∈ storeTags rows, parseTag withTag tag = true := by
      intro tag htag
      obtain ⟨row, hrow, hname⟩ := mem_storeTags.1 htag
      simpa using hgrammar row hrow _ hname
    have hpager := tags_pager htags
    exact ⟨storeTags rows, hpager.sorted, fun tag => mem_storeTags,
      hpager.exact.delivers ⟨none, ⟨n, none, hparse, hn, rfl⟩, rfl⟩⟩
  intro Bytes store rows subject all query n hsubject hall hparse hn htypes
  have hpager := referrers_pager query.artifactType hall hsubject
  refine ⟨matchingReferrers all query.artifactType, hpager.sorted, ?_,
    hpager.exact.delivers ⟨none, ⟨⟨n, none, hparse, hn, rfl⟩, htypes, fun _ => Iff.rfl⟩, rfl⟩⟩
  intro desc
  rw [matchingReferrers, mem_map]
  constructor
  · rintro ⟨entry, hentry, rfl⟩
    obtain ⟨hmem, hmatches⟩ := mem_filter.1 hentry
    obtain ⟨row, body, hrow, hread, rfl, hnamed⟩ := (mem_referrersOf hall entry).1 hmem
    exact ⟨row, body, hrow, hread, hnamed, rfl, by simpa [matchesFilter] using hmatches⟩
  · rintro ⟨row, body, hrow, hread, hnamed, rfl, hmatches⟩
    refine ⟨_, mem_filter.2 ⟨(mem_referrersOf hall _).2
      ⟨row, body, hrow, hread, rfl, hnamed⟩, ?_⟩, rfl⟩
    simpa [matchesFilter] using hmatches

/-! ## A client that asks for one entry at a time -/

def oneByOne {Cursor : Type} (types : List Text) : Query Cursor where
  n := some [['1']]
  last := none
  artifactType := types

def demoTree : Tree where
  subdirs := fun front => if front = [] then [['w', 'e', 'b'], ['a', 'p', 'p'], ['d', 'b']] else []
  isRepo := fun _ => true
  plain := by
    intro front base hbase
    split_ifs at hbase
    · revert base
      decide
    · cases hbase
  nodup := by
    intro front
    split_ifs
    · decide
    · exact nodup_nil

def demoAuthorize : Option Str → Bool := fun name => name != some ['d', 'b']

def demoRow (encoded : ℕ) (tag : String) : Row :=
  tagRow ⟨mediaTypeImageManifest, .sha256 encoded, encoded + 1⟩ tag

def demoTags : List Row := [demoRow 1 "v2", demoRow 0 "v1"]

def demoStore : ReferrerStore ℕ where
  codec :=
    { len := fun body => body + 1
      json := fun _ => some (.obj [(.subject, .obj [(.digest, .str (.sha256 7))])])
      tokens := fun _ => []
      sha256 := id
      sha512 := id
      sha256_injective := Function.injective_id
      sha512_injective := Function.injective_id
      artifactType := fun artifactType _ => artifactType }
  encodedSize := fun _ => some 100
  openBlob := fun digest =>
    match digest with
    | .sha256 encoded => .body encoded
    | _ => .missing

theorem demo_pages_deliver :
    (∃ readable : List Str, ['a', 'p', 'p'] ∈ readable ∧ ['d', 'b'] ∉ readable ∧
      Delivers (catalog demoWithName demoTree demoAuthorize) (· = .catalogCeiling) (oneByOne [])
        readable) ∧
    (∃ all : List Str, ['v', '1'] ∈ all ∧
      Delivers (tags (fun _ => true) true (some demoTags)) (fun _ => False) (oneByOne []) all) ∧
    (∃ found : List ReferrerDescriptor,
      (found.Pairwise fun left right => digestRank left.digest < digestRank right.digest) ∧
      (entryOf demoStore (demoRow 1 "v2") 1).desc ∈ found ∧
      Delivers (referrers demoStore true (some demoTags) (.sha256 7)) (fun _ => False)
        (oneByOne []) found) := by
  refine ⟨?_, ?_, ?_⟩
  · obtain ⟨readable, -, hmem, hdelivers⟩ := pages_deliver_each_once.1 demoWithName demoTree
      demoAuthorize (oneByOne []) 1 rfl rfl Nat.one_pos
    refine ⟨readable, (hmem _).2 ⟨?_, rfl, by decide⟩, ?_, hdelivers⟩
    · have hentry : ['a', 'p', 'p'] ∈ entries demoWithName demoTree [] := by decide
      exact Below.here hentry
    · intro hdenied
      exact absurd ((hmem _).1 hdenied).2.2 (by decide)
  · obtain ⟨all, -, hmem, hdelivers⟩ := pages_deliver_each_once.2.1 (fun _ => true) demoTags
      (oneByOne []) 1 (by decide) rfl Nat.one_pos
    exact ⟨all, (hmem _).2 ⟨_, mem_cons_of_mem _ mem_cons_self, rfl⟩, hdelivers⟩
  · obtain ⟨found, hsorted, hmem, hdelivers⟩ := pages_deliver_each_once.2.2 ℕ demoStore
      (some demoTags) (.sha256 7) _ (oneByOne []) 1 rfl rfl rfl Nat.one_pos (by decide)
    refine ⟨found, hsorted, (hmem _).2 ?_, hdelivers⟩
    exact ⟨demoRow 1 "v2", 1, rfl, rfl, rfl, rfl, .inl rfl⟩

end K3sm.Registry.Listing

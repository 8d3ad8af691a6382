import Mathlib

/-!
# Lexical paths

The slash-separated paths of a Unix system, cleaned, joined and compared without looking at a file
system.  A cleaned path is a flag that says whether it starts at the root of the file system and a
list of parts in normal form: no part is empty or a single dot, and double dots stand only at the
front of a path that is not rooted.
-/

namespace K3sm.Core.Filepath

open List

abbrev Str := List Char

instance : LawfulBEq Str := inferInstance

def dot : Str := ['.']

def dotDot : Str := ['.', '.']

def splitSlash (path : Str) : List Str := path.splitOn '/'

def joinSlash (parts : List Str) : Str := ['/'].intercalate parts

def isAbs (path : Str) : Bool := path.head? == some '/'

/-- A double dot in a path being cleaned, kept as a stack whose top is the last
part: it takes back the part before it, and there is nothing before the root. -/
def popPart (rooted : Bool) : List Str → List Str
  | [] => if rooted then [] else [dotDot]
  | top :: rest => if top = dotDot then dotDot :: top :: rest else rest

def pushPart (rooted : Bool) (stack : List Str) (part : Str) : List Str :=
  if part = [] ∨ part = dot then stack
  else if part = dotDot then popPart rooted stack
  else part :: stack

def parts (path : Str) : List Str :=
  ((splitSlash path).foldl (pushPart (isAbs path)) []).reverse

def render (rooted : Bool) (parts : List Str) : Str :=
  if rooted then '/' :: joinSlash parts
  else if parts = [] then dot
  else joinSlash parts

/-- `filepath.Clean`. -/
def clean (path : Str) : Str := render (isAbs path) (parts path)

/-- `filepath.Join`: empty elements are left out. -/
def join (elements : List Str) : Str :=
  match elements.filter (· ≠ []) with
  | [] => []
  | proper => clean (joinSlash proper)

/-- Two lists of parts without what they begin with in common. -/
def strip : List Str → List Str → List Str × List Str
  | left :: lefts, right :: rights =>
    if left = right then strip lefts rights else (left :: lefts, right :: rights)
  | lefts, rights => (lefts, rights)

/-- `filepath.Rel`. -/
def rel (base target : Str) : Option Str :=
  if isAbs base ≠ isAbs target then none
  else
    let (up, down) := strip (parts base) (parts target)
    if up.head? = some dotDot then none
    else some (render false (up.map (fun _ => dotDot) ++ down))

def within (root path : Str) : Bool :=
  match rel root path with
  | none => false
  | some way => !(way == dotDot || (dotDot ++ ['/']).isPrefixOf way || isAbs way)

structure Proper (part : Str) : Prop where
  nonempty : part ≠ []
  not_dot : part ≠ dot
  not_dotDot : part ≠ dotDot
  no_slash : '/' ∉ part

def Normal (rooted : Bool) (parts : List Str) : Prop :=
  ∃ ups rest, parts = List.replicate ups dotDot ++ rest ∧
    (rooted = true → ups = 0) ∧ ∀ part ∈ rest, Proper part

variable {rooted : Bool} {more names : List Str} {path base : Str}

theorem Normal.append {front back : List Str} (hfront : Normal rooted front)
    (hback : ∀ part ∈ back, Proper part) : Normal rooted (front ++ back) := by
  obtain ⟨ups, rest, rfl, hups, hrest⟩ := hfront
  refine ⟨ups, rest ++ back, by rw [append_assoc], hups, ?_⟩
  exact forall_mem_append.2 ⟨hrest, hback⟩

theorem Normal.part {parts : List Str} (hnormal : Normal rooted parts) :
    ∀ part ∈ parts, part ≠ [] ∧ part ≠ dot ∧ '/' ∉ part := by
  obtain ⟨ups, rest, rfl, -, hrest⟩ := hnormal
  intro part hpart
  rcases mem_append.1 hpart with hup | hmem
  · rw [eq_of_mem_replicate hup]
    decide
  · exact ⟨(hrest part hmem).nonempty, (hrest part hmem).not_dot, (hrest part hmem).no_slash⟩

theorem pushPart_proper {stack : List Str} {part : Str} (hpart : Proper part) :
    pushPart rooted stack part = part :: stack := by
  rw [pushPart, if_neg (not_or.2 ⟨hpart.nonempty, hpart.not_dot⟩), if_neg hpart.not_dotDot]

theorem foldl_pushPart_proper (hmore : ∀ part ∈ more, Proper part) (stack : List Str) :
    more.foldl (pushPart rooted) stack = more.reverse ++ stack := by
  induction more generalizing stack with
  | nil => rfl
  | cons part more ih =>
    rw [forall_mem_cons] at hmore
    rw [foldl_cons, pushPart_proper hmore.1, ih hmore.2]
    simp

theorem normal_pushPart {stack : List Str} {part : Str} (hslash : '/' ∉ part)
    (hstack : Normal rooted stack.reverse) :
    Normal rooted (pushPart rooted stack part).reverse := by
  by_cases hskip : part = [] ∨ part = dot
  · rw [pushPart, if_pos hskip]
    exact hstack
  by_cases hup : part = dotDot
  · obtain ⟨ups, rest, hparts, hups, hrest⟩ := hstack
    have hstack : stack = rest.reverse ++ List.replicate ups dotDot := by
      rw [← reverse_reverse stack, hparts, reverse_append, reverse_replicate]
    rw [pushPart, if_neg hskip, if_pos hup]
    rcases eq_nil_or_concat rest with rfl | ⟨front, last, rfl⟩
    · -- nothing to go back over: one more double dot, unless the path is rooted
      cases ups with
      | zero =>
        rw [hstack]
        cases rooted with
        | true => exact ⟨0, [], rfl, fun _ => rfl, nofun⟩
        | false => exact ⟨1, [], rfl, nofun, nofun⟩
      | succ ups =>
        have hrooted : rooted ≠ true := fun htrue => absurd (hups htrue) (Nat.succ_ne_zero ups)
        rw [hstack]
        simp only [reverse_nil, nil_append, replicate_succ, popPart, if_true]
        refine ⟨ups + 2, [], ?_, fun htrue => absurd htrue hrooted, nofun⟩
        rw [← replicate_succ, ← replicate_succ, reverse_replicate, append_nil]
    · have hlast := hrest last (by simp)
      rw [hstack, concat_eq_append, reverse_append, reverse_singleton,
        singleton_append, cons_append]
      simp only [popPart, hlast.not_dotDot, if_false]
      refine ⟨ups, front, by simp, hups, fun part hpart => hrest part (by simp [hpart])⟩
  · have hproper : Proper part := ⟨fun h => hskip (.inl h), fun h => hskip (.inr h), hup, hslash⟩
    rw [pushPart_proper hproper, reverse_cons]
    exact hstack.append (by simpa using hproper)

theorem not_mem_of_mem_splitOn {separator : Char} {text part : Str}
    (hpart : part ∈ text.splitOn separator) : separator ∉ part := by
  by_cases hmem : separator ∈ text
  · obtain ⟨front, back, rfl, hfront⟩ := eq_append_cons_of_mem hmem
    rw [splitOn_append_cons_self_of_not_mem hfront, mem_cons] at hpart
    rcases hpart with rfl | hback
    · exact hfront
    · exact not_mem_of_mem_splitOn hback
  · rw [splitOn_eq_singleton hmem, mem_singleton] at hpart
    rwa [hpart]
termination_by text.length

theorem mem_intercalate {parts : List Str} {char : Char}
    (hmem : char ∈ ['.'].intercalate parts) : char = '.' ∨ ∃ part ∈ parts, char ∈ part := by
  induction parts with
  | nil => simp [List.intercalate] at hmem
  | cons part parts ih =>
    cases parts with
    | nil => exact .inr ⟨part, mem_cons_self, by simpa [List.intercalate] using hmem⟩
    | cons next parts =>
      rw [intercalate_cons_cons, mem_append, mem_append] at hmem
      rcases hmem with (hpart | hdot) | hrest
      · exact .inr ⟨part, mem_cons_self, hpart⟩
      · exact .inl (mem_singleton.1 hdot)
      rcases ih hrest with hdot | ⟨other, hother, hchar⟩
      · exact .inl hdot
      · exact .inr ⟨other, mem_cons_of_mem _ hother, hchar⟩

theorem normal_parts (path : Str) : Normal (isAbs path) (parts path) := by
  have hgeneral : ∀ (rooted : Bool) (more stack : List Str), (∀ part ∈ more, '/' ∉ part) →
      Normal rooted stack.reverse → Normal rooted (more.foldl (pushPart rooted) stack).reverse := by
    intro rooted more
    induction more with
    | nil => exact fun stack _ hstack => hstack
    | cons part more ih =>
      intro stack hslash hstack
      rw [forall_mem_cons] at hslash
      exact ih _ hslash.2 (normal_pushPart hslash.1 hstack)
  exact hgeneral _ _ [] (fun _ => not_mem_of_mem_splitOn) ⟨0, [], rfl, fun _ => rfl, nofun⟩

theorem splitSlash_joinSlash (hslash : ∀ part ∈ names, '/' ∉ part) (hnonempty : names ≠ []) :
    splitSlash (joinSlash names) = names :=
  splitOn_intercalate '/' hslash hnonempty

theorem joinSlash_splitSlash (path : Str) : joinSlash (splitSlash path) = path :=
  intercalate_splitOn '/'

theorem splitSlash_ne_nil (path : Str) : splitSlash path ≠ [] := splitOn_ne_nil _ _

theorem splitSlash_append (front back : Str) :
    splitSlash (front ++ '/' :: back) = splitSlash front ++ splitSlash back :=
  splitOn_append_cons_self front back

theorem splitSlash_single {part : Str} (hslash : '/' ∉ part) : splitSlash part = [part] :=
  splitOn_eq_singleton hslash

theorem joinSlash_append (hnames : names ≠ []) (hmore : more ≠ []) :
    joinSlash (names ++ more) = joinSlash names ++ '/' :: joinSlash more := by
  induction names with
  | nil => exact absurd rfl hnames
  | cons first rest ih =>
    have hboth : rest ++ more ≠ [] := by simp [hmore]
    rw [joinSlash, cons_append, intercalate_cons_of_ne_nil hboth, ← joinSlash]
    cases rest with
    | nil => simp [joinSlash]
    | cons second rest =>
      have hsecond : second :: rest ≠ [] := by simp
      have hjoin : joinSlash (first :: second :: rest) =
          first ++ ['/'] ++ joinSlash (second :: rest) :=
        intercalate_cons_of_ne_nil hsecond
      rw [ih hsecond, hjoin, append_assoc _ _ ('/' :: _)]

theorem reverse_splitSlash {front word value : Str} (hword : '/' ∉ word) (hvalue : '/' ∉ value) :
    (splitSlash (front ++ '/' :: (word ++ '/' :: value))).reverse =
      value :: word :: (splitSlash front).reverse := by
  rw [splitSlash_append, splitSlash_append, splitSlash_single hword, splitSlash_single hvalue,
    reverse_append]
  rfl

theorem mem_joinSlash_of_mem {part : Str} {char : Char} (hpart : part ∈ names)
    (hchar : char ∈ part) :
    char ∈ joinSlash names := by
  induction names with
  | nil => cases hpart
  | cons first rest ih =>
    cases rest with
    | nil =>
      rw [mem_singleton.1 hpart] at hchar
      simpa [joinSlash, List.intercalate] using hchar
    | cons next rest =>
      rw [joinSlash, intercalate_cons_cons, mem_append, mem_append]
      rcases mem_cons.1 hpart with rfl | hrest
      · exact .inl (.inl hchar)
      · exact .inr (ih hrest)

theorem isAbs_render (hnormal : Normal rooted names) : isAbs (render rooted names) = rooted := by
  cases rooted with
  | true => rfl
  | false =>
    cases names with
    | nil => rfl
    | cons first rest =>
      obtain ⟨hnonempty, -, hslash⟩ := hnormal.part first mem_cons_self
      cases first with
      | nil => exact absurd rfl hnonempty
      | cons char chars =>
        have hchar : char ≠ '/' := fun heq => hslash (by simp [heq])
        cases rest <;> simp [render, joinSlash, isAbs, List.intercalate, hchar]

theorem foldl_pushPart_normal (hnormal : Normal rooted names) :
    names.foldl (pushPart rooted) [] = names.reverse := by
  obtain ⟨ups, rest, rfl, hups, hrest⟩ := hnormal
  have hfront : (List.replicate ups dotDot).foldl (pushPart rooted) [] =
      List.replicate ups dotDot := by
    cases rooted with
    | true => rw [hups rfl]; rfl
    | false =>
      clear hups
      induction ups with
      | zero => rfl
      | succ ups ih =>
        conv_lhs => rw [replicate_succ', foldl_append, ih]
        cases ups <;> rfl
  rw [foldl_append, hfront, foldl_pushPart_proper hrest, reverse_append, reverse_replicate]

theorem parts_render (hnormal : Normal rooted names) : parts (render rooted names) = names := by
  rw [parts, isAbs_render hnormal]
  have hslash : ∀ part ∈ names, '/' ∉ part := fun part hpart => (hnormal.part part hpart).2.2
  cases names with
  | nil => cases rooted <;> rfl
  | cons first rest =>
    have hsplit := splitSlash_joinSlash hslash (cons_ne_nil first rest)
    have hclean := foldl_pushPart_normal hnormal
    cases rooted with
    | true =>
      have hlead : splitSlash ('/' :: joinSlash (first :: rest)) = [] :: first :: rest := by
        rw [splitSlash, splitOn_cons_eq_if_modifyHead]
        simpa [splitSlash] using hsplit
      rw [render, if_pos rfl, hlead, foldl_cons]
      exact congrArg List.reverse hclean |>.trans (reverse_reverse _)
    | false =>
      rw [render, if_neg Bool.false_ne_true, if_neg (cons_ne_nil _ _), hsplit, hclean,
        reverse_reverse]

theorem isAbs_clean (path : Str) : isAbs (clean path) = isAbs path :=
  isAbs_render (normal_parts path)

theorem parts_clean (path : Str) : parts (clean path) = parts path :=
  parts_render (normal_parts path)

theorem render_injective {left right : List Str} (hleft : Normal rooted left)
    (hright : Normal rooted right) (heq : render rooted left = render rooted right) :
    left = right := by
  rw [← parts_render hleft, heq, parts_render hright]

theorem clean_ne_nil (path : Str) : clean path ≠ [] := by
  intro hnil
  have hparts := parts_clean path
  have hrooted := isAbs_clean path
  rw [hnil] at hparts hrooted
  -- an empty path has neither a root nor parts, and is not what such a path cleans to
  have hrender : clean path = render false [] := by
    rw [clean, ← hrooted, ← hparts]
    rfl
  rw [hnil] at hrender
  cases hrender

theorem join_proper (hbase : base ≠ []) (hmore : ∀ part ∈ more, Proper part) :
    join (base :: more) = render (isAbs base) (parts base ++ more) := by
  have hfilter : (base :: more).filter (· ≠ []) = base :: more := by
    apply filter_eq_self.2
    rw [forall_mem_cons]
    exact ⟨by simpa using hbase, fun part hpart => by simpa using (hmore part hpart).nonempty⟩
  have habs : isAbs (joinSlash (base :: more)) = isAbs base := by
    cases base with
    | nil => exact absurd rfl hbase
    | cons char chars => cases more <;> simp [joinSlash, isAbs, List.intercalate]
  have hsplit : splitSlash (joinSlash (base :: more)) = splitSlash base ++ more := by
    cases more with
    | nil => simp [joinSlash, List.intercalate]
    | cons first rest =>
      have hrest := splitSlash_joinSlash (fun part hpart => (hmore part hpart).no_slash)
        (cons_ne_nil first rest)
      rw [joinSlash, intercalate_cons_cons, append_assoc, singleton_append,
        splitSlash, splitOn_append_cons_self]
      exact congrArg _ hrest
  rw [join, hfilter]
  change clean (joinSlash (base :: more)) = _
  rw [clean, habs]
  congr 1
  rw [parts, habs, hsplit, foldl_append, foldl_pushPart_proper hmore, reverse_append,
    reverse_reverse]
  rfl

theorem normal_join (base : Str) (hmore : ∀ part ∈ more, Proper part) :
    Normal (isAbs base) (parts base ++ more) :=
  (normal_parts base).append hmore

section

variable (hbase : base ≠ []) (hmore : ∀ part ∈ more, Proper part)

include hbase hmore

theorem parts_join : parts (join (base :: more)) = parts base ++ more := by
  rw [join_proper hbase hmore, parts_render (normal_join base hmore)]

theorem isAbs_join : isAbs (join (base :: more)) = isAbs base := by
  rw [join_proper hbase hmore, isAbs_render (normal_join base hmore)]

theorem clean_join : clean (join (base :: more)) = join (base :: more) := by
  rw [clean, isAbs_join hbase hmore, parts_join hbase hmore, join_proper hbase hmore]

theorem join_ne_nil : join (base :: more) ≠ [] := by
  rw [← clean_join hbase hmore]
  exact clean_ne_nil _

theorem join_join {last : List Str} (hlast : ∀ part ∈ last, Proper part) :
    join (join (base :: more) :: last) = join (base :: (more ++ last)) := by
  have hboth : ∀ part ∈ more ++ last, Proper part := by
    exact forall_mem_append.2 ⟨hmore, hlast⟩
  rw [join_proper (join_ne_nil hbase hmore) hlast, join_proper hbase hboth,
    isAbs_join hbase hmore, parts_join hbase hmore, append_assoc]

end

/-! ## Relative paths -/

theorem strip_append (front back : List Str) : strip front (front ++ back) = ([], back) := by
  induction front with
  | nil => cases back <;> rfl
  | cons part front ih => rw [cons_append, strip, if_pos rfl, ih]

theorem strip_spec (lefts rights : List Str) : ∃ common,
    lefts = common ++ (strip lefts rights).1 ∧ rights = common ++ (strip lefts rights).2 := by
  induction lefts generalizing rights with
  | nil => cases rights <;> exact ⟨[], rfl, rfl⟩
  | cons left lefts ih =>
    cases rights with
    | nil => exact ⟨[], rfl, rfl⟩
    | cons right rights =>
      by_cases hsame : left = right
      · obtain ⟨common, hlefts, hrights⟩ := ih rights
        refine ⟨left :: common, ?_, ?_⟩
        · rw [strip, if_pos hsame, cons_append, ← hlefts]
        · rw [strip, if_pos hsame, cons_append, ← hrights, hsame]
      · rw [strip, if_neg hsame]
        exact ⟨[], rfl, rfl⟩

theorem rel_of_parts {target : Str} (habs : isAbs base = isAbs target)
    (hparts : parts target = parts base ++ more) : rel base target = some (render false more) := by
  rw [rel, if_neg (not_not.2 habs), hparts, strip_append]
  rfl

theorem leaves_of_dotDot (rest : List Str) :
    (render false (dotDot :: rest) == dotDot ||
      (dotDot ++ ['/']).isPrefixOf (render false (dotDot :: rest))) = true := by
  cases rest with
  | nil => rfl
  | cons next rest =>
    rw [render, if_neg Bool.false_ne_true, if_neg (cons_ne_nil _ _), joinSlash,
      intercalate_cons_cons, Bool.or_eq_true]
    exact .inr (List.isPrefixOf_iff_prefix.2 (prefix_append _ _))

theorem within_of_parts {root : Str} (habs : isAbs root = isAbs path)
    (hparts : parts path = parts root ++ more) (hmore : ∀ part ∈ more, Proper part) :
    within root path = true := by
  have hnormal : Normal false more := ⟨0, more, rfl, fun _ => rfl, hmore⟩
  rw [within, rel_of_parts habs hparts]
  simp only [isAbs_render hnormal, Bool.or_false, Bool.not_eq_true', Bool.or_eq_false_iff]
  -- both kinds of way out have a double dot for their first part
  have hfirst : ∀ rest, render false more ≠ render false (dotDot :: rest) ∨
      ¬ Normal false (dotDot :: rest) := by
    intro rest
    by_cases hrest : Normal false (dotDot :: rest)
    · left
      intro heq
      have hsame := render_injective hnormal hrest heq
      exact (hmore dotDot (by simp [hsame])).not_dotDot rfl
    · exact .inr hrest
  have hup : Normal false [dotDot] := ⟨1, [], rfl, nofun, nofun⟩
  constructor
  · rw [beq_eq_false_iff_ne]
    exact (hfirst []).resolve_right (not_not.2 hup)
  rw [Bool.eq_false_iff]
  intro hprefix
  obtain ⟨tail, htail⟩ := isPrefixOf_iff_prefix.1 hprefix
  have hsplit := congrArg splitSlash htail
  cases more with
  | nil => cases htail
  | cons first rest =>
    have hback := splitSlash_joinSlash (fun part hpart => (hmore part hpart).no_slash)
      (cons_ne_nil first rest)
    rw [render, if_neg Bool.false_ne_true, if_neg (cons_ne_nil _ _), hback,
      append_assoc, singleton_append, splitSlash,
      splitOn_append_cons_self_of_not_mem (by decide)] at hsplit
    exact (hmore first mem_cons_self).not_dotDot (List.cons.inj hsplit).1.symm

theorem parts_of_within {root : Str} (hwithin : within root path = true) :
    isAbs root = isAbs path ∧ parts root <+: parts path := by
  unfold within at hwithin
  split at hwithin
  · cases hwithin
  rename_i way hway
  unfold rel at hway
  split_ifs at hway with habs
  dsimp only at hway
  split_ifs at hway
  obtain ⟨common, hroot, hpath⟩ := strip_spec (parts root) (parts path)
  cases hup : (strip (parts root) (parts path)).1 with
  | nil =>
    rw [hup, append_nil] at hroot
    exact ⟨not_not.1 habs, by rw [hroot]; exact ⟨_, hpath.symm⟩⟩
  | cons up ups =>
    rw [hup, map_cons, cons_append, Option.some.injEq] at hway
    rw [← hway, leaves_of_dotDot, Bool.true_or] at hwithin
    cases hwithin

section Fold

variable {fold : Char → Char}

theorem joinSlash_map (hslash : fold '/' = '/') (names : List Str) :
    (joinSlash names).map fold = joinSlash (names.map (List.map fold)) := by
  induction names with
  | nil => rfl
  | cons first rest ih =>
    cases rest with
    | nil => simp [joinSlash, List.intercalate]
    | cons next rest =>
      rw [joinSlash, intercalate_cons_cons, map_append, map_append,
        map_singleton, hslash, map_cons, map_cons, joinSlash,
        intercalate_cons_cons]
      exact congrArg _ ih

theorem render_map (hslash : fold '/' = '/') (hdot : fold '.' = '.') (rooted : Bool)
    (names : List Str) :
    (render rooted names).map fold = render rooted (names.map (List.map fold)) := by
  unfold render
  split_ifs with hrooted hnil hmapped hmapped
  · rw [map_cons, hslash, joinSlash_map hslash]
  · simp [dot, hdot]
  · exact absurd (by rw [hnil]; rfl) hmapped
  · exact absurd (map_eq_nil_iff.1 hmapped) hnil
  · exact joinSlash_map hslash names

theorem Proper.map (hslash : ∀ char, fold char = '/' → char = '/')
    (hdot : ∀ char, fold char = '.' → char = '.') {part : Str} (hpart : Proper part) :
    Proper (part.map fold) := by
  have hkept : ∀ dots : Str, (∀ char ∈ dots, char = '.') → part.map fold = dots → part = dots := by
    intro dots hdots hmap
    have hsame : ∀ char ∈ part, fold char = id char := by
      intro char hchar
      have hfolded := hdots (fold char) (hmap ▸ mem_map_of_mem hchar)
      rw [hfolded, id, hdot char hfolded]
    rw [← hmap, map_congr_left hsame, map_id]
  constructor
  · simpa using hpart.nonempty
  · exact fun heq => hpart.not_dot (hkept dot (by simp [dot]) heq)
  · exact fun heq => hpart.not_dotDot (hkept dotDot (by simp [dotDot]) heq)
  intro hmem
  obtain ⟨char, hchar, hfolded⟩ := mem_map.1 hmem
  exact hpart.no_slash (hslash char hfolded ▸ hchar)

theorem map_parts_of_fold (hslash : ∀ char, fold char = '/' ↔ char = '/')
    (hdot : ∀ char, fold char = '.' ↔ char = '.') {base : Str} {left right : List Str}
    (hbase : base ≠ []) (hleft : ∀ part ∈ left, Proper part) (hright : ∀ part ∈ right, Proper part)
    (heq : (join (base :: left)).map fold = (join (base :: right)).map fold) :
    left.map (List.map fold) = right.map (List.map fold) := by
  have hfolded : ∀ more : List Str, (∀ part ∈ more, Proper part) →
      Normal (isAbs base) ((parts base ++ more).map (List.map fold)) := by
    intro more hmore
    obtain ⟨ups, rest, hparts, hups, hrest⟩ := normal_join base hmore
    refine ⟨ups, rest.map (List.map fold), ?_, hups, ?_⟩
    · rw [hparts, map_append, map_replicate]
      simp [dotDot, (hdot '.').2 rfl]
    · intro part hpart
      obtain ⟨before, hbefore, rfl⟩ := mem_map.1 hpart
      exact (hrest before hbefore).map (fun char => (hslash char).1) (fun char => (hdot char).1)
  rw [join_proper hbase hleft, join_proper hbase hright,
    render_map ((hslash '/').2 rfl) ((hdot '.').2 rfl),
    render_map ((hslash '/').2 rfl) ((hdot '.').2 rfl)] at heq
  have hparts := render_injective (hfolded left hleft) (hfolded right hright) heq
  rw [map_append, map_append] at hparts
  exact append_cancel_left hparts

end Fold

end K3sm.Core.Filepath

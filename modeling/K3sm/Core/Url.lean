import K3sm.Core.Text

/-!
# Percent escapes and query strings

The text of a URL is a byte string, a list of characters below 256.  A path is escaped
and unescaped byte by byte; a query is a list of pairs, sorted by key when it is written
and read in order.  What is written reads back as it was, whatever the bytes of the
values are.
-/

namespace K3sm.Core.Url

open K3sm.Core.Filepath (Str)

def hexDigit (value : ℕ) : Char := Char.ofNat (if value < 10 then 48 + value else 55 + value)

def hexValue (char : Char) : Option ℕ :=
  if '0' ≤ char ∧ char ≤ '9' then some (char.toNat - 48)
  else if 'A' ≤ char ∧ char ≤ 'F' then some (char.toNat - 55)
  else if 'a' ≤ char ∧ char ≤ 'f' then some (char.toNat - 87)
  else none

/-- `url.PathUnescape`, and `url.QueryUnescape` where a plus stands for a space. -/
def unescape (plus : Bool) : Str → Option Str
  | [] => some []
  | char :: rest =>
    if char = '%' then
      match rest with
      | high :: low :: rest => do
        let highValue ← hexValue high
        let lowValue ← hexValue low
        let text ← unescape plus rest
        return Char.ofNat (16 * highValue + lowValue) :: text
      | _ => none
    else do
      let text ← unescape plus rest
      return (if plus ∧ char = '+' then ' ' else char) :: text

/-- Letters, digits and the marks that no part of a URL escapes. -/
def unreserved (char : Char) : Bool :=
  char.isAlphanum || char == '-' || char == '_' || char == '.' || char == '~'

def percent (char : Char) : Str := ['%', hexDigit (char.toNat / 16), hexDigit (char.toNat % 16)]

def queryChar (char : Char) : Str :=
  if unreserved char then [char] else if char = ' ' then ['+'] else percent char

def queryEscape (text : Str) : Str := text.flatMap queryChar

def pathMarks : Str := ['$', '&', '+', ',', '/', ':', ';', '=', '@']

def pathChar (char : Char) : Str :=
  if unreserved char || pathMarks.contains char then [char] else percent char

def pathEscape (path : Str) : Str := path.flatMap pathChar

/-- Marks that may stand in a path as it was sent, though an escape would change them. -/
def sentMarks : Str := ['!', '\'', '(', ')', '*', '[', ']', '%']

/-- Whether a path that was sent is one way to escape what it says. -/
def validEncoded (sent : Str) : Bool :=
  sent.all fun char => unreserved char || pathMarks.contains char || sentMarks.contains char

def escapedPath (sent path : Str) : Str := if validEncoded sent then sent else pathEscape path

abbrev Pairs := List (Str × Str)

def renderPair (pair : Str × Str) : Str := queryEscape pair.1 ++ '=' :: queryEscape pair.2

def sortPairs (pairs : Pairs) : Pairs := pairs.insertionSort fun left right => left.1 ≤ right.1

/-- `Values.Encode`, each key with one value. -/
def encode (pairs : Pairs) : Str := ['&'].intercalate ((sortPairs pairs).map renderPair)

/-- One part of a query.  What does not parse is left out. -/
def parsePart (part : Str) : Option (Str × Str) :=
  if part.contains ';' ∨ part = [] then none
  else do
    let (key, value) := cut '=' part
    let key ← unescape true key
    let value ← unescape true (value.getD [])
    return (key, value)

/-- `URL.Query`. -/
def parse (query : Str) : Pairs := (query.splitOn '&').filterMap parsePart

def values (pairs : Pairs) (key : Str) : List Str :=
  (pairs.filter (·.1 == key)).map (·.2)

def Bytes (text : Str) : Prop := ∀ char ∈ text, char.toNat < 256

variable {char : Char} {pairs : Pairs} {text path : Str} {value : ℕ}

theorem hexValue_hexDigit (hvalue : value < 16) : hexValue (hexDigit value) = some value := by
  interval_cases value <;> rfl

theorem hexDigit_alphanum (hvalue : value < 16) : (hexDigit value).isAlphanum = true := by
  interval_cases value <;> rfl

theorem unreserved_hexDigit (hvalue : value < 16) : unreserved (hexDigit value) = true := by
  rw [unreserved, hexDigit_alphanum hvalue]
  rfl

theorem unreserved_ne {mark : Char} (hchar : unreserved char = true)
    (hmark : unreserved mark = false) : char ≠ mark := by
  intro heq
  rw [heq, hmark] at hchar
  cases hchar

theorem unescape_cons {plus : Bool} (hpercent : char ≠ '%') (rest : Str) :
    unescape plus (char :: rest) =
      (unescape plus rest).map ((if plus ∧ char = '+' then ' ' else char) :: ·) := by
  rw [unescape.eq_def]
  simp only [hpercent, if_false]
  cases unescape plus rest <;> rfl

theorem unescape_percent {plus : Bool} (hbyte : char.toNat < 256) (rest : Str) :
    unescape plus (percent char ++ rest) = (unescape plus rest).map (char :: ·) := by
  have hhigh : char.toNat / 16 < 16 := by omega
  have hlow : char.toNat % 16 < 16 := Nat.mod_lt _ (by norm_num)
  have hwhole : Char.ofNat (16 * (char.toNat / 16) + char.toNat % 16) = char := by
    rw [Nat.div_add_mod]
    exact Char.ofNat_toNat char
  rw [percent, List.cons_append, List.cons_append, List.cons_append, List.nil_append, unescape,
    if_pos rfl]
  simp only [hexValue_hexDigit hhigh, hexValue_hexDigit hlow, Option.bind_eq_bind,
    Option.bind_some, hwhole]
  cases unescape plus rest <;> rfl

theorem unescape_queryChar (hbyte : char.toNat < 256) (rest : Str) :
    unescape true (queryChar char ++ rest) = (unescape true rest).map (char :: ·) := by
  rw [queryChar]
  split
  · rename_i hchar
    rw [List.singleton_append, unescape_cons (unreserved_ne hchar rfl),
      if_neg fun hplus => unreserved_ne hchar rfl hplus.2]
  split
  · rename_i hspace
    rw [hspace, List.singleton_append, unescape_cons (by decide)]
    rfl
  · exact unescape_percent hbyte rest

theorem unescape_queryEscape (hbytes : Bytes text) :
    unescape true (queryEscape text) = some text := by
  induction text with
  | nil => rfl
  | cons char text ih =>
    rw [Bytes, List.forall_mem_cons] at hbytes
    rw [queryEscape, List.flatMap_cons, unescape_queryChar hbytes.1, ← queryEscape, ih hbytes.2]
    rfl

theorem mem_queryEscape (hbytes : Bytes text) (hchar : char ∈ queryEscape text) :
    unreserved char = true ∨ char = '+' ∨ char = '%' := by
  obtain ⟨origin, horigin, hmem⟩ := List.mem_flatMap.1 hchar
  have hbyte := hbytes origin horigin
  rw [queryChar] at hmem
  split at hmem
  · rename_i hunreserved
    rw [List.mem_singleton.1 hmem]
    exact .inl hunreserved
  split at hmem
  · exact .inr (.inl (List.mem_singleton.1 hmem))
  rw [percent, List.mem_cons, List.mem_cons, List.mem_singleton] at hmem
  rcases hmem with rfl | rfl | rfl
  · exact .inr (.inr rfl)
  · exact .inl (unreserved_hexDigit (by omega))
  · exact .inl (unreserved_hexDigit (by omega))

theorem not_mem_queryEscape (hbytes : Bytes text) {mark : Char} (hmark : unreserved mark = false)
    (hplus : mark ≠ '+') (hpercent : mark ≠ '%') : mark ∉ queryEscape text := by
  intro hmem
  rcases mem_queryEscape hbytes hmem with hunreserved | heq | heq
  · exact unreserved_ne hunreserved hmark rfl
  · exact hplus heq
  · exact hpercent heq

theorem parsePart_renderPair {pair : Str × Str} (hkey : Bytes pair.1) (hvalue : Bytes pair.2) :
    parsePart (renderPair pair) = some pair := by
  have hsemicolon : (renderPair pair).contains ';' = false := by
    rw [List.contains_eq_mem, decide_eq_false_iff_not, renderPair, List.mem_append, List.mem_cons]
    rintro (hmem | heq | hmem)
    · exact not_mem_queryEscape hkey rfl (by decide) (by decide) hmem
    · cases heq
    · exact not_mem_queryEscape hvalue rfl (by decide) (by decide) hmem
  have hnonempty : renderPair pair ≠ [] := by simp [renderPair]
  have hcut : cut '=' (renderPair pair) = (queryEscape pair.1, some (queryEscape pair.2)) :=
    cut_append (not_mem_queryEscape hkey rfl (by decide) (by decide)) _
  rw [parsePart, hsemicolon, if_neg (by simp [hnonempty]), hcut]
  simp only [Option.getD_some, unescape_queryEscape hkey, unescape_queryEscape hvalue]
  rfl

theorem parse_encode (hbytes : ∀ pair ∈ pairs, Bytes pair.1 ∧ Bytes pair.2) :
    parse (encode pairs) = sortPairs pairs := by
  have hsorted : ∀ pair ∈ sortPairs pairs, Bytes pair.1 ∧ Bytes pair.2 := by
    intro pair hpair
    exact hbytes pair ((List.mem_insertionSort _).1 hpair)
  rw [parse, encode]
  generalize sortPairs pairs = sorted at hsorted
  by_cases hempty : sorted = []
  · subst hempty
    rfl
  have hapart : ∀ part ∈ sorted.map renderPair, '&' ∉ part := by
    intro part hpart hmem
    obtain ⟨pair, hpair, rfl⟩ := List.mem_map.1 hpart
    rw [renderPair, List.mem_append, List.mem_cons] at hmem
    rcases hmem with hmem | heq | hmem
    · exact not_mem_queryEscape (hsorted pair hpair).1 rfl (by decide) (by decide) hmem
    · cases heq
    · exact not_mem_queryEscape (hsorted pair hpair).2 rfl (by decide) (by decide) hmem
  rw [List.splitOn_intercalate '&' hapart (by simpa using hempty), List.filterMap_map]
  calc sorted.filterMap (parsePart ∘ renderPair)
      = sorted.filterMap some := by
        apply List.filterMap_congr
        intro pair hpair
        exact parsePart_renderPair (hsorted pair hpair).1 (hsorted pair hpair).2
    _ = sorted := List.filterMap_some

theorem values_of_nodup (hkeys : (pairs.map (·.1)).Nodup) (key : Str) :
    values pairs key = (pairs.lookup key).toList := by
  induction pairs with
  | nil => rfl
  | cons pair pairs ih =>
    rw [List.map_cons, List.nodup_cons] at hkeys
    rw [values, List.filter_cons, List.lookup_cons]
    by_cases hkey : pair.1 = key
    · have hnone : pairs.filter (·.1 == key) = [] := by
        apply List.filter_eq_nil_iff.2
        intro other hother
        rw [beq_iff_eq]
        intro heq
        exact hkeys.1 (List.mem_map.2 ⟨other, hother, heq.trans hkey.symm⟩)
      rw [beq_iff_eq.2 hkey, if_pos rfl, hnone, beq_iff_eq.2 hkey.symm]
      rfl
    · rw [beq_eq_false_iff_ne.2 hkey, beq_eq_false_iff_ne.2 (Ne.symm hkey), if_neg (by simp)]
      exact ih hkeys.2

theorem values_encode (hbytes : ∀ pair ∈ pairs, Bytes pair.1 ∧ Bytes pair.2)
    (hkeys : (pairs.map (·.1)).Nodup) (key : Str) :
    values (parse (encode pairs)) key = (pairs.lookup key).toList := by
  have hperm : (sortPairs pairs).Perm pairs := List.perm_insertionSort _ _
  have hvalues : (values (sortPairs pairs) key).Perm (values pairs key) :=
    (hperm.filter _).map _
  rw [parse_encode hbytes]
  rw [values_of_nodup hkeys] at hvalues
  cases hlookup : pairs.lookup key with
  | none =>
    rw [hlookup] at hvalues
    exact hvalues.eq_nil
  | some value =>
    rw [hlookup] at hvalues
    exact List.perm_singleton.1 hvalues

/-! ## Paths with nothing to escape -/

def Plain (path : Str) : Prop := ∀ char ∈ path, unreserved char = true ∨ char = '/' ∨ char = ':'

theorem plain_iff :
    Plain path ↔ (path.all fun char => unreserved char || char == '/' || char == ':') = true := by
  simp only [Plain, List.all_eq_true, Bool.or_eq_true, beq_iff_eq, or_assoc]

theorem Plain.unescape (hplain : Plain path) : unescape false path = some path := by
  induction path with
  | nil => rfl
  | cons char path ih =>
    rw [Plain, List.forall_mem_cons] at hplain
    have hpercent : char ≠ '%' := by
      rcases hplain.1 with hunreserved | rfl | rfl
      · exact unreserved_ne hunreserved rfl
      · decide
      · decide
    rw [unescape_cons hpercent, ih hplain.2]
    rfl

theorem Plain.pathEscape (hplain : Plain path) : pathEscape path = path := by
  induction path with
  | nil => rfl
  | cons char path ih =>
    rw [Plain, List.forall_mem_cons] at hplain
    have hchar : pathChar char = [char] := by
      rcases hplain.1 with hunreserved | rfl | rfl
      · rw [pathChar, hunreserved]
        rfl
      · rfl
      · rfl
    rw [Url.pathEscape, List.flatMap_cons, hchar, ← Url.pathEscape, ih hplain.2]
    rfl

theorem Plain.validEncoded (hplain : Plain path) : validEncoded path = true := by
  rw [Url.validEncoded, List.all_eq_true]
  intro char hchar
  rcases hplain char hchar with hunreserved | rfl | rfl
  · rw [hunreserved]
    rfl
  · rfl
  · rfl

theorem Plain.append {front back : Str} (hfront : Plain front) (hback : Plain back) :
    Plain (front ++ back) := by
  exact List.forall_mem_append.2 ⟨hfront, hback⟩

end K3sm.Core.Url

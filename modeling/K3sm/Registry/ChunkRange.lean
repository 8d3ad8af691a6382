import K3sm.Core.Decimal
import K3sm.Core.Int64

/-!
# Content ranges of upload chunks

A chunk's Content-Range is two decimal numbers with a dash between them.  Arithmetic is that
of 64-bit signed integers: every operation leaves its exact result in a record beside what
the 64 bits make of it, so that it can be said that none of them comes round.
-/

namespace K3sm.Registry.ChunkRange

open K3sm.Core K3sm.Core.Decimal List

/-- A computation, and the exact results of its operations. -/
abbrev Machine := StateM (List ℤ)

def operation (exact : ℤ) : Machine ℤ := do
  modify (exact :: ·)
  pure (int64 exact)

theorem operation_bind {Result : Type} (exact : ℤ) (next : ℤ → Machine Result) (log : List ℤ) :
    (operation exact >>= next) log = next (int64 exact) (exact :: log) :=
  rfl

theorem machine_bind {First Result : Type} (first : Machine First) (next : First → Machine Result)
    (log : List ℤ) : (first >>= next) log = next (first log).1 (first log).2 :=
  rfl

def maxOffset : ℤ := 2 ^ 62
def maxRangeDigits : ℕ := 19
def maxRangeLen : ℕ := 2 * maxRangeDigits + 1

/-- The loop of `parseOffset`. -/
def offsetDigits (value : ℤ) : List UInt8 → Machine (Option ℤ)
  | [] => pure (some value)
  | byte :: rest =>
    if byte < 48 ∨ 57 < byte then pure none
    else do
      let digit : ℤ := (byte - 48).toNat
      let below ← operation (maxOffset - digit)
      let bound ← operation (below.tdiv 10)
      if bound < value then pure none
      else do
        let tenfold ← operation (value * 10)
        let value ← operation (tenfold + digit)
        offsetDigits value rest

def parseOffset (text : List UInt8) : Machine (Option ℤ) :=
  if text = [] ∨ maxRangeDigits < text.length ∨ 1 < text.length ∧ text.head? = some 48 then
    pure none
  else offsetDigits 0 text

/-- The loop that looks for the dash; none at a second one. -/
def scanDash : List UInt8 → ℕ → Option ℕ → Option (Option ℕ)
  | [], _, dash => some dash
  | byte :: rest, index, dash =>
    if byte = 45 then
      if dash.isSome then none else scanDash rest (index + 1) (some index)
    else scanDash rest (index + 1) dash

def parseChunkRange (text : List UInt8) : Machine (Option (ℤ × ℤ)) :=
  if text.length < 3 ∨ maxRangeLen < text.length then pure none
  else
    match scanDash text 0 none with
    | some (some dash) => do
      match ← parseOffset (text.take dash) with
      | none => pure none
      | some start =>
        match ← parseOffset (text.drop (dash + 1)) with
        | none => pure none
        | some finish => if finish < start then pure none else pure (some (start, finish))
    | _ => pure none

inductive ChunkError
  | malformed
  | noContentLength
  | lengthMismatch
  deriving DecidableEq

def chunkOffset (contentRange : List UInt8) (contentLength : ℤ) : Machine (Except ChunkError ℤ) :=
  if contentRange = [] then pure (.ok (-1))
  else do
    match ← parseChunkRange contentRange with
    | none => pure (.error .malformed)
    | some (start, finish) =>
      if contentLength < 0 then pure (.error .noContentLength)
      else do
        let span ← operation (finish - start)
        let length ← operation (span + 1)
        if length ≠ contentLength then pure (.error .lengthMismatch)
        else pure (.ok start)

section Offsets

variable {text : List UInt8} {byte : UInt8} {value : ℕ} {log : List ℤ}

theorem not_digit_iff : (byte < 48 ∨ 57 < byte) ↔ ¬ IsDigit byte := by
  unfold IsDigit
  rw [UInt8.lt_iff_toNat_lt, UInt8.lt_iff_toNat_lt]
  have hlow : (48 : UInt8).toNat = 48 := rfl
  have hhigh : (57 : UInt8).toNat = 57 := rfl
  omega

theorem toNat_sub_of_digit (hdigit : IsDigit byte) : (byte - 48).toNat = digit byte :=
  UInt8.toNat_sub_of_le _ _ (UInt8.le_iff_toNat_le.2 hdigit.1)

theorem offsetDigits_cons (hdigit : IsDigit byte) (hvalue : (value : ℤ) ≤ maxOffset) :
    offsetDigits value (byte :: text) log =
      if (maxOffset - digit byte) / 10 < value then
        (none, (maxOffset - digit byte) / 10 :: (maxOffset - digit byte) :: log)
      else
        offsetDigits (10 * value + digit byte : ℕ) text
          ((value * 10 + digit byte) :: (value * 10) :: (maxOffset - digit byte) / 10 ::
            (maxOffset - digit byte) :: log) := by
  have hnine := digit_le hdigit
  unfold maxOffset at hvalue ⊢
  have hbelow : int64 (2 ^ 62 - (digit byte : ℤ)) = 2 ^ 62 - digit byte :=
    int64_of_fits (by omega) (by omega)
  have hdiv : (2 ^ 62 - (digit byte : ℤ)).tdiv 10 = (2 ^ 62 - (digit byte : ℤ)) / 10 :=
    Int.tdiv_eq_ediv_of_nonneg (by omega)
  have hbound : int64 ((2 ^ 62 - (digit byte : ℤ)) / 10) = (2 ^ 62 - (digit byte : ℤ)) / 10 :=
    int64_of_fits (by omega) (by omega)
  rw [offsetDigits, if_neg (not_not.2 hdigit ∘ not_digit_iff.1), toNat_sub_of_digit hdigit]
  simp only [operation_bind, maxOffset, hbelow, hdiv, hbound]
  split
  case isTrue => rfl
  rename_i hguard
  have htenfold : int64 ((value : ℤ) * 10) = value * 10 := int64_of_fits (by omega) (by omega)
  have hsum : int64 ((value : ℤ) * 10 + digit byte) = (10 * value + digit byte : ℕ) := by
    rw [int64_of_fits (by omega) (by omega)]
    push_cast
    ring
  rw [operation_bind, operation_bind, htenfold, hsum]

theorem offsetDigits_not_digit (hdigit : ¬ IsDigit byte) :
    offsetDigits value (byte :: text) log = (none, log) := by
  rw [offsetDigits, if_pos (not_digit_iff.2 hdigit)]
  rfl

theorem offsetDigits_eq_some (hvalue : (value : ℤ) ≤ maxOffset) (result : ℤ) :
    (offsetDigits value text log).1 = some result ↔
      (∀ byte ∈ text, IsDigit byte) ∧ (numeralFrom value text : ℤ) ≤ maxOffset ∧
        result = numeralFrom value text := by
  induction text generalizing value log with
  | nil =>
    change some (value : ℤ) = some result ↔ _
    simp [hvalue, eq_comm]
  | cons byte text ih =>
    by_cases hdigit : IsDigit byte
    · rw [offsetDigits_cons hdigit hvalue, numeralFrom_cons, forall_mem_cons]
      have hgrows := le_numeralFrom (10 * value + digit byte) text
      split
      case isTrue hguard =>
        have hover : ¬ (numeralFrom (10 * value + digit byte) text : ℤ) ≤ maxOffset := by
          unfold maxOffset at hguard ⊢
          omega
        simp [hover]
      case isFalse hguard =>
        have hnext : ((10 * value + digit byte : ℕ) : ℤ) ≤ maxOffset := by
          unfold maxOffset at hguard ⊢
          omega
        rw [ih hnext]
        simp [hdigit]
    · rw [offsetDigits_not_digit hdigit, forall_mem_cons]
      simp [hdigit]

theorem offsetDigits_fits (hvalue : (value : ℤ) ≤ maxOffset) {exact : ℤ}
    (hexact : exact ∈ (offsetDigits value text log).2) : exact ∈ log ∨ FitsInt64 exact := by
  induction text generalizing value log with
  | nil => exact .inl hexact
  | cons byte text ih =>
    by_cases hdigit : IsDigit byte
    · have hnine := digit_le hdigit
      rw [offsetDigits_cons hdigit hvalue] at hexact
      unfold FitsInt64
      split at hexact
      case isTrue =>
        unfold maxOffset at hexact
        simp only [mem_cons] at hexact
        rcases hexact with rfl | rfl | hexact
        · omega
        · omega
        · exact .inl hexact
      rename_i hguard
      have hnext : ((10 * value + digit byte : ℕ) : ℤ) ≤ maxOffset := by
        unfold maxOffset at hguard ⊢
        omega
      rcases ih hnext hexact with hexact | hfits
      · unfold maxOffset at hexact hguard hvalue
        simp only [mem_cons] at hexact
        rcases hexact with rfl | rfl | rfl | rfl | hexact
        · omega
        · omega
        · omega
        · omega
        · exact .inl hexact
      · exact .inr hfits
    · rw [offsetDigits_not_digit hdigit] at hexact
      exact .inl hexact

theorem parseOffset_eq_some (result : ℤ) :
    (parseOffset text log).1 = some result ↔
      ∃ value : ℕ, result = value ∧ Canonical text value ∧ (value : ℤ) ≤ maxOffset := by
  unfold parseOffset
  split
  case isFalse haccepted =>
    have hzero : ((0 : ℕ) : ℤ) ≤ maxOffset := by decide
    refine (offsetDigits_eq_some hzero result).trans ?_
    constructor
    · rintro ⟨hdigits, hvalue, hresult⟩
      refine ⟨numeral text, hresult, ⟨?_, hdigits, ?_, rfl⟩, hvalue⟩
      · exact fun hempty => haccepted (.inl hempty)
      · exact fun hlong hhead => haccepted (.inr (.inr ⟨hlong, hhead⟩))
    · rintro ⟨value, hresult, hcanonical, hvalue⟩
      rw [← hcanonical.value] at hvalue hresult
      exact ⟨hcanonical.digits, hvalue, hresult⟩
  rename_i hrefused
  constructor
  · exact nofun
  rintro ⟨value, -, hcanonical, hvalue⟩
  have hlength : text.length ≤ maxRangeDigits := by
    apply hcanonical.length_le (by decide)
    unfold maxOffset at hvalue
    unfold maxRangeDigits
    omega
  rcases hrefused with hempty | hlong | hzero
  · exact absurd hempty hcanonical.nonempty
  · omega
  · exact absurd hzero.2 (hcanonical.leading hzero.1)

theorem parseOffset_fits {exact : ℤ} (hexact : exact ∈ (parseOffset text log).2) :
    exact ∈ log ∨ FitsInt64 exact := by
  unfold parseOffset at hexact
  split at hexact
  · exact .inl hexact
  · exact offsetDigits_fits (by decide : ((0 : ℕ) : ℤ) ≤ maxOffset) hexact

end Offsets

section Ranges

variable {text : List UInt8} {log : List ℤ}

def IsRange (text : List UInt8) (first last : ℕ) : Prop :=
  ∃ left right, text = left ++ 45 :: right ∧ Canonical left first ∧ Canonical right last ∧
    first ≤ last ∧ last ≤ 2 ^ 62

theorem scanDash_seen (index dash : ℕ) :
    scanDash text index (some dash) = if 45 ∈ text then none else some (some dash) := by
  induction text generalizing index with
  | nil => rfl
  | cons byte text ih =>
    unfold scanDash
    by_cases hdash : byte = 45
    · rw [if_pos hdash, hdash]
      simp
    · rw [if_neg hdash, ih]
      simp [Ne.symm hdash]

theorem scanDash_eq_some (index dash : ℕ) :
    scanDash text index none = some (some dash) ↔
      ∃ left right, text = left ++ 45 :: right ∧ 45 ∉ left ∧ 45 ∉ right ∧
        dash = index + left.length := by
  induction text generalizing index with
  | nil => simp [scanDash]
  | cons byte text ih =>
    unfold scanDash
    by_cases hdash : byte = 45
    · rw [if_pos hdash, if_neg (by simp), scanDash_seen, hdash]
      constructor
      · intro hfound
        split at hfound
        case isTrue => cases hfound
        rename_i hnone
        have hsame : index = dash := Option.some.inj (Option.some.inj hfound)
        exact ⟨[], text, rfl, nofun, hnone, hsame.symm⟩
      rintro ⟨left, right, htext, hleft, hright, hindex⟩
      cases left with
      | nil =>
        obtain ⟨-, rfl⟩ := List.cons.inj htext
        rw [if_neg hright, hindex]
        rfl
      | cons head left =>
        obtain ⟨rfl, -⟩ := List.cons.inj htext
        exact absurd mem_cons_self hleft
    rw [if_neg hdash, ih]
    constructor
    · rintro ⟨left, right, htext, hleft, hright, hindex⟩
      refine ⟨byte :: left, right, by rw [htext, cons_append], ?_, hright, ?_⟩
      · simpa [Ne.symm hdash] using hleft
      · rw [hindex, length_cons]
        omega
    rintro ⟨left, right, htext, hleft, hright, hindex⟩
    cases left with
    | nil => exact absurd (List.cons.inj htext).1 hdash
    | cons head left =>
      obtain ⟨rfl, hrest⟩ := List.cons.inj htext
      refine ⟨left, right, hrest, fun hmem => hleft (mem_cons_of_mem _ hmem), hright, ?_⟩
      rw [hindex, length_cons]
      omega

theorem canonical_no_dash {value : ℕ} (hcanonical : Canonical text value) : 45 ∉ text :=
  fun hdash => absurd (hcanonical.digits 45 hdash).1 (by decide)

theorem parseChunkRange_of_dash {left right : List UInt8} (htext : text = left ++ 45 :: right)
    (hleft : 45 ∉ left) (hright : 45 ∉ right)
    (hlong : ¬ (text.length < 3 ∨ maxRangeLen < text.length)) :
    parseChunkRange text log =
      match parseOffset left log with
      | (none, log) => (none, log)
      | (some start, log) =>
        match parseOffset right log with
        | (none, log) => (none, log)
        | (some finish, log) => (if finish < start then none else some (start, finish), log) := by
  have hdash : scanDash text 0 none = some (some left.length) :=
    (scanDash_eq_some 0 left.length).2 ⟨left, right, htext, hleft, hright, (Nat.zero_add _).symm⟩
  have htake : text.take left.length = left := by rw [htext, take_left]
  have hdrop : text.drop (left.length + 1) = right := by
    rw [htext, ← drop_drop, drop_left, drop_one, tail_cons]
  unfold parseChunkRange
  rw [if_neg hlong, hdash]
  dsimp only
  rw [htake, hdrop, machine_bind]
  rcases parseOffset left log with ⟨start, log⟩
  cases start with
  | none => rfl
  | some start =>
    dsimp only
    rw [machine_bind]
    rcases parseOffset right log with ⟨finish, log⟩
    cases finish with
    | none => rfl
    | some finish =>
      dsimp only
      split <;> rfl

theorem parseChunkRange_cases (text : List UInt8) (log : List ℤ) :
    (¬ ∃ first last, IsRange text first last) ∧ parseChunkRange text log = (none, log) ∨
      ∃ left right, text = left ++ 45 :: right ∧ 45 ∉ left ∧ 45 ∉ right ∧
        ¬ (text.length < 3 ∨ maxRangeLen < text.length) := by
  by_cases hlength : text.length < 3 ∨ maxRangeLen < text.length
  · refine .inl ⟨?_, by unfold parseChunkRange; rw [if_pos hlength]; rfl⟩
    rintro ⟨first, last, left, right, rfl, hleft, hright, hle, hlast⟩
    have hfirst : 0 < left.length := length_pos_iff.2 hleft.nonempty
    have hsecond : 0 < right.length := length_pos_iff.2 hright.nonempty
    have hleftLength : left.length ≤ 19 := hleft.length_le (by decide) (by omega)
    have hrightLength : right.length ≤ 19 := hright.length_le (by decide) (by omega)
    rw [length_append, length_cons] at hlength
    unfold maxRangeLen maxRangeDigits at hlength
    omega
  by_cases hsplit : ∃ left right, text = left ++ 45 :: right ∧ 45 ∉ left ∧ 45 ∉ right
  · obtain ⟨left, right, htext, hleft, hright⟩ := hsplit
    exact .inr ⟨left, right, htext, hleft, hright, hlength⟩
  refine .inl ⟨?_, ?_⟩
  · rintro ⟨first, last, left, right, htext, hleft, hright, -, -⟩
    exact hsplit ⟨left, right, htext, canonical_no_dash hleft, canonical_no_dash hright⟩
  · unfold parseChunkRange
    rw [if_neg hlength]
    rcases hscan : scanDash text 0 none with _ | _ | dash
    · rfl
    · rfl
    · obtain ⟨left, right, htext, hleft, hright, -⟩ := (scanDash_eq_some 0 dash).1 hscan
      exact absurd ⟨left, right, htext, hleft, hright⟩ hsplit

theorem isRange_of_dash {left right : List UInt8} (htext : text = left ++ 45 :: right)
    (hleft : 45 ∉ left) (hright : 45 ∉ right) {first last : ℕ} :
    IsRange text first last ↔
      Canonical left first ∧ Canonical right last ∧ first ≤ last ∧ last ≤ 2 ^ 62 := by
  constructor
  · rintro ⟨left', right', htext', hfirst, hlast, hbounds⟩
    have hsame := (scanDash_eq_some 0 left.length).2
      ⟨left, right, htext, hleft, hright, (Nat.zero_add _).symm⟩
    have hother := (scanDash_eq_some 0 left'.length).2
      ⟨left', right', htext', canonical_no_dash hfirst, canonical_no_dash hlast,
        (Nat.zero_add _).symm⟩
    have hlength : left.length = left'.length :=
      Option.some.inj (Option.some.inj (hsame.symm.trans hother))
    obtain ⟨rfl, hrest⟩ := append_inj (htext.symm.trans htext') hlength
    obtain ⟨-, rfl⟩ := List.cons.inj hrest
    exact ⟨hfirst, hlast, hbounds⟩
  · rintro ⟨hfirst, hlast, hbounds⟩
    exact ⟨left, right, htext, hfirst, hlast, hbounds⟩

theorem parseChunkRange_eq_some (start finish : ℤ) :
    (parseChunkRange text log).1 = some (start, finish) ↔
      ∃ first last : ℕ, start = first ∧ finish = last ∧ IsRange text first last := by
  rcases parseChunkRange_cases text log with
    ⟨hno, hnone⟩ | ⟨left, right, htext, hleft, hright, hlength⟩
  · rw [hnone]
    constructor
    · exact nofun
    · rintro ⟨first, last, -, -, hrange⟩
      exact absurd ⟨first, last, hrange⟩ hno
  rw [parseChunkRange_of_dash htext hleft hright hlength]
  simp only [isRange_of_dash htext hleft hright]
  have hfirst := fun result => @parseOffset_eq_some left log result
  rcases hoffset : parseOffset left log with ⟨_ | begin, later⟩
  · rw [hoffset] at hfirst
    constructor
    · exact nofun
    · rintro ⟨first, last, -, -, hcanonical, -, hle, hlast⟩
      exact absurd ((hfirst first).2 ⟨first, rfl, hcanonical, by unfold maxOffset; omega⟩) nofun
  rw [hoffset] at hfirst
  obtain ⟨first, rfl, hcanonical, -⟩ := (hfirst begin).1 rfl
  have hsecond := fun result => @parseOffset_eq_some right later result
  dsimp only
  rcases hoffset' : parseOffset right later with ⟨_ | ending, latest⟩
  · rw [hoffset'] at hsecond
    constructor
    · exact nofun
    · rintro ⟨first, last, -, -, -, hlast, -, hle⟩
      exact absurd ((hsecond last).2 ⟨last, rfl, hlast, by unfold maxOffset; omega⟩) nofun
  rw [hoffset'] at hsecond
  obtain ⟨last, rfl, hcanonical', hbound⟩ := (hsecond ending).1 rfl
  unfold maxOffset at hbound
  dsimp only
  constructor
  · intro hparsed
    split at hparsed
    case isTrue => cases hparsed
    rename_i hle
    obtain ⟨rfl, rfl⟩ := Prod.mk.inj (Option.some.inj hparsed)
    exact ⟨first, last, rfl, rfl, hcanonical, hcanonical', by omega, by omega⟩
  · rintro ⟨first', last', rfl, rfl, hother, hother', hle, -⟩
    obtain rfl : first = first' := hcanonical.value.symm.trans hother.value
    obtain rfl : last = last' := hcanonical'.value.symm.trans hother'.value
    rw [if_neg (by omega)]

theorem parseChunkRange_fits {exact : ℤ} (hexact : exact ∈ (parseChunkRange text log).2) :
    exact ∈ log ∨ FitsInt64 exact := by
  rcases parseChunkRange_cases text log with
    ⟨-, hnone⟩ | ⟨left, right, htext, hleft, hright, hlength⟩
  · rw [hnone] at hexact
    exact .inl hexact
  rw [parseChunkRange_of_dash htext hleft hright hlength] at hexact
  have hfirst := @parseOffset_fits left log exact
  rcases hoffset : parseOffset left log with ⟨_ | begin, later⟩
  · rw [hoffset] at hexact hfirst
    exact hfirst hexact
  · rw [hoffset] at hexact hfirst
    have hsecond := @parseOffset_fits right later exact
    rcases hoffset' : parseOffset right later with ⟨_ | ending, latest⟩
    · simp only [hoffset'] at hexact hsecond
      exact (hsecond hexact).elim hfirst .inr
    · simp only [hoffset'] at hexact hsecond
      exact (hsecond hexact).elim hfirst .inr

theorem IsRange.sums_fit {first last : ℕ} (hrange : IsRange text first last) :
    FitsInt64 (last - first) ∧ FitsInt64 ((last - first) + 1) ∧
      ∀ count : ℕ, (count : ℤ) ≤ last - first + 1 → FitsInt64 (first + count) := by
  obtain ⟨-, -, -, -, -, hle, hlast⟩ := hrange
  unfold FitsInt64
  refine ⟨by omega, by omega, fun count hcount => by omega⟩

theorem chunkOffset_fits {contentLength exact : ℤ}
    (hexact : exact ∈ (chunkOffset text contentLength log).2) : exact ∈ log ∨ FitsInt64 exact := by
  unfold chunkOffset at hexact
  split at hexact
  case isTrue => exact .inl hexact
  rw [machine_bind] at hexact
  have hparsed := @parseChunkRange_fits text log exact
  have hbounds := @parseChunkRange_eq_some text log
  rcases hrange : parseChunkRange text log with ⟨_ | ⟨start, finish⟩, later⟩
  · rw [hrange] at hexact hparsed
    exact hparsed hexact
  rw [hrange] at hexact hparsed hbounds
  obtain ⟨first, last, rfl, rfl, haccepted⟩ := (hbounds start finish).1 rfl
  obtain ⟨hspan, hlength, -⟩ := haccepted.sums_fit
  dsimp only at hexact
  split at hexact
  case isTrue => exact hparsed hexact
  rw [operation_bind, operation_bind, int64_of_fits hspan.1 hspan.2] at hexact
  have hmem : exact = (last : ℤ) - first + 1 ∨ exact = (last : ℤ) - first ∨ exact ∈ later := by
    split at hexact <;> simpa [pure, StateT.pure] using hexact
  rcases hmem with rfl | rfl | hlater
  · exact .inr hlength
  · exact .inr hspan
  · exact hparsed hlater

/-- `parseChunkRange` accepts exactly its grammar and returns the two bounds; none of its own
operations overflows, nor of those of `chunkOffset`, nor a later sum of an accepted range. -/
theorem chunk_ranges_exact (text : List UInt8) :
    (∀ start finish : ℤ, (parseChunkRange text []).1 = some (start, finish) ↔
      ∃ first last : ℕ, start = first ∧ finish = last ∧ IsRange text first last) ∧
    (∀ exact ∈ (parseChunkRange text []).2, FitsInt64 exact) ∧
    (∀ contentLength : ℤ, ∀ exact ∈ (chunkOffset text contentLength []).2, FitsInt64 exact) ∧
    ∀ start finish : ℤ, (parseChunkRange text []).1 = some (start, finish) →
      FitsInt64 (finish - start + 1) ∧
        ∀ count : ℕ, (count : ℤ) ≤ finish - start + 1 → FitsInt64 (start + count) := by
  refine ⟨parseChunkRange_eq_some, ?_, ?_, ?_⟩
  · intro exact hexact
    exact (parseChunkRange_fits hexact).resolve_left nofun
  · intro contentLength exact hexact
    exact (chunkOffset_fits hexact).resolve_left nofun
  · intro start finish hparsed
    obtain ⟨first, last, rfl, rfl, hrange⟩ := (parseChunkRange_eq_some start finish).1 hparsed
    obtain ⟨-, hlength, hoffsets⟩ := hrange.sums_fit
    exact ⟨hlength, hoffsets⟩

-- "7-4611686018427387904", the largest offset there is, and one beyond it
example : (parseChunkRange ([55, 45, 52, 54, 49, 49, 54, 56, 54, 48, 49, 56, 52, 50, 55, 51, 56, 55,
    57, 48, 52] : List UInt8) []).1 = some (7, 2 ^ 62) := by decide +kernel

example : (parseChunkRange ([55, 45, 52, 54, 49, 49, 54, 56, 54, 48, 49, 56, 52, 50, 55, 51, 56, 55,
    57, 48, 53] : List UInt8) []).1 = none := by decide +kernel

end Ranges

end K3sm.Registry.ChunkRange

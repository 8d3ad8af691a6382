import K3sm.Core.Filepath
import K3sm.Core.Interaction

/-!
# Node names and their passwords

The one canonical spelling of a node name, and the Secret that binds it to the hash of the first
password a join presents for it.  Names are texts of characters; a byte of 0x80 and above stands
in a character outside ASCII.  Which texts are DNS-1123 subdomains is apimachinery's to say and
a parameter here; bcrypt is taken as what it documents: a hash accepts the password it was made
of and no other.
-/

namespace K3sm.Bootstrap

open K3sm.Core.Filepath

inductive NodeNameError
  | nonAscii
  | control
  | empty
  | trailingDot
  | tooLong
  | notSubdomain
  deriving DecidableEq

def dns1123SubdomainMaxLength : ℕ := 253

def lowerAscii (char : Char) : Char :=
  if 'A' ≤ char ∧ char ≤ 'Z' then Char.ofNat (char.toNat + 32) else char

def trimSpaces (text : Str) : Str :=
  ((text.dropWhile (· == ' ')).reverse.dropWhile (· == ' ')).reverse

def refusedByte (char : Char) : Option NodeNameError :=
  if 0x80 ≤ char.toNat then some .nonAscii
  else if char.toNat < 0x20 ∨ char.toNat = 0x7f then some .control
  else none

section Names

variable (isDns1123Subdomain : Str → Bool)

/-- The spelling every name of one node is reduced to: ASCII only, without spaces around it and
in lowercase. -/
def canonicalNodeName (name : Str) : Except NodeNameError Str :=
  match name.findSome? refusedByte with
  | some refused => .error refused
  | none =>
    let canon := (trimSpaces name).map lowerAscii
    if canon = [] then .error .empty
    else if canon.getLast? = some '.' then .error .trailingDot
    else if dns1123SubdomainMaxLength < canon.length then .error .tooLong
    else if isDns1123Subdomain canon = false then .error .notSubdomain
    else .ok canon

/-- A name that is its own canonical form. -/
def Canonical (name : Str) : Prop := canonicalNodeName isDns1123Subdomain name = .ok name

end Names

theorem canonicalNodeName_ne_nil {isDns1123Subdomain : Str → Bool} {name canon : Str}
    (hcanon : canonicalNodeName isDns1123Subdomain name = .ok canon) : canon ≠ [] := by
  unfold canonicalNodeName at hcanon
  split at hcanon
  · cases hcanon
  dsimp only at hcanon
  split_ifs at hcanon with hempty
  obtain rfl := Except.ok.inj hcanon
  exact hempty

theorem Canonical.ne_nil {isDns1123Subdomain : Str → Bool} {name : Str}
    (hcanonical : Canonical isDns1123Subdomain name) : name ≠ [] :=
  canonicalNodeName_ne_nil hcanonical

def nodePasswordSecretSuffix : Str := ".node-password.k3sm".toList

/-- `MaxNodePasswordLength`, the input limit of bcrypt. -/
def maxNodePasswordLength : ℕ := 72

def selfNameClaimed (selfNodeName requested : Str) : Bool :=
  selfNodeName != [] && selfNodeName == requested

section Spelling

open List

variable {isDns1123Subdomain : Str → Bool} {name canon text : Str} {char : Char}

/-- What a subdomain is made of: lowercase letters, digits, dashes and dots. -/
def subdomainByte (char : Char) : Bool :=
  (decide ('a' ≤ char) && decide (char ≤ 'z')) || (decide ('0' ≤ char) && decide (char ≤ '9')) ||
    char == '-' || char == '.'

theorem toNat_of_subdomainByte (hchar : subdomainByte char = true) :
    45 ≤ char.toNat ∧ char.toNat < 127 ∧ ¬ (65 ≤ char.toNat ∧ char.toNat ≤ 90) := by
  simp only [subdomainByte, Bool.or_eq_true, Bool.and_eq_true, decide_eq_true_eq,
    beq_iff_eq] at hchar
  rcases hchar with (halnum | rfl) | rfl
  · change (97 ≤ char.toNat ∧ char.toNat ≤ 122) ∨ (48 ≤ char.toNat ∧ char.toNat ≤ 57) at halnum
    omega
  · decide
  · decide

theorem lower_of_subdomainByte (hchar : subdomainByte char = true) : lowerAscii char = char :=
  if_neg (toNat_of_subdomainByte hchar).2.2

/-- What becomes a byte of a subdomain is printable, and not a space. -/
theorem printable_of_lower (hchar : subdomainByte (lowerAscii char) = true) :
    refusedByte char = none ∧ char ≠ ' ' := by
  have hrange : 45 ≤ char.toNat ∧ char.toNat < 127 := by
    by_cases hletter : 65 ≤ char.toNat ∧ char.toNat ≤ 90
    · omega
    · have hself : lowerAscii char = char := if_neg hletter
      rw [hself] at hchar
      have hbounds := toNat_of_subdomainByte hchar
      exact ⟨hbounds.1, hbounds.2.1⟩
  refine ⟨?_, ?_⟩
  · rw [refusedByte, if_neg (by omega), if_neg (by omega)]
  · rintro rfl
    exact absurd hrange.1 (by decide)

/-- The tests of `canonicalNodeName` past the bytes, on the reduced form. -/
def formAccepted (isDns1123Subdomain : Str → Bool) (canon : Str) : Bool :=
  decide (canon ≠ []) && decide (canon.getLast? ≠ some '.') &&
    decide (canon.length ≤ dns1123SubdomainMaxLength) && isDns1123Subdomain canon

theorem canonicalNodeName_eq_ok : canonicalNodeName isDns1123Subdomain name = .ok canon ↔
    (∀ char ∈ name, refusedByte char = none) ∧ (trimSpaces name).map lowerAscii = canon ∧
      formAccepted isDns1123Subdomain canon = true := by
  rw [← findSome?_eq_none_iff]
  simp only [formAccepted, Bool.and_eq_true, decide_eq_true_eq]
  unfold canonicalNodeName
  constructor
  · intro hcanon
    split at hcanon
    case h_1 => cases hcanon
    rename_i hplain
    dsimp only at hcanon
    split_ifs at hcanon with hempty hdot hlong hname
    obtain rfl := Except.ok.inj hcanon
    exact ⟨hplain, rfl, ⟨⟨hempty, hdot⟩, not_lt.1 hlong⟩, by simpa using hname⟩
  · rintro ⟨hplain, rfl, ⟨⟨hempty, hdot⟩, hlength⟩, hname⟩
    simp only [hplain, hempty, hdot, hname, hlength.not_gt, if_false, Bool.true_eq_false]

theorem mem_dropSpaces (hchar : char ∈ text) (hne : char ≠ ' ') :
    char ∈ text.dropWhile (· == ' ') := by
  rw [← takeWhile_append_dropWhile (p := (· == ' ')) (l := text), mem_append] at hchar
  exact hchar.resolve_left fun hspace => hne (by simpa using mem_takeWhile_imp hspace)

theorem dropSpaces_self (htext : ' ' ∉ text) : text.dropWhile (· == ' ') = text := by
  cases text with
  | nil => rfl
  | cons char text => exact dropWhile_cons_of_neg (by simpa using fun h => htext (by simp [h]))

/-- An accepted name is its canonical form in some letter case with spaces around it, whatever
test of subdomains is used that takes lowercase letters, digits, dashes and dots only. -/
theorem node_names_reach_one_form (isDns1123Subdomain : Str → Bool)
    (hbytes : ∀ text, isDns1123Subdomain text = true → ∀ char ∈ text, subdomainByte char = true)
    (name canon : Str) :
    canonicalNodeName isDns1123Subdomain name = .ok canon ↔
      Canonical isDns1123Subdomain canon ∧ (trimSpaces name).map lowerAscii = canon := by
  rw [Canonical, canonicalNodeName_eq_ok, canonicalNodeName_eq_ok]
  have hform : formAccepted isDns1123Subdomain canon = true →
      ∀ char ∈ canon, subdomainByte char = true := by
    intro haccepted
    rw [formAccepted, Bool.and_eq_true] at haccepted
    exact hbytes canon haccepted.2
  constructor
  · rintro ⟨hplain, hcanon, hname⟩
    have hlower : ∀ char ∈ canon, lowerAscii char = char := fun char hchar =>
      lower_of_subdomainByte (hform hname char hchar)
    have hprintable : ∀ char ∈ canon, refusedByte char = none ∧ char ≠ ' ' := fun char hchar =>
      printable_of_lower (by rw [hlower char hchar]; exact hform hname char hchar)
    have hspace : ' ' ∉ canon := fun hspace => (hprintable _ hspace).2 rfl
    refine ⟨⟨fun char hchar => (hprintable char hchar).1, ?_, hname⟩, hcanon⟩
    rw [trimSpaces, dropSpaces_self hspace, dropSpaces_self (by simpa using hspace),
      reverse_reverse, map_congr_left hlower, map_id']
  · rintro ⟨⟨-, -, hname⟩, rfl⟩
    refine ⟨fun char hchar => ?_, rfl, hname⟩
    by_cases hspace : char = ' '
    · subst hspace
      decide
    · have hkept : char ∈ trimSpaces name := by
        rw [trimSpaces, mem_reverse]
        exact mem_dropSpaces (mem_reverse.2 (mem_dropSpaces hchar hspace)) hspace
      exact (printable_of_lower (hform hname _ (mem_map_of_mem hkept))).1

/-- Apimachinery's test as it is on names without a dot: one label, no dash at either end. -/
def oneLabel (name : Str) : Bool :=
  decide (name ≠ []) && decide (name.length ≤ dns1123SubdomainMaxLength) &&
    decide (name.head? ≠ some '-') && decide (name.getLast? ≠ some '-') &&
    name.all fun char => subdomainByte char && char != '.'

theorem subdomainByte_of_oneLabel (htext : oneLabel text = true) (hchar : char ∈ text) :
    subdomainByte char = true := by
  rw [oneLabel, Bool.and_eq_true, all_eq_true] at htext
  have hplain := htext.2 char hchar
  rw [Bool.and_eq_true] at hplain
  exact hplain.1

/-- `Node-B` between spaces is the node `node-b`. -/
theorem node_names_reach_one_form_node_b :
    canonicalNodeName oneLabel " Node-B ".toList = .ok "node-b".toList :=
  (node_names_reach_one_form oneLabel
    (fun text htext char hchar => subdomainByte_of_oneLabel htext hchar)
    " Node-B ".toList "node-b".toList).2 ⟨rfl, by decide⟩

end Spelling

open K3sm.Core

/-- Hashing of node passwords, with a salt for each. -/
structure Bcrypt where
  Hash : Type
  Salt : Type
  /-- Fails for a password beyond the input limit. -/
  generate : Str → Salt → Option Hash
  compare : Hash → Str → Bool
  compare_iff : ∀ password salt hash other, generate password salt = some hash →
    (compare hash other = true ↔ other = password)

inductive SecretRead (Hash : Type)
  | found (hash : Hash)
  | notFound
  | fault

inductive SecretCreate
  | created
  | alreadyExists
  | fault

inductive EnsureError
  | mismatch
  | unavailable
  deriving DecidableEq

def verifyBinding (bcrypt : Bcrypt) (password : Str) :
    SecretRead bcrypt.Hash → Except EnsureError Unit
  | .found hash => if bcrypt.compare hash password then .ok () else .error .mismatch
  | .notFound => .error .unavailable
  | .fault => .error .unavailable

/-- `secretNodePasswords.Ensure`, given the two calls of the datastore. -/
def ensure {M : Type → Type} [Monad M] (bcrypt : Bcrypt) (salt : bcrypt.Salt)
    (get : Str → M (SecretRead bcrypt.Hash)) (create : Str → bcrypt.Hash → M SecretCreate)
    (nodeName password : Str) : M (Except EnsureError Unit) :=
  if nodeName = [] ∨ password = [] then pure (.error .unavailable)
  else do
    match ← get (nodeName ++ nodePasswordSecretSuffix) with
    | .notFound =>
      match bcrypt.generate password salt with
      | none => pure (.error .unavailable)
      | some hash =>
        match ← create (nodeName ++ nodePasswordSecretSuffix) hash with
        | .created => pure (.ok ())
        | .fault => pure (.error .unavailable)
        | .alreadyExists =>
          -- Another server was first: verify against what it bound.
          let winner ← get (nodeName ++ nodePasswordSecretSuffix)
          pure (verifyBinding bcrypt password winner)
    | read => pure (verifyBinding bcrypt password read)

end K3sm.Bootstrap

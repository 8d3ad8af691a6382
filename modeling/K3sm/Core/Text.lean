import K3sm.Core.Filepath

/-!
# Cutting and trimming texts

What `strings` does with white space around a text, and with the two parts of a text around a
separator.
-/

namespace K3sm.Core

open K3sm.Core.Filepath List

/-- `unicode.IsSpace`. -/
def isSpace (char : Char) : Bool :=
  (9 ≤ char.toNat && char.toNat ≤ 13) || (0x2000 ≤ char.toNat && char.toNat ≤ 0x200a) ||
    char.toNat ∈ [0x20, 0x85, 0xa0, 0x1680, 0x2028, 0x2029, 0x202f, 0x205f, 0x3000]

/-- `strings.TrimSpace`. -/
def trimSpace (text : Str) : Str :=
  ((text.dropWhile isSpace).reverse.dropWhile isSpace).reverse

/-- `strings.TrimPrefix` by one character. -/
def trimStart (first : Char) : Str → Str
  | char :: rest => if char = first then rest else char :: rest
  | [] => []

/-- `strings.Cut`: what stands before the first separator, and what stands behind it. -/
def cut (separator : Char) (text : Str) : Str × Option Str :=
  (text.takeWhile (· != separator),
    match text.dropWhile (· != separator) with
    | [] => none
    | _ :: rest => some rest)

/-- The separator and what stands behind it. -/
def behind (separator : Char) : Option Str → Str
  | none => []
  | some text => separator :: text

variable {separator : Char} {front : Str}

theorem behind_cut (separator : Char) (text : Str) :
    (cut separator text).1 ++ behind separator (cut separator text).2 = text := by
  have hwhole := takeWhile_append_dropWhile (p := (· != separator)) (l := text)
  unfold cut
  cases hrest : text.dropWhile (· != separator) with
  | nil => simpa [hrest, behind] using hwhole
  | cons char rest =>
    have hseparator : char = separator := by
      have hhead := List.head?_dropWhile_not (· != separator) text
      rw [hrest] at hhead
      simpa using hhead
    subst hseparator
    simpa [hrest, behind] using hwhole

theorem cut_behind (hfront : separator ∉ front) (back : Option Str) :
    cut separator (front ++ behind separator back) = (front, back) := by
  have hall : ∀ char ∈ front, (char != separator) = true := by
    intro char hchar
    simpa using fun heq : char = separator => hfront (heq ▸ hchar)
  unfold cut
  rw [takeWhile_append_of_pos hall, dropWhile_append_of_pos hall]
  cases back <;> simp [behind]

theorem cut_append (hfront : separator ∉ front) (back : Str) :
    cut separator (front ++ separator :: back) = (front, some back) :=
  cut_behind hfront (some back)

theorem cut_of_not_mem (hfront : separator ∉ front) : cut separator front = (front, none) := by
  have hcut := cut_behind hfront none
  rwa [behind, append_nil] at hcut

end K3sm.Core

import Mathlib

/-!
# Lines of a text

A text is cut into lines by a mark that ends each of them.  The start of the last lines of a
text is told by what stands before it, a mark or nothing, and by the number of marks after it,
which is enough to determine it.
-/

namespace K3sm.Core.Lines

open List

variable {Symbol : Type*} [DecidableEq Symbol] {mark : Symbol}

/-- The lines of a text with their marks; what follows the last mark is a line without one. -/
def splitAfter (mark : Symbol) : List Symbol → List (List Symbol)
  | [] => []
  | symbol :: rest =>
    if symbol = mark then [symbol] :: splitAfter mark rest
    else
      match splitAfter mark rest with
      | [] => [[symbol]]
      | line :: lines => (symbol :: line) :: lines

theorem splitAfter_append {line : List Symbol} (hline : mark ∉ line) (rest : List Symbol) :
    splitAfter mark (line ++ mark :: rest) = (line ++ [mark]) :: splitAfter mark rest := by
  induction line with
  | nil => simp [splitAfter]
  | cons symbol line ih =>
    rw [mem_cons, not_or] at hline
    rw [cons_append, splitAfter, if_neg (Ne.symm hline.1), ih hline.2]
    rfl

def join (mark : Symbol) (lines : List (List Symbol)) : List Symbol :=
  lines.flatMap fun line => line ++ [mark]

omit [DecidableEq Symbol] in
theorem join_cons (line : List Symbol) (lines : List (List Symbol)) :
    join mark (line :: lines) = line ++ mark :: join mark lines := by
  simp [join]

omit [DecidableEq Symbol] in
theorem join_append (lines others : List (List Symbol)) :
    join mark (lines ++ others) = join mark lines ++ join mark others := by
  simp [join]

theorem splitAfter_join {lines : List (List Symbol)} (hlines : ∀ line ∈ lines, mark ∉ line) :
    splitAfter mark (join mark lines) = lines.map fun line => line ++ [mark] := by
  induction lines with
  | nil => rfl
  | cons line lines ih =>
    rw [join_cons, splitAfter_append (hlines line mem_cons_self),
      ih fun other hother => hlines other (mem_cons_of_mem _ hother), map_cons]

theorem count_join {lines : List (List Symbol)} (hlines : ∀ line ∈ lines, mark ∉ line) :
    (join mark lines).count mark = lines.length := by
  induction lines with
  | nil => rfl
  | cons line lines ih =>
    rw [join_cons, count_append, count_eq_zero.2 (hlines line mem_cons_self),
      count_cons_self, ih fun other hother => hlines other (mem_cons_of_mem _ hother),
      length_cons]
    omega

structure After (mark : Symbol) (text : List Symbol) (number offset : ℕ) : Prop where
  bound : offset ≤ text.length
  marked : ∃ front, text.take offset = front ++ [mark]
  count : (text.drop offset).count mark = number

/-- The start of the last lines of a text: just after the mark before them, or the start of the
text when it does not have more marks. -/
structure TailStart (mark : Symbol) (text : List Symbol) (number offset : ℕ) : Prop where
  few : text.count mark ≤ number → offset = 0
  many : number < text.count mark → After mark text number offset

theorem After.le {text : List Symbol} {number left right : ℕ} (hleft : After mark text number left)
    (hright : After mark text number right) : right ≤ left := by
  by_contra hlt
  have hbound := hright.bound
  obtain ⟨front, hfront⟩ := hright.marked
  -- the mark before `right` is among those after `left`
  have hsplit : text.drop left = (text.take right).drop left ++ text.drop right := by
    rw [← drop_append_of_le_length, take_append_drop]
    have hlength := congrArg List.length hfront
    rw [length_take, length_append, length_singleton] at hlength
    rw [length_take]
    omega
  have hlong : left ≤ front.length := by
    have hlength := congrArg List.length hfront
    rw [length_take, length_append, length_singleton] at hlength
    omega
  have hmark : 0 < ((text.take right).drop left).count mark := by
    rw [hfront, drop_append_of_le_length hlong, count_append, count_singleton_self]
    omega
  have hcount := hleft.count
  rw [hsplit, count_append, hright.count] at hcount
  omega

theorem TailStart.unique {text : List Symbol} {number left right : ℕ}
    (hleft : TailStart mark text number left) (hright : TailStart mark text number right) :
    left = right := by
  rcases Nat.lt_or_ge number (text.count mark) with hmany | hfew
  · exact Nat.le_antisymm ((hright.many hmany).le (hleft.many hmany))
      ((hleft.many hmany).le (hright.many hmany))
  · rw [hleft.few hfew, hright.few hfew]

theorem tailStart_join {lines : List (List Symbol)} (hlines : ∀ line ∈ lines, mark ∉ line)
    (number : ℕ) :
    TailStart mark (join mark lines) number
      (join mark (lines.take (lines.length - number))).length := by
  constructor
  · intro hfew
    rw [count_join hlines] at hfew
    rw [Nat.sub_eq_zero_of_le hfew]
    rfl
  intro hmany
  rw [count_join hlines] at hmany
  have hsplit : join mark lines = join mark (lines.take (lines.length - number)) ++
      join mark (lines.drop (lines.length - number)) := by
    rw [← join_append, take_append_drop]
  refine ⟨by rw [hsplit, length_append]; omega, ?_, ?_⟩
  · have hpos : lines.take (lines.length - number) ≠ [] := by
      intro hnil
      have hlength := congrArg List.length hnil
      rw [length_take, length_nil] at hlength
      omega
    rw [hsplit, take_left]
    refine ⟨join mark (lines.take (lines.length - number)).dropLast ++
      (lines.take (lines.length - number)).getLast hpos, ?_⟩
    conv_lhs => rw [← dropLast_append_getLast hpos]
    rw [join_append, join_cons]
    simp [join]
  · rw [hsplit, drop_left,
      count_join fun line hline => hlines line (mem_of_mem_drop hline), length_drop]
    omega

end K3sm.Core.Lines

import Mathlib

/-!
# The first element of each label

Elements of a list may carry a label.  Dropping the first element of every label of a set is
one pass over the list, and adding a label to the set is one more erasure from the result.
-/

namespace K3sm.Core

open List

variable {Value Label : Type*} {label : Value → Option Label} {labels : Finset Label}
  {values : List Value} {name : Label} {test view : Value → Bool}

theorem filter_eraseP_of_seen {first : Value} (hfirst : values.find? test = some first)
    (hseen : view first = true) :
    (values.eraseP test).filter view = (values.filter view).eraseP test := by
  induction values with
  | nil => cases hfirst
  | cons value values ih =>
    by_cases htest : test value = true
    · rw [List.find?_cons_of_pos htest] at hfirst
      cases hfirst
      rw [eraseP_cons_of_pos htest, filter_cons_of_pos hseen, eraseP_cons_of_pos htest]
    · rw [List.find?_cons_of_neg htest] at hfirst
      rw [eraseP_cons_of_neg htest]
      by_cases hview : view value = true
      · rw [filter_cons_of_pos hview, filter_cons_of_pos hview, eraseP_cons_of_neg htest, ih hfirst]
      · rw [filter_cons_of_neg hview, filter_cons_of_neg hview, ih hfirst]

theorem filter_eraseP_of_unseen
    (hunseen : ∀ first, values.find? test = some first → view first = false) :
    (values.eraseP test).filter view = values.filter view := by
  induction values with
  | nil => rfl
  | cons value values ih =>
    by_cases htest : test value = true
    · have hvalue := hunseen value (List.find?_cons_of_pos htest)
      rw [eraseP_cons_of_pos htest, filter_cons_of_neg (by simp [hvalue])]
    · rw [List.find?_cons_of_neg htest] at hunseen
      rw [eraseP_cons_of_neg htest, filter_cons, filter_cons, ih hunseen]

variable [DecidableEq Label]

def dropFirsts (label : Value → Option Label) : Finset Label → List Value → List Value
  | _, [] => []
  | labels, value :: values =>
    match label value with
    | none => value :: dropFirsts label labels values
    | some name =>
      if name ∈ labels then dropFirsts label (labels.erase name) values
      else value :: dropFirsts label labels values

@[simp]
theorem dropFirsts_empty (values : List Value) : dropFirsts label ∅ values = values := by
  induction values with
  | nil => rfl
  | cons value values ih =>
    rw [dropFirsts]
    split
    · rw [ih]
    · rw [if_neg (Finset.notMem_empty _), ih]

theorem dropFirsts_insert (hnew : name ∉ labels) (values : List Value) :
    dropFirsts label (insert name labels) values =
      (dropFirsts label labels values).eraseP (label · == some name) := by
  induction values generalizing labels with
  | nil => rfl
  | cons value values ih =>
    cases hlabel : label value with
    | none => simp [dropFirsts, hlabel, ih hnew]
    | some other =>
      by_cases hsame : other = name
      · subst hsame
        simp [dropFirsts, hlabel, hnew, Finset.erase_insert hnew]
      · by_cases hmem : other ∈ labels
        · have herase : (insert name labels).erase other = insert name (labels.erase other) :=
            Finset.erase_insert_of_ne (Ne.symm hsame)
          have hfree : name ∉ labels.erase other := fun hin => hnew (Finset.mem_of_mem_erase hin)
          simp [dropFirsts, hlabel, hmem, herase, ih hfree]
        · simp [dropFirsts, hlabel, hmem, hsame, ih hnew]

theorem dropFirsts_sublist (labels : Finset Label) (values : List Value) :
    (dropFirsts label labels values).Sublist values := by
  induction values generalizing labels with
  | nil => exact List.Sublist.slnil
  | cons value values ih =>
    rw [dropFirsts]
    split
    · exact (ih labels).cons_cons value
    split
    · exact (ih _).cons value
    · exact (ih labels).cons_cons value

theorem find?_dropFirsts (hfree : name ∉ labels) (values : List Value) :
    (dropFirsts label labels values).find? (label · == some name) =
      values.find? (label · == some name) := by
  induction values generalizing labels with
  | nil => rfl
  | cons value values ih =>
    cases hlabel : label value with
    | none => simp [dropFirsts, hlabel, ih hfree]
    | some other =>
      by_cases hmem : other ∈ labels
      · have hne : other ≠ name := fun hsame => hfree (hsame ▸ hmem)
        have hstill : name ∉ labels.erase other := fun hin => hfree (Finset.mem_of_mem_erase hin)
        simp [dropFirsts, hlabel, hmem, hne, ih hstill]
      · simp [dropFirsts, hlabel, hmem, List.find?_cons, ih hfree]

end K3sm.Core

import K3sm.Core.Filepath

/-!
# Path templates

A template is a row of literal texts and variables.  A variable takes one character or
more of those it accepts, as many as leave a match for the rest.  What a match gives
fills the template to the text again, and a text that some values fill has a match.
-/

namespace K3sm.Core.Template

open K3sm.Core.Filepath (Str)

inductive Piece where
  | literal (text : Str)
  | placeholder (accepts : Char → Bool)

/-- The values of the variables, each as long as it can be, the first ones first. -/
def matchPieces : List Piece → Str → Option (List Str)
  | [], text => if text = [] then some [] else none
  | .literal front :: pieces, text =>
    if front.isPrefixOf text then matchPieces pieces (text.drop front.length) else none
  | .placeholder accepts :: pieces, text =>
    (List.range text.length).reverse.findSome? fun last =>
      if (text.take (last + 1)).all accepts then
        (matchPieces pieces (text.drop (last + 1))).map (text.take (last + 1) :: ·)
      else none

inductive Fills : List Piece → List Str → Str → Prop
  | nil : Fills [] [] []
  | literal {pieces : List Piece} {values : List Str} {text : Str} (front : Str)
      (rest : Fills pieces values text) : Fills (.literal front :: pieces) values (front ++ text)
  | placeholder {pieces : List Piece} {values : List Str} {text : Str} {accepts : Char → Bool}
      {value : Str} (hnonempty : value ≠ []) (haccepts : value.all accepts = true)
      (rest : Fills pieces values text) :
      Fills (.placeholder accepts :: pieces) (value :: values) (value ++ text)

variable {pieces : List Piece} {values : List Str} {text : Str}

theorem fills_of_match (hmatch : matchPieces pieces text = some values) :
    Fills pieces values text := by
  induction pieces generalizing text values with
  | nil =>
    rw [matchPieces] at hmatch
    split at hmatch
    · rename_i hempty
      cases hmatch
      rw [hempty]
      exact .nil
    · cases hmatch
  | cons piece pieces ih =>
    cases piece with
    | literal front =>
      rw [matchPieces] at hmatch
      split at hmatch
      · rename_i hfront
        obtain ⟨rest, rfl⟩ := List.isPrefixOf_iff_prefix.1 hfront
        rw [List.drop_left] at hmatch
        exact .literal front (ih hmatch)
      · cases hmatch
    | placeholder accepts =>
      rw [matchPieces] at hmatch
      obtain ⟨last, hlast, hvalue⟩ := List.exists_of_findSome?_eq_some hmatch
      rw [List.mem_reverse, List.mem_range] at hlast
      split at hvalue
      · rename_i haccepts
        obtain ⟨rest, hrest, rfl⟩ := Option.map_eq_some_iff.1 hvalue
        have hnonempty : text.take (last + 1) ≠ [] := by
          intro hempty
          have hlength := congrArg List.length hempty
          rw [List.length_take, List.length_nil] at hlength
          omega
        have hfills := Fills.placeholder hnonempty haccepts (ih hrest)
        rwa [List.take_append_drop] at hfills
      · cases hvalue

theorem Fills.matches (hfills : Fills pieces values text) :
    (matchPieces pieces text).isSome = true := by
  induction hfills with
  | nil => rfl
  | literal front rest ih =>
    rw [matchPieces, if_pos (List.isPrefixOf_iff_prefix.2 (List.prefix_append _ _)), List.drop_left]
    exact ih
  | @placeholder pieces values text accepts value hnonempty haccepts rest ih =>
    obtain ⟨values, hvalues⟩ := Option.isSome_iff_exists.1 ih
    have hpositive : 0 < value.length := List.length_pos_of_ne_nil hnonempty
    rw [matchPieces, List.findSome?_isSome_iff]
    refine ⟨value.length - 1, ?_, ?_⟩
    · rw [List.mem_reverse, List.mem_range, List.length_append]
      omega
    · rw [Nat.sub_add_cancel hpositive, List.take_left, List.drop_left, if_pos haccepts, hvalues]
      rfl

theorem Fills.match_eq (hfills : Fills pieces values text)
    (honly : ∀ other, Fills pieces other text → other = values) :
    matchPieces pieces text = some values := by
  obtain ⟨found, hfound⟩ := Option.isSome_iff_exists.1 hfills.matches
  rw [hfound, honly found (fills_of_match hfound)]

end K3sm.Core.Template

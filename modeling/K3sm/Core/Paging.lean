import Mathlib

/-!
# Following pages

A server answers a request with a page: some entries, and the request for the next page when there
may be more.  A client follows these until a page names no other.  What a request still has to
deliver is a list; a pager is exact when each page is a front part of that list, the last page is
all of it, and a page that names another is not empty and leaves the rest to it.
-/

namespace K3sm.Core

open List

variable {Request Entry Error : Type*}

structure Page (Entry Request : Type*) where
  entries : List Entry
  next : Option Request

/-- The pages a client got, and the error that ended them if one did. -/
structure Followed (Entry Request Error : Type*) where
  pages : List (Page Entry Request)
  error : Option Error

/-- Following the pages from a request; `none` when the client gives up before they
end. -/
def followPages (page : Request → Except Error (Page Entry Request)) :
    ℕ → Request → Option (Followed Entry Request Error)
  | 0, _ => none
  | fuel + 1, request =>
    match page request with
    | .error error => some ⟨[], some error⟩
    | .ok first =>
      match first.next with
      | none => some ⟨[first], none⟩
      | some next =>
        (followPages page fuel next).map fun rest => ⟨first :: rest.pages, rest.error⟩

structure ExactPager (page : Request → Except Error (Page Entry Request))
    (pending : Request → List Entry → Prop) (failure : Error → Prop) : Prop where
  fails : ∀ {request rest error}, pending request rest → page request = .error error → failure error
  last : ∀ {request rest answer}, pending request rest → page request = .ok answer →
    answer.next = none → answer.entries = rest
  more : ∀ {request rest answer next}, pending request rest → page request = .ok answer →
    answer.next = some next → answer.entries ≠ [] ∧
      ∃ left, rest = answer.entries ++ left ∧ pending next left

/-- Following the pages from the request ends, delivers `wanted` unless a page fails,
and no page that names another is empty. -/
def Delivers (page : Request → Except Error (Page Entry Request)) (failure : Error → Prop)
    (request : Request) (wanted : List Entry) : Prop :=
  ∃ fuel followed, followPages page fuel request = some followed ∧
    (∀ answer ∈ followed.pages, answer.next.isSome = true → answer.entries ≠ []) ∧
    (∀ error, followed.error = some error → failure error) ∧
    (followed.error = none → followed.pages.flatMap Page.entries = wanted)

theorem ExactPager.delivers {page : Request → Except Error (Page Entry Request)}
    {pending : Request → List Entry → Prop} {failure : Error → Prop}
    (hexact : ExactPager page pending failure) {request : Request} {rest : List Entry}
    (hpending : pending request rest) : Delivers page failure request rest := by
  have hgeneral : ∀ (fuel : ℕ) (request : Request) (rest : List Entry), rest.length < fuel →
      pending request rest → ∃ followed, followPages page fuel request = some followed ∧
        (∀ answer ∈ followed.pages, answer.next.isSome = true → answer.entries ≠ []) ∧
        (∀ error, followed.error = some error → failure error) ∧
        (followed.error = none → followed.pages.flatMap Page.entries = rest) := by
    intro fuel
    induction fuel with
    | zero => intro request rest hlength; omega
    | succ fuel ih =>
      intro request rest hlength hpending
      rw [followPages]
      cases hpage : page request with
      | error error =>
        refine ⟨_, rfl, by simp, ?_, by simp⟩
        intro other hother
        rw [← Option.some.inj hother]
        exact hexact.fails hpending hpage
      | ok first =>
        cases hnext : first.next with
        | none =>
          refine ⟨⟨[first], none⟩, by simp [hnext], by simp [hnext], by simp, ?_⟩
          intro _
          simpa using hexact.last hpending hpage hnext
        | some next =>
          obtain ⟨hnonempty, left, rfl, hleft⟩ := hexact.more hpending hpage hnext
          have hshorter : left.length < fuel := by
            have hpositive := length_pos_iff.2 hnonempty
            rw [length_append] at hlength
            omega
          obtain ⟨followed, hfollowed, hlinks, herrors, hall⟩ := ih next left hshorter hleft
          refine ⟨⟨first :: followed.pages, followed.error⟩, by simp [hnext, hfollowed],
            ?_, herrors, ?_⟩
          · exact forall_mem_cons.2 ⟨fun _ => hnonempty, hlinks⟩
          · intro hnone
            rw [flatMap_cons, hall hnone]
  exact ⟨_, hgeneral _ request rest (Nat.lt_succ_self _) hpending⟩

variable {State Value : Type*}

/-- Calls the callback on each value in turn until it says to stop, and says whether
it went through. -/
def runUntil (callback : State → Value → State × Bool) : State → List Value → State × Bool
  | state, [] => (state, true)
  | state, value :: values =>
    match callback state value with
    | (next, true) => runUntil callback next values
    | (next, false) => (next, false)

theorem runUntil_append (callback : State → Value → State × Bool) (state : State)
    (front back : List Value) :
    runUntil callback state (front ++ back) =
      match runUntil callback state front with
      | (next, true) => runUntil callback next back
      | (next, false) => (next, false) := by
  induction front generalizing state with
  | nil => rfl
  | cons value front ih =>
    rw [cons_append, runUntil, runUntil]
    rcases callback state value with ⟨next, _ | _⟩
    · rfl
    · exact ih next

theorem runUntil_flatMap {Outer : Type*} {callback : State → Value → State × Bool}
    {round : State → Outer → State × Bool} {values : Outer → List Value}
    (hround : ∀ state outer, round state outer = runUntil callback state (values outer))
    (state : State) (outers : List Outer) :
    runUntil round state outers = runUntil callback state (outers.flatMap values) := by
  induction outers generalizing state with
  | nil => rfl
  | cons outer outers ih =>
    rw [flatMap_cons, runUntil_append, runUntil, hround]
    rcases runUntil callback state (values outer) with ⟨next, _ | _⟩
    · rfl
    · exact ih next

section Order

variable {Key : Type*} [LinearOrder Key]

variable {key : Entry → Key} {wanted : List Entry}

theorem filter_gt_of_pairwise {front back : List Entry} {last : Entry}
    (hsorted : (front ++ last :: back).Pairwise fun left right => key left < key right) :
    (front ++ last :: back).filter (fun entry => key last < key entry) = back := by
  rw [pairwise_append, pairwise_cons] at hsorted
  obtain ⟨-, ⟨hafter, -⟩, hbefore⟩ := hsorted
  rw [filter_append, filter_cons_of_neg (by simp)]
  have hfront : front.filter (fun entry => key last < key entry) = [] := by
    apply filter_eq_nil_iff.2
    intro entry hentry
    simpa using (hbefore entry hentry last mem_cons_self).le
  have hback : back.filter (fun entry => key last < key entry) = back := by
    apply filter_eq_self.2
    intro entry hentry
    simpa using hafter entry hentry
  rw [hfront, hback, nil_append]

theorem eq_of_pairwise_lt {left right : List Key} (hleft : left.Pairwise (· < ·))
    (hright : right.Pairwise (· < ·)) (hsame : ∀ key, key ∈ left ↔ key ∈ right) : left = right := by
  have hnodupLeft : left.Nodup := hleft.imp fun hlt => hlt.ne
  have hnodupRight : right.Nodup := hright.imp fun hlt => hlt.ne
  have hperm : left.Perm right := (perm_ext_iff_of_nodup hnodupLeft hnodupRight).2 hsame
  exact hperm.eq_of_pairwise (fun first second _ _ hlt hgt => absurd hlt hgt.asymm) hleft hright

def afterLast (key : Entry → Key) (wanted : List Entry) : Option Key → List Entry
  | none => wanted
  | some last => wanted.filter fun entry => last < key entry

theorem mem_of_mem_afterLast {last : Option Key} {entry : Entry}
    (hentry : entry ∈ afterLast key wanted last) : entry ∈ wanted := by
  cases last with
  | none => exact hentry
  | some last => exact mem_of_mem_filter hentry

theorem afterLast_filter (key : Entry → Key) (wanted : List Entry) (last : Option Key)
    (keeps : Entry → Bool) :
    afterLast key (wanted.filter keeps) last = (afterLast key wanted last).filter keeps := by
  cases last with
  | none => rfl
  | some last => rw [afterLast, afterLast, filter_comm]

theorem afterLast_map {Source : Type*} (key : Entry → Key) (convert : Source → Entry)
    (wanted : List Source) (last : Option Key) :
    afterLast key (wanted.map convert) last =
      (afterLast (fun source => key (convert source)) wanted last).map convert := by
  cases last with
  | none => rfl
  | some last =>
    rw [afterLast, afterLast, filter_map]
    rfl

theorem afterLast_final {front left : List Entry} {last : Option Key} {final : Entry}
    (hsorted : wanted.Pairwise fun left right => key left < key right)
    (hsplit : afterLast key wanted last = front ++ left) (hfinal : front.getLast? = some final) :
    afterLast key wanted (some (key final)) = left := by
  obtain ⟨before, rfl⟩ := List.getLast?_eq_some_iff.1 hfinal
  rw [append_assoc, singleton_append] at hsplit
  have hpart : (before ++ final :: left).Pairwise fun left right => key left < key right := by
    rw [← hsplit]
    cases last with
    | none => exact hsorted
    | some last => exact hsorted.filter _
  have hrest := filter_gt_of_pairwise hpart
  cases last with
  | none =>
    rw [← hsplit] at hrest
    exact hrest
  | some last =>
    -- the cursor moved on, so nothing after it was before the old one
    have hafter : last < key final := by
      have hmem : final ∈ afterLast key wanted (some last) := by
        rw [hsplit]
        simp
      simpa using (mem_filter.1 hmem).2
    rw [← hsplit, afterLast, filter_filter] at hrest
    rw [← hrest, afterLast]
    apply filter_congr
    intro entry _
    rw [Bool.eq_iff_iff]
    simp only [Bool.and_eq_true, decide_eq_true_eq]
    exact ⟨fun hlt => ⟨hlt, hafter.trans hlt⟩, And.left⟩

/-- A pager over a list in order whose Links carry the last entry of their page:
`asks request last` says that the request asks for what comes after `last`. -/
structure CursorPager (page : Request → Except Error (Page Entry Request)) (key : Entry → Key)
    (wanted : List Entry) (asks : Request → Option Key → Prop) (failure : Error → Prop) :
    Prop where
  sorted : wanted.Pairwise fun left right => key left < key right
  step : ∀ {request last}, asks request last →
    (∃ error, page request = .error error ∧ failure error) ∨
    ∃ answer left, page request = .ok answer ∧
      afterLast key wanted last = answer.entries ++ left ∧
      ((answer.next = none ∧ left = []) ∨
        ∃ next final, answer.next = some next ∧ answer.entries.getLast? = some final ∧
          asks next (some (key final)))

theorem CursorPager.exact {page : Request → Except Error (Page Entry Request)}
    {asks : Request → Option Key → Prop} {failure : Error → Prop}
    (hpager : CursorPager page key wanted asks failure) :
    ExactPager page (fun request rest => ∃ last, asks request last ∧
      rest = afterLast key wanted last) failure where
  fails := by
    rintro request rest error ⟨last, hasks, rfl⟩ hpage
    rcases hpager.step hasks with ⟨other, hother, hfailure⟩ | ⟨answer, left, hanswer, -⟩
    · rw [Except.error.inj (hpage.symm.trans hother)]
      exact hfailure
    · rw [hanswer] at hpage
      cases hpage
  last := by
    rintro request rest answer ⟨last, hasks, rfl⟩ hpage hnext
    rcases hpager.step hasks with ⟨other, hother, -⟩ | ⟨found, left, hfound, hsplit, hend⟩
    · rw [hother] at hpage
      cases hpage
    · rw [← Except.ok.inj (hpage.symm.trans hfound)] at hsplit hend
      rcases hend with ⟨-, rfl⟩ | ⟨next, final, hsome, -⟩
      · rw [hsplit, append_nil]
      · rw [hnext] at hsome
        cases hsome
  more := by
    rintro request rest answer next ⟨last, hasks, rfl⟩ hpage hnext
    rcases hpager.step hasks with ⟨other, hother, -⟩ | ⟨found, left, hfound, hsplit, hend⟩
    · rw [hother] at hpage
      cases hpage
    rw [← Except.ok.inj (hpage.symm.trans hfound)] at hsplit hend
    rcases hend with ⟨hnone, -⟩ | ⟨next', final, hsome, hfinal, hasks'⟩
    · rw [hnext] at hnone
      cases hnone
    · rw [Option.some.inj (hnext.symm.trans hsome)]
      refine ⟨?_, left, hsplit, some (key final), hasks', ?_⟩
      · rintro hempty
        rw [hempty] at hfinal
        cases hfinal
      · exact (afterLast_final hpager.sorted hsplit hfinal).symm

end Order

theorem link_or_end {entries left : List Entry} {more : Bool} (link : Entry → Request)
    (hmore : more = true → entries ≠ []) (hend : more = false → left = []) :
    ((if more then entries.getLast?.map link else none) = none ∧ left = []) ∨
      ∃ final, (if more then entries.getLast?.map link else none) = some (link final) ∧
        entries.getLast? = some final := by
  cases more with
  | false => exact .inl ⟨rfl, hend rfl⟩
  | true =>
    have hlast := List.getLast?_eq_some_getLast (hmore rfl)
    exact .inr ⟨_, by rw [if_pos rfl, hlast, Option.map_some], hlast⟩

end K3sm.Core

import K3sm.Netserve.Resolver

/-!
# Names under the cluster's zone

`parseClusterZoneName` looks for the last two dots of a host and counts the dots before them.
What it finds is what splitting the host at its dots gives.
-/

namespace K3sm.Netserve

open K3sm.Core.Filepath (Str)
open List

variable {text front back : Str}

theorem cutLastDot_of_not_mem (hnone : '.' ∉ text) : cutLastDot text = none := if_neg hnone

theorem cutLastDot_append (hback : '.' ∉ back) :
    cutLastDot (front ++ '.' :: back) = some (front, back) := by
  have hafter : (front ++ '.' :: back).reverse.takeWhile (· ≠ '.') = back.reverse := by
    have hplain : ∀ char ∈ back.reverse, decide (char ≠ '.') = true := by
      intro char hchar
      refine decide_eq_true ?_
      rintro rfl
      exact hback (mem_reverse.1 hchar)
    rw [reverse_append, reverse_cons, append_assoc, takeWhile_append_of_pos hplain]
    simp
  rw [cutLastDot, if_pos (by simp), hafter, reverse_reverse]
  have hlength : (front ++ '.' :: back).length - back.length - 1 = front.length := by
    simp only [length_append, length_cons]
    omega
  simp only [hlength, take_left]

theorem exists_last_dot (hdot : '.' ∈ text) :
    ∃ front back, text = front ++ '.' :: back ∧ '.' ∉ back := by
  obtain ⟨back, front, hsplit, hback⟩ := eq_append_cons_of_mem (mem_reverse.2 hdot)
  refine ⟨front.reverse, back.reverse, ?_, fun hmem => hback (mem_reverse.1 hmem)⟩
  rw [← reverse_reverse text, hsplit]
  simp

theorem length_splitOn (text : Str) : (text.splitOn '.').length = text.count '.' + 1 := by
  induction text with
  | nil => rfl
  | cons char text ih =>
    rw [splitOn_cons_eq_if_modifyHead]
    split_ifs with hdot <;> simp_all

theorem dots_infix_append (hfront : '.' ∉ front) : ['.', '.'] <:+: front ++ '.' :: back ↔
    back.head? = some '.' ∨ ['.', '.'] <:+: back := by
  induction front with
  | nil =>
    rw [nil_append, infix_cons_iff]
    cases back with
    | nil => simp
    | cons char back => simp [@eq_comm _ '.']
  | cons char front ih =>
    rw [mem_cons, not_or] at hfront
    rw [cons_append, infix_cons_iff, ih hfront.2, or_iff_right]
    rintro ⟨rest, hrest⟩
    exact hfront.1 (cons.inj hrest).1

/-- An empty label shows as a dot at an end or as two dots in a row. -/
theorem nil_mem_splitOn_iff (text : Str) : [] ∈ text.splitOn '.' ↔ text = [] ∨
    text.head? = some '.' ∨ text.getLast? = some '.' ∨ ['.', '.'] <:+: text := by
  by_cases hdot : '.' ∈ text
  · obtain ⟨front, back, rfl, hfront⟩ := eq_append_cons_of_mem hdot
    have hhead : (front ++ '.' :: back).head? = some '.' ↔ front = [] := by
      cases front with
      | nil => simp
      | cons char front =>
        rw [mem_cons, not_or] at hfront
        simpa [@eq_comm _ char] using hfront.1
    have hlast : (front ++ '.' :: back).getLast? = some '.' ↔
        back = [] ∨ back.getLast? = some '.' := by
      cases back with
      | nil => simp
      | cons char back => simp
    rw [splitOn_append_cons_self_of_not_mem hfront, mem_cons, nil_mem_splitOn_iff back,
      dots_infix_append hfront, hhead, hlast, @eq_comm _ []]
    simp only [append_eq_nil_iff, reduceCtorEq, and_false, false_or]
    tauto
  · rw [splitOn_eq_singleton hdot, mem_singleton, @eq_comm _ []]
    refine (or_iff_left ?_).symm
    rintro (hhead | hlast | hdots)
    · exact hdot (mem_of_head? hhead)
    · exact hdot (mem_of_getLast? hlast)
    · exact hdot (hdots.subset mem_cons_self)
termination_by text.length

theorem splitOn_last (hback : '.' ∉ back) :
    (front ++ '.' :: back).splitOn '.' = front.splitOn '.' ++ [back] := by
  rw [splitOn_append_cons_self, splitOn_eq_singleton hback]

theorem append_pair_inj {ahead labels : List Str} {svc ns svc' ns' : Str} :
    ahead ++ [svc, ns] = labels ++ [svc'] ++ [ns'] ↔ ahead = labels ∧ svc = svc' ∧ ns = ns' := by
  rw [append_assoc]
  refine ⟨fun hsame => ?_, fun ⟨hahead, hsvc, hns⟩ => by rw [hahead, hsvc, hns]; rfl⟩
  obtain ⟨hahead, hpair⟩ := append_inj' hsame rfl
  simpa [hahead] using hpair

/-- A name of the zone is read back label by label, and no other name is one. -/
theorem zone_name_exact (qname domain : Str) (extraLabels : ℕ) (svc ns : Str) :
    parseClusterZoneName qname domain = some (extraLabels, svc, ns) ↔
      ∃ host ahead, qname = host ++ (svcLabel ++ '.' :: domain) ∧
        host.splitOn '.' = ahead ++ [svc, ns] ∧ [] ∉ host.splitOn '.' ∧
        extraLabels = ahead.length := by
  by_cases hsuffix : svcLabel ++ '.' :: domain <:+ qname
  case neg =>
    rw [parseClusterZoneName, cutSuffix, if_neg hsuffix]
    refine iff_of_false (by simp) ?_
    rintro ⟨host, -, rfl, -⟩
    exact hsuffix (suffix_append _ _)
  obtain ⟨host, rfl⟩ := hsuffix
  have hcut : cutSuffix (host ++ (svcLabel ++ '.' :: domain)) (svcLabel ++ '.' :: domain) =
      some host := by
    rw [cutSuffix, if_pos (suffix_append _ _), length_append, Nat.add_sub_cancel, take_left]
  simp only [parseClusterZoneName, hcut, ← nil_mem_splitOn_iff, append_left_inj,
    exists_and_left, exists_eq_left']
  by_cases hempty : [] ∈ host.splitOn '.'
  · simp [hempty]
  simp only [hempty, if_false, not_false_eq_true, true_and]
  by_cases hdot : '.' ∈ host
  case neg =>
    rw [cutLastDot_of_not_mem hdot, splitOn_eq_singleton hdot]
    refine iff_of_false (by simp) ?_
    rintro ⟨ahead, hlabels, -⟩
    simpa using congrArg length hlabels
  obtain ⟨rest, last, rfl, hlast⟩ := exists_last_dot hdot
  rw [cutLastDot_append hlast, splitOn_last hlast]
  by_cases hmore : '.' ∈ rest
  · obtain ⟨front, label, rfl, hlabel⟩ := exists_last_dot hmore
    rw [splitOn_last hlabel]
    simp only [cutLastDot_append hlabel, ← length_splitOn, @eq_comm _ (_ ++ [label] ++ _),
      append_pair_inj]
    aesop
  · have hlabels : ∀ ahead : List Str, [rest] ++ [last] = ahead ++ [svc, ns] ↔
        ahead = [] ∧ svc = rest ∧ ns = last := by
      intro ahead
      rw [eq_comm, ← append_pair_inj, nil_append]
    simp only [cutLastDot_of_not_mem hmore, splitOn_eq_singleton hmore, hlabels]
    aesop

end K3sm.Netserve

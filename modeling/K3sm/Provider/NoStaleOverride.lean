import K3sm.Provider.GuestOverrides

/-!
# No override outlives its guest

A gone pod is shielded in one of three ways: its release mark is on, its guest record is
gone, or the evicted mark of its track fences it.  Every step keeps one of them, or records a
guest, as long as the steps that take a shield away come where another stands.
-/

namespace K3sm.Provider

open K3sm.Core Multiset Finset

variable {node : GuestNode} {calls others : Multiset TransportCall} {call rest : TransportCall}
variable {pod other : ℕ}

def GuestNode.Uses (node : GuestNode) (pod address : ℕ) : Prop :=
  node.guest.lookup pod = some address ∨
    ∃ lease, node.feed.leases.lookup pod = some lease ∧ lease.published = address

def GuestNode.Shielded (node : GuestNode) (calls : Multiset TransportCall) (pod : ℕ) : Prop :=
  pod ∈ node.feed.releasing ∨ node.guest.lookup pod = none ∨ node.Fenced calls pod

structure GuestNode.Sound (node : GuestNode) (calls : Multiset TransportCall) : Prop where
  current : node.feed.Current
  distinct : ∀ pod other address, node.Uses pod address → node.Uses other address → pod = other
  torn : ∀ call ∈ calls, ∀ pod, call.pastTeardown pod = true → node.guest.lookup pod = none
  marked : ∀ track ∈ calls.filterMap TransportCall.evictsTrack, track ∈ node.evicted
  alone : (calls.filterMap TransportCall.evictsTrack).Nodup
  no_lease : ∀ pod ∈ node.gone, node.feed.leases.lookup pod = none
  shielded : ∀ pod ∈ node.gone, node.Shielded calls pod

structure TransportCall.Yields (node : GuestNode) (call rest : TransportCall) : Prop where
  quiet : ∀ pod track, node.track pod = some track → track ∈ node.evicted →
    call.mayInstall node pod = false → rest.mayInstall node pod = false
  torn : ∀ pod, rest.pastTeardown pod = true → node.guest.lookup pod = none
  evicts : rest.evictsTrack = none

theorem yields_of_harmless (hquiet : ∀ pod, rest.mayInstall node pod = false)
    (htorn : ∀ pod, rest.pastTeardown pod = false) (hevicts : rest.evictsTrack = none) :
    call.Yields node rest where
  quiet pod _ _ _ _ := hquiet pod
  torn pod hpast := by
    rw [htorn pod] at hpast
    cases hpast
  evicts := hevicts

theorem GuestNode.Fenced.yields (hfenced : node.Fenced (call ::ₘ others) pod)
    (hyields : call.Yields node rest) : node.Fenced (rest ::ₘ others) pod := by
  obtain ⟨hquiet, track, htrack, hmarked, halone⟩ := hfenced
  refine ⟨?_, track, htrack, hmarked, ?_⟩
  · intro any hany
    obtain rfl | hany := mem_cons.1 hany
    · exact hyields.quiet pod track htrack hmarked (hquiet call (mem_cons_self _ _))
    · exact hquiet any (mem_cons_of_mem hany)
  · intro any hany
    obtain rfl | hany := mem_cons.1 hany
    · rw [hyields.evicts]
      exact nofun
    · exact halone any (mem_cons_of_mem hany)

variable {track : ℕ}

theorem filterMap_evicting :
    (TransportCall.evicting pod track ::ₘ others).filterMap TransportCall.evictsTrack =
      track ::ₘ others.filterMap TransportCall.evictsTrack :=
  filterMap_cons_some TransportCall.evictsTrack _ _ rfl

theorem filterMap_evictsTrack_le (hevicts : rest.evictsTrack = none) :
    (rest ::ₘ others).filterMap TransportCall.evictsTrack ≤
      (call ::ₘ others).filterMap TransportCall.evictsTrack := by
  rw [filterMap_cons_none _ _ hevicts]
  exact filterMap_le_filterMap _ (le_cons_self _ _)

/-- A step that changes the feed alone.  A lease it adds is of a pod that is not gone, at its
record's address, and a mark it lifts is not the last shield of a gone pod. -/
theorem GuestNode.Sound.withFeed (hsound : node.Sound (call ::ₘ others)) {feed : TransportFeed}
    (hcurrent : feed.Current)
    (hleases : ∀ pod lease, feed.leases.lookup pod = some lease →
      node.feed.leases.lookup pod = some lease ∨
        pod ∉ node.gone ∧ node.guest.lookup pod = some lease.published)
    (hreleasing : ∀ pod ∈ node.gone, pod ∈ node.feed.releasing →
      pod ∈ feed.releasing ∨ node.guest.lookup pod = none ∨ node.Fenced (call ::ₘ others) pod)
    (hyields : call.Yields node rest) :
    GuestNode.Sound { node with feed := feed } (rest ::ₘ others) := by
  have huses : ∀ pod address, GuestNode.Uses { node with feed := feed } pod address →
      node.Uses pod address := by
    rintro pod address (hguest | ⟨lease, hlease, hpublished⟩)
    · exact .inl hguest
    obtain hheld | ⟨-, hguest⟩ := hleases pod lease hlease
    · exact .inr ⟨lease, hheld, hpublished⟩
    · exact .inl (hpublished ▸ hguest)
  constructor
  case current => exact hcurrent
  case distinct =>
    intro pod other address hpod hother
    exact hsound.distinct pod other address (huses _ _ hpod) (huses _ _ hother)
  case torn =>
    intro any hany pod hpast
    obtain rfl | hany := mem_cons.1 hany
    · exact hyields.torn pod hpast
    · exact hsound.torn any (mem_cons_of_mem hany) pod hpast
  case marked =>
    intro track htrack
    exact hsound.marked track (mem_of_le (filterMap_evictsTrack_le hyields.evicts) htrack)
  case alone =>
    exact nodup_of_le (filterMap_evictsTrack_le hyields.evicts) hsound.alone
  case no_lease =>
    intro pod hgone
    cases hlease : feed.leases.lookup pod with
    | none => rfl
    | some lease =>
      obtain hheld | ⟨hhere, -⟩ := hleases pod lease hlease
      · rw [hsound.no_lease pod hgone] at hheld
        cases hheld
      · exact absurd hgone hhere
  have hkeep : ∀ pod, node.Fenced (call ::ₘ others) pod →
      GuestNode.Shielded { node with feed := feed } (rest ::ₘ others) pod :=
    fun pod hfenced => .inr (.inr (hfenced.yields hyields))
  intro pod hgone
  obtain hmark | hguest | hfenced := hsound.shielded pod hgone
  · obtain hstill | hguest | hfenced := hreleasing pod hgone hmark
    · exact .inl hstill
    · exact .inr (.inl hguest)
    · exact hkeep pod hfenced
  · exact .inr (.inl hguest)
  · exact hkeep pod hfenced

theorem GuestNode.Sound.stay (hsound : node.Sound (call ::ₘ others))
    (hyields : call.Yields node rest) : node.Sound (rest ::ₘ others) :=
  hsound.withFeed hsound.current (fun _ _ hlease => .inl hlease) (fun _ _ hmark => .inl hmark)
    hyields

theorem GuestNode.Sound.goes (hsound : node.Sound calls)
    (hlease : node.feed.leases.lookup pod = none) (hshielded : node.Shielded calls pod) :
    GuestNode.Sound { node with gone := insert pod node.gone } calls := by
  obtain ⟨hcurrent, hdistinct, htorn, hmarked, halone, hnone, hshields⟩ := hsound
  refine ⟨hcurrent, hdistinct, htorn, hmarked, halone, ?_, ?_⟩
  · intro any hany
    obtain rfl | hany := mem_insert.1 hany
    · exact hlease
    · exact hnone any hany
  · intro any hany
    obtain rfl | hany := mem_insert.1 hany
    · exact hshielded
    · exact hshields any hany

theorem GuestNode.Sound.teardown (hsound : node.Sound calls) (pod : ℕ) :
    (node.teardown pod).Sound calls := by
  have hlookup : ∀ any address, (node.teardown pod).guest.lookup any = some address →
      node.guest.lookup any = some address := by
    intro any address haddress
    by_cases hany : any = pod
    · subst hany
      rw [GuestNode.teardown, AList.lookup_erase] at haddress
      cases haddress
    · rwa [GuestNode.teardown, AList.lookup_erase_ne hany] at haddress
  have hnone : ∀ any, node.guest.lookup any = none →
      (node.teardown pod).guest.lookup any = none := by
    intro any hany
    cases haddress : (node.teardown pod).guest.lookup any with
    | none => rfl
    | some address =>
      rw [hlookup any address haddress] at hany
      cases hany
  have huses : ∀ any address, (node.teardown pod).Uses any address → node.Uses any address := by
    rintro any address (hguest | hlease)
    · exact .inl (hlookup any address hguest)
    · exact .inr hlease
  constructor
  case current => exact hsound.current
  case distinct =>
    intro any other address hany hother
    exact hsound.distinct any other address (huses _ _ hany) (huses _ _ hother)
  case torn => exact fun call hcall any hpast => hnone any (hsound.torn call hcall any hpast)
  case marked => exact hsound.marked
  case alone => exact hsound.alone
  case no_lease => exact hsound.no_lease
  case shielded =>
    intro any hgone
    obtain hmark | hguest | hfenced := hsound.shielded any hgone
    · exact .inl hmark
    · exact .inr (.inl (hnone any hguest))
    · exact .inr (.inr hfenced)

theorem GuestNode.Sound.retrack (hsound : node.Sound calls) {track : Option ℕ} {count : ℕ}
    (hshielded : pod ∈ node.gone → pod ∈ node.feed.releasing ∨ node.guest.lookup pod = none) :
    GuestNode.Sound { node with
      track := Function.update node.track pod track, nextTrack := count } calls := by
  obtain ⟨hcurrent, hdistinct, htorn, hmarked, halone, hnone, hshields⟩ := hsound
  refine ⟨hcurrent, hdistinct, htorn, hmarked, halone, hnone, ?_⟩
  intro any hgone
  by_cases hany : any = pod
  · subst hany
    obtain hmark | hguest := hshielded hgone
    · exact .inl hmark
    · exact .inr (.inl hguest)
  obtain hmark | hguest | ⟨hquiet, marked, htrack, hfence⟩ := hshields any hgone
  · exact .inl hmark
  · exact .inr (.inl hguest)
  have hsame : Function.update node.track pod track any = node.track any :=
    Function.update_of_ne hany _ _
  refine .inr (.inr ⟨?_, marked, ?_, hfence⟩)
  · intro call hcall
    have hbefore := hquiet call hcall
    cases call <;> simp_all [TransportCall.mayInstall]
  · change marked ∈ Function.update node.track pod track any
    rw [hsame]
    exact htrack

theorem GuestNode.Sound.mark (hsound : node.Sound (.marking pod track ::ₘ others))
    (hunmarked : track ∉ node.evicted) :
    GuestNode.Sound { node with evicted := insert track node.evicted }
      (.evicting pod track ::ₘ others) := by
  have hother : ∀ call ∈ others, call ∈ TransportCall.marking pod track ::ₘ others :=
    fun call hcall => mem_cons_of_mem hcall
  obtain ⟨hcurrent, hdistinct, htorn, hmarked, halone, hnone, hshields⟩ := hsound
  rw [filterMap_cons_none _ _ rfl] at hmarked halone
  constructor
  case current => exact hcurrent
  case distinct => exact hdistinct
  case torn =>
    intro call hcall any hpast
    obtain rfl | hcall := mem_cons.1 hcall
    · cases hpast
    · exact htorn call (hother call hcall) any hpast
  case marked =>
    rw [filterMap_evicting]
    intro any hany
    obtain rfl | hany := mem_cons.1 hany
    · exact mem_insert_self _ _
    · exact mem_insert_of_mem (hmarked any hany)
  case alone =>
    rw [filterMap_evicting]
    exact nodup_cons.2 ⟨fun hmem => hunmarked (hmarked track hmem), halone⟩
  case no_lease => exact hnone
  intro any hgone
  obtain hmark | hguest | ⟨hquiet, held, htrack, hheld, hfence⟩ := hshields any hgone
  · exact .inl hmark
  · exact .inr (.inl hguest)
  refine .inr (.inr ⟨?_, held, htrack, mem_insert_of_mem hheld, ?_⟩)
  · intro call hcall
    obtain rfl | hcall := mem_cons.1 hcall
    · rfl
    · exact hquiet call (hother call hcall)
  · intro call hcall
    obtain rfl | hcall := mem_cons.1 hcall
    · intro hsame
      obtain rfl := Option.some.inj hsame
      exact hunmarked hheld
    · exact hfence call (hother call hcall)

theorem GuestNode.Sound.unmark (hsound : node.Sound (.evicting pod track ::ₘ others)) :
    GuestNode.Sound { node with evicted := node.evicted.erase track } (.ended ::ₘ others) := by
  have hover : node.Sound (.ended ::ₘ others) :=
    hsound.stay (yields_of_harmless (fun _ => rfl) (fun _ => rfl) rfl)
  have halone := hsound.alone
  rw [filterMap_evicting, nodup_cons] at halone
  constructor
  case current => exact hover.current
  case distinct => exact hover.distinct
  case torn => exact hover.torn
  case marked =>
    intro any hany
    have hkept := hover.marked any hany
    rw [filterMap_cons_none _ _ rfl] at hany
    exact mem_erase.2 ⟨fun hsame => halone.1 (hsame ▸ hany), hkept⟩
  case alone => exact hover.alone
  case no_lease => exact hover.no_lease
  intro any hgone
  obtain hmark | hguest | ⟨hquiet, held, htrack, hheld, hfence⟩ := hsound.shielded any hgone
  · exact .inl hmark
  · exact .inr (.inl hguest)
  have hother : held ≠ track := by
    intro hsame
    exact hfence _ (mem_cons_self _ _) (hsame ▸ rfl)
  refine .inr (.inr ⟨?_, held, htrack, mem_erase.2 ⟨hother, hheld⟩, ?_⟩)
  · intro call hcall
    obtain rfl | hcall := mem_cons.1 hcall
    · rfl
    · exact hquiet call (mem_cons_of_mem hcall)
  · intro call hcall
    obtain rfl | hcall := mem_cons.1 hcall
    · exact nofun
    · exact hfence call (mem_cons_of_mem hcall)

/-- The end of an eviction whose track is still the pod's: its own mark fences the pod from
here on. -/
theorem fenced_of_evicting (hsound : node.Sound (.evicting pod track ::ₘ others))
    (htrack : node.track pod = some track)
    (hquiet : node.Quiet (.evicting pod track ::ₘ others) pod) :
    node.Fenced (.ended ::ₘ others) pod := by
  have halone := hsound.alone
  rw [filterMap_evicting, nodup_cons] at halone
  have hmarked : track ∈ node.evicted := by
    apply hsound.marked
    rw [filterMap_evicting]
    exact mem_cons_self _ _
  refine ⟨?_, track, htrack, hmarked, ?_⟩
  · intro call hcall
    obtain rfl | hcall := mem_cons.1 hcall
    · rfl
    · exact hquiet call (mem_cons_of_mem hcall)
  · intro call hcall hsame
    obtain rfl | hcall := mem_cons.1 hcall
    · cases hsame
    · exact halone.1 ((mem_filterMap _ _).2 ⟨call, hcall, hsame⟩)

theorem GuestNode.Sound.records {address : ℕ} (hsound : node.Sound calls)
    (hpast : ∀ call ∈ calls, call.pastTeardown pod = false)
    (hfree : node.AddressFree pod address) : (node.records pod address).Sound calls := by
  have hother : ∀ any, any ≠ pod →
      (node.records pod address).guest.lookup any = node.guest.lookup any :=
    fun any hany => AList.lookup_insert_ne hany
  have hforeign : ∀ any, node.Uses any address → any = pod := by
    rintro any (hguest | ⟨lease, hlease, hpublished⟩)
    · by_contra hany
      exact hfree.1 ⟨any, address⟩ (AList.mem_lookup_iff.1 hguest) hany rfl
    · by_contra hany
      exact hfree.2 ⟨any, lease⟩ (AList.mem_lookup_iff.1 hlease) hany hpublished
  have huses : ∀ any used, (node.records pod address).Uses any used →
      node.Uses any used ∨ any = pod ∧ used = address := by
    rintro any used (hguest | hlease)
    · by_cases hany : any = pod
      · subst hany
        have hinsert : (node.records any address).guest.lookup any = some address :=
          AList.lookup_insert _
        rw [hinsert] at hguest
        exact .inr ⟨rfl, (Option.some.inj hguest).symm⟩
      · rw [hother any hany] at hguest
        exact .inl (.inl hguest)
    · exact .inl (.inr hlease)
  constructor
  case current => exact hsound.current
  case distinct =>
    intro any other used hany hother
    obtain hheld | ⟨hany, hused⟩ := huses any used hany
    · obtain hkept | ⟨hother, hused⟩ := huses other used hother
      · exact hsound.distinct any other used hheld hkept
      · rw [hother]
        exact hforeign any (hused ▸ hheld)
    · obtain hkept | ⟨hother, -⟩ := huses other used hother
      · rw [hany]
        exact (hforeign other (hused ▸ hkept)).symm
      · rw [hany, hother]
  case torn =>
    intro call hcall any htorn
    have hany : any ≠ pod := by
      rintro rfl
      rw [hpast call hcall] at htorn
      cases htorn
    rw [hother any hany]
    exact hsound.torn call hcall any htorn
  case marked => exact hsound.marked
  case alone => exact hsound.alone
  case no_lease => exact fun any hgone => hsound.no_lease any (Finset.mem_of_mem_erase hgone)
  case shielded =>
    intro any hgone
    obtain ⟨hany, hgone⟩ := mem_erase.1 hgone
    obtain hmark | hguest | hfenced := hsound.shielded any hgone
    · exact .inl hmark
    · exact .inr (.inl ((hother any hany).trans hguest))
    · exact .inr (.inr hfenced)

theorem GuestNode.Sound.begins (hsound : node.Sound calls)
    (hquiet : ∀ pod, call.mayInstall node pod = false)
    (hpast : ∀ pod, call.pastTeardown pod = false) (hevicts : call.evictsTrack = none) :
    node.Sound (call ::ₘ calls) := by
  obtain ⟨hcurrent, hdistinct, htorn, hmarked, halone, hnone, hshields⟩ := hsound
  constructor
  case current => exact hcurrent
  case distinct => exact hdistinct
  case torn =>
    intro any hany pod htorn'
    obtain rfl | hany := mem_cons.1 hany
    · rw [hpast pod] at htorn'
      cases htorn'
    · exact htorn any hany pod htorn'
  case marked =>
    rw [filterMap_cons_none _ _ hevicts]
    exact hmarked
  case alone =>
    rw [filterMap_cons_none _ _ hevicts]
    exact halone
  case no_lease => exact hnone
  intro pod hgone
  obtain hmark | hguest | ⟨hall, track, htrack, hheld, hfence⟩ := hshields pod hgone
  · exact .inl hmark
  · exact .inr (.inl hguest)
  refine .inr (.inr ⟨?_, track, htrack, hheld, ?_⟩)
  · intro any hany
    obtain rfl | hany := mem_cons.1 hany
    · exact hquiet pod
    · exact hall any hany
  · intro any hany
    obtain rfl | hany := mem_cons.1 hany
    · rw [hevicts]
      exact nofun
    · exact hfence any hany

theorem GuestNode.Sound.applies {lease : TransportLease}
    (hsound : node.Sound (.applying pod lease ::ₘ others)) :
    GuestNode.Sound { node with
      feed := node.feed.observe pod lease (decide (node.guest.lookup pod = some lease.published)) }
      (.ended ::ₘ others) := by
  apply hsound.withFeed (TransportFeed.observe_current hsound.current)
  · intro any held hheld
    obtain hheld | ⟨rfl, rfl, hguest, hreleasing⟩ := TransportFeed.lookup_of_observe hheld
    · exact .inl hheld
    refine .inr ⟨?_, of_decide_eq_true hguest⟩
    intro hgone
    obtain hmark | hnone | hfenced := hsound.shielded any hgone
    · exact hreleasing hmark
    · rw [hnone] at hguest
      cases hguest
    · have hquiet := hfenced.1 _ (mem_cons_self _ _)
      rw [TransportCall.mayInstall, decide_eq_true rfl] at hquiet
      cases hquiet
  · intro any _ hmark
    rw [TransportFeed.observe_releasing]
    exact .inl hmark
  · exact yields_of_harmless (fun _ => rfl) (fun _ => rfl) rfl

theorem GuestNode.Sound.stopSucceeds {owned : Option ℕ}
    (hsound : node.Sound (.stopping pod owned ::ₘ others)) :
    (node.stopSucceeded pod).Sound (.releasing pod (some owned) ::ₘ others) := by
  have hfeed : GuestNode.Sound { node with feed := node.feed.stopSucceeded pod }
      (.releasing pod (some owned) ::ₘ others) := by
    apply hsound.withFeed
    · exact TransportFeed.dropLocked_current hsound.current
    · intro any lease hlease
      rw [TransportFeed.stopSucceeded] at hlease
      have hheld := TransportFeed.lookup_of_dropLocked hlease
      exact .inl hheld
    · intro any _ hmark
      refine .inl ?_
      rw [TransportFeed.stopSucceeded, TransportFeed.dropLocked_releasing]
      exact mem_insert_of_mem hmark
    · exact yields_of_harmless (fun _ => rfl) (fun _ => rfl) rfl
  apply hfeed.goes TransportFeed.lookup_dropLocked_self
  refine .inl ?_
  change pod ∈ (node.feed.stopSucceeded pod).releasing
  rw [TransportFeed.stopSucceeded, TransportFeed.dropLocked_releasing]
  exact mem_insert_self _ _

theorem GuestNode.Sound.evictDrops (hsound : node.Sound (.evicting pod track ::ₘ others))
    (hallows : node.Allows (.evicting pod track ::ₘ others) .success (.evicting pod track)) :
    (node.evictDrop pod).Sound (.ended ::ₘ others) := by
  have hdropped : (node.feed.drop pod).releasing = node.feed.releasing :=
    TransportFeed.dropLocked_releasing
  have hfeed : GuestNode.Sound { node with feed := node.feed.drop pod } (.ended ::ₘ others) := by
    apply hsound.withFeed
    · exact TransportFeed.dropLocked_current hsound.current
    · exact fun any lease hlease => .inl (TransportFeed.lookup_of_dropLocked hlease)
    · intro any _ hmark
      rw [hdropped]
      exact .inl hmark
    · exact yields_of_harmless (fun _ => rfl) (fun _ => rfl) rfl
  apply hfeed.goes TransportFeed.lookup_dropLocked_self
  obtain hmark | hguest | ⟨htrack, hquiet⟩ := hallows rfl
  · exact .inl (hdropped ▸ hmark)
  · exact .inr (.inl hguest)
  · have hfenced : node.Fenced (.ended ::ₘ others) pod := fenced_of_evicting hsound htrack hquiet
    exact .inr (.inr hfenced)

theorem GuestNode.Sound.lifts (hsound : node.Sound (call ::ₘ others)) {stopping : Finset ℕ}
    (hshielded : pod ∈ node.gone → node.guest.lookup pod = none ∨ node.Fenced (call ::ₘ others) pod)
    (hyields : call.Yields node rest) :
    GuestNode.Sound { node with
      feed := { node.feed with stopping := stopping, releasing := node.feed.releasing.erase pod } }
      (rest ::ₘ others) := by
  apply hsound.withFeed
  · exact hsound.current
  · exact fun _ _ hlease => .inl hlease
  · intro any hgone hmark
    by_cases hany : any = pod
    · subst hany
      exact .inr (hshielded hgone)
    · exact .inl (mem_erase.2 ⟨hany, hmark⟩)
  · exact hyields

theorem yields_readGuest {reported : Option ℕ} {ports : List ℕ} :
    (TransportCall.checked pod reported ports).Yields node (node.readGuest pod reported ports) := by
  unfold GuestNode.readGuest
  split
  · split
    · exact yields_of_harmless (fun _ => rfl) (fun _ => rfl) rfl
    · exact ⟨fun _ _ _ _ hquiet => hquiet, nofun, rfl⟩
  · exact yields_of_harmless (fun _ => rfl) (fun _ => rfl) rfl

theorem yields_observing {reported : Option ℕ} {ports : List ℕ} :
    (TransportCall.observing pod track reported ports).Yields node
      (if track ∈ node.evicted then .ended else .checked pod reported ports) := by
  split
  · exact yields_of_harmless (fun _ => rfl) (fun _ => rfl) rfl
  rename_i hunmarked
  refine ⟨?_, nofun, rfl⟩
  intro any held hheld hmarked hquiet
  by_cases hany : pod = any
  · subst hany
    have hsame : node.track pod = some track := by
      simpa [TransportCall.mayInstall] using hquiet
    rw [hheld] at hsame
    obtain rfl := Option.some.inj hsame
    exact absurd hmarked hunmarked
  · exact decide_eq_false hany

theorem GuestNode.Sound.act {answer : StopAnswer} (hsound : node.Sound (call ::ₘ others))
    (hallows : node.Allows (call ::ₘ others) answer call) :
    (node.act answer call).1.Sound ((node.act answer call).2 ::ₘ others) := by
  have hharmless : ∀ {any : TransportCall}, (∀ pod, any.mayInstall node pod = false) →
      (∀ pod, any.pastTeardown pod = false) → any.evictsTrack = none → call.Yields node any :=
    fun hquiet htorn hevicts => yields_of_harmless hquiet htorn hevicts
  cases call with
  | observing pod track reported ports => exact hsound.stay yields_observing
  | checked pod reported ports => exact hsound.stay yields_readGuest
  | retracting pod =>
    apply hsound.withFeed (TransportFeed.retract_current hsound.current)
    · exact fun any lease hlease => .inl (TransportFeed.lookup_of_retract hlease)
    · intro any _ hmark
      rw [TransportFeed.retract_releasing]
      exact .inl hmark
    · exact hharmless (fun _ => rfl) (fun _ => rfl) rfl
  | applying pod lease => exact hsound.applies
  | preStop pod owned | freezing pod owned =>
    exact hsound.withFeed hsound.current (fun _ _ hlease => .inl hlease)
      (fun _ _ hmark => .inl hmark) (hharmless (fun _ => rfl) (fun _ => rfl) rfl)
  | stopping pod owned =>
    cases answer with
    | success => exact hsound.stopSucceeds
    | refused =>
      exact hsound.lifts (hallows rfl) (hharmless (fun _ => rfl) (fun _ => rfl) rfl)
    | uncertain =>
      exact hsound.withFeed hsound.current (fun _ _ hlease => .inl hlease)
        (fun _ _ hmark => .inl (mem_insert_of_mem hmark))
        (hharmless (fun _ => rfl) (fun _ => rfl) rfl)
  | releasing pod teardown =>
    apply hsound.withFeed
    · exact TransportFeed.dropLocked_current hsound.current
    · intro any lease hlease
      rw [TransportFeed.beginRelease] at hlease
      have hheld := TransportFeed.lookup_of_dropLocked hlease
      exact .inl hheld
    · intro any _ hmark
      refine .inl ?_
      rw [TransportFeed.beginRelease, TransportFeed.dropLocked_releasing]
      exact mem_insert_of_mem hmark
    · exact hharmless (fun _ => rfl) (fun _ => rfl) rfl
  | tearing pod teardown =>
    apply (hsound.teardown pod).stay
    refine ⟨fun _ _ _ _ _ => rfl, ?_, rfl⟩
    intro any hpast
    rw [← of_decide_eq_true hpast]
    exact AList.lookup_erase _ _
  | releaseEnding pod teardown =>
    have hnone : node.guest.lookup pod = none :=
      hsound.torn _ (mem_cons_self _ _) pod (decide_eq_true rfl)
    apply hsound.lifts fun _ => .inl hnone
    cases teardown with
    | none => exact hharmless (fun _ => rfl) (fun _ => rfl) rfl
    | some owned =>
      refine ⟨fun _ _ _ _ _ => rfl, ?_, rfl⟩
      intro any hpast
      rw [← of_decide_eq_true hpast]
      exact hnone
  | forgetting pod owned =>
    have hnone : node.guest.lookup pod = none :=
      hsound.torn _ (mem_cons_self _ _) pod (decide_eq_true rfl)
    have hover : node.Sound (.ended ::ₘ others) :=
      hsound.stay (hharmless (fun _ => rfl) (fun _ => rfl) rfl)
    change (node.forgetTorndown pod owned _).Sound (.ended ::ₘ others)
    unfold GuestNode.forgetTorndown
    split
    · exact hover.retrack fun _ => .inr hnone
    · exact hover
  | marking pod track =>
    unfold GuestNode.act
    dsimp only
    split
    · exact hsound.stay (hharmless (fun _ => rfl) (fun _ => rfl) rfl)
    case isFalse hunmarked => exact hsound.mark hunmarked
  | evicting pod track =>
    cases answer with
    | success => exact hsound.evictDrops hallows
    | refused | uncertain => exact hsound.unmark
  | ended => exact hsound

namespace GuestSystem

variable {system : GuestSystem}

/-- The invariant of a guest's overrides. -/
def Sound (system : GuestSystem) : Prop :=
  system.node.Sound system.calls

theorem sound_start : start.Sound where
  current := rfl
  distinct := by
    rintro pod other address (hguest | ⟨lease, hlease, -⟩)
    · cases hguest
    · cases hlease
  torn := nofun
  marked := nofun
  alone := nodup_zero
  no_lease := nofun
  shielded := nofun

theorem coe_begin (call : TransportCall) :
    ((system.calls ++ [call] : List TransportCall) : Multiset TransportCall) =
      call ::ₘ (system.calls : Multiset TransportCall) := by
  rw [← coe_add, add_comm]
  rfl

theorem Sound.begin {call : TransportCall} (hsound : system.Sound)
    (hquiet : ∀ pod, call.mayInstall system.node pod = false)
    (hpast : ∀ pod, call.pastTeardown pod = false) (hevicts : call.evictsTrack = none) :
    (system.begin call).Sound := by
  change system.node.Sound ((system.calls ++ [call] : List TransportCall) : Multiset TransportCall)
  rw [coe_begin]
  exact GuestNode.Sound.begins hsound hquiet hpast hevicts

theorem Sound.turn {index : ℕ} {answer : StopAnswer} (hsound : system.Sound)
    (horder : system.KeepsOrder (.turn index answer)) :
    (system.next (.turn index answer)).Sound := by
  simp only [GuestSystem.next]
  split
  case h_2 => exact hsound
  rename_i call hcall
  obtain ⟨others, hcalls, hset⟩ := Threads.exists_others hcall
  have hallows := horder call hcall
  unfold GuestSystem.Sound at hsound ⊢
  dsimp only
  rw [hset]
  rw [hcalls] at hsound hallows
  exact hsound.act hallows

theorem Sound.next {event : GuestEvent} (hsound : system.Sound) (horder : system.KeepsOrder event) :
    (system.next event).Sound := by
  cases event with
  | observes pod reported ports =>
    simp only [GuestSystem.next, beginOn]
    split
    case h_2 => exact hsound
    rename_i track htrack
    apply hsound.begin _ (fun _ => rfl) rfl
    intro any
    by_cases hany : pod = any
    · subst hany
      simp [TransportCall.mayInstall, htrack]
    · simp [TransportCall.mayInstall, hany]
  | deletes pod | reaps pod owned
  | releases pod => exact hsound.begin (fun _ => rfl) (fun _ => rfl) rfl
  | evicts pod =>
    simp only [GuestSystem.next, beginOn]
    split
    · exact hsound.begin (fun _ => rfl) (fun _ => rfl) rfl
    · exact hsound
  | records pod address => exact GuestNode.Sound.records hsound horder.1 horder.2
  | tracks pod =>
    change (system.node.tracks pod).Sound system.calls
    unfold GuestNode.tracks
    split
    · exact hsound
    rename_i hunmarked
    apply GuestNode.Sound.retrack hsound
    intro hgone
    obtain hmark | hguest | ⟨-, track, htrack, hmarked, -⟩ := hsound.shielded pod hgone
    · exact .inl hmark
    · exact .inr hguest
    have hevicted : system.node.isEvicted pod = true := by
      unfold GuestNode.isEvicted
      rw [show system.node.track pod = some track from htrack]
      exact decide_eq_true hmarked
    exact absurd hevicted hunmarked
  | runtimeTears pod => exact GuestNode.Sound.teardown hsound pod
  | turn index answer => exact hsound.turn horder

end GuestSystem

/-- The map in the proxy's hands is the leases, and a gone pod's address is in use by no other
pod. -/
theorem GuestNode.Sound.served (hsound : node.Sound calls) : node.Served := by
  have hhanded : ∀ address transport, node.feed.handed address = some transport ↔
      ∃ pod lease, node.feed.leases.lookup pod = some lease ∧ lease.published = address ∧
        lease.transport = transport := by
    intro address transport
    rw [hsound.current]
    apply TransportFeed.overrides_eq_some_iff
    intro pod other lease held hlease hheld hsame
    exact hsound.distinct pod other lease.published (.inr ⟨lease, hlease, rfl⟩)
      (.inr ⟨held, hheld, hsame.symm⟩)
  refine ⟨hsound.no_lease, ?_, hhanded⟩
  intro pod hgone address hguest
  cases hentry : node.feed.handed address with
  | none => rfl
  | some transport =>
    obtain ⟨other, lease, hlease, hpublished, -⟩ := (hhanded address transport).1 hentry
    have hpod := hsound.distinct other pod address (.inr ⟨lease, hlease, hpublished⟩) (.inl hguest)
    subst hpod
    rw [hsound.no_lease other hgone] at hlease
    cases hlease

/-- No override outlives its guest, in every history of observations, deletes, reaps,
evictions, releases and creates whose steps keep the order. -/
theorem no_override_outlives_guest (events : List GuestEvent)
    (horder : EachStep GuestSystem.KeepsOrder GuestSystem.next GuestSystem.start events) :
    Always (fun system => system.node.Served) GuestSystem.next GuestSystem.start events := by
  have hsound : Always GuestSystem.Sound GuestSystem.next GuestSystem.start events :=
    always_of_eachStep (fun _ _ hsound hkeeps => hsound.next hkeeps) GuestSystem.sound_start horder
  exact hsound.mono fun _ hsound => hsound.served

/-- A pod is served, evicted while an observation of it is still before its first reading,
and deleted; the observation comes last. -/
def orderlyEnd : List GuestEvent :=
  [.records 1 7, .tracks 1, .observes 1 (some 90) [80], .turn 0 .success, .turn 0 .success,
    .turn 0 .success, .observes 1 (some 90) [80], .evicts 1, .turn 2 .success, .turn 2 .success,
    .deletes 1, .turn 3 .success, .turn 3 .success, .turn 3 .refused, .turn 1 .success]

theorem orderlyEnd_served : 1 ∈ (orderlyEnd.foldl GuestSystem.next .start).node.gone ∧
    Always (fun system => system.node.Served) GuestSystem.next GuestSystem.start orderlyEnd :=
  ⟨by decide +kernel, no_override_outlives_guest orderlyEnd (by decide +kernel)⟩

/-- An observation reads no evicted mark and the guest record; the pod is evicted; only then
does the observation take the feed's lock. -/
def lateObservation : List GuestEvent :=
  [.records 1 7, .tracks 1, .observes 1 (some 90) [80], .turn 0 .success, .turn 0 .success,
    .evicts 1, .turn 1 .success, .turn 1 .success, .turn 0 .success]

/-- The lease of the stopped guest is back in the proxy's hands. -/
theorem lateObservation_serves_stopped_guest :
    ¬Always (fun system => system.node.Served) GuestSystem.next GuestSystem.start
      lateObservation := by
  intro halways
  have hlast := halways.last
  have hgone : 1 ∈ (lateObservation.foldl GuestSystem.next .start).node.gone := by decide +kernel
  have hlease :
      (lateObservation.foldl GuestSystem.next .start).node.feed.leases.lookup 1 ≠ none := by
    decide +kernel
  exact hlease (hlast.no_lease 1 hgone)

end K3sm.Provider

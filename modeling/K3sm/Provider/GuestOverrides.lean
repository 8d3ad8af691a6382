import K3sm.Core.Threads

/-!
# Overrides and the guests behind them

A vm pod has two addresses, the one the node published for it and the lease its guest answers at.
The feed hands the Service proxy the pairs whenever one changes, and drops those of pods that are
frozen, as their stop has no outcome yet, or refused, as their guest may be gone.  Status
observations, deletes, reaps, evictions and network releases interleave between their steps.
-/

namespace K3sm.Provider

structure TransportLease where
  published : ℕ
  live : ℕ
  ports : List ℕ
  deriving DecidableEq

structure VMPodTransport where
  live : ℕ
  ports : List ℕ
  deriving DecidableEq

def TransportLease.transport (lease : TransportLease) : VMPodTransport :=
  ⟨lease.live, lease.ports⟩

/-- `transportFeed`, with the map that was handed to the sink last. -/
structure TransportFeed where
  leases : AList fun _ : ℕ => TransportLease
  stopping : Finset ℕ
  releasing : Finset ℕ
  handed : ℕ → Option VMPodTransport

namespace TransportFeed

/-- The map from published addresses that `republishLocked` derives.  Two leases of one
address would fight over it. -/
def overrides (leases : AList fun _ : ℕ => TransportLease) (address : ℕ) : Option VMPodTransport :=
  (leases.entries.find? fun entry => entry.2.published = address).map fun entry =>
    entry.2.transport

def republishLocked (feed : TransportFeed) : TransportFeed :=
  { feed with handed := overrides feed.leases }

def dropLocked (feed : TransportFeed) (pod : ℕ) : TransportFeed :=
  if pod ∈ feed.leases then republishLocked { feed with leases := feed.leases.erase pod } else feed

def observe (feed : TransportFeed) (pod : ℕ) (next : TransportLease) (stillGuest : Bool) :
    TransportFeed :=
  if pod ∈ feed.stopping then feed
  else if pod ∈ feed.releasing then feed
  else if !stillGuest then feed.dropLocked pod
  else if feed.leases.lookup pod = some next then feed
  else republishLocked { feed with leases := feed.leases.insert pod next }

def retract (feed : TransportFeed) (pod : ℕ) : TransportFeed :=
  if pod ∈ feed.stopping then feed else feed.dropLocked pod

def drop (feed : TransportFeed) (pod : ℕ) : TransportFeed :=
  feed.dropLocked pod

def beginStop (feed : TransportFeed) (pod : ℕ) : TransportFeed :=
  { feed with stopping := insert pod feed.stopping }

def stopSucceeded (feed : TransportFeed) (pod : ℕ) : TransportFeed :=
  dropLocked
    { feed with stopping := feed.stopping.erase pod, releasing := insert pod feed.releasing } pod

def stopRefused (feed : TransportFeed) (pod : ℕ) : TransportFeed :=
  { feed with stopping := feed.stopping.erase pod, releasing := feed.releasing.erase pod }

def stopUncertain (feed : TransportFeed) (pod : ℕ) : TransportFeed :=
  { feed with stopping := feed.stopping.erase pod, releasing := insert pod feed.releasing }

def beginRelease (feed : TransportFeed) (pod : ℕ) : TransportFeed :=
  dropLocked { feed with releasing := insert pod feed.releasing } pod

def endRelease (feed : TransportFeed) (pod : ℕ) : TransportFeed :=
  { feed with releasing := feed.releasing.erase pod }

variable {feed : TransportFeed} {pod other : ℕ} {lease next : TransportLease}

def Current (feed : TransportFeed) : Prop :=
  feed.handed = overrides feed.leases

@[simp]
theorem dropLocked_releasing : (feed.dropLocked pod).releasing = feed.releasing := by
  unfold dropLocked
  split <;> rfl

theorem dropLocked_current (hcurrent : feed.Current) : (feed.dropLocked pod).Current := by
  unfold dropLocked
  split
  · rfl
  · exact hcurrent

theorem lookup_dropLocked_self : (feed.dropLocked pod).leases.lookup pod = none := by
  unfold dropLocked
  split
  case isTrue => exact AList.lookup_erase pod feed.leases
  case isFalse habsent => exact AList.lookup_eq_none.2 habsent

theorem lookup_dropLocked_of_ne (hother : other ≠ pod) :
    (feed.dropLocked pod).leases.lookup other = feed.leases.lookup other := by
  unfold dropLocked
  split
  · exact AList.lookup_erase_ne hother
  · rfl

theorem lookup_of_dropLocked (hlease : (feed.dropLocked pod).leases.lookup other = some lease) :
    feed.leases.lookup other = some lease := by
  by_cases hother : other = pod
  · subst hother
    rw [lookup_dropLocked_self] at hlease
    cases hlease
  · rwa [lookup_dropLocked_of_ne hother] at hlease

/-- What an observation leaves for a pod: the lease it brings, or what the feed held, or
nothing. -/
theorem lookup_of_observe {stillGuest : Bool}
    (hlease : (feed.observe pod next stillGuest).leases.lookup other = some lease) :
    feed.leases.lookup other = some lease ∨
      other = pod ∧ lease = next ∧ stillGuest = true ∧ pod ∉ feed.releasing := by
  unfold observe at hlease
  split at hlease
  · exact .inl hlease
  split at hlease
  · exact .inl hlease
  rename_i hreleasing
  split at hlease
  · exact .inl (lookup_of_dropLocked hlease)
  rename_i hguest
  split at hlease
  · exact .inl hlease
  change (feed.leases.insert pod next).lookup other = some lease at hlease
  by_cases hother : other = pod
  · subst hother
    rw [AList.lookup_insert] at hlease
    exact .inr ⟨rfl, (Option.some.inj hlease).symm, by simpa using hguest, hreleasing⟩
  · rw [AList.lookup_insert_ne hother] at hlease
    exact .inl hlease

theorem observe_releasing {stillGuest : Bool} :
    (feed.observe pod next stillGuest).releasing = feed.releasing := by
  unfold observe
  split_ifs <;> first | rfl | exact dropLocked_releasing

theorem observe_current {stillGuest : Bool} (hcurrent : feed.Current) :
    (feed.observe pod next stillGuest).Current := by
  unfold observe
  split_ifs <;> first | exact hcurrent | exact dropLocked_current hcurrent | rfl

theorem retract_releasing : (feed.retract pod).releasing = feed.releasing := by
  unfold retract
  split <;> first | rfl | exact dropLocked_releasing

theorem retract_current (hcurrent : feed.Current) : (feed.retract pod).Current := by
  unfold retract
  split
  · exact hcurrent
  · exact dropLocked_current hcurrent

theorem lookup_of_retract (hlease : (feed.retract pod).leases.lookup other = some lease) :
    feed.leases.lookup other = some lease := by
  unfold retract at hlease
  split at hlease
  · exact hlease
  · exact lookup_of_dropLocked hlease

theorem overrides_eq_some_iff {leases : AList fun _ : ℕ => TransportLease}
    {address : ℕ} {transport : VMPodTransport}
    (hdistinct : ∀ pod other lease held, leases.lookup pod = some lease →
      leases.lookup other = some held → lease.published = held.published → pod = other) :
    overrides leases address = some transport ↔
      ∃ pod lease, leases.lookup pod = some lease ∧ lease.published = address ∧
        lease.transport = transport := by
  unfold overrides
  rw [Option.map_eq_some_iff]
  constructor
  · rintro ⟨⟨pod, lease⟩, hfound, htransport⟩
    have hpublished := List.find?_some hfound
    refine ⟨pod, lease, ?_, of_decide_eq_true hpublished, htransport⟩
    exact AList.mem_lookup_iff.2 (List.mem_of_find?_eq_some hfound)
  rintro ⟨pod, lease, hlease, haddress, htransport⟩
  have hmem : (⟨pod, lease⟩ : Sigma fun _ : ℕ => TransportLease) ∈ leases.entries :=
    AList.mem_lookup_iff.1 hlease
  have hsome : (leases.entries.find? fun entry => entry.2.published = address).isSome := by
    rw [List.find?_isSome]
    exact ⟨_, hmem, decide_eq_true haddress⟩
  obtain ⟨⟨other, held⟩, hfound⟩ := Option.isSome_iff_exists.1 hsome
  have hheld : leases.lookup other = some held :=
    AList.mem_lookup_iff.2 (List.mem_of_find?_eq_some hfound)
  have hpublished := List.find?_some hfound
  have hsame : held.published = address := of_decide_eq_true hpublished
  have hpod := hdistinct pod other lease held hlease hheld (haddress.trans hsame.symm)
  subst hpod
  rw [hlease] at hheld
  obtain rfl := Option.some.inj hheld
  exact ⟨⟨pod, lease⟩, hfound, htransport⟩

end TransportFeed

open K3sm.Core

/-- The answer of the runtime's `DeletePod`, in the sense of `stopNotIssued`. -/
inductive StopAnswer
  | success
  | refused
  | uncertain
  deriving DecidableEq

/-- A call and the step it takes next.  `owned` is the track a teardown may forget after its
release, any if there is none. -/
inductive TransportCall
  | observing (pod track : ℕ) (reported : Option ℕ) (ports : List ℕ)
  | checked (pod : ℕ) (reported : Option ℕ) (ports : List ℕ)
  | retracting (pod : ℕ)
  | applying (pod : ℕ) (lease : TransportLease)
  | preStop (pod : ℕ) (owned : Option ℕ)
  | freezing (pod : ℕ) (owned : Option ℕ)
  | stopping (pod : ℕ) (owned : Option ℕ)
  | releasing (pod : ℕ) (teardown : Option (Option ℕ))
  | tearing (pod : ℕ) (teardown : Option (Option ℕ))
  | releaseEnding (pod : ℕ) (teardown : Option (Option ℕ))
  | forgetting (pod : ℕ) (owned : Option ℕ)
  | marking (pod track : ℕ)
  | evicting (pod track : ℕ)
  | ended
  deriving DecidableEq

/-- The feed, the guest records of the pod-network seam, the tracks of the pods and the marks
on them.  `gone` has the pods whose guest was stopped and whose override was dropped. -/
structure GuestNode where
  feed : TransportFeed
  guest : AList fun _ : ℕ => ℕ
  track : ℕ → Option ℕ
  nextTrack : ℕ
  evicted : Finset ℕ
  gone : Finset ℕ

/-- The node and the transport's calls in flight. -/
structure GuestSystem where
  node : GuestNode
  calls : List TransportCall

/-- A call begins or takes a step; a create records a guest or installs a track; the runtime
tears a pod's network down on its own. -/
inductive GuestEvent
  | observes (pod : ℕ) (reported : Option ℕ) (ports : List ℕ)
  | deletes (pod : ℕ)
  | reaps (pod : ℕ) (owned : ℕ)
  | releases (pod : ℕ)
  | evicts (pod : ℕ)
  | records (pod address : ℕ)
  | tracks (pod : ℕ)
  | runtimeTears (pod : ℕ)
  | turn (index : ℕ) (answer : StopAnswer)
  deriving DecidableEq

namespace GuestNode

/-- `SetupGuest`. -/
def records (node : GuestNode) (pod address : ℕ) : GuestNode :=
  { node with guest := node.guest.insert pod address, gone := node.gone.erase pod }

/-- `Teardown` of the pod's network, as far as the record goes. -/
def teardown (node : GuestNode) (pod : ℕ) : GuestNode :=
  { node with guest := node.guest.erase pod }

def isEvicted (node : GuestNode) (pod : ℕ) : Bool :=
  match node.track pod with
  | some track => decide (track ∈ node.evicted)
  | none => false

/-- `CreatePod` puts a new track in, unless the one there is evicted. -/
def tracks (node : GuestNode) (pod : ℕ) : GuestNode :=
  if node.isEvicted pod then node
  else
    { node with
      track := Function.update node.track pod (some node.nextTrack)
      nextTrack := node.nextTrack + 1 }

/-- `observeTransport` up to the call of the feed. -/
def readGuest (node : GuestNode) (pod : ℕ) (reported : Option ℕ) (ports : List ℕ) : TransportCall :=
  match node.guest.lookup pod, reported with
  | some published, some live =>
    if live = published then .retracting pod else .applying pod ⟨published, live, ports⟩
  | _, _ => .retracting pod

def stopSucceeded (node : GuestNode) (pod : ℕ) : GuestNode :=
  { node with feed := node.feed.stopSucceeded pod, gone := insert pod node.gone }

/-- `evictPod` after the runtime's success. -/
def evictDrop (node : GuestNode) (pod : ℕ) : GuestNode :=
  { node with feed := node.feed.drop pod, gone := insert pod node.gone }

/-- `forgetTorndown`: `landed` says that the track's create landed behind the delete. -/
def forgetTorndown (node : GuestNode) (pod : ℕ) (owned : Option ℕ) (landed : Bool) : GuestNode :=
  if owned = none ∨ owned = node.track pod ∨ landed then
    { node with track := Function.update node.track pod none }
  else node

def act (answer : StopAnswer) (node : GuestNode) : TransportCall → GuestNode × TransportCall
  | .observing pod track reported ports =>
    (node, if track ∈ node.evicted then .ended else .checked pod reported ports)
  | .checked pod reported ports => (node, node.readGuest pod reported ports)
  | .retracting pod => ({ node with feed := node.feed.retract pod }, .ended)
  | .applying pod lease =>
    ({ node with
      feed := node.feed.observe pod lease (decide (node.guest.lookup pod = some lease.published)) },
      .ended)
  | .preStop pod owned => ({ node with feed := node.feed.beginStop pod }, .freezing pod owned)
  | .freezing pod owned => ({ node with feed := node.feed.beginStop pod }, .stopping pod owned)
  | .stopping pod owned =>
    match answer with
    | .success => (node.stopSucceeded pod, .releasing pod (some owned))
    | .refused => ({ node with feed := node.feed.stopRefused pod }, .ended)
    | .uncertain => ({ node with feed := node.feed.stopUncertain pod }, .ended)
  | .releasing pod teardown =>
    ({ node with feed := node.feed.beginRelease pod }, .tearing pod teardown)
  | .tearing pod teardown => (node.teardown pod, .releaseEnding pod teardown)
  | .releaseEnding pod teardown =>
    ({ node with feed := node.feed.endRelease pod },
      match teardown with
      | some owned => .forgetting pod owned
      | none => .ended)
  | .forgetting pod owned => (node.forgetTorndown pod owned (decide (answer = .success)), .ended)
  | .marking pod track =>
    if track ∈ node.evicted then (node, .ended)
    else ({ node with evicted := insert track node.evicted }, .evicting pod track)
  | .evicting pod track =>
    match answer with
    | .success => (node.evictDrop pod, .ended)
    | _ => ({ node with evicted := node.evicted.erase track }, .ended)
  | .ended => (node, .ended)

end GuestNode

namespace GuestSystem

def beginOn (system : GuestSystem) (pod : ℕ) (call : ℕ → TransportCall) : GuestSystem :=
  match system.node.track pod with
  | some track => { system with calls := system.calls ++ [call track] }
  | none => system

def begin (system : GuestSystem) (call : TransportCall) : GuestSystem :=
  { system with calls := system.calls ++ [call] }

def next (system : GuestSystem) : GuestEvent → GuestSystem
  | .observes pod reported ports =>
    system.beginOn pod fun track => .observing pod track reported ports
  | .deletes pod => system.begin (.preStop pod none)
  | .reaps pod owned => system.begin (.freezing pod (some owned))
  | .releases pod => system.begin (.releasing pod none)
  | .evicts pod => system.beginOn pod fun track => .marking pod track
  | .records pod address => { system with node := system.node.records pod address }
  | .tracks pod => { system with node := system.node.tracks pod }
  | .runtimeTears pod => { system with node := system.node.teardown pod }
  | .turn index answer =>
    match system.calls[index]? with
    | some call =>
      let taken := system.node.act answer call
      ⟨taken.1, system.calls.set index taken.2⟩
    | none => system

def start : GuestSystem where
  node := ⟨⟨∅, ∅, ∅, fun _ => none⟩, ∅, fun _ => none, 0, ∅, ∅⟩
  calls := []

end GuestSystem

/-- No gone pod has an entry in the last map handed over, neither by its lease nor by the
address its record has, and that map is the leases the feed holds. -/
structure GuestNode.Served (node : GuestNode) : Prop where
  no_lease : ∀ pod ∈ node.gone, node.feed.leases.lookup pod = none
  no_entry : ∀ pod ∈ node.gone, ∀ address, node.guest.lookup pod = some address →
    node.feed.handed address = none
  handed_iff : ∀ address transport, node.feed.handed address = some transport ↔
    ∃ pod lease, node.feed.leases.lookup pod = some lease ∧ lease.published = address ∧
      lease.transport = transport

/-! ## When it holds -/

namespace TransportCall

/-- An observation of the pod that read no evicted mark, or will read that of a track which
is not the pod's any more. -/
def mayInstall (node : GuestNode) (pod : ℕ) : TransportCall → Bool
  | .observing observed track _ _ =>
    decide (observed = pod) && !decide (node.track pod = some track)
  | .checked observed _ _ => decide (observed = pod)
  | .applying observed _ => decide (observed = pod)
  | _ => false

/-- A release of the pod that took the guest record down and is not over. -/
def pastTeardown (pod : ℕ) : TransportCall → Bool
  | .releaseEnding released _ => decide (released = pod)
  | .forgetting released _ => decide (released = pod)
  | _ => false

def evictsTrack : TransportCall → Option ℕ
  | .evicting _ track => some track
  | _ => none

end TransportCall

/-- No observation of the pod under way missed the evicted mark of its track. -/
def GuestNode.Quiet (node : GuestNode) (calls : Multiset TransportCall) (pod : ℕ) : Prop :=
  ∀ call ∈ calls, call.mayInstall node pod = false

/-- The track of the pod has an evicted mark for good, and no observation missed it. -/
def GuestNode.Fenced (node : GuestNode) (calls : Multiset TransportCall) (pod : ℕ) : Prop :=
  node.Quiet calls pod ∧ ∃ track ∈ node.track pod, track ∈ node.evicted ∧
    ∀ call ∈ calls, call.evictsTrack ≠ some track

instance (node : GuestNode) (calls : Multiset TransportCall) (pod : ℕ) :
    Decidable (node.Quiet calls pod) :=
  inferInstanceAs (Decidable (∀ call ∈ calls, _))

instance (node : GuestNode) (calls : Multiset TransportCall) (pod : ℕ) :
    Decidable (node.Fenced calls pod) :=
  inferInstanceAs (Decidable (_ ∧ ∃ track ∈ node.track pod, _))

def GuestNode.AddressFree (node : GuestNode) (pod address : ℕ) : Prop :=
  (∀ entry ∈ node.guest.entries, entry.1 ≠ pod → entry.2 ≠ address) ∧
    ∀ entry ∈ node.feed.leases.entries, entry.1 ≠ pod → entry.2.published ≠ address

/-- The conditions on the steps of a call.  An eviction drops the override under the release
mark, or without a record, or with its mark seen.  A refused stop is reported for a pod whose
guest is stopped only if the record is gone or the pod is fenced. -/
def GuestNode.Allows (node : GuestNode) (calls : Multiset TransportCall) (answer : StopAnswer) :
    TransportCall → Prop
  | .evicting pod track => answer = .success →
      pod ∈ node.feed.releasing ∨ node.guest.lookup pod = none ∨
        node.track pod = some track ∧ node.Quiet calls pod
  | .stopping pod _ => answer = .refused → pod ∈ node.gone →
      node.guest.lookup pod = none ∨ node.Fenced calls pod
  | _ => True

/-- The conditions on every event: those on the steps, and that no guest is recorded for a
pod under a release that took its record down, nor at another pod's address. -/
def GuestSystem.KeepsOrder (system : GuestSystem) : GuestEvent → Prop
  | .turn index answer => ∀ call ∈ system.calls[index]?, system.node.Allows system.calls answer call
  | .records pod address =>
    (∀ call ∈ system.calls, call.pastTeardown pod = false) ∧ system.node.AddressFree pod address
  | _ => True

instance (node : GuestNode) (calls : Multiset TransportCall) (answer : StopAnswer) :
    (call : TransportCall) → Decidable (node.Allows calls answer call)
  | .evicting _ _ => inferInstanceAs (Decidable (_ → _ ∨ _ ∨ _ ∧ _))
  | .stopping _ _ => inferInstanceAs (Decidable (_ → _ → _ ∨ _))
  | .observing _ _ _ _ | .checked _ _ _ | .retracting _ | .applying _ _ | .preStop _ _
  | .freezing _ _ | .releasing _ _ | .tearing _ _ | .releaseEnding _ _ | .forgetting _ _
  | .marking _ _ | .ended => .isTrue trivial

instance (system : GuestSystem) : (event : GuestEvent) → Decidable (system.KeepsOrder event)
  | .turn index _ => inferInstanceAs (Decidable (∀ call ∈ system.calls[index]?, _))
  | .records _ _ => inferInstanceAs (Decidable (_ ∧ _ ∧ _))
  | .observes _ _ _ | .deletes _ | .reaps _ _ | .releases _ | .evicts _ | .tracks _
  | .runtimeTears _ => .isTrue trivial

end K3sm.Provider

import K3sm.Updatectl.InTurn

/-!
# The Update a pass has read

While a pass runs, the Update can be edited, deleted and created anew, but only a pass writes
its status, and every edit moves the resource version on. So what the pass has read is the
Update's status to the end of the pass, and a write that is accepted finds the whole Update as
it was read. -/

namespace K3sm.Updatectl

open K3sm.Core K3sm.Core.Filepath

/-- What the pass has read is still the status, and the whole Update while the resource
version is the one that was read; another Update has been created since. -/
structure ReadOf (read : Update) (world : World) : Prop where
  uid : read.uid < world.nextUid
  since : ∀ update, world.update = some update → update.uid = read.uid →
    update.status = read.status ∧ read.resourceVersion ≤ update.resourceVersion ∧
      (update.resourceVersion = read.resourceVersion → update = read)
  version : ∀ update, world.update = some update → update.uid = read.uid →
    update.spec.version = read.spec.version
  created : ∀ update, world.update = some update → update.uid ≠ read.uid →
    update.status = Status.empty

def UidsOk (world : World) : Prop :=
  ∀ update, world.update = some update → update.uid < world.nextUid

section Changes

variable {read : Update} {world : World}

theorem setNode_nextUid (world : World) (actor : Actor) (name : Str) (set : Node → Node) :
    (world.setNode actor name set).nextUid = world.nextUid := by
  unfold World.setNode
  split <;> rfl

theorem setNode_handed (world : World) (actor : Actor) (name : Str) (set : Node → Node) :
    (world.setNode actor name set).handed = world.handed := by
  unfold World.setNode
  split <;> rfl

theorem setNode_views (world : World) (actor : Actor) (name : Str) (set : Node → Node) :
    (world.setNode actor name set).views = world.views := by
  unfold World.setNode
  split <;> rfl

theorem setNode_writes (world : World) (actor : Actor) (name : Str) (set : Node → Node) :
    (world.setNode actor name set).writes = world.writes := by
  unfold World.setNode
  split <;> rfl

theorem change_handed (world : World) (change : Change) :
    (world.change change).handed = world.handed := by
  cases change <;> simp only [World.change, setNode_handed] <;> split_ifs <;> rfl

theorem change_views (world : World) (change : Change) :
    (world.change change).views = world.views := by
  cases change <;> simp only [World.change, setNode_views] <;> split_ifs <;> rfl

theorem change_writes (world : World) (change : Change) :
    (world.change change).writes = world.writes := by
  cases change <;> simp only [World.change, setNode_writes] <;> split_ifs <;> rfl

theorem change_update (world : World) (change : Change) :
    ((world.change change).update = world.update ∧ (world.change change).nextUid = world.nextUid) ∨
    (∃ old spec, world.update = some old ∧ spec.version = old.spec.version ∧
      (world.change change).update = some { old with
        resourceVersion := old.resourceVersion + 1, spec := spec } ∧
      (world.change change).nextUid = world.nextUid) ∨
    ((world.change change).update = none ∧ (world.change change).nextUid = world.nextUid) ∨
    ∃ spec, world.update = none ∧ (world.change change).update = some {
        uid := world.nextUid, resourceVersion := 0, spec := spec, status := Status.empty } ∧
      (world.change change).nextUid = world.nextUid + 1 := by
  cases change with
  | report name ready kubeletVersion phase rotated =>
    exact .inl ⟨setNode_update .., setNode_nextUid ..⟩
  | moveRequest name version
  | operator name unschedulable => exact .inl ⟨setNode_update .., setNode_nextUid ..⟩
  | removeNode name => exact .inl ⟨rfl, rfl⟩
  | addNode name server kubeletVersion ready =>
    refine .inl ?_
    simp only [World.change]
    split_ifs <;> exact ⟨rfl, rfl⟩
  | editSpec cancel drain allowDowngrade =>
    cases hupdate : world.update with
    | none => exact .inl ⟨by simp [World.change, hupdate], rfl⟩
    | some old =>
      refine .inr (.inl ⟨old, { old.spec with
        cancel := cancel, drain := drain, allowDowngrade := allowDowngrade }, rfl, rfl, ?_, rfl⟩)
      simp [World.change, hupdate]
  | deleteUpdate => exact .inr (.inr (.inl ⟨rfl, rfl⟩))
  | createUpdate spec =>
    simp only [World.change]
    split_ifs with hsome
    · exact .inl ⟨rfl, rfl⟩
    · exact .inr (.inr (.inr ⟨spec, by simpa using hsome, rfl, rfl⟩))

theorem ReadOf.change (hread : ReadOf read world) (change : Change) :
    ReadOf read (world.change change) := by
  rcases change_update world change with ⟨hsame, huid⟩ | ⟨old, spec, hold, hspec, hedited, huid⟩ |
    ⟨hnone, huid⟩ | ⟨spec, -, hcreated, huid⟩
  · exact ⟨huid ▸ hread.uid, hsame ▸ hread.since, hsame ▸ hread.version, hsame ▸ hread.created⟩
  · refine ⟨huid ▸ hread.uid, ?_, ?_, ?_⟩
    · intro update hupdate hsame
      rw [hedited] at hupdate
      cases hupdate
      obtain ⟨hstatus, hversion, -⟩ := hread.since old hold hsame
      refine ⟨hstatus, by simp only; omega, ?_⟩
      intro hequal
      simp only at hequal
      omega
    · intro update hupdate hsame
      rw [hedited] at hupdate
      cases hupdate
      exact hspec.trans (hread.version old hold hsame)
    · intro update hupdate hother
      rw [hedited] at hupdate
      cases hupdate
      exact hread.created old hold hother
  · refine ⟨huid ▸ hread.uid, ?_, ?_, ?_⟩ <;> rw [hnone] <;> exact fun _ hnot => nomatch hnot
  refine ⟨by rw [huid]; exact Nat.lt_succ_of_lt hread.uid, ?_, ?_, ?_⟩
  · intro update hupdate hsame
    rw [hcreated] at hupdate
    cases hupdate
    exact absurd hsame (Nat.ne_of_gt hread.uid)
  · intro update hupdate hsame
    rw [hcreated] at hupdate
    cases hupdate
    exact absurd hsame (Nat.ne_of_gt hread.uid)
  · intro update hupdate _
    rw [hcreated] at hupdate
    cases hupdate
    rfl

theorem ReadOf.before (hread : ReadOf read world) {change : Change}
    (hafter : (world.change change).update = some read) : world.update = some read := by
  rcases change_update world change with ⟨hsame, -⟩ | ⟨old, spec, hold, -, hedited, -⟩ |
    ⟨hnone, -⟩ | ⟨spec, -, hcreated, -⟩
  · rw [← hsame, hafter]
  · rw [hedited] at hafter
    have hequal := Option.some.inj hafter
    obtain ⟨-, hversion, -⟩ := hread.since old hold (by rw [← hequal])
    rw [← hequal] at hversion
    simp only at hversion
    omega
  · rw [hnone] at hafter
    cases hafter
  · rw [hcreated] at hafter
    have hequal := Option.some.inj hafter
    have huid := hread.uid
    rw [← hequal] at huid
    exact absurd huid (lt_irrefl _)

theorem UidsOk.change (huids : UidsOk world) (change : Change) : UidsOk (world.change change) := by
  intro update hupdate
  rcases change_update world change with ⟨hsame, huid⟩ | ⟨old, spec, hold, -, hedited, huid⟩ |
    ⟨hnone, huid⟩ | ⟨spec, -, hcreated, huid⟩
  · rw [huid]
    exact huids update (hsame ▸ hupdate)
  · rw [hedited] at hupdate
    cases hupdate
    rw [huid]
    exact huids old hold
  · rw [hnone] at hupdate
    cases hupdate
  · rw [hcreated] at hupdate
    cases hupdate
    rw [huid]
    exact Nat.lt_succ_self _

theorem readOf_current {update : Update} (huids : UidsOk world)
    (hupdate : world.update = some update) : ReadOf update world where
  uid := huids update hupdate
  since := by
    intro other hother _
    rw [hupdate] at hother
    cases hother
    exact ⟨rfl, le_refl _, fun _ => rfl⟩
  version := by
    intro other hother _
    rw [hupdate] at hother
    cases hother
    rfl
  created := by
    intro other hother hnot
    rw [hupdate] at hother
    cases hother
    exact absurd rfl hnot

theorem ReadOf.current (hread : ReadOf read world) {update : Update}
    (hupdate : world.update = some update)
    (hsame : update.uid = read.uid ∧ update.resourceVersion = read.resourceVersion) :
    update = read :=
  (hread.since update hupdate hsame.1).2.2 hsame.2

end Changes

section Calls

variable {read : Update} {world : World} {request : Request} {outcome : Outcome}

def Request.isWrite : Request → Bool
  | .writeStatus _ _ => true
  | _ => false

theorem handle_update (hrequest : request.isWrite = false) (outcome : Outcome) (world : World) :
    (World.handle request outcome world).2.update = world.update ∧
      (World.handle request outcome world).2.nextUid = world.nextUid := by
  cases request with
  | patch name patch working =>
    cases outcome <;>
      simp [World.handle, World.patched, World.logSent, setNode_update, setNode_nextUid]
  | writeStatus read status => cases hrequest
  | listUpdates | listNodes now | listOrphans | resolve version | sign payload
  | drain node => exact ⟨rfl, rfl⟩

theorem ReadOf.handle (hread : ReadOf read world) (hrequest : request.isWrite = false)
    (outcome : Outcome) : ReadOf read (World.handle request outcome world).2 := by
  obtain ⟨hupdate, huid⟩ := handle_update hrequest outcome world
  exact ⟨huid ▸ hread.uid, hupdate ▸ hread.since, hupdate ▸ hread.version, hupdate ▸ hread.created⟩

theorem UidsOk.handle (huids : UidsOk world) (hrequest : request.isWrite = false)
    (outcome : Outcome) : UidsOk (World.handle request outcome world).2 := by
  obtain ⟨hupdate, huid⟩ := handle_update hrequest outcome world
  intro update hsome
  rw [huid]
  exact huids update (hupdate ▸ hsome)

theorem UidsOk.written (huids : UidsOk world) (read : Update) (status : Status) :
    UidsOk (world.written read status) := by
  intro update hupdate
  obtain ⟨old, hold, rfl⟩ := Option.map_eq_some_iff.1 hupdate
  split_ifs
  · exact huids old hold
  · exact huids old hold

theorem handle_writes (hrequest : request.isWrite = false) (outcome : Outcome) (world : World) :
    (World.handle request outcome world).2.writes = world.writes := by
  cases request with
  | patch name patch working =>
    cases outcome <;> simp [World.handle, World.patched, World.logSent, setNode_writes]
  | writeStatus read status => cases hrequest
  | listUpdates | listNodes now | listOrphans | resolve version | sign payload | drain node => rfl

theorem handle_handed (request : Request) (outcome : Outcome) (world : World) :
    (World.handle request outcome world).2.handed = world.handed ∨
      ∃ name uid payload sig signer now working,
        request = .patch name (.handover uid payload sig signer now) working ∧
        (World.handle request outcome world).2.handed = (uid, name) :: world.handed := by
  cases request with
  | patch name patch working =>
    have hpatched : ((world.logSent name patch working).patched name patch).handed = world.handed ∨
        ∃ name' uid payload sig signer now working',
          Request.patch name patch working =
            .patch name' (.handover uid payload sig signer now) working' ∧
          ((world.logSent name patch working).patched name patch).handed =
            (uid, name') :: world.handed := by
      cases patch with
      | handover uid payload sig signer now =>
        simp only [World.patched]
        split_ifs
        · exact .inr ⟨name, uid, payload, sig, signer, now, working, rfl, rfl⟩
        · exact .inl rfl
      | cordon | release uncordon | settle now | unsettle | orphan read uncordon => exact .inl rfl
    cases outcome with
    | done | unanswered => exact hpatched
    | lost | unneeded | resolved answer | signed sig signer
    | drained remaining bare => exact .inl rfl
  | writeStatus read status => cases outcome <;> exact .inl rfl
  | listUpdates | listNodes now | listOrphans | resolve version | sign payload
  | drain node => exact .inl rfl

end Calls

def Request.isOrphan : Request → Bool
  | .listOrphans => true
  | .patch _ (.orphan _ _) _ => true
  | _ => false

theorem releaseEach_orphans (current : Option Update) (nodes : List Node) :
    (releaseEach current nodes).All (fun _ _ => True) (fun request => request.isOrphan = true)
      fun _ => True := by
  induction nodes with
  | nil => trivial
  | cons node nodes ih =>
    unfold releaseEach
    split_ifs
    · exact ⟨rfl, fun _ _ => ih⟩
    · exact ih

theorem releaseOrphans_orphans (current : Option Update) :
    (releaseOrphans current).All (fun _ _ => True) (fun request => request.isOrphan = true)
      fun _ => True := by
  unfold releaseOrphans
  split_ifs
  · trivial
  refine ⟨rfl, ?_⟩
  rintro (_ | nodes) -
  · trivial
  · exact releaseEach_orphans current nodes

end K3sm.Updatectl

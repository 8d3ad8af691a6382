import K3sm.Core.Run
import K3sm.Updatectl.ReadOf

/-!
# A cancelled node was never handed over

A pass hands a node over before it writes the status that says so.  Where the write is lost the
node has the release and its entry still reads as before.  The next pass hands it over again and
records it, unless the roll ends first: a cancel or a failure then leaves the entry as it reads.
-/

namespace K3sm.Updatectl

open K3sm.Core K3sm.Core.Filepath List

def endedPhase (phase : NodePhase) : Bool := throughPhase phase || phase == .failed

/-- What an entry reads once its node has been handed over. -/
def handedPhase (phase : NodePhase) : Bool := nodeSidePhase phase || endedPhase phase

theorem handedPhase_of_pending {phase : NodePhase} (hpending : isPending phase = true) :
    handedPhase phase = false := by
  cases phase <;> first | rfl | cases hpending

theorem handedPhase_of_held {phase : NodePhase} (hheld : heldPhase phase = true) :
    handedPhase phase = false := by
  cases phase <;> first | rfl | cases hheld

/-- The nodes that were handed over without the status saying so. -/
def unrecorded (world : World) (update : Update) : List Str :=
  (world.handed.filter fun handed => handed.1 == update.uid &&
    !update.status.nodes.any fun entry => entry.name == handed.2 && handedPhase entry.phase).map
    Prod.snd

/-- What a finished roll says of the nodes it was handed to. -/
structure Accounts (world : World) (update : Update) : Prop where
  cancelled : ∀ entry ∈ update.status.nodes, entry.phase = .cancelled →
    (update.uid, entry.name) ∉ world.handed
  ended : finished update.status = true → ∀ name, (update.uid, name) ∈ world.handed →
    ∃ entry ∈ update.status.nodes, entry.name = name ∧ endedPhase entry.phase = true

section Condition

variable (config : Config) (update : Update) (now : Time) (nodes : List Node)

instance (entry : Entry) (node : Node) : Decidable (GivesUp config update now entry node) :=
  inferInstanceAs (Decidable (ite _ _ _))

/-- The entry is through, or its node runs the release or is at work on it. -/
def passes (entry : Entry) : Bool :=
  throughPhase entry.phase ||
    match nodes.find? fun node => node.name == entry.name with
    | none => false
    | some node =>
      if isPending entry.phase then onTarget node.kubeletVersion update.spec.version
      else nodeSidePhase entry.phase && !decide (GivesUp config update now entry node)

/-- The nodes whose entries a pass comes to while none before them fails. -/
def reached (pass : Entry → Bool) : List Entry → List Str
  | [] => []
  | entry :: rest => entry.name :: if pass entry then reached pass rest else []

def planned : Except PlanError (List Entry) :=
  if update.status.nodes = [] then plan config update.spec nodes else .ok update.status.nodes

def comesTo : List Str :=
  match planned config update nodes with
  | .error _ => []
  | .ok entries => reached (passes config update now nodes) entries

end Condition

def AdvanceError.isFailure : AdvanceError → Bool
  | .rollFailure _ => true
  | .transient => false

/-- A pass over an Update handed to a node the status does not tell of: it is not cancelled,
the release can still be resolved, and the pass comes to the node's entry. -/
def Resumes (config : Config) (now : Time) (world : World) : Request → Outcome → Prop
  | .listUpdates, .done => ∀ update ∈ world.update, unrecorded world update ≠ [] →
      update.spec.cancel = false ∧
        update.spec.pinRequired.all (fun pinned => pinned == update.spec.version) = true
  | .listNodes _, .done => ∀ update ∈ world.update,
      ∀ name ∈ unrecorded world update, name ∈ comesTo config update now world.nodes
  | .resolve version, outcome => ∀ update ∈ world.update, unrecorded world update ≠ [] →
      (afterResolve update now update.status.resolution
        (World.handle (.resolve version) outcome world).1).2.all (fun error =>
          !error.isFailure) = true
  | _, _ => True

/-- A pass goes on with the nodes handed over that the status does not tell of. -/
def Resumed (config : Config) (world : World) : Step → Prop
  | .change _ => True
  | .pass now events =>
    EventsMeet api (fun _ _ => True) (Resumes config now) (reconcile config now) world events

instance (config : Config) (now : Time) (world : World) : (request : Request) →
    (outcome : Outcome) → Decidable (Resumes config now world request outcome)
  | .listUpdates, .done | .listNodes _, .done | .resolve _, _ =>
    inferInstanceAs (Decidable (∀ _ ∈ _, _))
  | .listUpdates, .lost | .listUpdates, .unanswered | .listUpdates, .unneeded
  | .listUpdates, .resolved _ | .listUpdates, .signed .. | .listUpdates, .drained ..
  | .listNodes _, .lost | .listNodes _, .unanswered | .listNodes _, .unneeded
  | .listNodes _, .resolved _ | .listNodes _, .signed .. | .listNodes _, .drained ..
  | .listOrphans, _ | .sign _, _ | .drain _, _ | .patch .., _ | .writeStatus .., _ =>
    .isTrue trivial

instance (config : Config) (world : World) : (step : Step) → Decidable (Resumed config world step)
  | .change _ => .isTrue trivial
  | .pass _ _ => inferInstanceAs (Decidable (EventsMeet ..))

theorem mem_unrecorded {world : World} {update : Update} {name : Str} :
    name ∈ unrecorded world update ↔ (update.uid, name) ∈ world.handed ∧
      ∀ entry ∈ update.status.nodes, entry.name = name → handedPhase entry.phase = false := by
  simp only [unrecorded, mem_map, mem_filter, Bool.and_eq_true, beq_iff_eq,
    Bool.not_eq_true', any_eq_false, not_and, Bool.not_eq_true]
  constructor
  · rintro ⟨⟨uid, other⟩, ⟨hmem, rfl, hentries⟩, rfl⟩
    exact ⟨hmem, hentries⟩
  · rintro ⟨hmem, hentries⟩
    exact ⟨(update.uid, name), ⟨hmem, rfl, hentries⟩, rfl⟩

structure CancelInv (config : Config) (world : World) : Prop extends Sound config world where
  uids : UidsOk world
  ended : ∀ update, world.update = some update → finished update.status = true →
    ∀ name, (update.uid, name) ∈ world.handed →
    ∃ entry ∈ update.status.nodes, entry.name = name ∧ endedPhase entry.phase = true

theorem Underway.not_cancelled {entries : List Entry} (hunderway : Underway entries) :
    ∀ entry ∈ entries, entry.phase ≠ .cancelled := by
  induction entries with
  | nil => simp
  | cons first rest ih =>
    rcases hunderway with ⟨hthrough, hrest⟩ | ⟨hfirst, hpending⟩
    · refine forall_mem_cons.2 ⟨?_, ih hrest⟩
      intro hcancelled
      rw [hcancelled] at hthrough
      cases hthrough
    refine forall_mem_cons.2 ⟨?_, ?_⟩
    · rcases hfirst with hactive | hfirst
      · exact (activePhase_not hactive).2.2.2
      · rw [hfirst]
        decide
    · intro later hlater
      rw [hpending later hlater]
      decide

theorem CancelInv.accounts {config : Config} {world : World} (hinv : CancelInv config world)
    {update : Update} (hupdate : world.update = some update) : Accounts world update where
  cancelled := by
    intro entry hentry hcancelled hhanded
    have hstatus := hinv.status update hupdate
    have hfinished : finished update.status = true := by
      rw [← Bool.not_eq_false]
      intro hnot
      exact (hstatus.underway hnot).not_cancelled entry hentry hcancelled
    obtain ⟨other, hother, hname, hended⟩ := hinv.ended update hupdate hfinished _ hhanded
    rw [inj_on_of_nodup_map hstatus.names hother hentry hname, hcancelled] at hended
    cases hended
  ended := hinv.ended update hupdate

theorem CancelInv.change {config : Config} {world : World} (hinv : CancelInv config world)
    (change : Change) : CancelInv config (world.change change) := by
  refine ⟨hinv.toSound.change change, hinv.uids.change change, ?_⟩
  rw [change_handed]
  rcases change_update world change with ⟨hsame, -⟩ | ⟨old, spec, hold, -, hedited, -⟩ |
    ⟨hnone, -⟩ | ⟨spec, -, hcreated, -⟩
  · rw [hsame]
    exact hinv.ended
  · intro update hupdate
    rw [hedited] at hupdate
    cases hupdate
    exact hinv.ended old hold
  · intro update hupdate
    rw [hnone] at hupdate
    cases hupdate
  · intro update hupdate hfinished
    rw [hcreated] at hupdate
    cases hupdate
    cases hfinished

/-! ## What a pass knows of the handovers -/

def Base (config : Config) (read : Update) (world : World) : Prop :=
  CancelInv config world ∧ ReadOf read world

/-- The nodes of `owing` were handed over and all that were are of `had`; `live` is known
to hold where the Update is as it was read. -/
structure Handed (read : Update) (owing : List Str) (had : Str → Prop) (live : Prop)
    (world : World) : Prop where
  owed : ∀ name ∈ owing, (read.uid, name) ∈ world.handed
  had : ∀ name, (read.uid, name) ∈ world.handed → had name
  live : world.update = some read → live

section Calls

variable {config : Config} {read : Update} {owing : List Str} {had wider : Str → Prop}
  {live : Prop} {world : World} {now : Time}

theorem base_stable {rely : World → Change → Prop} :
    Stable api rely (fun _ => True) (Base config read) :=
  fun _ change _ _ hbase => ⟨hbase.1.change change, hbase.2.change change⟩

theorem handed_stable {rely : World → Change → Prop} :
    Stable api rely (Base config read) (Handed read owing had live) := by
  intro world change hbase _ hhanded
  refine ⟨?_, ?_, fun hafter => hhanded.live (hbase.2.before hafter)⟩
  · rw [api, change_handed]
    exact hhanded.owed
  · rw [api, change_handed]
    exact hhanded.had

theorem Handed.mono (hhanded : Handed read owing had live world)
    (hwider : ∀ name, had name → wider name) : Handed read owing wider live world :=
  ⟨hhanded.owed, fun name hname => hwider name (hhanded.had name hname), hhanded.live⟩

def HandsTo (read : Update) (had : Str → Prop) (request : Request) : Prop :=
  request.isWrite = false ∧ ∀ name uid payload sig signer time working,
    request = .patch name (.handover uid payload sig signer time) working →
    uid = read.uid ∧ had name

theorem CancelInv.plain (hinv : CancelInv config world) {request : Request}
    (hrequest : request.isWrite = false) (outcome : Outcome)
    (hsame : (World.handle request outcome world).2.handed = world.handed) :
    CancelInv config (World.handle request outcome world).2 := by
  refine ⟨?_, hinv.uids.handle hrequest outcome, ?_⟩
  · refine hinv.toSound.handle outcome ?_
    rintro written status rfl
    cases hrequest
  · rw [(handle_update hrequest outcome world).1, hsame]
    exact hinv.ended

theorem CancelInv.handle (hinv : CancelInv config world) (hread : ReadOf read world)
    (hunfinished : finished read.status = false) {request : Request}
    (hrequest : HandsTo read had request) (outcome : Outcome) :
    CancelInv config (World.handle request outcome world).2 := by
  rcases handle_handed request outcome world with hsame |
    ⟨name, uid, payload, sig, signer, time, working, hpatch, hadded⟩
  · exact hinv.plain hrequest.1 outcome hsame
  obtain ⟨rfl, -⟩ := hrequest.2 name uid payload sig signer time working hpatch
  refine ⟨?_, hinv.uids.handle hrequest.1 outcome, ?_⟩
  · refine hinv.toSound.handle outcome ?_
    rintro written status rfl
    cases hrequest.1
  rw [(handle_update hrequest.1 outcome world).1, hadded]
  intro update hsome hfinished other hother
  rcases mem_cons.1 hother with hnew | hold
  · -- the roll that hands over is not finished
    have hstatus := (hread.since update hsome (congrArg Prod.fst hnew)).1
    rw [hstatus, hunfinished] at hfinished
    cases hfinished
  · exact hinv.ended update hsome hfinished other hold

theorem Handed.handle (hhanded : Handed read owing had live world) {request : Request}
    (hrequest : HandsTo read had request) (outcome : Outcome) :
    Handed read owing had live (World.handle request outcome world).2 := by
  have hlive : (World.handle request outcome world).2.update = some read → live := by
    rw [(handle_update hrequest.1 outcome world).1]
    exact hhanded.live
  rcases handle_handed request outcome world with hsame |
    ⟨name, uid, payload, sig, signer, time, working, hpatch, hadded⟩
  · exact ⟨by rw [hsame]; exact hhanded.owed, by rw [hsame]; exact hhanded.had, hlive⟩
  obtain ⟨rfl, hname⟩ := hrequest.2 name uid payload sig signer time working hpatch
  refine ⟨?_, ?_, hlive⟩
  · rw [hadded]
    exact fun other hother => mem_cons_of_mem _ (hhanded.owed other hother)
  · rw [hadded]
    intro other hother
    rcases mem_cons.1 hother with hnew | hold
    · have hsame : other = name := congrArg Prod.snd hnew
      rwa [hsame]
    · exact hhanded.had other hold

theorem handsTo_safe {Result : Type} {post : Result → Prop} {program : Act Result}
    (hunfinished : finished read.status = false)
    (hall : program.All AnswersNode (HandsTo read had) post) (hbase : Base config read world)
    (hhanded : Handed read owing had live world) :
    program.Safe api (fun _ _ => True) (Resumes config now) (Base config read)
      (fun result world => post result ∧ Handed read owing had live world) world := by
  refine Prog.Safe.frame base_stable handed_stable hbase hhanded ?_
  refine hall.safe ?_ ?_ world
  · intro world request outcome hinv _
    exact answersNode_of_inOrder config request _ (hinv.1.1.toSound.answers request outcome)
  · intro world request outcome hinv hrequest _
    exact ⟨⟨hinv.1.1.handle hinv.1.2 hunfinished hrequest outcome,
      hinv.1.2.handle hrequest.1 outcome⟩, hinv.2.handle hrequest outcome⟩

theorem handsTo_of_forEntry {settles : Prop} {name : Str} {work : Entry → List Entry}
    {request : Request} (hrequest : ForEntry read now settles name work request)
    (hname : had name) : HandsTo read had request := by
  refine ⟨?_, ?_⟩
  · cases request <;> first | rfl | exact hrequest.elim
  rintro other uid payload sig signer time working rfl
  obtain ⟨rfl, hpatch, -⟩ := hrequest
  exact ⟨hpatch.1, hname⟩

end Calls

/-- What a pass over an entry leaves: only its node was handed over, and none where the roll
fails for the release or the entry is cancelled. -/
structure Advancing (read : Update) (owing : List Str) (had : Str → Prop) (live : Prop)
    (name : Str) (result : Advanced) (world : World) : Prop where
  handed : Handed read owing (fun other => had other ∨ other = name) live world
  same : (result.error.any AdvanceError.isFailure = true ∨ result.entry.phase = .cancelled) →
    Handed read owing had live world
  failure : result.error.any AdvanceError.isFailure = true → world.update = some read → owing = []

section Entry

variable {config : Config} {read : Update} {owing : List Str} {had : Str → Prop} {live : Prop}
  {world : World} {now : Time} {work : Entry → List Entry} {entry : Entry} {node : Option Node}

variable {result : Advanced} {resolution : Resolution}

theorem advancing_of_not
    (hhanded : Handed read owing (fun other => had other ∨ other = entry.name) live world)
    (herror : result.error.any AdvanceError.isFailure = false)
    (hphase : result.entry.phase ≠ .cancelled) :
    Advancing read owing had live entry.name result world where
  handed := hhanded
  same := by
    rintro (hfailure | hcancelled)
    · rw [herror] at hfailure
      cases hfailure
    · exact absurd hcancelled hphase
  failure := by
    intro hfailure
    rw [herror] at hfailure
    cases hfailure

theorem advancing_of_same (hhanded : Handed read owing had live world)
    (hfailure : result.error.any AdvanceError.isFailure = true → world.update = some read →
      owing = []) : Advancing read owing had live entry.name result world where
  handed := hhanded.mono fun _ hname => .inl hname
  same := fun _ => hhanded
  failure := hfailure

theorem Advances.not_failure {cancel : Bool} {name : Str} {phase : NodePhase} {ripe fails : Prop}
    (hadvances : Advances cancel name phase resolution ripe fails result)
    (hphase : isPending phase = false) : result.error.any AdvanceError.isFailure = false := by
  cases herror : result.error with
  | none => rfl
  | some error =>
    cases error with
    | transient => rfl
    | rollFailure pin =>
      rw [(hadvances.failure pin herror).1] at hphase
      cases hphase

theorem hold_cancelled_releases {node : Node} (hcancel : read.spec.cancel = true) :
    (hold config read now work resolution entry node).All AnswersNode (HandsTo read had)
      fun result => result.error.any AdvanceError.isFailure = false := by
  unfold hold
  rw [if_pos hcancel]
  refine ⟨⟨rfl, nofun⟩, ?_⟩
  rintro (_ | _) -
  · rfl
  · rfl

theorem proceed_advancing (entry : Entry) (hunfinished : finished read.status = false)
    (hnode : ∀ found, node = some found → found.name = entry.name)
    (hphase : activePhase entry.phase = true) (hbase : Base config read world)
    (hhanded : Handed read owing had live world) :
    (proceed config read now work resolution entry node).Safe api (fun _ _ => True)
      (Resumes config now) (Base config read) (Advancing read owing had live entry.name)
      world := by
  by_cases hcancelled : read.spec.cancel = true ∧ heldPhase entry.phase = true
  · obtain ⟨hcancel, hheld⟩ := hcancelled
    have hphase : entry.phase = .cordoning ∨ entry.phase = .draining := by
      cases hentry : entry.phase <;> simp_all [heldPhase]
    have hreleases : (proceed config read now work resolution entry node).All AnswersNode
        (HandsTo read had) fun result => result.error.any AdvanceError.isFailure = false := by
      cases node with
      | none => rfl
      | some found =>
        simp only [proceed]
        rw [if_pos hphase]
        exact hold_cancelled_releases hcancel
    refine (handsTo_safe hunfinished hreleases hbase hhanded).mono ?_
    intro result world _ hpost
    refine advancing_of_same hpost.2 fun hfailure => ?_
    rw [hpost.1] at hfailure
    cases hfailure
  have hall : (proceed config read now work resolution entry node).All AnswersNode
      (HandsTo read fun other => had other ∨ other = entry.name)
      (Advances read.spec.cancel entry.name entry.phase resolution (SeenRipe read now node)
        (SeenFailing config read now entry node)) :=
    (proceed_all entry hnode hphase).widen (fun _ _ hvalid => hvalid)
      fun _ hrequest => handsTo_of_forEntry hrequest (.inr rfl)
  refine (handsTo_safe hunfinished hall hbase (hhanded.mono fun _ hname => .inl hname)).mono ?_
  intro result world _ hpost
  refine advancing_of_not hpost.2 (hpost.1.not_failure (activePhase_not hphase).1) ?_
  intro hphase
  exact hcancelled (hpost.1.cancelled hphase)

theorem ensureResolved_resumes
    (howing : ∀ name ∈ owing, ∀ entry ∈ read.status.nodes, entry.name = name →
      handedPhase entry.phase = false)
    (hpin : owing ≠ [] →
      read.spec.pinRequired.all (fun pinned => pinned == read.spec.version) = true)
    (hbase : Base config read world) (hhanded : Handed read owing had live world) :
    (ensureResolved read now read.status.resolution).Safe api (fun _ _ => True)
      (Resumes config now) (Base config read)
      (fun answer world => Handed read owing had
        (live ∧ (answer.2.any AdvanceError.isFailure = true → owing = [])) world) world := by
  have hdone : ∀ (answer : Resolution × Option AdvanceError) (world : World),
      Base config read world → Handed read owing had live world →
      (world.update = some read → answer.2.any AdvanceError.isFailure = true → owing = []) →
      (Prog.done answer : Act _).Safe api (fun _ _ => True) (Resumes config now)
        (Base config read) (fun answer world => Handed read owing had
          (live ∧ (answer.2.any AdvanceError.isFailure = true → owing = [])) world) world := by
    intro answer world hbase hhanded hfailure
    refine Prog.safe_done base_stable handed_stable hbase ?_
    exact ⟨hhanded.owed, hhanded.had, fun hread => ⟨hhanded.live hread, hfailure hread⟩⟩
  unfold ensureResolved
  split_ifs with hresolved hmismatch
  · exact hdone _ world hbase hhanded nofun
  · refine hdone _ world hbase hhanded fun _ _ => ?_
    by_contra hsome
    have hall := hpin hsome
    cases hpinned : read.spec.pinRequired with
    | none => simp [hpinned] at hmismatch
    | some pinned => simp_all
  simp only [Prog.ask_bind]
  refine Prog.safe_call base_stable handed_stable hbase hhanded ?_
  intro later hlater hhanded outcome hallow
  refine ⟨hlater, hdone _ later hlater hhanded ?_⟩
  intro hread hfailure
  by_contra hsome
  obtain ⟨name, hname⟩ := exists_mem_of_ne_nil owing hsome
  have hunrecorded : unrecorded later read ≠ [] :=
    ne_nil_of_mem (mem_unrecorded.2 ⟨hhanded.owed name hname, howing name hname⟩)
  have hall := hallow read hread hunrecorded
  simp only [api] at hfailure
  cases herror : (afterResolve read now read.status.resolution
      (World.handle (.resolve read.spec.version) outcome later).1).2 with
  | none => simp [herror] at hfailure
  | some error => simp_all

theorem advance_advancing (hunfinished : finished read.status = false)
    (howing : ∀ name ∈ owing, ∀ entry ∈ read.status.nodes, entry.name = name →
      handedPhase entry.phase = false)
    (hpin : owing ≠ [] →
      read.spec.pinRequired.all (fun pinned => pinned == read.spec.version) = true)
    (hnode : ∀ found, node = some found → found.name = entry.name)
    (hphase : activePhase entry.phase = true ∨ entry.phase = .pending)
    (hbase : Base config read world) (hhanded : Handed read owing had live world) :
    (advance config read now work read.status.resolution entry node).Safe api (fun _ _ => True)
      (Resumes config now) (Base config read) (Advancing read owing had live entry.name)
      world := by
  have hdone : ∀ result : Advanced, result.error = none →
      (Prog.done result : Act _).Safe api (fun _ _ => True) (Resumes config now)
        (Base config read) (Advancing read owing had live entry.name) world := by
    intro result hnone later hothers _
    have hlater := (Stable.others handed_stable base_stable hothers hbase hhanded).2
    exact advancing_of_same hlater fun hfailure => by simp [hnone] at hfailure
  unfold advance
  split_ifs with hpending
  · cases node with
    | none => exact hdone _ rfl
    | some found =>
      simp only
      split_ifs
      · exact hdone _ rfl
      apply (ensureResolved_resumes howing hpin hbase hhanded).bind hbase
      rintro ⟨resolution, error⟩ world hbase hresolved
      have hhanded : Handed read owing had live world :=
        ⟨hresolved.owed, hresolved.had, fun hread => (hresolved.live hread).1⟩
      cases error with
      | some error =>
        intro later hothers _
        have hlater := (Stable.others handed_stable base_stable hothers hbase hresolved).2
        exact advancing_of_same
          ⟨hlater.owed, hlater.had, fun hread => (hlater.live hread).1⟩
          fun hfailure hread => (hlater.live hread).2 hfailure
      | none =>
        exact proceed_advancing { entry with
          from' := fromRelease found.kubeletVersion, startedAt := some now
          phase := .cordoning } hunfinished hnode rfl hbase hhanded
  · refine proceed_advancing entry hunfinished hnode (hphase.resolve_right ?_) hbase hhanded
    intro hnot
    rw [hnot] at hpending
    exact hpending rfl

end Entry

/-- Where the pass finds a node that was handed over: among the entries it has passed, in
the status, or still to come. -/
def Tracked (config : Config) (read : Update) (now : Time) (nodes : List Node) (owing : List Str)
    (live : Prop) (had : Str → Prop) (front entries : List Entry) : Prop :=
  ∀ name, had name →
    (∃ entry ∈ front, entry.name = name ∧ endedPhase entry.phase = true) ∨
    (∃ entry ∈ entries, entry.name = name ∧ handedPhase entry.phase = true) ∨
    (name ∈ owing ∧ (live → name ∈ reached (passes config read now nodes) entries))

def Ends (read : Update) (status : Status) (world : World) : Prop :=
  world.update = some read → finished status = true → ∀ name, (read.uid, name) ∈ world.handed →
    ∃ entry ∈ status.nodes, entry.name = name ∧ endedPhase entry.phase = true

section Loop

variable {config : Config} {read : Update} {owing : List Str} {had : Str → Prop} {live : Prop}
  {world : World} {now : Time} {nodes : List Node} {front rest : List Entry} {entry : Entry}

section

variable (htracked : Tracked config read now nodes owing live had front (entry :: rest))

include htracked

theorem Tracked.pass {current : Entry} (hname : current.name = entry.name)
    (hended : endedPhase current.phase = true) :
    Tracked config read now nodes owing live (fun name => had name ∨ name = entry.name)
      (front ++ [current]) rest := by
  have hcurrent : ∀ name, name = entry.name →
      ∃ passed ∈ front ++ [current], passed.name = name ∧ endedPhase passed.phase = true :=
    fun name hsame => ⟨current, by simp, hname.trans hsame.symm, hended⟩
  rintro name (hhad | hsame)
  · rcases htracked name hhad with ⟨passed, hpassed, hfront⟩ | ⟨next, hnext, hentry⟩ |
      ⟨howing, hreached⟩
    · exact .inl ⟨passed, mem_append_left _ hpassed, hfront⟩
    · rcases mem_cons.1 hnext with rfl | hrest
      · exact .inl (hcurrent name hentry.1.symm)
      · exact .inr (.inl ⟨next, hrest, hentry⟩)
    by_cases hsame : name = entry.name
    · exact .inl (hcurrent name hsame)
    refine .inr (.inr ⟨howing, fun hlive => ?_⟩)
    rcases mem_cons.1 (hreached hlive) with hnot | hlater
    · exact absurd hnot hsame
    split_ifs at hlater
    · exact hlater
    · cases hlater
  · exact .inl (hcurrent name hsame)

theorem Tracked.stop (hentry : handedPhase entry.phase = false)
    (hrest : ∀ later ∈ rest, later.phase = .pending) (hnone : owing = []) (stopped : List Entry) :
    ∀ name, had name → ∃ ended ∈ front ++ stopped, ended.name = name ∧
      endedPhase ended.phase = true := by
  intro name hhad
  rcases htracked name hhad with ⟨passed, hpassed, hfront⟩ | ⟨next, hnext, -, hphase⟩ | ⟨howing, -⟩
  · exact ⟨passed, mem_append_left _ hpassed, hfront⟩
  · rcases mem_cons.1 hnext with rfl | hlater
    · rw [hentry] at hphase
      cases hphase
    · rw [hrest next hlater] at hphase
      cases hphase
  · rw [hnone] at howing
    cases howing

theorem Tracked.fail (hrest : ∀ later ∈ rest, later.phase = .pending)
    (hpasses : passes config read now nodes entry = false) {current : Entry}
    (hname : current.name = entry.name) (hended : endedPhase current.phase = true) (hlive : live) :
    ∀ name, had name ∨ name = entry.name → ∃ ended ∈ front ++ current :: rest, ended.name = name ∧
      endedPhase ended.phase = true := by
  have hcurrent : ∀ name, name = entry.name →
      ∃ passed ∈ front ++ current :: rest, passed.name = name ∧ endedPhase passed.phase = true :=
    fun name hsame => ⟨current, by simp, hname.trans hsame.symm, hended⟩
  rintro name (hhad | hsame)
  · rcases htracked name hhad with ⟨passed, hpassed, hfront⟩ | ⟨next, hnext, hsame, hphase⟩ |
      ⟨-, hreached⟩
    · exact ⟨passed, mem_append_left _ hpassed, hfront⟩
    · rcases mem_cons.1 hnext with rfl | hlater
      · exact hcurrent name hsame.symm
      · rw [hrest next hlater] at hphase
        cases hphase
    · rcases mem_cons.1 (hreached hlive) with hsame | hlater
      · exact hcurrent name hsame
      · rw [hpasses] at hlater
        cases hlater
  · exact hcurrent name hsame

end

theorem ends_done {rolled : Rolled} (hbase : Base config read world)
    (hhanded : Handed read owing had live world)
    (hended : live → finished (Status.ended rolled) = true → ∀ name, had name →
      ∃ entry ∈ rolled.nodes, entry.name = name ∧ endedPhase entry.phase = true) :
    (Prog.done rolled : Act Rolled).Safe api (fun _ _ => True) (Resumes config now)
      (Base config read) (fun rolled world => Ends read (Status.ended rolled) world) world := by
  intro later hothers _ hread hfinished name hname
  have hlater := (Stable.others handed_stable base_stable hothers hbase hhanded).2
  exact hended (hlater.live hread) hfinished name (hlater.had name hname)

theorem advance_skips {work : Entry → List Entry} {resolution : Resolution} {found : Node}
    (hpending : isPending entry.phase = true)
    (htarget : onTarget found.kubeletVersion read.spec.version = true) :
    advance config read now work resolution entry (some found) =
      .done ⟨entry.finish now .skipped, resolution, none⟩ := by
  simp [advance, hpending, htarget]

theorem not_passes_of_failed {result : Advanced}
    (hphase : activePhase entry.phase = true ∨ entry.phase = .pending)
    (hskips : ¬ (isPending entry.phase = true ∧ ∃ found,
      nodes.find? (fun node => node.name == entry.name) = some found ∧
        onTarget found.kubeletVersion read.spec.version = true))
    (hresult : Advances read.spec.cancel entry.name entry.phase read.status.resolution
      (SeenRipe read now (nodes.find? fun node => node.name == entry.name))
      (SeenFailing config read now entry (nodes.find? fun node => node.name == entry.name)) result)
    (hfailed : result.entry.phase = .failed) : passes config read now nodes entry = false := by
  have hthrough : throughPhase entry.phase = false := by
    rcases hphase with hactive | hpending
    · exact (activePhase_not hactive).2.1
    · rw [hpending]
      rfl
  rw [passes, hthrough, Bool.false_or]
  cases hfound : nodes.find? fun node => node.name == entry.name with
  | none => rfl
  | some found =>
    simp only
    split_ifs with hpending
    · rw [← Bool.not_eq_true]
      exact fun htarget => hskips ⟨hpending, found, hfound, htarget⟩
    by_cases hside : nodeSidePhase entry.phase = true
    · have hwatched := (hresult.watched hside).phase
      rw [hfailed, hfound] at hwatched
      rcases hwatched with hnot | ⟨-, ⟨hnot, -⟩ | ⟨-, hgives⟩⟩
      · cases hnot
      · cases hnot
      · simp [hgives found rfl]
    · simp [hside]

theorem rollEntries_ends (entries : List Entry) (hunfinished : finished read.status = false)
    (howing : ∀ name ∈ owing, ∀ entry ∈ read.status.nodes, entry.name = name →
      handedPhase entry.phase = false)
    (hcalm : owing ≠ [] → read.spec.cancel = false ∧
      read.spec.pinRequired.all (fun pinned => pinned == read.spec.version) = true)
    (hentries : Underway entries)
    (htracked : Tracked config read now nodes owing live had front entries)
    (hbase : Base config read world) (hhanded : Handed read owing had live world) :
    (rollEntries config read now nodes read.status.resolution front entries).Safe api
      (fun _ _ => True) (Resumes config now) (Base config read)
      (fun rolled world => Ends read (Status.ended rolled) world) world := by
  induction entries generalizing front had world with
  | nil =>
    refine ends_done hbase hhanded fun hlive _ name hhad => ?_
    rcases htracked name hhad with hfront | ⟨_, hnone, _⟩ | ⟨-, hreached⟩
    · exact hfront
    · cases hnone
    · cases hreached hlive
  | cons entry rest ih =>
    have hpass : ∀ (current : Entry) (world : World), current.name = entry.name →
        throughPhase current.phase = true → Underway rest → Base config read world →
        Handed read owing (fun name => had name ∨ name = entry.name) live world →
        (rollEntries config read now nodes read.status.resolution (front ++ [current]) rest).Safe
          api (fun _ _ => True) (Resumes config now) (Base config read)
          (fun rolled world => Ends read (Status.ended rolled) world) world := by
      intro current world hname hthrough hrest hbase hhanded
      exact ih hrest (htracked.pass hname (by simp [endedPhase, hthrough])) hbase hhanded
    have hwider : Handed read owing (fun name => had name ∨ name = entry.name) live world :=
      hhanded.mono fun _ hname => .inl hname
    unfold rollEntries
    rcases hentries with ⟨hthrough, hrest⟩ | ⟨hphase, hrest⟩
    · rw [if_pos (by rw [← or_assoc]; exact .inl (through_iff.1 hthrough))]
      exact hpass entry world rfl hthrough hrest hbase hwider
    have hnot := next_not hphase
    rw [if_neg (by simp [hnot]), if_neg hnot.2.2.2]
    split_ifs with hcancel
    · have hpending := handedPhase_of_pending hcancel.1
      have hnone : owing = [] := by
        by_contra hsome
        rw [(hcalm hsome).1] at hcancel
        cases hcancel.2
      exact ends_done hbase hhanded fun _ _ =>
        htracked.stop hpending hrest hnone (cancelFrom (entry :: rest))
    by_cases hskips : isPending entry.phase = true ∧ ∃ found,
      nodes.find? (fun node => node.name == entry.name) = some found ∧
        onTarget found.kubeletVersion read.spec.version = true
    · obtain ⟨hpending, found, hfound, htarget⟩ := hskips
      simp only [hfound, advance_skips hpending htarget]
      exact hpass (entry.finish now .skipped) world rfl rfl (underway_of_pending hrest) hbase
        hwider
    have hnode : ∀ found, nodes.find? (fun node => node.name == entry.name) = some found →
        found.name = entry.name := by
      intro found hfound
      simpa using List.find?_some hfound
    have hadvance : (advance config read now (fun current => front ++ current :: rest)
        read.status.resolution entry (nodes.find? fun node => node.name == entry.name)).Safe
        api (fun _ _ => True) (Resumes config now) (Base config read)
        (Advancing read owing had live entry.name) world :=
      advance_advancing hunfinished howing (fun hsome => (hcalm hsome).2) hnode hphase
        hbase hhanded
    apply (hadvance.and_all
      (advance_next_all config now nodes (fun current => front ++ current :: rest)
        read.status.resolution hphase fun hpending => by simpa [hpending] using hcancel)
      fun world request outcome hinv _ => answersNode_of_inOrder config request _
        (hinv.1.toSound.answers request outcome)).bind hbase
    rintro result world hbase ⟨hadvancing, hresult⟩
    cases herror : result.error with
    | some error =>
      cases error with
      | rollFailure pin =>
        have hfailure : result.error.any AdvanceError.isFailure = true := by
          simp [herror, AdvanceError.isFailure]
        have hpending := handedPhase_of_pending (hresult.failure pin herror).1
        have hsame := hadvancing.same (.inl hfailure)
        have hnone : Handed read owing had (owing = []) world :=
          ⟨hsame.owed, hsame.had, hadvancing.failure hfailure⟩
        exact ends_done hbase hnone fun hnone _ =>
          htracked.stop hpending hrest hnone (result.entry :: rest)
      | transient =>
        exact ends_done hbase hadvancing.handed (fun _ hfalse => by cases hfalse)
    | none =>
      simp only
      split
      case h_1 hdone =>
        have hthrough : throughPhase result.entry.phase = true := by rw [hdone]; rfl
        rw [(hresult.passed hthrough).1]
        exact hpass result.entry world hresult.sameName hthrough
          (underway_of_pending hrest) hbase hadvancing.handed
      case h_2 hskipped =>
        have hthrough : throughPhase result.entry.phase = true := by rw [hskipped]; rfl
        rw [(hresult.passed hthrough).1]
        exact hpass result.entry world hresult.sameName hthrough
          (underway_of_pending hrest) hbase hadvancing.handed
      case h_3 hfailed =>
        refine ends_done hbase hadvancing.handed fun hlive _ => ?_
        exact htracked.fail hrest (not_passes_of_failed hphase hskips hresult hfailed)
          hresult.sameName (by rw [hfailed]; rfl) hlive
      case h_4 hcancelled =>
        obtain ⟨hset, hheld⟩ := hresult.cancelled hcancelled
        have hentry := handedPhase_of_held hheld
        have hnone : owing = [] := by
          by_contra hsome
          rw [(hcalm hsome).1] at hset
          cases hset
        exact ends_done hbase (hadvancing.same (.inr hcancelled)) fun _ _ =>
          htracked.stop hentry hrest hnone (result.entry :: cancelFrom rest)
      case h_5 =>
        exact ends_done hbase hadvancing.handed (fun _ hfalse => by cases hfalse)

end Loop

section Pass

variable {config : Config} {read : Update} {world : World} {now : Time} {status : Status}

theorem Ends.change (hends : Ends read status world) (hread : ReadOf read world)
    (change : Change) : Ends read status (world.change change) := by
  intro hafter
  rw [change_handed]
  exact hends (hread.before hafter)

theorem roll_ends (hbase : Base config read world)
    (hcalm : unrecorded world read ≠ [] → read.spec.cancel = false ∧
      read.spec.pinRequired.all (fun pinned => pinned == read.spec.version) = true)
    (hstatus : StatusOk config read.status) :
    (roll config read now).Safe api (fun _ _ => True) (Resumes config now) (Base config read)
      (fun status world => Ends read status world) world := by
  have hdone : ∀ (status : Status) (world : World), Base config read world →
      Ends read status world →
      (Prog.done status : Act Status).Safe api (fun _ _ => True) (Resumes config now)
        (Base config read) (fun status world => Ends read status world) world := by
    intro status world hbase hends
    exact Prog.safe_done base_stable
      (fun _ change hbase _ hends => hends.change hbase.2 change) hbase hends
  -- what was handed over when the pass began
  have hhanded : Handed read (unrecorded world read)
      (fun name => (read.uid, name) ∈ world.handed) True world :=
    ⟨fun name hname => (mem_unrecorded.1 hname).1, fun _ hname => hname, fun _ => trivial⟩
  have howing : ∀ name ∈ unrecorded world read, ∀ entry ∈ read.status.nodes, entry.name = name →
      handedPhase entry.phase = false := fun name hname => (mem_unrecorded.1 hname).2
  have hknown : ∀ name, (read.uid, name) ∈ world.handed → name ∉ unrecorded world read →
      ∃ entry ∈ read.status.nodes, entry.name = name ∧ handedPhase entry.phase = true := by
    intro name hname hnot
    by_contra hnone
    refine hnot (mem_unrecorded.2 ⟨hname, ?_⟩)
    intro entry hentry hsame
    rw [← Bool.not_eq_true]
    exact fun hphase => hnone ⟨entry, hentry, hsame, hphase⟩
  generalize unrecorded world read = owing at hhanded howing hknown hcalm
  generalize hhad : (fun name => (read.uid, name) ∈ world.handed) = had at hhanded
  have hfind : ∀ name, had name → name ∉ owing →
      ∃ entry ∈ read.status.nodes, entry.name = name ∧ handedPhase entry.phase = true := by
    rw [← hhad]
    exact hknown
  unfold roll
  by_cases hfinished : finished read.status = true
  · rw [if_pos hfinished]
    exact hdone _ world hbase fun hread => hbase.1.ended read hread
  rw [if_neg hfinished]
  simp only [Prog.ask_bind]
  refine Prog.safe_call base_stable handed_stable hbase hhanded ?_
  intro later hlater hhanded outcome hallow
  have hviewed : Base config read (later.logView now) :=
    ⟨⟨⟨hlater.1.nodes, hlater.1.status⟩, hlater.1.uids, hlater.1.ended⟩,
      ⟨hlater.2.uid, hlater.2.since, hlater.2.version, hlater.2.created⟩⟩
  refine ⟨hviewed, ?_⟩
  simp only [api, World.handle]
  by_cases hlisted : outcome = .done
  · subst hlisted
    rw [if_pos rfl]
    simp only
    have hcomes : Handed read owing had
        (∀ name ∈ owing, name ∈ comesTo config read now later.nodes) (later.logView now) := by
      refine ⟨hhanded.owed, hhanded.had, fun hread name hname => ?_⟩
      exact hallow read hread name (mem_unrecorded.2 ⟨hhanded.owed name hname, howing name hname⟩)
    have hloop : ∀ entries, planned config read later.nodes = .ok entries → Underway entries →
        (∀ name, had name → name ∉ owing →
          ∃ entry ∈ entries, entry.name = name ∧ handedPhase entry.phase = true) →
        (rollEntries config read now later.nodes read.status.resolution [] entries >>= fun rolled =>
          pure (Status.ended rolled)).Safe api (fun _ _ => True) (Resumes config now)
          (Base config read) (fun status world => Ends read status world) (later.logView now) := by
      intro entries hplanned hunderway hrecorded
      have htracked : Tracked config read now later.nodes owing
          (∀ name ∈ owing, name ∈ comesTo config read now later.nodes) had [] entries := by
        intro name hname
        by_cases howes : name ∈ owing
        · refine .inr (.inr ⟨howes, fun hlive => ?_⟩)
          have hreached := hlive name howes
          rwa [comesTo, hplanned] at hreached
        · exact .inr (.inl (hrecorded name hname howes))
      apply (rollEntries_ends entries (by simpa using hfinished) howing hcalm hunderway htracked
        hviewed hcomes).bind hviewed
      intro rolled world hbase hends
      exact hdone _ world hbase hends
    split_ifs with hempty
    · cases hplan : plan config read.spec later.nodes with
      | error cause =>
        refine hdone _ _ hviewed fun hread _ name hname => ?_
        have hnone : name ∉ owing := by
          intro howes
          have hreached := hcomes.live hread name howes
          rw [comesTo, planned, if_pos hempty, hplan] at hreached
          cases hreached
        obtain ⟨entry, hentry, -⟩ := hfind name (hcomes.had name hname) hnone
        rw [hempty] at hentry
        cases hentry
      | ok entries =>
        refine hloop entries (by rw [planned, if_pos hempty, hplan])
          (underway_of_pending (plan_spec hplan).2) ?_
        intro name hname hnot
        obtain ⟨entry, hentry, -⟩ := hfind name hname hnot
        rw [hempty] at hentry
        cases hentry
    · exact hloop read.status.nodes (by rw [planned, if_neg hempty])
        (hstatus.underway (by simpa using hfinished)) hfind
  · rw [if_neg hlisted]
    exact hdone _ _ hviewed (fun _ hfalse => by cases hfalse)

theorem CancelInv.written (hinv : CancelInv config world) (hread : ReadOf read world)
    (hends : Ends read status world) (hstatus : StatusOk config status) :
    CancelInv config (world.written read status) := by
  refine ⟨hinv.toSound.written read hstatus, hinv.uids.written read status, ?_⟩
  · intro update hupdate
    obtain ⟨old, hold, rfl⟩ := Option.map_eq_some_iff.1 hupdate
    split_ifs with hsame
    · -- a write that is accepted finds the Update as it was read
      have hequal := hread.current hold hsame
      subst hequal
      exact hends hold
    · exact hinv.ended old hold

theorem CancelInv.write (hinv : CancelInv config world) (hread : ReadOf read world)
    (hends : Ends read status world) (hstatus : StatusOk config status) (outcome : Outcome) :
    CancelInv config (World.handle (.writeStatus read status) outcome world).2 := by
  have hlogged : CancelInv config (world.logWrite read status) :=
    ⟨⟨hinv.nodes, hinv.status⟩, hinv.uids, hinv.ended⟩
  have hreadLogged : ReadOf read (world.logWrite read status) :=
    ⟨hread.uid, hread.since, hread.version, hread.created⟩
  cases outcome with
  | done | unanswered => exact hlogged.written hreadLogged hends hstatus
  | lost | unneeded | resolved answer | signed sig signer | drained remaining bare => exact hlogged

theorem releaseOrphans_cancelInv (current : Option Update) :
    (releaseOrphans current).Safe api (fun _ _ => True) (Resumes config now) (CancelInv config)
      (fun _ _ => True) world := by
  refine (releaseOrphans_orphans current).safe (fun _ _ _ _ _ => trivial) ?_ world
  intro world request outcome hinv hrequest _
  refine hinv.plain ?_ outcome ?_
  · cases request <;> first | rfl | cases hrequest
  rcases handle_handed request outcome world with hsame |
    ⟨name, uid, payload, sig, signer, time, working, rfl, -⟩
  · exact hsame
  · cases hrequest

theorem reconcile_cancelInv (now : Time) :
    (reconcile config now).Safe api (fun _ _ => True) (Resumes config now) (CancelInv config)
      (fun _ _ => True) world := by
  unfold reconcile
  simp only [Prog.ask_bind]
  intro later _ hinv outcome hallow
  refine ⟨hinv, ?_⟩
  simp only [api, World.handle]
  by_cases hlisted : outcome = .done
  · subst hlisted
    rw [if_pos rfl]
    cases hupdate : later.update with
    | none => exact releaseOrphans_cancelInv none
    | some read =>
      simp only
      have hstatus := hinv.status read hupdate
      have hroll : (roll config read now).Safe api (fun _ _ => True) (Resumes config now)
          (CancelInv config) (fun status world => Ends read status world ∧ ReadOf read world)
          later :=
        Prog.Safe.frame (fun _ change _ _ hinv => hinv.change change)
          (fun _ change _ _ hread => hread.change change) hinv (readOf_current hinv.uids hupdate)
          (roll_ends ⟨hinv, readOf_current hinv.uids hupdate⟩ (hallow read hupdate) hstatus)
      apply (hroll.and_all (roll_all hstatus) fun world request outcome hinv _ =>
        hinv.toSound.answers request outcome).bind hinv
      rintro status world hinv ⟨⟨hends, hread⟩, hwritten⟩
      have hboth : Stable api (fun _ _ => True) (CancelInv config) fun world =>
          ReadOf read world ∧ Ends read status world :=
        fun _ change _ _ hboth => ⟨hboth.1.change change, hboth.2.change hboth.1 change⟩
      refine Prog.safe_call (fun _ change _ _ hinv => hinv.change change) hboth hinv
        ⟨hread, hends⟩ ?_
      intro later hinv hboth outcome _
      refine ⟨hinv.write hboth.1 hboth.2 hwritten outcome, ?_⟩
      split_ifs
      · exact releaseOrphans_cancelInv _
      · exact fun _ _ _ => trivial
  · rw [if_neg hlisted]
    exact fun _ _ _ => trivial

end Pass

theorem CancelInv.next {config : Config} {world : World} (hinv : CancelInv config world)
    {step : Step} (hstep : Resumed config world step) :
    CancelInv config (next config world step) := by
  cases step with
  | change change => exact hinv.change change
  | pass now events =>
    exact ((reconcile_cancelInv now).play (fun _ change _ _ hinv => hinv.change change) hinv
      hstep).1

/-- Where every pass from a status that does not tell of a handover comes to the node again, a
cancelled node was never handed over, and one that was ends Done, Skipped or Failed. -/
theorem cancelled_never_handed_over (config : Config) (world : World)
    (hnodes : (world.nodes.map Node.name).Nodup) (hupdate : world.update = none)
    (steps : List Step) (hsteps : EachStep (Resumed config) (next config) world steps) :
    Always (fun world => ∀ update, world.update = some update → Accounts world update)
      (next config) world steps := by
  have hinv : CancelInv config world := by
    refine ⟨⟨hnodes, ?_⟩, ?_, ?_⟩
    · simp [hupdate]
    · simp [UidsOk, hupdate]
    · simp [hupdate]
  exact (always_of_eachStep (fun _ _ hinv hstep => hinv.next hstep) hinv hsteps).mono
    fun _ hinv _ hsome => hinv.accounts hsome

/-- The first pass hands the worker over and its status write is lost; the second hands it
over again and records it. -/
def resumedSteps : List Step :=
  [.change (.createUpdate demoSpec), .pass 0 (answers (handoverAnswers.dropLast ++ [.lost])),
    .pass 5 (answers [.done, .done, .resolved (.release demoSha false), .signed ['g'] ['c'], .done,
      .done])]

theorem demo_resumed :
    Always (fun world => ∀ update, world.update = some update → Accounts world update)
      (next demoConfig) demoWorld resumedSteps ∧
    (after demoConfig demoWorld (resumedSteps.take 2)).update.any (fun update =>
      unrecorded (after demoConfig demoWorld (resumedSteps.take 2)) update == [['w']]) = true ∧
    (after demoConfig demoWorld resumedSteps).update.any (fun update =>
      update.status.nodes.map Entry.phase == [.downloading, .pending]) = true := by
  refine ⟨cancelled_never_handed_over demoConfig demoWorld (by decide) rfl _ (by decide), ?_, ?_⟩
  · decide
  · decide

/-- The edit that cancels the roll comes before the status write of the pass that handed the
worker over, and the next pass cancels the worker. -/
def cancelledSteps : List Step :=
  [.change (.createUpdate demoSpec),
    .pass 0 (answers handoverAnswers.dropLast ++
      [.change (.editSpec true false false), .answer .done]),
    .pass 5 (answers [.done, .done, .done])]

theorem handed_over_then_cancelled :
    ¬ Always (fun world => ∀ update, world.update = some update → Accounts world update)
      (next demoConfig) demoWorld cancelledSteps := by
  intro halways
  have hrun : ∃ update, (after demoConfig demoWorld cancelledSteps).update = some update ∧
      ∃ entry ∈ update.status.nodes, entry.phase = .cancelled ∧
        (update.uid, entry.name) ∈ (after demoConfig demoWorld cancelledSteps).handed :=
    ⟨_, rfl, by decide⟩
  obtain ⟨update, hupdate, entry, hentry, hcancelled, hhanded⟩ := hrun
  exact (halways.last update hupdate).cancelled entry hentry hcancelled hhanded

end K3sm.Updatectl

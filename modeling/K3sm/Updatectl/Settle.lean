import K3sm.Core.Run
import K3sm.Updatectl.ReadOf

/-!
# What Done says about the passes before it

A pass that sees the node done, on the release and Ready marks the node with its time, and a pass
that sees it so a settle period later calls it Done.  Between the two only a node that is seen
done, on the release and not Ready loses its mark.
-/

namespace K3sm.Updatectl

open K3sm.Core K3sm.Core.Filepath List

def View.shows (view : View) (name tag : Str) : Bool :=
  view.nodes.any fun node => node.name == name && node.settledOn tag

def SettledSince (views : List View) (name tag : Str) (time : Time) : Prop :=
  ∃ old first rest, views = old ++ first :: rest ∧ first.time = time ∧
    ∀ view ∈ first :: rest, view.shows name tag = true

/-- From a pass at least the settle period before the last on, every pass saw it so. -/
def SettledFor (views : List View) (name tag : Str) : Prop :=
  ∃ old first rest last, views = old ++ first :: rest ∧ (first :: rest).getLast? = some last ∧
    first.time + settlePeriod ≤ last.time ∧ ∀ view ∈ first :: rest, view.shows name tag = true

/-- The entries a pass calls Done were Done, or their nodes settled. -/
def DoneOk (read : Update) (views : List View) (nodes : List Entry) : Prop :=
  ∀ entry ∈ nodes, entry.phase = .done →
    (∀ before ∈ read.status.nodes, before.name = entry.name → before.phase ≠ .done) →
    SettledFor views entry.name read.spec.version

/-- The nodes that carry a settle mark and whose entries are with them. -/
def settling (world : World) (update : Update) : List Node :=
  world.nodes.filter fun node => (annotationTime node.annotations.readyAt).isSome &&
    update.status.nodes.any fun entry => nodeSidePhase entry.phase && entry.name == node.name

/-- The pass takes the mark off: the node is done, on the release and not Ready, or someone
moved the request and the node is handed over again. -/
def startsOver (config : Config) (update : Update) (node : Node) : Bool :=
  if node.annotations.updateVersion = some update.spec.version then
    node.reported == .done && onTarget node.kubeletVersion update.spec.version && !node.ready
  else (payload config update update.status.resolution).isSome

def SeesSettled (world : World) : Request → Outcome → Prop
  | .listNodes _, _ => ∀ update ∈ world.update, ∀ node ∈ settling world update,
      node.settledOn update.spec.version = true
  | _, _ => True

def Outcome.takesEffect : Outcome → Bool
  | .done | .unanswered => true
  | _ => false

def Outcome.signs : Outcome → Bool
  | .signed _ _ => true
  | _ => false

/-- Every marked node is one whose mark goes, and the calls for it take effect. -/
def TakesMarks (config : Config) (world : World) : Request → Outcome → Prop
  | .listNodes _, outcome => outcome = .done ∧ ∀ update ∈ world.update,
      ∀ node ∈ settling world update, startsOver config update node = true
  | .patch _ _ _, outcome => outcome.takesEffect = true
  | .sign _, outcome => outcome.signs = true
  | _, _ => True

/-- The condition on a step: the marked nodes are seen settled, or the pass runs to its end
and takes their marks off. -/
def Settles (config : Config) (world : World) : Step → Prop
  | .change _ => True
  | .pass now events =>
    EventsMeet api (fun _ _ => True) SeesSettled (reconcile config now) world events ∨
    (EventsMeet api (fun _ _ => True) (TakesMarks config) (reconcile config now) world events ∧
      (play api (reconcile config now) world events).1.ended = true)

instance (world : World) : (request : Request) → (outcome : Outcome) →
    Decidable (SeesSettled world request outcome)
  | .listNodes _, _ => inferInstanceAs (Decidable (∀ _ ∈ _, _))
  | .listUpdates, _ | .listOrphans, _ | .resolve _, _ | .sign _, _ | .drain _, _
  | .patch .., _ | .writeStatus .., _ => .isTrue trivial

instance (config : Config) (world : World) : (request : Request) → (outcome : Outcome) →
    Decidable (TakesMarks config world request outcome)
  | .listNodes _, _ => inferInstanceAs (Decidable (_ ∧ ∀ _ ∈ _, _))
  | .patch .., _ | .sign _, _ => inferInstanceAs (Decidable (_ = true))
  | .listUpdates, _ | .listOrphans, _ | .resolve _, _ | .drain _, _ | .writeStatus .., _ =>
    .isTrue trivial

instance (config : Config) (world : World) : (step : Step) → Decidable (Settles config world step)
  | .change _ => .isTrue trivial
  | .pass _ _ => inferInstanceAs (Decidable (_ ∨ _))

section Views

variable {views : List View} {view : View} {name tag : Str} {time : Time}

theorem SettledSince.append (hsince : SettledSince views name tag time)
    (hview : view.shows name tag = true) : SettledSince (views ++ [view]) name tag time := by
  obtain ⟨old, first, rest, rfl, htime, hshows⟩ := hsince
  refine ⟨old, first, rest ++ [view], by simp, htime, ?_⟩
  intro other hother
  rw [← cons_append] at hother
  rcases mem_append.1 hother with hbefore | hlast
  · exact hshows other hbefore
  · rwa [mem_singleton.1 hlast]

theorem settledSince_last (hview : view.shows name tag = true) :
    SettledSince (views ++ [view]) name tag view.time :=
  ⟨views, view, [], rfl, rfl, by simpa using hview⟩

theorem SettledSince.settledFor (hsince : SettledSince (views ++ [view]) name tag time)
    (hperiod : time + settlePeriod ≤ view.time) : SettledFor (views ++ [view]) name tag := by
  obtain ⟨old, first, rest, hviews, htime, hshows⟩ := hsince
  refine ⟨old, first, rest, view, hviews, ?_, by rwa [htime], hshows⟩
  calc (first :: rest).getLast? = (old ++ first :: rest).getLast? := by
        rw [List.getLast?_append_of_ne_nil _ (by simp)]
    _ = some view := by rw [← hviews, List.getLast?_concat]

end Views

def GoodMark (world : World) (name tag : Str) : Prop :=
  ∀ node ∈ world.nodes, node.name = name → ∀ time,
    annotationTime node.annotations.readyAt = some time → SettledSince world.views name tag time

def NoMark (world : World) (name : Str) : Prop :=
  ∀ node ∈ world.nodes, node.name = name → annotationTime node.annotations.readyAt = none

theorem NoMark.good {world : World} {name : Str} (hnone : NoMark world name) (tag : Str) :
    GoodMark world name tag := by
  intro node hnode hname time htime
  rw [hnone node hnode hname] at htime
  cases htime

section Marks

variable {world : World} {name tag : Str}

theorem change_readyAt {change : Change} {node : Node}
    (hnode : node ∈ (world.change change).nodes) :
    annotationTime node.annotations.readyAt = none ∨ ∃ old ∈ world.nodes, old.name = node.name ∧
      old.annotations.readyAt = node.annotations.readyAt := by
  cases change with
  | report other ready kubeletVersion phase rotated =>
    obtain ⟨old, hold, rfl⟩ := mem_setNode.1 hnode
    exact .inr ⟨old, hold, by split_ifs <;> rfl, by split_ifs <;> rfl⟩
  | moveRequest other version | operator other unschedulable =>
    obtain ⟨old, hold, rfl⟩ := mem_setNode.1 hnode
    exact .inr ⟨old, hold, by split_ifs <;> rfl, by split_ifs <;> rfl⟩
  | removeNode other => exact .inr ⟨node, mem_of_mem_filter hnode, rfl, rfl⟩
  | addNode other server kubeletVersion ready =>
    simp only [World.change] at hnode
    split_ifs at hnode
    · exact .inr ⟨node, hnode, rfl, rfl⟩
    rcases mem_append.1 hnode with hold | hnew
    · exact .inr ⟨node, hold, rfl, rfl⟩
    · rw [mem_singleton.1 hnew]
      exact .inl rfl
  | editSpec cancel drain allowDowngrade | deleteUpdate => exact .inr ⟨node, hnode, rfl, rfl⟩
  | createUpdate spec =>
    simp only [World.change] at hnode
    split_ifs at hnode <;> exact .inr ⟨node, hnode, rfl, rfl⟩

theorem Patch.readyAt (patch : Patch) (node : Node) :
    (∃ now, patch = .settle now ∧
      annotationTime (patch.apply node).annotations.readyAt = some now) ∨
    annotationTime (patch.apply node).annotations.readyAt = none ∨
    (patch.apply node).annotations.readyAt = node.annotations.readyAt := by
  cases patch with
  | settle now => exact .inl ⟨now, rfl, rfl⟩
  | cordon => exact .inr (.inr rfl)
  | release uncordon | handover update payload sig signer now
  | unsettle => exact .inr (.inl rfl)
  | orphan read uncordon =>
    simp only [Patch.apply, Annotations.drop, dropKey]
    split_ifs
    · exact .inr (.inl rfl)
    · exact .inr (.inr rfl)

theorem handle_readyAt {request : Request} {outcome : Outcome} {node : Node}
    (hnode : node ∈ (World.handle request outcome world).2.nodes) :
    (∃ now working, request = .patch node.name (.settle now) working ∧
      annotationTime node.annotations.readyAt = some now) ∨
    annotationTime node.annotations.readyAt = none ∨
    ∃ old ∈ world.nodes, old.name = node.name ∧
      old.annotations.readyAt = node.annotations.readyAt := by
  cases request with
  | patch other patch working =>
    have hpatched : node ∈ (world.setNode .controller other patch.apply).nodes →
        (∃ now working', Request.patch other patch working =
            .patch node.name (.settle now) working' ∧
          annotationTime node.annotations.readyAt = some now) ∨
        annotationTime node.annotations.readyAt = none ∨
        ∃ old ∈ world.nodes, old.name = node.name ∧
          old.annotations.readyAt = node.annotations.readyAt := by
      intro hset
      obtain ⟨old, hold, rfl⟩ := mem_setNode.1 hset
      split_ifs with hname
      · rcases Patch.readyAt patch old with ⟨now, rfl, hmark⟩ | hnone | hsame
        · refine .inl ⟨now, working, ?_, hmark⟩
          rw [Patch.apply_name, hname]
        · exact .inr (.inl hnone)
        · exact .inr (.inr ⟨old, hold, (Patch.apply_name old patch).symm, hsame.symm⟩)
      · exact .inr (.inr ⟨old, hold, rfl, rfl⟩)
    have hlogged : ((world.logSent other patch working).patched other patch).nodes =
        (world.setNode .controller other patch.apply).nodes := by
      simp only [World.patched, World.setNode, World.find, World.logSent]
      split <;> rfl
    cases outcome with
    | done | unanswered => exact hpatched (hlogged ▸ hnode)
    | lost | unneeded | resolved answer | signed sig signer
    | drained remaining bare => exact .inr (.inr ⟨node, hnode, rfl, rfl⟩)
  | writeStatus read status =>
    cases outcome <;> exact .inr (.inr ⟨node, hnode, rfl, rfl⟩)
  | listUpdates | listNodes now | listOrphans | resolve version | sign payload
  | drain other => exact .inr (.inr ⟨node, hnode, rfl, rfl⟩)

theorem GoodMark.change (hgood : GoodMark world name tag) (change : Change) :
    GoodMark (world.change change) name tag := by
  intro node hnode hname time htime
  rw [change_views]
  rcases change_readyAt hnode with hnone | ⟨old, hold, hsame, hready⟩
  · rw [hnone] at htime
    cases htime
  · exact hgood old hold (hsame.trans hname) time (hready ▸ htime)

theorem NoMark.change (hnone : NoMark world name) (change : Change) :
    NoMark (world.change change) name := by
  intro node hnode hname
  rcases change_readyAt hnode with hmark | ⟨old, hold, hsame, hready⟩
  · exact hmark
  · rw [← hready]
    exact hnone old hold (hsame.trans hname)

end Marks

/-! ## What the run keeps -/

structure SettleBase (config : Config) (world : World) : Prop extends Sound config world where
  uids : UidsOk world
  writes : ∀ write ∈ world.writes, DoneOk write.read write.views write.status.nodes

def MarksOk (world : World) : Prop :=
  ∀ update, world.update = some update → ∀ entry ∈ update.status.nodes,
    nodeSidePhase entry.phase = true → GoodMark world entry.name update.spec.version

structure Viewed (config : Config) (read : Update) (views : List View) (world : World) :
    Prop extends SettleBase config world where
  read : ReadOf read world
  views : world.views = views

def Steady (config : Config) (read : Update) (views : List View) (world : World) : Prop :=
  Viewed config read views world ∧ MarksOk world

section Kept

variable {config : Config} {read : Update} {views : List View} {world : World} {now : Time}

theorem SettleBase.change (hbase : SettleBase config world) (change : Change) :
    SettleBase config (world.change change) :=
  ⟨hbase.toSound.change change, hbase.uids.change change, by
    rw [change_writes]
    exact hbase.writes⟩

theorem MarksOk.change (hmarks : MarksOk world) (change : Change) :
    MarksOk (world.change change) := by
  intro update hupdate entry hentry hside
  rcases change_update world change with ⟨hsame, -⟩ | ⟨old, spec, hold, hspec, hedited, -⟩ |
    ⟨hnone, -⟩ | ⟨spec, -, hcreated, -⟩
  · exact (hmarks update (hsame ▸ hupdate) entry hentry hside).change change
  · rw [hedited] at hupdate
    cases hupdate
    simp only [hspec]
    exact (hmarks old hold entry hentry hside).change change
  · rw [hnone] at hupdate
    cases hupdate
  · rw [hcreated] at hupdate
    cases hupdate
    cases hentry

theorem Viewed.change (hviewed : Viewed config read views world) (change : Change) :
    Viewed config read views (world.change change) :=
  ⟨hviewed.toSettleBase.change change, hviewed.read.change change,
    (change_views world change).trans hviewed.views⟩

variable {request : Request} {rely : World → Change → Prop}

theorem viewed_stable : Stable api rely (fun _ => True) (Viewed config read views) :=
  fun _ change _ _ hviewed => hviewed.change change

theorem steady_stable : Stable api rely (fun _ => True) (Steady config read views) :=
  fun _ change _ _ hsteady => ⟨hsteady.1.change change, hsteady.2.change change⟩

theorem noMark_stable {inv : World → Prop} {name : Str} :
    Stable api rely inv (fun world => NoMark world name) :=
  fun _ change _ _ hnone => hnone.change change

def Request.isList : Request → Bool
  | .listNodes _ => true
  | _ => false

theorem handle_views (hrequest : request.isList = false) (outcome : Outcome) (world : World) :
    (World.handle request outcome world).2.views = world.views := by
  cases request with
  | patch name patch working =>
    cases outcome <;> simp [World.handle, World.patched, World.logSent, setNode_views]
  | writeStatus read status => cases outcome <;> rfl
  | listNodes now => cases hrequest
  | listUpdates | listOrphans | resolve version | sign payload | drain node => rfl

theorem SettleBase.handle (hbase : SettleBase config world) (hrequest : request.isWrite = false)
    (outcome : Outcome) : SettleBase config (World.handle request outcome world).2 := by
  refine ⟨hbase.toSound.handle outcome ?_, hbase.uids.handle hrequest outcome, ?_⟩
  · rintro written status rfl
    cases hrequest
  · rw [handle_writes hrequest]
    exact hbase.writes

theorem Viewed.handle (hviewed : Viewed config read views world)
    (hrequest : request.isWrite = false ∧ request.isList = false) (outcome : Outcome) :
    Viewed config read views (World.handle request outcome world).2 :=
  ⟨hviewed.toSettleBase.handle hrequest.1 outcome, hviewed.read.handle hrequest.1 outcome,
    (handle_views hrequest.2 outcome world).trans hviewed.views⟩

def MarksSettled (read : Update) (views : List View) (request : Request) : Prop :=
  (request.isWrite = false ∧ request.isList = false) ∧
    ∀ name now working, request = .patch name (.settle now) working →
      SettledSince views name read.spec.version now

theorem MarksOk.handle (hmarks : MarksOk world) (hviewed : Viewed config read views world)
    (hrequest : MarksSettled read views request) (outcome : Outcome) :
    MarksOk (World.handle request outcome world).2 := by
  intro update hupdate entry hentry hside node hnode hname time htime
  rw [(handle_update hrequest.1.1 outcome world).1] at hupdate
  rw [handle_views hrequest.1.2]
  rcases handle_readyAt hnode with ⟨now, working, hsettle, hmark⟩ | hnone |
    ⟨old, hold, hsame, hready⟩
  · obtain rfl : now = time := Option.some.inj (hmark.symm.trans htime)
    by_cases huid : update.uid = read.uid
    · rw [hviewed.read.version update hupdate huid, hviewed.views, ← hname]
      exact hrequest.2 node.name now working hsettle
    · rw [hviewed.read.created update hupdate huid] at hentry
      cases hentry
  · rw [hnone] at htime
    cases htime
  · exact hmarks update hupdate entry hentry hside old hold (hsame.trans hname) time
      (hready ▸ htime)

theorem Steady.handle (hsteady : Steady config read views world)
    (hrequest : MarksSettled read views request) (outcome : Outcome) :
    Steady config read views (World.handle request outcome world).2 :=
  ⟨hsteady.1.handle hrequest.1 outcome, hsteady.2.handle hsteady.1 hrequest outcome⟩

theorem marksSettled_of_forEntry {settles : Prop} {name : Str} {work : Entry → List Entry}
    (hrequest : ForEntry read now settles name work request)
    (hsettles : settles → SettledSince views name read.spec.version now) :
    MarksSettled read views request := by
  refine ⟨⟨?_, ?_⟩, ?_⟩
  · cases request <;> first | rfl | exact hrequest.elim
  · cases request <;> first | rfl | exact hrequest.elim
  rintro other time working rfl
  obtain ⟨rfl, ⟨rfl, hsettle⟩, -⟩ := hrequest
  exact hsettles hsettle

theorem steady_safe {Result : Type} {post : Result → Prop} {program : Act Result}
    {allow : World → Request → Outcome → Prop}
    (hall : program.All AnswersNode (MarksSettled read views) post) (world : World) :
    program.Safe api (fun _ _ => True) allow (Steady config read views)
      (fun result _ => post result) world := by
  refine hall.safe ?_ ?_ world
  · intro world request outcome hsteady _
    exact answersNode_of_inOrder config request _ (hsteady.1.toSound.answers request outcome)
  · intro world request outcome hsteady hrequest _
    exact hsteady.handle hrequest outcome

theorem noMark_of_patch {name : Str} {patch : Patch} {working : List Entry} {outcome : Outcome}
    (hpatch : ∀ node, annotationTime (patch.apply node).annotations.readyAt = none)
    (houtcome : outcome.takesEffect = true) :
    NoMark (World.handle (.patch name patch working) outcome world).2 name := by
  have hnodes : (World.handle (.patch name patch working) outcome world).2.nodes =
      (world.setNode .controller name patch.apply).nodes := by
    cases outcome <;> first
      | (cases houtcome; done)
      | (simp only [World.handle, World.patched, World.setNode, World.find, World.logSent]
         split <;> rfl)
  intro node hnode hname
  rw [hnodes] at hnode
  obtain ⟨old, hold, rfl⟩ := mem_setNode.1 hnode
  split_ifs at hname ⊢ with hsame
  · exact hpatch old
  · exact absurd hname hsame

theorem NoMark.handle {name : Str} (hnone : NoMark world name)
    (hrequest : ∀ now working, request ≠ .patch name (.settle now) working) (outcome : Outcome) :
    NoMark (World.handle request outcome world).2 name := by
  intro node hnode hname
  rcases handle_readyAt hnode with ⟨now, working, hsettle, -⟩ | hmark | ⟨old, hold, hsame, hready⟩
  · rw [hname] at hsettle
    exact absurd hsettle (hrequest now working)
  · exact hmark
  · rw [← hready]
    exact hnone old hold (hsame.trans hname)

end Kept

section Entry

variable {config : Config} {read : Update} {views : List View} {world : World} {now : Time}
  {work : Entry → List Entry} {resolution : Resolution} {node : Node}
  {allow : World → Request → Outcome → Prop}

theorem marksSettled_of_held {name : Str} {request : Request}
    (hrequest : ForEntry read now False name work request) : MarksSettled read views request :=
  marksSettled_of_forEntry hrequest False.elim

theorem steady_noMark_safe {Result : Type} {post : Result → Prop} {program : Act Result}
    {name : Str} (hall : program.All AnswersNode (ForEntry read now False name work) post)
    (world : World) :
    program.Safe api (fun _ _ => True) allow
      (fun world => Steady config read views world ∧ NoMark world name)
      (fun result _ => post result) world := by
  refine hall.safe ?_ ?_ world
  · intro world request outcome hinv _
    exact answersNode_of_inOrder config request _ (hinv.1.1.toSound.answers request outcome)
  · intro world request outcome hinv hrequest _
    refine ⟨hinv.1.handle (marksSettled_of_held hrequest) outcome, hinv.2.handle ?_ outcome⟩
    rintro time working rfl
    exact hrequest.2.1.2

theorem handover_steady (entry : Entry) :
    (handover config read now work resolution entry node).Safe api (fun _ _ => True) allow
      (Steady config read views)
      (fun answer world => answer.isSome = true → NoMark world node.name) world := by
  unfold handover
  cases payload config read resolution with
  | none => exact fun _ _ _ hnot => nomatch hnot
  | some payload =>
    simp only [Prog.ask_bind]
    intro world _ hsteady outcome _
    refine ⟨hsteady, ?_⟩
    generalize (api.handle (.sign payload) outcome world).1 = answer
    match answer with
    | none => exact fun _ _ _ hnot => nomatch hnot
    | some (sig, signer) =>
      intro world _ hsteady outcome _
      have hsends : MarksSettled read views (.patch node.name
          (.handover read.uid payload sig signer now) (work entry)) := by
        refine ⟨⟨rfl, rfl⟩, ?_⟩
        rintro _ _ _ hnot
        cases hnot
      have hkept : Steady config read views (World.handle (.patch node.name
          (.handover read.uid payload sig signer now) (work entry)) outcome world).2 :=
        hsteady.handle hsends outcome
      refine ⟨hkept, ?_⟩
      intro later hothers _ hsome
      have hdone : outcome.takesEffect = true := by
        cases outcome <;> first | rfl | cases hsome
      have hnone : NoMark (World.handle (.patch node.name
          (.handover read.uid payload sig signer now) (work entry)) outcome world).2 node.name :=
        noMark_of_patch (fun _ => rfl) hdone
      exact (noMark_stable.others steady_stable hothers hkept hnone).2

theorem handOverAndWatch_steady (entry : Entry) (hnode : node.name = entry.name)
    (hphase : nodeSidePhase entry.phase = false) (hsteady : Steady config read views world) :
    (handOverAndWatch config read now work resolution entry node).Safe api (fun _ _ => True) allow
      (Steady config read views)
      (fun result world => nodeSidePhase result.entry.phase = true → NoMark world entry.name)
      world := by
  unfold handOverAndWatch
  have hhanded : (handover config read now work resolution entry node).All AnswersNode
      (ForEntry read now False entry.name work) fun answer => ∀ node, answer = some node →
        HandedOver read now entry.name node := handover_all hnode
  apply ((handover_steady entry).and_all hhanded fun world request outcome hsteady _ =>
    answersNode_of_inOrder config request _ (hsteady.1.toSound.answers request outcome)).bind
      hsteady
  rintro (_ | other) world hsteady ⟨hnone, hother⟩
  · intro later _ _ hside
    rw [hphase] at hside
    cases hside
  rw [hnode] at hnone
  have hwatch : (watch config read now work resolution
      { entry with phase := .downloading } other).All AnswersNode
      (ForEntry read now False entry.name work) (Watched entry.name resolution False True) :=
    watch_handedOver_all { entry with phase := .downloading } (hother other rfl) rfl
  have hframe : (watch config read now work resolution
      { entry with phase := .downloading } other).Safe api (fun _ _ => True) allow
      (Steady config read views) (fun result world =>
        Watched entry.name resolution False True result ∧ NoMark world entry.name) world := by
    refine Prog.Safe.frame steady_stable noMark_stable hsteady (hnone rfl) ?_
    exact steady_noMark_safe hwatch world
  exact hframe.mono fun _ _ _ hpost _ => hpost.2

theorem drainAndHandOver_steady (entry : Entry) (hnode : node.name = entry.name)
    (hphase : nodeSidePhase entry.phase = false) :
    (drainAndHandOver config read now work resolution entry node).Safe api (fun _ _ => True) allow
      (Steady config read views)
      (fun result world => nodeSidePhase result.entry.phase = true → NoMark world entry.name)
      world := by
  have hstays : ∀ world (error : Option AdvanceError),
      (Prog.done ⟨entry, resolution, error⟩ : Act Advanced).Safe api (fun _ _ => True) allow
        (Steady config read views)
        (fun result world => nodeSidePhase result.entry.phase = true → NoMark world entry.name)
        world := by
    intro world error later _ _ hside
    rw [hphase] at hside
    cases hside
  unfold drainAndHandOver
  simp only [Prog.ask_bind]
  intro world _ hsteady outcome _
  refine ⟨hsteady, ?_⟩
  generalize (api.handle (.drain node.name) outcome world).1 = answer
  match answer with
  | none => exact hstays _ _
  | some (remaining, bare) =>
    simp only
    split_ifs
    · exact fun _ _ _ hnot => nomatch hnot
    · exact fun _ _ _ hnot => nomatch hnot
    · exact hstays _ _
    · exact handOverAndWatch_steady entry hnode hphase hsteady

theorem hold_steady (entry : Entry) (hnode : node.name = entry.name)
    (hphase : heldPhase entry.phase = true) (hsteady : Steady config read views world) :
    (hold config read now work resolution entry node).Safe api (fun _ _ => True) allow
      (Steady config read views)
      (fun result world => nodeSidePhase result.entry.phase = true → NoMark world entry.name)
      world := by
  have hside : nodeSidePhase entry.phase = false := by
    cases hentry : entry.phase <;> simp_all [heldPhase, nodeSidePhase]
  have hstays : ∀ world (error : Option AdvanceError),
      (Prog.done ⟨entry, resolution, error⟩ : Act Advanced).Safe api (fun _ _ => True) allow
        (Steady config read views)
        (fun result world => nodeSidePhase result.entry.phase = true → NoMark world entry.name)
        world := by
    intro world error later _ _ hnot
    rw [hside] at hnot
    cases hnot
  unfold hold
  split_ifs
  · have hrelease : (release work entry node).All AnswersNode
        (ForEntry read now False entry.name work) fun _ => True := release_all hnode
    apply (steady_safe (hrelease.widen (fun _ _ hvalid => hvalid)
      fun _ hrequest => marksSettled_of_held hrequest) world).bind hsteady
    rintro (_ | _) world _ -
    · exact hstays _ _
    · rintro _ _ _ ⟨⟩
  have hcordon : (cordon work entry node).All AnswersNode
      (ForEntry read now False entry.name work) fun answer => ∀ node, answer = some node →
        node.name = entry.name := cordon_all hnode
  apply (steady_safe (hcordon.widen (fun _ _ hvalid => hvalid)
    fun _ hrequest => marksSettled_of_held hrequest) world).bind hsteady
  rintro (_ | other) world hsteady hother
  · exact hstays _ _
  simp only
  split_ifs
  · exact handOverAndWatch_steady entry (hother other rfl) hside hsteady
  · exact drainAndHandOver_steady { entry with phase := .draining } (hother other rfl) rfl

/-- What a pass over the entry leaves: an entry that is with its node was so before, or its
node carries no mark. -/
theorem advance_steady (entry : Entry) {node : Option Node}
    (hnode : ∀ found, node = some found → found.name = entry.name)
    (hphase : activePhase entry.phase = true ∨ entry.phase = .pending)
    (hcancel : isPending entry.phase = true → read.spec.cancel = false)
    (hsettles : SeenSettled read entry node → SettledSince views entry.name read.spec.version now)
    (hsteady : Steady config read views world) :
    (advance config read now work resolution entry node).Safe api (fun _ _ => True) allow
      (Steady config read views)
      (fun result world => nodeSidePhase result.entry.phase = true →
        nodeSidePhase entry.phase = true ∨ NoMark world entry.name) world := by
  by_cases hside : nodeSidePhase entry.phase = true
  · have hall : (advance config read now work resolution entry node).All AnswersNode
        (ForEntry read now (SeenSettled read entry node) entry.name work)
        (Advances read.spec.cancel entry.name entry.phase resolution (SeenRipe read now node)
          (SeenFailing config read now entry node)) :=
      advance_all hnode (hphase.symm.imp_left fun hpending => by rw [hpending]; rfl) hcancel
    refine (steady_safe (hall.widen (fun _ _ hvalid => hvalid)
      fun _ hrequest => marksSettled_of_forEntry hrequest hsettles) world).mono ?_
    exact fun _ _ _ _ _ => .inl hside
  have hheld : ∀ (started : Entry) (found : Node) (world : World), node = some found →
      started.name = entry.name → heldPhase started.phase = true →
      Steady config read views world → ∀ resolution,
      (hold config read now work resolution started found).Safe api (fun _ _ => True) allow
        (Steady config read views) (fun result world =>
          nodeSidePhase result.entry.phase = true →
            nodeSidePhase entry.phase = true ∨ NoMark world entry.name) world := by
    intro started found world hfound hname hphase hsteady resolution
    refine (hold_steady started ((hnode found hfound).trans hname.symm) hphase hsteady).mono ?_
    intro _ _ _ hnone hresult
    rw [← hname]
    exact .inr (hnone hresult)
  unfold advance
  split_ifs with hpending
  · cases node with
    | none => exact fun _ _ _ hnot => nomatch hnot
    | some found =>
      simp only
      split_ifs
      · exact fun _ _ _ hnot => nomatch hnot
      have hresolve : (ensureResolved read now resolution).All AnswersNode
          (ForEntry read now False entry.name work) fun _ => True :=
        ensureResolved_all entry.name
      apply (steady_safe (hresolve.widen (fun _ _ hvalid => hvalid)
        fun _ hrequest => marksSettled_of_held hrequest) world).bind hsteady
      rintro ⟨resolution, _ | error⟩ world hsteady -
      · exact hheld { entry with
          from' := fromRelease found.kubeletVersion, startedAt := some now
          phase := .cordoning } found world rfl rfl rfl hsteady resolution
      · exact fun _ _ _ hnot => absurd hnot hside
  cases node with
  | none => exact fun _ _ _ hnot => nomatch hnot
  | some found =>
    have hheldPhase : entry.phase = .cordoning ∨ entry.phase = .draining := by
      rcases hphase with hactive | hnot
      · cases hentry : entry.phase <;> simp_all [activePhase, heldPhase]
      · rw [hnot] at hpending
        exact absurd rfl hpending
    simp only [proceed]
    rw [if_pos hheldPhase]
    refine hheld { entry with startedAt := some (entry.startedAt.getD now) } found world rfl
      rfl ?_ hsteady resolution
    rcases hheldPhase with hentry | hentry <;> simp only [hentry] <;> rfl

end Entry

def SideOk (read : Update) (nodes : List Entry) (world : World) : Prop :=
  ∀ entry ∈ nodes, nodeSidePhase entry.phase = true →
    (∃ before ∈ read.status.nodes, before.name = entry.name ∧ nodeSidePhase before.phase = true) ∨
      NoMark world entry.name

section Loop

variable {config : Config} {read : Update} {views : List View} {world : World} {now : Time}
  {nodes : List Node} {allow : World → Request → Outcome → Prop}

variable {entries front : List Entry}

theorem SideOk.change (hside : SideOk read entries world) (change : Change) :
    SideOk read entries (world.change change) :=
  fun entry hentry hphase => (hside entry hentry hphase).imp_right fun hnone => hnone.change change

theorem sideOk_of_not (hentries : ∀ entry ∈ entries, nodeSidePhase entry.phase = false) :
    SideOk read entries world := by
  intro entry hentry hside
  rw [hentries entry hentry] at hside
  cases hside

theorem SideOk.append (hfront : SideOk read front world) (hentries : SideOk read entries world) :
    SideOk read (front ++ entries) world := by
  exact forall_mem_append.2 ⟨hfront, hentries⟩

theorem DoneOk.append (hfront : DoneOk read views front) (hentries : DoneOk read views entries) :
    DoneOk read views (front ++ entries) := by
  exact forall_mem_append.2 ⟨hfront, hentries⟩

theorem doneOk_of_not (hentries : ∀ entry ∈ entries, entry.phase ≠ .done) :
    DoneOk read views entries :=
  fun entry hentry hdone => absurd hdone (hentries entry hentry)

theorem doneOk_read : DoneOk read views read.status.nodes :=
  fun entry hentry hdone hnot => absurd hdone (hnot entry hentry rfl)

theorem settles_done {rolled : Rolled} (hsteady : Steady config read views world)
    (hdone : DoneOk read views rolled.nodes) (hside : SideOk read rolled.nodes world) :
    (Prog.done rolled : Act Rolled).Safe api (fun _ _ => True) allow (Steady config read views)
      (fun rolled world => DoneOk read views rolled.nodes ∧ SideOk read rolled.nodes world)
      world := by
  refine Prog.safe_done steady_stable ?_ hsteady ⟨hdone, hside⟩
  exact fun _ change _ _ hpost => ⟨hpost.1, hpost.2.change change⟩

structure Seen (read : Update) (views : List View) (now : Time) (nodes : List Node)
    (entries : List Entry) : Prop where
  done : DoneOk read views entries
  side : ∀ entry ∈ entries, nodeSidePhase entry.phase = true →
    ∃ before ∈ read.status.nodes, before.name = entry.name ∧ nodeSidePhase before.phase = true
  settled : ∀ entry ∈ entries,
    SeenSettled read entry (nodes.find? fun node => node.name == entry.name) →
    SettledSince views entry.name read.spec.version now
  ripe : ∀ entry ∈ entries, nodeSidePhase entry.phase = true →
    SeenRipe read now (nodes.find? fun node => node.name == entry.name) →
    SettledFor views entry.name read.spec.version

theorem Seen.rest {entry : Entry} {rest : List Entry}
    (hseen : Seen read views now nodes (entry :: rest)) : Seen read views now nodes rest where
  done := fun other hother => hseen.done other (mem_cons_of_mem _ hother)
  side := fun other hother => hseen.side other (mem_cons_of_mem _ hother)
  settled := fun other hother => hseen.settled other (mem_cons_of_mem _ hother)
  ripe := fun other hother => hseen.ripe other (mem_cons_of_mem _ hother)

theorem through_not_side {phase : NodePhase} (hthrough : throughPhase phase = true) :
    nodeSidePhase phase = false := by
  cases phase <;> first | rfl | cases hthrough

theorem rollEntries_steady (entries : List Entry)
    (hfront : ∀ entry ∈ front, throughPhase entry.phase = true) (hdone : DoneOk read views front)
    (hentries : Underway entries) (hseen : Seen read views now nodes entries)
    (hsteady : Steady config read views world) :
    (rollEntries config read now nodes read.status.resolution front entries).Safe api
      (fun _ _ => True) allow (Steady config read views)
      (fun rolled world => DoneOk read views rolled.nodes ∧ SideOk read rolled.nodes world)
      world := by
  induction entries generalizing front world with
  | nil =>
    exact settles_done hsteady hdone (sideOk_of_not fun entry hentry =>
      through_not_side (hfront entry hentry))
  | cons entry rest ih =>
    have hfrontSide : ∀ world, SideOk read front world := fun _ =>
      sideOk_of_not fun entry hentry => through_not_side (hfront entry hentry)
    have hpass : ∀ (current : Entry) (world : World), DoneOk read views [current] →
        throughPhase current.phase = true → Underway rest → Steady config read views world →
        (rollEntries config read now nodes read.status.resolution (front ++ [current]) rest).Safe
          api (fun _ _ => True) allow (Steady config read views)
          (fun rolled world => DoneOk read views rolled.nodes ∧ SideOk read rolled.nodes world)
          world := by
      intro current world hcurrent hthrough hrest hsteady
      refine ih ?_ (hdone.append hcurrent) hrest hseen.rest hsteady
      exact forall_mem_append.2 ⟨hfront, by simpa using hthrough⟩
    unfold rollEntries
    rcases hentries with ⟨hthrough, hrest⟩ | ⟨hphase, hrest⟩
    · rw [if_pos (by rw [← or_assoc]; exact .inl (through_iff.1 hthrough))]
      refine hpass entry world ?_ hthrough hrest hsteady
      intro other hother
      rw [mem_singleton.1 hother]
      exact hseen.done entry mem_cons_self
    -- the roll stops at this entry, and the rest have not started
    have hstop : ∀ (current : Entry) (later : List Entry) (reason : Reason)
        (resolution : Resolution) (world : World), current.phase ≠ .done →
        (nodeSidePhase current.phase = true → SideOk read [current] world) →
        (∀ entry ∈ later, entry.phase = .pending ∨ entry.phase = .cancelled) →
        Steady config read views world →
        (Prog.done ⟨front ++ current :: later, resolution, reason⟩ : Act Rolled).Safe api
          (fun _ _ => True) allow (Steady config read views)
          (fun rolled world => DoneOk read views rolled.nodes ∧
            SideOk read rolled.nodes world) world := by
      intro current later reason resolution world hnot hcurrent hlater hsteady
      have hlaterNot : ∀ entry ∈ later, entry.phase ≠ .done ∧
          nodeSidePhase entry.phase = false := by
        intro other hother
        rcases hlater other hother with hphase | hphase <;> rw [hphase] <;> decide
      refine settles_done hsteady (hdone.append ?_) ((hfrontSide world).append ?_)
      · exact doneOk_of_not (forall_mem_cons.2
          ⟨hnot, fun other hother => (hlaterNot other hother).1⟩)
      · have hone : SideOk read [current] world := by
          intro other hother hside
          have hsame := mem_singleton.1 hother
          subst hsame
          exact hcurrent hside other hother hside
        exact hone.append (sideOk_of_not fun other hother => (hlaterNot other hother).2)
    have hnot := next_not hphase
    rw [if_neg (by simp [hnot]), if_neg hnot.2.2.2]
    split_ifs with hcancel
    · have hpending : entry.phase = .pending := by
        refine hphase.resolve_left fun hactive => ?_
        rw [(activePhase_not hactive).1] at hcancel
        cases hcancel.1
      have hcancelled := cancelFrom_cancelled (entry :: rest)
        (forall_mem_cons.2 ⟨hpending, hrest⟩)
      refine settles_done hsteady (hdone.append (doneOk_of_not ?_))
        ((hfrontSide world).append (sideOk_of_not ?_))
      · intro other hother
        rw [hcancelled other hother]
        decide
      · intro other hother
        rw [hcancelled other hother]
        rfl
    have hnode : ∀ found, nodes.find? (fun node => node.name == entry.name) = some found →
        found.name = entry.name := by
      intro found hfound
      simpa using List.find?_some hfound
    have hpendingCancel : isPending entry.phase = true → read.spec.cancel = false :=
      fun hpending => by simpa [hpending] using hcancel
    have hadvance : (advance config read now (fun current => front ++ current :: rest)
        read.status.resolution entry (nodes.find? fun node => node.name == entry.name)).Safe
        api (fun _ _ => True) allow (Steady config read views)
        (fun result world => nodeSidePhase result.entry.phase = true →
          nodeSidePhase entry.phase = true ∨ NoMark world entry.name) world :=
      advance_steady entry hnode hphase hpendingCancel
        (hseen.settled entry mem_cons_self) hsteady
    apply (hadvance.and_all
      (advance_next_all config now nodes (fun current => front ++ current :: rest)
        read.status.resolution hphase hpendingCancel)
      fun world request outcome hinv _ => answersNode_of_inOrder config request _
        (hinv.1.toSound.answers request outcome)).bind hsteady
    rintro result world hsteady ⟨hmark, hresult⟩
    have hpendingRest : ∀ later ∈ rest, later.phase = .pending ∨ later.phase = .cancelled :=
      fun later hlater => .inl (hrest later hlater)
    have hside : nodeSidePhase result.entry.phase = true → SideOk read [result.entry] world := by
      intro hresultSide other hother _
      rw [mem_singleton.1 hother, hresult.sameName]
      exact (hmark hresultSide).imp_left fun hentrySide =>
        hseen.side entry mem_cons_self hentrySide
    cases herror : result.error with
    | some error =>
      have hresultNot : result.entry.phase ≠ .done := by
        intro hdone
        cases error with
        | transient =>
          rcases hresult.retry herror with ⟨-, hsame⟩ | hactive
          · exact hnot.1 (hsame.symm.trans hdone)
          · rw [hdone] at hactive
            cases hactive
        | rollFailure pin =>
          exact hnot.1 ((hresult.failure pin herror).2.symm.trans hdone)
      cases error with
      | rollFailure pin =>
        exact hstop _ _ _ _ world hresultNot hside hpendingRest hsteady
      | transient => exact hstop _ _ _ _ world hresultNot hside hpendingRest hsteady
    | none =>
      simp only
      split
      case h_2 hskipped =>
        have hthrough : throughPhase result.entry.phase = true := by rw [hskipped]; rfl
        rw [(hresult.passed hthrough).1]
        refine hpass result.entry world ?_ hthrough (underway_of_pending hrest) hsteady
        exact doneOk_of_not (by simp [hskipped])
      case h_3 hfailed =>
        exact hstop _ _ _ _ world (by simp [hfailed]) hside hpendingRest hsteady
      case h_4 hcancelled =>
        refine hstop _ _ _ _ world (by simp [hcancelled]) hside ?_ hsteady
        exact fun later hlater => .inr (cancelFrom_cancelled rest hrest later hlater)
      case h_5 hnotDone _ _ _ =>
        exact hstop _ _ _ _ world hnotDone hside hpendingRest hsteady
      rename_i hresultDone
      have hthrough : throughPhase result.entry.phase = true := by rw [hresultDone]; rfl
      rw [(hresult.passed hthrough).1]
      refine hpass result.entry world ?_ hthrough (underway_of_pending hrest) hsteady
      intro other hother _ _
      rw [mem_singleton.1 hother, hresult.sameName]
      have hentrySide := (hresult.passed hthrough).2 hresultDone
      rcases (hresult.watched hentrySide).phase with hnotDone | ⟨-, ⟨-, hripe⟩ | ⟨hfailed, -⟩⟩
      · rw [hresultDone] at hnotDone
        cases hnotDone
      · exact hseen.ripe entry mem_cons_self hentrySide hripe
      · rw [hresultDone] at hfailed
        cases hfailed

end Loop

end K3sm.Updatectl

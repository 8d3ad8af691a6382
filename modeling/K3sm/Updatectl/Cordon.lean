import K3sm.Core.Run
import K3sm.Updatectl.InTurn

/-!
# Whose cordon the controller lifts

The controller marks the nodes it cordons and lifts a cordon only where the mark is.  The mark
says nothing of what happened since: an operator who uncordons a marked node and cordons it again
leaves the mark, and one who cordons a node just before the controller's own patch arrives gets
the mark put on the cordon.
-/

namespace K3sm.Updatectl

open K3sm.Core K3sm.Core.Filepath List

def MarkedIn (world : World) (name : Str) : Prop :=
  ∃ node ∈ world.nodes, node.name = name ∧ node.marked = true

structure OwnCordons (world : World) : Prop where
  marked : ∀ node ∈ world.nodes, node.marked = true → world.cordonedBy node.name = some .controller
  sent : ∀ sent ∈ world.sent, sent.patch.uncordons = true → sent.cordonedBy = some .controller

/-- An operator cordons a schedulable node only while it carries no mark. -/
def LeavesMarks (world : World) : Change → Prop
  | .operator name true => ∀ node ∈ world.nodes, node.name = name →
      node.unschedulable = false → node.marked = false
  | _ => True

def FindsSchedulable (world : World) : Request → Outcome → Prop
  | .patch name .cordon _, .done | .patch name .cordon _, .unanswered =>
    ∀ node ∈ world.nodes, node.name = name → node.unschedulable = false
  | _, _ => True

def LeavesNodes (world : World) : Change → Prop
  | .removeNode name => ∀ node ∈ world.nodes, node.name = name → node.marked = false
  | _ => True

def Apart (world : World) (change : Change) : Prop :=
  LeavesMarks world change ∧ LeavesNodes world change

/-- The roll and an operator do not cordon the same node. -/
def CordonsApart (config : Config) (world : World) : Step → Prop
  | .change change => LeavesMarks world change
  | .pass now events => EventsMeet api Apart FindsSchedulable (reconcile config now) world events

instance (world : World) : (change : Change) → Decidable (LeavesMarks world change)
  | .operator _ true => inferInstanceAs (Decidable (∀ _ ∈ _, _))
  | .operator _ false => .isTrue trivial
  | .report .. | .moveRequest .. | .removeNode _ | .addNode .. | .editSpec .. | .deleteUpdate
  | .createUpdate _ => .isTrue trivial

instance (world : World) : (change : Change) → Decidable (LeavesNodes world change)
  | .removeNode _ => inferInstanceAs (Decidable (∀ _ ∈ _, _))
  | .report .. | .moveRequest .. | .operator .. | .addNode .. | .editSpec .. | .deleteUpdate
  | .createUpdate _ => .isTrue trivial

instance (world : World) (change : Change) : Decidable (Apart world change) :=
  inferInstanceAs (Decidable (_ ∧ _))

instance (world : World) (request : Request) (outcome : Outcome) :
    Decidable (FindsSchedulable world request outcome) := by
  unfold FindsSchedulable
  split <;> infer_instance

instance (config : Config) (world : World) :
    (step : Step) → Decidable (CordonsApart config world step)
  | .change _ => inferInstanceAs (Decidable (LeavesMarks _ _))
  | .pass _ _ => inferInstanceAs (Decidable (EventsMeet ..))

section SetNode

variable {world : World} {actor : Actor} {name : Str} {set : Node → Node} {node : Node}

theorem cordonedBy_setNode (hset : ∀ node, (set node).unschedulable = true →
      node.unschedulable = true) (other : Str) :
    (world.setNode actor name set).cordonedBy other = world.cordonedBy other := by
  unfold World.setNode
  split
  · rfl
  rename_i found _
  have hsame : ¬ (other = name ∧ found.unschedulable = false ∧
      (set found).unschedulable = true) := by
    rintro ⟨-, hbefore, hafter⟩
    rw [hset found hafter] at hbefore
    cases hbefore
  exact if_neg hsame

theorem cordonedBy_setNode_of_ne {other : Str} (hother : other ≠ name) :
    (world.setNode actor name set).cordonedBy other = world.cordonedBy other := by
  unfold World.setNode
  split
  · rfl
  · exact if_neg fun hsame => hother hsame.1

theorem OwnCordons.setNode (hown : OwnCordons world) (hname : ∀ node, (set node).name = node.name)
    (hmark : ∀ node, (set node).marked = true → node.marked = true)
    (hcordon : ∀ node, (set node).unschedulable = true → node.unschedulable = true) :
    OwnCordons (world.setNode actor name set) where
  marked := by
    intro node hnode hmarked
    obtain ⟨old, hold, rfl⟩ := mem_setNode.1 hnode
    rw [cordonedBy_setNode hcordon]
    split_ifs at hmarked ⊢
    · rw [hname]
      exact hown.marked old hold (hmark old hmarked)
    · exact hown.marked old hold hmarked
  sent := by
    rw [setNode_sent]
    exact hown.sent

theorem MarkedIn.setNode {other : Str} (hmarked : MarkedIn world other)
    (hname : ∀ node, (set node).name = node.name)
    (hmark : other ≠ name ∨ ∀ node, node.marked = true → (set node).marked = true) :
    MarkedIn (world.setNode actor name set) other := by
  obtain ⟨old, hold, rfl, hold'⟩ := hmarked
  refine ⟨_, mem_setNode.2 ⟨old, hold, rfl⟩, ?_⟩
  split_ifs with hsame
  · rcases hmark with hother | hmark
    · exact absurd hsame hother
    · exact ⟨hname old, hmark old hold'⟩
  · exact ⟨rfl, hold'⟩

end SetNode

section Steps

variable {world : World}

theorem OwnCordons.change (hown : OwnCordons world) (hnodes : (world.nodes.map Node.name).Nodup)
    {change : Change} (hleaves : LeavesMarks world change) : OwnCordons (world.change change) := by
  cases change with
  | report name ready kubeletVersion phase rotated | moveRequest name version =>
    exact hown.setNode (fun _ => rfl) (fun _ hmark => hmark) fun _ hcordon => hcordon
  | operator name unschedulable =>
    cases unschedulable with
    | false => exact hown.setNode (fun _ => rfl) (fun _ hmark => hmark) fun _ hnot => nomatch hnot
    | true =>
      refine ⟨?_, by rw [World.change, setNode_sent]; exact hown.sent⟩
      intro node hnode hmarked
      obtain ⟨old, hold, rfl⟩ := mem_setNode.1 hnode
      have holdMarked : old.marked = true := by
        split_ifs at hmarked
        · exact hmarked
        · exact hmarked
      have holdName : (if old.name = name then { old with unschedulable := true } else old).name =
          old.name := by
        split_ifs <;> rfl
      rw [holdName, World.change, ← hown.marked old hold holdMarked]
      by_cases hsame : old.name = name
      · -- a marked node is cordoned already, so this cordon changes nothing
        have hbefore : old.unschedulable = true := by
          rw [← Bool.not_eq_false]
          intro hfree
          rw [hleaves old hold hsame hfree] at holdMarked
          cases holdMarked
        rw [World.setNode, ← hsame, find_of_mem hnodes hold]
        simp [hbefore]
      · exact cordonedBy_setNode_of_ne hsame
  | removeNode name =>
    refine ⟨?_, hown.sent⟩
    exact fun node hnode => hown.marked node (mem_of_mem_filter hnode)
  | addNode name server kubeletVersion ready =>
    simp only [World.change]
    split_ifs
    · exact hown
    refine ⟨?_, hown.sent⟩
    intro node hnode hmarked
    rcases mem_append.1 hnode with hold | hnew
    · exact hown.marked node hold hmarked
    · rw [mem_singleton.1 hnew] at hmarked
      cases hmarked
  | editSpec cancel drain allowDowngrade | deleteUpdate => exact ⟨hown.marked, hown.sent⟩
  | createUpdate spec =>
    simp only [World.change]
    split_ifs
    · exact hown
    · exact ⟨hown.marked, hown.sent⟩

theorem MarkedIn.change {name : Str} (hmarked : MarkedIn world name) {change : Change}
    (hleaves : LeavesNodes world change) : MarkedIn (world.change change) name := by
  cases change with
  | report other ready kubeletVersion phase rotated =>
    exact hmarked.setNode (fun _ => rfl) (.inr fun _ hmark => hmark)
  | moveRequest other version | operator other unschedulable =>
    exact hmarked.setNode (fun _ => rfl) (.inr fun _ hmark => hmark)
  | removeNode other =>
    obtain ⟨node, hnode, rfl, hnodeMarked⟩ := hmarked
    refine ⟨node, mem_filter.2 ⟨hnode, ?_⟩, rfl, hnodeMarked⟩
    simp only [bne_iff_ne]
    intro hsame
    rw [hleaves node hnode hsame] at hnodeMarked
    cases hnodeMarked
  | addNode other server kubeletVersion ready =>
    simp only [World.change]
    split_ifs
    · exact hmarked
    · obtain ⟨node, hnode, hrest⟩ := hmarked
      exact ⟨node, mem_append_left _ hnode, hrest⟩
  | editSpec cancel drain allowDowngrade | deleteUpdate => exact hmarked
  | createUpdate spec =>
    simp only [World.change]
    split_ifs <;> exact hmarked

def Patch.keepsMark : Patch → Bool
  | .release _ | .orphan _ _ => false
  | _ => true

variable {patch : Patch}

theorem Patch.keepsMark_marked (hkeeps : patch.keepsMark = true) (node : Node)
    (hmarked : node.marked = true) : (patch.apply node).marked = true := by
  cases patch <;> first | exact hmarked | rfl | cases hkeeps

theorem MarkedIn.patched {name other : Str} (hmarked : MarkedIn world other)
    (hkeeps : other ≠ name ∨ patch.keepsMark = true) :
    MarkedIn (world.patched name patch) other := by
  have hset : MarkedIn (world.setNode .controller name patch.apply) other :=
    hmarked.setNode (Patch.apply_name · patch) (hkeeps.imp_right fun hkeeps =>
      Patch.keepsMark_marked hkeeps)
  exact hset

theorem Patch.marked_of_apply (hpatch : patch ≠ .cordon) (node : Node)
    (hmarked : (patch.apply node).marked = true) : node.marked = true := by
  cases patch with
  | cordon => exact absurd rfl hpatch
  | release uncordon => cases hmarked
  | handover update payload sig signer now | settle now | unsettle => exact hmarked
  | orphan read uncordon =>
    simp only [Node.marked, Patch.apply, Annotations.drop, dropKey] at hmarked
    split_ifs at hmarked
    · cases hmarked
    · exact hmarked

theorem Patch.unschedulable_of_apply (hpatch : patch ≠ .cordon) (node : Node)
    (hcordoned : (patch.apply node).unschedulable = true) : node.unschedulable = true := by
  cases patch with
  | cordon => exact absurd rfl hpatch
  | release uncordon =>
    cases uncordon with
    | false => exact hcordoned
    | true => cases hcordoned
  | handover update payload sig signer now | settle now | unsettle => exact hcordoned
  | orphan read uncordon =>
    cases uncordon with
    | false => exact hcordoned
    | true => cases hcordoned

theorem OwnCordons.patched (hown : OwnCordons world) (hnodes : (world.nodes.map Node.name).Nodup)
    {name : Str}
    (hfinds : patch = .cordon → ∀ node ∈ world.nodes, node.name = name →
      node.unschedulable = false) :
    OwnCordons (world.patched name patch) := by
  have hset : OwnCordons (world.setNode .controller name patch.apply) := by
    by_cases hcordon : patch = .cordon
    · subst hcordon
      refine ⟨?_, by rw [setNode_sent]; exact hown.sent⟩
      intro node hnode hmarked
      obtain ⟨old, hold, rfl⟩ := mem_setNode.1 hnode
      by_cases hsame : old.name = name
      · have hfree := hfinds rfl old hold hsame
        rw [if_pos hsame, Patch.apply_name, World.setNode, ← hsame, find_of_mem hnodes hold]
        simp [hfree, Patch.apply]
      · rw [if_neg hsame] at hmarked ⊢
        rw [cordonedBy_setNode_of_ne hsame]
        exact hown.marked old hold hmarked
    · exact hown.setNode (Patch.apply_name · patch) (Patch.marked_of_apply hcordon)
        (Patch.unschedulable_of_apply hcordon)
  exact ⟨hset.marked, hset.sent⟩

theorem OwnCordons.logSent (hown : OwnCordons world) {name : Str} (working : List Entry)
    (hlifts : patch.uncordons = true → world.cordonedBy name = some .controller) :
    OwnCordons (world.logSent name patch working) := by
  refine ⟨hown.marked, ?_⟩
  exact forall_mem_append.2 ⟨hown.sent, forall_mem_singleton.2 hlifts⟩

theorem OwnCordons.cordonedBy (hown : OwnCordons world) {name : Str}
    (hmarked : MarkedIn world name) : world.cordonedBy name = some .controller := by
  obtain ⟨node, hnode, rfl, hmarked⟩ := hmarked
  exact hown.marked node hnode hmarked

end Steps

/-! ## What a pass knows of the nodes it has read -/

def CordonInv (config : Config) (world : World) : Prop := Sound config world ∧ OwnCordons world

def Marks (names : List Str) (world : World) : Prop := ∀ name ∈ names, MarkedIn world name

def Fresh (node : Node) (world : World) : Prop := node.marked = true → MarkedIn world node.name

def Keeping (config : Config) (keep : List Str) (world : World) : Prop :=
  CordonInv config world ∧ Marks keep world

abbrev Careful {Result : Type} (config : Config) (keep : List Str)
    (post : Result → World → Prop) (program : Act Result) (world : World) : Prop :=
  program.Safe api Apart FindsSchedulable (Keeping config keep) post world

section Calls

variable {config : Config} {keep : List Str} {world : World}

theorem cordonInv_stable : Stable api Apart (fun _ => True) (CordonInv config) := by
  intro world change _ hapart hinv
  exact ⟨hinv.1.change change, hinv.2.change hinv.1.nodes hapart.1⟩

theorem marks_stable : Stable api Apart (CordonInv config) (Marks keep) := by
  intro world change _ hapart hmarks name hname
  exact (hmarks name hname).change hapart.2

theorem keeping_stable : Stable api Apart (fun _ => True) (Keeping config keep) := by
  intro world change _ hapart hinv
  exact ⟨cordonInv_stable world change trivial hapart hinv.1,
    marks_stable world change hinv.1 hapart hinv.2⟩

theorem fresh_stable {inv : World → Prop} (node : Node) : Stable api Apart inv (Fresh node) := by
  intro world change _ hapart hfresh hmarked
  exact (hfresh hmarked).change hapart.2

theorem Sound.logSent (hsound : Sound config world) (name : Str) (patch : Patch)
    (working : List Entry) : Sound config (world.logSent name patch working) :=
  ⟨hsound.nodes, hsound.status⟩

/-- A patch of a node that is not one of `keep` is careful when it uncordons only a marked
node, and its answer is as the node then is. -/
theorem careful_patch {name : Str} {patch : Patch} {working : List Entry} {outcome : Outcome}
    (hinv : Keeping config keep world) (hname : name ∉ keep)
    (hlifts : patch.uncordons = true → MarkedIn world name)
    (hfinds : FindsSchedulable world (.patch name patch working) outcome) :
    Keeping config keep (World.handle (.patch name patch working) outcome world).2 ∧
    ∀ node, (World.handle (.patch name patch working) outcome world).1 = some node →
      node.name = name ∧ Fresh node (World.handle (.patch name patch working) outcome world).2 := by
  obtain ⟨⟨hsound, hown⟩, hmarks⟩ := hinv
  have hlogged : CordonInv config (world.logSent name patch working) :=
    ⟨hsound.logSent name patch working, hown.logSent working fun hlift =>
      hown.cordonedBy (hlifts hlift)⟩
  have hpatched : (patch = .cordon → ∀ node ∈ world.nodes, node.name = name →
        node.unschedulable = false) →
      Keeping config keep ((world.logSent name patch working).patched name patch) := by
    intro hfree
    refine ⟨⟨hlogged.1.patched name patch, hlogged.2.patched hlogged.1.nodes hfree⟩, ?_⟩
    intro other hother
    have hne : other ≠ name := fun hsame => hname (hsame ▸ hother)
    have hlogged : MarkedIn (world.logSent name patch working) other := hmarks other hother
    exact hlogged.patched (.inl hne)
  cases outcome with
  | done =>
    refine ⟨hpatched fun hcordon => by subst hcordon; exact hfinds, ?_⟩
    intro node hnode
    obtain ⟨old, hfound, rfl⟩ := Option.map_eq_some_iff.1 hnode
    have hold : old.name = name := by simpa using List.find?_some hfound
    have hmem : patch.apply old ∈
        ((world.logSent name patch working).setNode .controller name patch.apply).nodes :=
      mem_setNode.2 ⟨old, mem_of_find?_eq_some hfound, by rw [if_pos hold]⟩
    exact ⟨(Patch.apply_name old patch).trans hold, fun hmarked => ⟨_, hmem, rfl, hmarked⟩⟩
  | unanswered =>
    exact ⟨hpatched fun hcordon => by subst hcordon; exact hfinds, fun _ hnone => nomatch hnone⟩
  | lost | unneeded | resolved answer | signed sig signer
  | drained remaining bare => exact ⟨⟨hlogged, hmarks⟩, fun _ hnone => nomatch hnone⟩

theorem careful_ask {Result : Type} {post : Result → World → Prop} {node : Node} {patch : Patch}
    {working : List Entry} {next : Option Node → Act Result}
    (hinv : Keeping config keep world) (hname : node.name ∉ keep)
    (hfresh : Fresh node world) (hlifts : patch.uncordons = true → node.marked = true)
    (hnext : ∀ answer world, Keeping config keep world →
      (∀ other, answer = some other → other.name = node.name ∧ Fresh other world) →
      Careful config keep post (next answer) world) :
    Careful config keep post (.call (.patch node.name patch working) next) world := by
  apply Prog.safe_call keeping_stable (fresh_stable node) hinv hfresh
  intro later hlater hfreshLater outcome hfinds
  obtain ⟨hkept, hanswer⟩ :=
    careful_patch hlater hname (fun hlift => hfreshLater (hlifts hlift)) hfinds
  exact ⟨hkept, hnext _ _ hkept hanswer⟩

theorem careful_read {Result : Type} {post : Result → World → Prop} {node : Node}
    {request : Request} {next : request.Answer → Act Result}
    (hread : ∀ outcome world, (World.handle request outcome world).2 = world)
    (hinv : Keeping config keep world) (hfresh : Fresh node world)
    (hnext : ∀ answer world, Keeping config keep world → Fresh node world →
      Careful config keep post (next answer) world) :
    Careful config keep post (.call request next) world := by
  apply Prog.safe_call keeping_stable (fresh_stable node) hinv hfresh
  intro later hlater hfreshLater outcome _
  have hsame : (api.handle request outcome later).2 = later := hread outcome later
  rw [hsame]
  exact ⟨hlater, hnext _ later hlater hfreshLater⟩

theorem careful_done {Result : Type} (result : Result) :
    Careful config keep (fun _ _ => True) (.done result) world :=
  fun _ _ _ => trivial

end Calls

section Parts

variable {config : Config} {update : Update} {now : Time} {work : Entry → List Entry}
  {resolution : Resolution} {node : Node} {handedAt readyAt : Time}
  {keep : List Str} {world : World}

section Steps

variable (entry : Entry) (hinv : Keeping config keep world) (hname : node.name ∉ keep)
  (hfresh : Fresh node world)
include hinv hname hfresh

theorem handover_careful : Careful config keep
      (fun answer world => ∀ other, answer = some other →
        other.name = node.name ∧ Fresh other world)
      (handover config update now work resolution entry node) world := by
  unfold handover
  cases payload config update resolution with
  | none => exact fun _ _ _ _ hnone => nomatch hnone
  | some payload =>
    simp only [Prog.ask_bind]
    apply careful_read (fun _ _ => rfl) hinv hfresh
    intro answer world hinv hfresh
    match answer with
    | none => exact fun _ _ _ _ hnone => nomatch hnone
    | some (sig, signer) =>
      refine careful_ask hinv hname hfresh (by simp [Patch.uncordons]) ?_
      intro answer world hinv hanswer later hothers _ other hother
      obtain ⟨hsame, hother⟩ := hanswer other hother
      exact ⟨hsame, ((fresh_stable other).others keeping_stable hothers hinv hother).2⟩

theorem cordon_careful : Careful config keep
      (fun answer world => ∀ other, answer = some other →
        other.name = node.name ∧ Fresh other world) (cordon work entry node) world := by
  unfold cordon
  split_ifs
  · intro later hothers _ other hother
    rw [← Option.some.inj hother]
    exact ⟨rfl, ((fresh_stable node).others keeping_stable hothers hinv hfresh).2⟩
  · refine careful_ask hinv hname hfresh (by simp [Patch.uncordons]) ?_
    intro answer world hinv hanswer later hothers _ other hother
    obtain ⟨hsame, hother⟩ := hanswer other hother
    exact ⟨hsame, ((fresh_stable other).others keeping_stable hothers hinv hother).2⟩

theorem release_careful {next : Option Node → Act Advanced}
    (hnext : ∀ answer world, Careful config keep (fun _ _ => True) (next answer) world) :
    Careful config keep (fun _ _ => True) (release work entry node >>= next) world := by
  unfold release
  simp only [Prog.ask_bind]
  exact careful_ask hinv hname hfresh (fun hlift => hlift) fun answer world _ _ =>
    hnext answer world

theorem settled_careful : Careful config keep (fun _ _ => True)
      (settled config update now work resolution entry node handedAt readyAt) world := by
  unfold settled
  split_ifs
  · apply release_careful entry hinv hname hfresh
    rintro (_ | _) world
    · exact careful_done _
    · exact careful_done _
  · exact careful_done _

theorem settle_careful : Careful config keep (fun _ _ => True)
      (settle config update now work resolution entry node handedAt) world := by
  unfold settle
  split
  · exact settled_careful entry hinv hname hfresh
  simp only [Prog.ask_bind]
  refine careful_ask hinv hname hfresh (by simp [Patch.uncordons]) ?_
  rintro (_ | other) world hinv hanswer
  · exact careful_done _
  · obtain ⟨hsame, hother⟩ := hanswer other rfl
    exact settled_careful entry hinv (hsame ▸ hname) hother

theorem unsettle_careful : Careful config keep (fun _ _ => True)
      (unsettle config now work resolution entry node handedAt) world := by
  unfold unsettle
  split_ifs
  · simp only [Prog.ask_bind]
    refine careful_ask hinv hname hfresh (by simp [Patch.uncordons]) ?_
    rintro (_ | other) world - -
    · exact careful_done _
    · exact careful_done _
  · exact careful_done _

theorem observe_careful : Careful config keep (fun _ _ => True)
      (observe config update now work resolution entry node) world := by
  unfold observe
  split
  · exact careful_done _
  · split_ifs
    · exact settle_careful entry hinv hname hfresh
    · exact unsettle_careful entry hinv hname hfresh
    · exact careful_done _
  · exact careful_done _

theorem watch_careful : Careful config keep (fun _ _ => True)
      (watch config update now work resolution entry node) world := by
  unfold watch
  split_ifs
  · exact careful_done _
  · exact observe_careful entry hinv hname hfresh
  apply (handover_careful entry hinv hname hfresh).bind hinv
  rintro (_ | other) world hinv hanswer
  · exact careful_done _
  · obtain ⟨hsame, hother⟩ := hanswer other rfl
    exact observe_careful entry hinv (hsame ▸ hname) hother

theorem handOverAndWatch_careful : Careful config keep (fun _ _ => True)
      (handOverAndWatch config update now work resolution entry node) world := by
  unfold handOverAndWatch
  apply (handover_careful entry hinv hname hfresh).bind hinv
  rintro (_ | other) world hinv hanswer
  · exact careful_done _
  · obtain ⟨hsame, hother⟩ := hanswer other rfl
    exact watch_careful _ hinv (hsame ▸ hname) hother

theorem drainAndHandOver_careful : Careful config keep (fun _ _ => True)
      (drainAndHandOver config update now work resolution entry node) world := by
  unfold drainAndHandOver
  simp only [Prog.ask_bind]
  apply careful_read (fun _ _ => rfl) hinv hfresh
  intro answer world hinv hfresh
  match answer with
  | none => exact careful_done _
  | some (remaining, bare) =>
    simp only
    split_ifs
    · exact careful_done _
    · exact careful_done _
    · exact careful_done _
    · exact handOverAndWatch_careful entry hinv hname hfresh

theorem hold_careful : Careful config keep (fun _ _ => True)
      (hold config update now work resolution entry node) world := by
  unfold hold
  split_ifs
  · apply release_careful entry hinv hname hfresh
    rintro (_ | _) world
    · exact careful_done _
    · exact careful_done _
  apply (cordon_careful entry hinv hname hfresh).bind hinv
  rintro (_ | other) world hinv hanswer
  · exact careful_done _
  obtain ⟨hsame, hother⟩ := hanswer other rfl
  simp only
  split_ifs
  · exact handOverAndWatch_careful entry hinv (hsame ▸ hname) hother
  · exact drainAndHandOver_careful _ hinv (hsame ▸ hname) hother

end Steps

theorem proceed_careful (entry : Entry) (hinv : Keeping config keep world)
    {node : Option Node} (hnode : ∀ read, node = some read → read.name ∉ keep ∧ Fresh read world) :
    Careful config keep (fun _ _ => True)
      (proceed config update now work resolution entry node) world := by
  unfold proceed
  cases node with
  | none => exact careful_done _
  | some node =>
    obtain ⟨hname, hfresh⟩ := hnode node rfl
    simp only
    split_ifs
    · exact hold_careful _ hinv hname hfresh
    · exact watch_careful _ hinv hname hfresh

theorem advance_careful (entry : Entry) (hinv : Keeping config keep world)
    {node : Option Node} (hnode : ∀ read, node = some read → read.name ∉ keep ∧ Fresh read world) :
    Careful config keep (fun _ _ => True)
      (advance config update now work resolution entry node) world := by
  unfold advance
  split_ifs
  · cases node with
    | none => exact careful_done _
    | some node =>
      obtain ⟨hname, hfresh⟩ := hnode node rfl
      simp only
      split_ifs
      · exact careful_done _
      have hresolved : Careful config keep (fun _ world => Fresh node world)
          (ensureResolved update now resolution) world := by
        unfold ensureResolved
        split_ifs
        · exact Prog.safe_done keeping_stable (fresh_stable node) hinv hfresh
        · exact Prog.safe_done keeping_stable (fresh_stable node) hinv hfresh
        simp only [Prog.ask_bind]
        apply careful_read (fun _ _ => rfl) hinv hfresh
        intro answer world hinv hfresh
        exact Prog.safe_done keeping_stable (fresh_stable node) hinv hfresh
      apply hresolved.bind hinv
      rintro ⟨resolution, _ | error⟩ world hinv hfresh
      · exact proceed_careful _ hinv fun read hread => Option.some.inj hread ▸ ⟨hname, hfresh⟩
      · exact careful_done _
  · exact proceed_careful entry hinv hnode

end Parts

section Pass

variable {config : Config} {update : Update} {now : Time} {nodes : List Node} {world : World}

abbrev Lifts {Result : Type} (config : Config) (post : Result → World → Prop)
    (program : Act Result) (world : World) : Prop :=
  program.Safe api Apart FindsSchedulable (CordonInv config) post world

def marksRead (nodes : List Node) (names : List Str) : List Str :=
  (nodes.filter fun node => node.marked && decide (node.name ∈ names)).map Node.name

theorem mem_marksRead {names : List Str} {name : Str} : name ∈ marksRead nodes names ↔
    ∃ node ∈ nodes, node.name = name ∧ node.marked = true ∧ name ∈ names := by
  simp only [marksRead, mem_map, mem_filter, Bool.and_eq_true, decide_eq_true_eq]
  constructor
  · rintro ⟨node, ⟨hnode, hmarked, hname⟩, rfl⟩
    exact ⟨node, hnode, rfl, hmarked, hname⟩
  · rintro ⟨node, hnode, rfl, hmarked, hname⟩
    exact ⟨node, ⟨hnode, hmarked, hname⟩, rfl⟩

theorem lifts_of_careful {Result : Type} {names : List Str} {program : Act Result}
    (hinv : CordonInv config world) (hfresh : ∀ node ∈ nodes, node.name ∈ names → Fresh node world)
    (hcareful : Careful config (marksRead nodes names) (fun _ _ => True) program world) :
    Lifts config (fun _ world => ∀ node ∈ nodes, node.name ∈ names → Fresh node world)
      program world := by
  have hmarks : Marks (marksRead nodes names) world := by
    intro name hname
    obtain ⟨node, hnode, rfl, hmarked, hmem⟩ := mem_marksRead.1 hname
    exact hfresh node hnode hmem hmarked
  have hframe : Lifts config (fun _ world => True ∧ Marks (marksRead nodes names) world)
      program world :=
    Prog.Safe.frame cordonInv_stable marks_stable hinv hmarks hcareful
  apply hframe.mono
  intro _ later _ hlater node hnode hname hmarked
  exact hlater.2 node.name (mem_marksRead.2 ⟨node, hnode, rfl, hmarked, hname⟩)

theorem lifts_done {Result : Type} (result : Result) :
    Lifts config (fun _ _ => True) (.done result) world :=
  fun _ _ _ => trivial

theorem rollEntries_lifts (entries : List Entry) {resolution : Resolution} {front : List Entry}
    (hnames : (entries.map Entry.name).Nodup) (hinv : CordonInv config world)
    (hfresh : ∀ node ∈ nodes, node.name ∈ entries.map Entry.name → Fresh node world) :
    Lifts config (fun _ _ => True)
      (rollEntries config update now nodes resolution front entries) world := by
  induction entries generalizing resolution front world with
  | nil => exact lifts_done _
  | cons entry rest ih =>
    rw [map_cons, nodup_cons] at hnames
    have hrest : ∀ node ∈ nodes, node.name ∈ rest.map Entry.name → Fresh node world :=
      fun node hnode hname => hfresh node hnode (mem_cons_of_mem _ hname)
    unfold rollEntries
    split_ifs
    · exact ih hnames.2 hinv hrest
    · exact lifts_done _
    · exact lifts_done _
    have hkeeping : Keeping config (marksRead nodes (rest.map Entry.name)) world := by
      refine ⟨hinv, ?_⟩
      intro name hname
      obtain ⟨node, hnode, rfl, hmarked, hmem⟩ := mem_marksRead.1 hname
      exact hrest node hnode hmem hmarked
    have hread : ∀ read, (nodes.find? fun node => node.name == entry.name) = some read →
        read.name ∉ marksRead nodes (rest.map Entry.name) ∧ Fresh read world := by
      intro read hread
      have hname : read.name = entry.name := by simpa using List.find?_some hread
      constructor
      · intro hmem
        obtain ⟨_, _, _, _, hlater⟩ := mem_marksRead.1 hmem
        exact hnames.1 (hname ▸ hlater)
      · exact hfresh read (mem_of_find?_eq_some hread) (by simp [hname])
    apply (lifts_of_careful hinv hrest (advance_careful entry hkeeping hread)).bind hinv
    intro result world hinv hfresh
    cases result.error with
    | some error =>
      cases error with
      | rollFailure | transient => exact lifts_done _
    | none =>
      simp only
      split
      · exact ih hnames.2 hinv hfresh
      · exact ih hnames.2 hinv hfresh
      · exact lifts_done _
      · exact lifts_done _
      · exact lifts_done _

theorem fresh_of_mem {node : Node} (hnode : node ∈ world.nodes) : Fresh node world :=
  fun hmarked => ⟨node, hnode, rfl, hmarked⟩

theorem roll_lifts (hupdate : StatusOk config update.status) :
    Lifts config (fun _ _ => True) (roll config update now) world := by
  unfold roll
  by_cases hfinished : finished update.status = true
  · rw [if_pos hfinished]
    exact lifts_done _
  rw [if_neg hfinished]
  simp only [Prog.ask_bind]
  intro world _ hinv outcome _
  have hviewed : CordonInv config (world.logView now) :=
    ⟨⟨hinv.1.nodes, hinv.1.status⟩, ⟨hinv.2.marked, hinv.2.sent⟩⟩
  refine ⟨hviewed, ?_⟩
  simp only [api, World.handle]
  by_cases hdone : outcome = .done
  · rw [if_pos hdone]
    have hfresh : ∀ names : List Str, ∀ node ∈ world.nodes, node.name ∈ names →
        Fresh node (world.logView now) := by
      intro names node hnode _ hmarked
      exact ⟨node, hnode, rfl, hmarked⟩
    simp only
    split_ifs
    · cases hplan : plan config update.spec world.nodes with
      | error cause => exact lifts_done _
      | ok planned =>
        have hnames : (planned.map Entry.name).Nodup := by
          rw [(plan_spec hplan).1]
          exact ((order_perm hinv.1.nodes).map Node.name).nodup_iff.2 hinv.1.nodes
        apply (rollEntries_lifts planned hnames hviewed (hfresh _)).bind hviewed
        intro rolled world _ _
        exact lifts_done _
    · apply (rollEntries_lifts _ hupdate.names hviewed (hfresh _)).bind hviewed
      intro rolled world _ _
      exact lifts_done _
  · rw [if_neg hdone]
    exact lifts_done _

theorem releaseEach_lifts (current : Option Update) (nodes : List Node)
    (hnames : (nodes.map Node.name).Nodup) (hinv : CordonInv config world)
    (hfresh : ∀ node ∈ nodes, Fresh node world) :
    Lifts config (fun _ _ => True) (releaseEach current nodes) world := by
  induction nodes generalizing world with
  | nil => exact lifts_done _
  | cons node nodes ih =>
    rw [map_cons, nodup_cons] at hnames
    have hrest : ∀ other ∈ nodes, Fresh other world :=
      fun other hother => hfresh other (mem_cons_of_mem _ hother)
    unfold releaseEach
    split_ifs
    · have hkeeping : Keeping config (marksRead nodes (nodes.map Node.name)) world := by
        refine ⟨hinv, ?_⟩
        intro name hname
        obtain ⟨other, hother, rfl, hmarked, _⟩ := mem_marksRead.1 hname
        exact hrest other hother hmarked
      have hnode : node.name ∉ marksRead nodes (nodes.map Node.name) := by
        intro hmem
        obtain ⟨_, _, _, _, hlater⟩ := mem_marksRead.1 hmem
        exact hnames.1 hlater
      have hcareful : Careful config (marksRead nodes (nodes.map Node.name)) (fun _ _ => True)
          (call (.patch node.name
            (.orphan node.annotations (node.marked && node.unschedulable)) [])) world := by
        refine careful_ask hkeeping hnode (hfresh node mem_cons_self) ?_ ?_
        · intro hlift
          exact (Bool.and_eq_true _ _ ▸ hlift).1
        · exact fun answer world _ _ => careful_done _
      apply (lifts_of_careful hinv (fun other hother _ => hrest other hother) hcareful).bind hinv
      intro _ world hinv hkept
      exact ih hnames.2 hinv fun other hother => hkept other hother (mem_map_of_mem hother)
    · exact ih hnames.2 hinv hrest

theorem releaseOrphans_lifts (current : Option Update) :
    Lifts config (fun _ _ => True) (releaseOrphans current) world := by
  unfold releaseOrphans
  split_ifs
  · exact lifts_done _
  simp only [Prog.ask_bind]
  intro world _ hinv outcome _
  refine ⟨hinv, ?_⟩
  simp only [api, World.handle]
  by_cases hdone : outcome = .done
  · rw [if_pos hdone]
    exact releaseEach_lifts current world.nodes hinv.1.nodes hinv fun _ hnode =>
      fresh_of_mem hnode
  · rw [if_neg hdone]
    exact lifts_done _

theorem reconcile_lifts (now : Time) :
    Lifts config (fun _ _ => True) (reconcile config now) world := by
  unfold reconcile
  simp only [Prog.ask_bind]
  intro world _ hinv outcome _
  refine ⟨hinv, ?_⟩
  have hanswer := hinv.1.answers .listUpdates outcome
  simp only [api]
  match (World.handle .listUpdates outcome world).1, hanswer with
  | none, _ => exact lifts_done _
  | some none, _ => exact releaseOrphans_lifts none
  | some (some update), hanswer =>
    have hupdate : StatusOk config update.status := hanswer update rfl
    have hlifts : Lifts config (fun _ _ => True) (roll config update now) world :=
      roll_lifts hupdate
    apply (hlifts.and_all (roll_all hupdate) fun world request outcome hinv _ =>
      hinv.1.answers request outcome).bind hinv
    intro status world _ hstatus later _ hinv outcome _
    have hkept : CordonInv config (World.handle (.writeStatus update status) outcome later).2 := by
      refine ⟨hinv.1.handle outcome ?_, ?_⟩
      · intro read written hsame
        cases hsame
        exact hstatus.2
      · cases outcome <;> exact ⟨hinv.2.marked, hinv.2.sent⟩
    refine ⟨hkept, ?_⟩
    simp only
    split_ifs
    · exact releaseOrphans_lifts _
    · exact lifts_done _

end Pass

theorem CordonInv.next {config : Config} {world : World} (hinv : CordonInv config world)
    {step : Step} (hstep : CordonsApart config world step) :
    CordonInv config (next config world step) := by
  cases step with
  | change change => exact ⟨hinv.1.change change, hinv.2.change hinv.1.nodes hstep⟩
  | pass now events => exact ((reconcile_lifts now).play cordonInv_stable hinv hstep).1

/-- Where the operator's cordons and the controller's stay apart, a patch that sets
unschedulable to false is sent only over a cordon of the controller's. -/
theorem lifts_only_own_cordons (config : Config) (world : World)
    (hnodes : (world.nodes.map Node.name).Nodup) (hupdate : world.update = none)
    (hsent : world.sent = [])
    (hmarks : ∀ node ∈ world.nodes, node.marked = true →
      world.cordonedBy node.name = some .controller)
    (steps : List Step) (hsteps : EachStep (CordonsApart config) (next config) world steps) :
    Always (fun world => ∀ sent ∈ world.sent, sent.patch.uncordons = true →
      sent.cordonedBy = some .controller) (next config) world steps := by
  have hsound : Sound config world := by
    refine ⟨hnodes, ?_⟩
    intro update hsome
    rw [hupdate] at hsome
    cases hsome
  have hown : OwnCordons world := by
    refine ⟨hmarks, ?_⟩
    intro sent hmem
    rw [hsent] at hmem
    cases hmem
  have hinv : CordonInv config world := ⟨hsound, hown⟩
  exact (always_of_eachStep (fun _ _ hinv hstep => hinv.next hstep) hinv hsteps).mono
    fun _ hinv => hinv.2.sent

/-- The worker has been handed over and reports that it is done, and after two more passes
its cordon is lifted. -/
def settleSteps : List Step :=
  [.change (.report ['w'] true (demoVersion true) (some (.done, [])) none),
    .pass 10 (answers [.done, .done, .done, .done]),
    .pass 70 (answers [.done, .done, .done])]

theorem demo_lifts_own_cordon :
    Always (fun world => ∀ sent ∈ world.sent, sent.patch.uncordons = true →
        sent.cordonedBy = some .controller) (next demoConfig) demoWorld
      (.change (.createUpdate demoSpec) :: .pass 0 (answers handoverAnswers) :: settleSteps) ∧
    (after demoConfig demoWorld (.change (.createUpdate demoSpec) ::
        .pass 0 (answers handoverAnswers) :: settleSteps)).sent.any
      (fun sent => sent.patch.uncordons) = true := by
  exact ⟨lifts_only_own_cordons demoConfig demoWorld (by decide) rfl rfl (by decide) _ (by decide),
    by decide⟩

/-- The operator uncordons the worker and cordons it again, and the controller lifts that
cordon. -/
theorem operator_cordon_lifted :
    ¬ Always (fun world => ∀ sent ∈ world.sent, sent.patch.uncordons = true →
        sent.cordonedBy = some .controller) (next demoConfig) demoWorld
      ([.change (.createUpdate demoSpec), .pass 0 (answers handoverAnswers),
        .change (.operator ['w'] false), .change (.operator ['w'] true)] ++ settleSteps) := by
  intro halways
  exact absurd halways.last (by decide)

end K3sm.Updatectl

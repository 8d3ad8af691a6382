import K3sm.Core.Run

/-!
# Who reports the death of a control-plane child

Bring-up starts the children one after another, waits for each to be ready and marks it
supervised.  Every child has a reaper, which learns of the death, decides under the lock whether
the callback is told, and only then closes the channel that bring-up watches.
-/

namespace K3sm.Executor

open K3sm.Core

/-- A child's reaper: in `cmd.Wait`, with `waitErr` written, with the decision whether to
fire taken, with `exited` closed, and done with the callback. -/
inductive ReaperStage
  | unborn
  | waiting
  | read
  | decided (fire : Bool)
  | published (fire : Bool)
  | finished (fire : Bool)
  deriving DecidableEq

/-- `component`, with its reaper.  `ready` says that the readiness wait of the child
succeeded and `called` counts the calls of `OnComponentExit` for it. -/
structure Component where
  supervised : Bool
  reported : Bool
  exited : Bool
  reaper : ReaperStage
  ready : Bool
  called : Nat
  deriving DecidableEq

/-- The kinds of children that bring-up waits for in different ways. -/
inductive ChildKind
  | listening
  | kine
  | etcd (join promote : Bool)
  deriving DecidableEq

inductive EtcdWait
  | learner
  | stranded
  | promotion
  | quorum
  deriving DecidableEq

/-- The error of `bringUp`: the death of a child, wrapped in `ErrEtcdChildExited` or plain,
or another cause. -/
inductive BringUpError
  | exited (child : Nat) (etcdChildExited : Bool)
  | other
  deriving DecidableEq

/-- Where bring-up is with the current child.  `awaiting`, `probing` and `resting` are the
three statements of `awaitHealthy`'s loop. -/
inductive BringUpStage
  | starting
  | awaiting
  | probing
  | resting
  | marking
  | dialing
  | asking (wait : EtcdWait)
  | ticking (wait : EtcdWait)
  | looking
  | exitedErr
  | closing
  | flipping
  | up
  | failed (error : BringUpError)
  deriving DecidableEq

/-- The children, and where bring-up stands. -/
structure Supervised where
  comps : Nat → Component
  supervising : Bool
  current : Nat
  stage : BringUpStage

inductive CallAnswer
  | yes
  | no
  | error
  deriving DecidableEq

/-- The case a `select` of bring-up takes. -/
inductive Selected
  | cancelled
  | exited
  | timer
  deriving DecidableEq

/-- A step of a child, of its reaper or of bring-up. -/
inductive SupervisedStep
  | dies (child : Nat)
  | decides (child : Nat)
  | publishes (child : Nat)
  | calls (child : Nat)
  | bringUp (answer : CallAnswer)
  | selects (choice : Selected)
  deriving DecidableEq

namespace Component

def unborn : Component :=
  ⟨false, false, false, .unborn, false, 0⟩

/-- What `spawnEnv` registers. -/
def spawned : Component :=
  ⟨false, false, false, .waiting, false, 0⟩

/-- `cmd.Wait` returns. -/
def dies (child : Component) : Component :=
  match child.reaper with
  | .waiting => { child with reaper := .read }
  | _ => child

/-- The reaper's decision under the lock, with a callback set. -/
def decides (supervising : Bool) (child : Component) : Component :=
  match child.reaper with
  | .read =>
    let live := child.supervised || supervising
    let fire := live && !child.reported
    { child with reported := child.reported || fire, reaper := .decided fire }
  | _ => child

/-- `close(c.exited)`. -/
def publishes (child : Component) : Component :=
  match child.reaper with
  | .decided fire => { child with exited := true, reaper := .published fire }
  | _ => child

def calls (child : Component) : Component :=
  match child.reaper with
  | .published fire =>
    { child with called := child.called + fire.toNat, reaper := .finished fire }
  | _ => child

end Component

namespace Supervised

def setChild (sup : Supervised) (index : Nat) (child : Component) : Supervised :=
  { sup with comps := Function.update sup.comps index child }

def goTo (sup : Supervised) (stage : BringUpStage) : Supervised :=
  { sup with stage := stage }

def child (sup : Supervised) : Component :=
  sup.comps sup.current

/-- On to the next child, or to the end of `bringUp`. -/
def advance (kinds : List ChildKind) (sup : Supervised) : Supervised :=
  { sup with
    current := sup.current + 1
    stage := if sup.current + 1 < kinds.length then .starting else .flipping }

/-- The statements after `markSupervised` returned no error. -/
def afterMark (kinds : List ChildKind) (sup : Supervised) : Supervised :=
  match kinds.getD sup.current .listening with
  | .listening => sup.advance kinds
  | .kine => sup.goTo .closing
  | .etcd _ _ => sup.goTo .dialing

def markSupervised (kinds : List ChildKind) (sup : Supervised) : Supervised :=
  let marked := { sup.child with supervised := true }
  if marked.exited && !marked.reported then
    (sup.setChild sup.current { marked with reported := true }).goTo
      (.failed (.exited sup.current false))
  else
    (sup.setChild sup.current marked).afterMark kinds

def etcdExitedErr (sup : Supervised) : Supervised :=
  if sup.child.reported then sup.goTo (.failed (.exited sup.current true))
  else
    (sup.setChild sup.current { sup.child with reported := true }).goTo
      (.failed (.exited sup.current false))

/-- After `dial`: `promoteAndAwaitQuorum` asks a joining member whether it is a learner. -/
def afterDial (kinds : List ChildKind) (sup : Supervised) : Supervised :=
  match kinds.getD sup.current .listening with
  | .etcd true _ => sup.goTo (.asking .learner)
  | _ => sup.goTo .looking

/-- `promoteAndAwaitQuorum` on a member that is a learner. -/
def afterLearner (kinds : List ChildKind) (sup : Supervised) : Supervised :=
  match kinds.getD sup.current .listening with
  | .etcd _ true => sup.goTo (.asking .promotion)
  | _ => sup.goTo (.ticking .stranded)

/-- The answer to a call of one of the waits.  For `quorum` the error is that of
`checkPeers`. -/
def answered (kinds : List ChildKind) (sup : Supervised) :
    EtcdWait → CallAnswer → Supervised
  | .learner, .yes => sup.afterLearner kinds
  | .learner, .no => sup.goTo .looking
  | .learner, .error => sup.goTo (.ticking .learner)
  | .stranded, .no => sup.goTo .looking
  | .stranded, _ => sup.goTo (.ticking .stranded)
  | .promotion, .yes => sup.goTo .looking
  | .promotion, _ => sup.goTo (.ticking .promotion)
  | .quorum, .yes => sup.goTo .closing
  | .quorum, .no => sup.goTo (.ticking .quorum)
  | .quorum, .error => sup.goTo (.failed .other)

def again (sup : Supervised) : EtcdWait → Supervised
  | .quorum => sup.goTo .looking
  | wait => sup.goTo (.asking wait)

/-- One statement of bring-up that is not a blocking `select`, with the answer of the call
it makes, if any. -/
def bringUp (kinds : List ChildKind) (answer : CallAnswer) (sup : Supervised) : Supervised :=
  match sup.stage with
  | .starting =>
    match answer with
    | .yes => (sup.setChild sup.current .spawned).goTo .awaiting
    | _ => sup.goTo (.failed .other)
  | .awaiting => if sup.child.exited then sup.goTo (.failed .other) else sup.goTo .probing
  | .probing =>
    match answer with
    | .yes => (sup.setChild sup.current { sup.child with ready := true }).goTo .marking
    | .no => sup.goTo .resting
    | .error => sup.goTo (.failed .other)
  | .marking => sup.markSupervised kinds
  | .dialing =>
    match answer with
    | .yes => sup.afterDial kinds
    | _ => sup.goTo (.failed .other)
  | .asking wait => sup.answered kinds wait answer
  | .looking => if sup.child.exited then sup.goTo .exitedErr else sup.goTo (.asking .quorum)
  | .exitedErr => sup.etcdExitedErr
  | .closing =>
    match answer with
    | .yes => sup.advance kinds
    | _ => sup.goTo (.failed .other)
  | .flipping => { sup with supervising := true, stage := .up }
  | _ => sup

/-- A blocking `select` of bring-up: the one of `awaitHealthy` and `etcdWaitTick`. -/
def selects (choice : Selected) (sup : Supervised) : Supervised :=
  match sup.stage, choice with
  | .resting, .cancelled => sup.goTo (.failed .other)
  | .resting, .exited => if sup.child.exited then sup.goTo (.failed .other) else sup
  | .resting, .timer => sup.goTo .awaiting
  | .ticking _, .cancelled =>
    if sup.child.exited then sup.goTo .exitedErr else sup.goTo (.failed .other)
  | .ticking _, .exited => if sup.child.exited then sup.goTo .exitedErr else sup
  | .ticking wait, .timer => sup.again wait
  | _, _ => sup

def next (kinds : List ChildKind) (sup : Supervised) : SupervisedStep → Supervised
  | .dies index => sup.setChild index (sup.comps index).dies
  | .decides index => sup.setChild index ((sup.comps index).decides sup.supervising)
  | .publishes index => sup.setChild index (sup.comps index).publishes
  | .calls index => sup.setChild index (sup.comps index).calls
  | .bringUp answer => sup.bringUp kinds answer
  | .selects choice => sup.selects choice

/-- The children of `bringUp` over kine: the datastore, the apiserver, the scheduler and the
controller-manager. -/
def kinePosture : List ChildKind :=
  [.kine, .listening, .listening, .listening]

def etcdPosture (join promote : Bool) : List ChildKind :=
  [.etcd join promote, .listening, .listening, .listening]

def start (kinds : List ChildKind) : Supervised where
  comps := fun _ => .unborn
  supervising := false
  current := 0
  stage := if kinds.isEmpty then .flipping else .starting

/-- How often the death of a child was reported: by the callback, or by an error of
bring-up that does not match `ErrEtcdChildExited`. -/
def reports (sup : Supervised) (index : Nat) : Nat :=
  (sup.comps index).called + (decide (sup.stage = .failed (.exited index false))).toNat

/-- One death, one report.  A death is complete when the reaper is done with it and bring-up
is past the mark of the child, which readied before. -/
structure OneReport (sup : Supervised) (index : Nat) : Prop where
  not_both : sup.reports index ≤ 1
  not_neither : (sup.comps index).ready = true → (sup.comps index).supervised = true →
    (∃ fire, (sup.comps index).reaper = .finished fire) → sup.reports index = 1

/-- `markSupervised` does not run between the decision of the child's reaper and its closing
of `exited`. -/
def MarkApart (sup : Supervised) : SupervisedStep → Prop
  | .bringUp _ => sup.stage = .marking →
      sup.child.reaper ≠ .decided true ∧ sup.child.reaper ≠ .decided false
  | _ => True

instance (sup : Supervised) : (event : SupervisedStep) → Decidable (sup.MarkApart event)
  | .bringUp _ => inferInstanceAs (Decidable (_ → _ ∧ _))
  | .dies _ | .decides _ | .publishes _ | .calls _ | .selects _ => .isTrue trivial

end Supervised

/-! ## What the reapers and bring-up keep -/

namespace ReaperStage

def decision : ReaperStage → Option Bool
  | .decided fire | .published fire | .finished fire => some fire
  | _ => none

def isPublished : ReaperStage → Bool
  | .published _ | .finished _ => true
  | _ => false

def toldCallback : ReaperStage → Nat
  | .finished fire => fire.toNat
  | _ => 0

end ReaperStage

namespace BringUpStage

def blamed : BringUpStage → Option Nat
  | .failed (.exited index false) => some index
  | _ => none

def isBeforeMark : BringUpStage → Bool
  | .starting | .awaiting | .probing | .resting | .marking => true
  | _ => false

def isAfterMark : BringUpStage → Bool
  | .dialing | .asking _ | .ticking _ | .looking | .exitedErr | .closing => true
  | _ => false

def isFresh : BringUpStage → Bool
  | .starting | .flipping | .up => true
  | _ => false

def leadsTo (before after : BringUpStage) : Bool :=
  (before.isBeforeMark || before.isAfterMark) && after.blamed.isNone && !after.isFresh &&
    (!after.isBeforeMark || before.isBeforeMark) && (!after.isAfterMark || before.isAfterMark)

end BringUpStage

/-- What the stage of a child's reaper says of the child; bring-up may have ended over its
death. -/
structure ChildSound (blamed : Prop) (child : Component) : Prop where
  exited_iff : child.exited = child.reaper.isPublished
  called_eq : child.called = child.reaper.toldCallback
  undecided : child.reaper.decision = none → child.reported = false
  fired : child.reaper.decision = some true → child.reported = true ∧ child.supervised = true
  spared : child.reaper.decision = some false → child.reported = true → blamed
  claimed : blamed → child.reaper.decision = some false
  heard : child.reaper.decision = some false → child.supervised = true → blamed

namespace ChildSound

variable {blamed : Prop} {child : Component}

theorem unborn (hblamed : ¬blamed) : ChildSound blamed .unborn := by
  constructor <;> simp [Component.unborn, ReaperStage.isPublished, ReaperStage.toldCallback,
    ReaperStage.decision, hblamed]

theorem spawned (hblamed : ¬blamed) : ChildSound blamed .spawned := by
  constructor <;> simp [Component.spawned, ReaperStage.isPublished, ReaperStage.toldCallback,
    ReaperStage.decision, hblamed]

theorem dies (hsound : ChildSound blamed child) : ChildSound blamed child.dies := by
  unfold Component.dies
  split
  case h_2 => exact hsound
  rename_i hreaper
  obtain ⟨hexited, hcalled, hundecided, -, -, hclaimed, -⟩ := hsound
  rw [hreaper] at hexited hcalled hundecided hclaimed
  exact ⟨hexited, hcalled, hundecided, nofun, nofun, hclaimed, nofun⟩

theorem decides {supervising : Bool} (hsound : ChildSound blamed child)
    (hlive : supervising = true → child.reaper = .read → child.supervised = true) :
    ChildSound blamed (child.decides supervising) := by
  unfold Component.decides
  split
  case h_2 => exact hsound
  rename_i hreaper
  obtain ⟨hexited, hcalled, hundecided, -, -, hclaimed, -⟩ := hsound
  rw [hreaper] at hexited hcalled hundecided hclaimed
  have hreported := hundecided rfl
  have hblamed : ¬blamed := fun hblamed => nomatch hclaimed hblamed
  cases hsupervised : child.supervised
  · -- an unmarked child: the backstop is not set either, so nothing fires
    have hbackstop : supervising = false := by
      cases supervising
      · rfl
      · rw [hlive rfl hreaper] at hsupervised
        cases hsupervised
    constructor <;> simp_all [ReaperStage.isPublished, ReaperStage.toldCallback,
      ReaperStage.decision]
  · constructor <;> simp_all [ReaperStage.isPublished, ReaperStage.toldCallback,
      ReaperStage.decision]

theorem publishes (hsound : ChildSound blamed child) : ChildSound blamed child.publishes := by
  unfold Component.publishes
  split
  case h_2 => exact hsound
  rename_i fire hreaper
  obtain ⟨-, hcalled, -, hfired, hspared, hclaimed, hheard⟩ := hsound
  rw [hreaper] at hcalled hfired hspared hclaimed hheard
  exact ⟨rfl, hcalled, nofun, hfired, hspared, hclaimed, hheard⟩

theorem calls (hsound : ChildSound blamed child) : ChildSound blamed child.calls := by
  unfold Component.calls
  split
  case h_2 => exact hsound
  rename_i fire hreaper
  obtain ⟨hexited, hcalled, -, hfired, hspared, hclaimed, hheard⟩ := hsound
  rw [hreaper] at hexited hcalled hfired hspared hclaimed hheard
  refine ⟨hexited, ?_, nofun, hfired, hspared, hclaimed, hheard⟩
  show child.called + fire.toNat = fire.toNat
  rw [hcalled]
  exact Nat.zero_add _

theorem readied (hsound : ChildSound blamed child) :
    ChildSound blamed { child with ready := true } := by
  obtain ⟨hexited, hcalled, hundecided, hfired, hspared, hclaimed, hheard⟩ := hsound
  exact ⟨hexited, hcalled, hundecided, hfired, hspared, hclaimed, hheard⟩

end ChildSound

namespace Supervised

structure Sound (sup : Supervised) : Prop where
  children : ∀ index, ChildSound (sup.stage.blamed = some index) (sup.comps index)
  backstop : sup.supervising = true → sup.stage = .up
  earlier : ∀ index < sup.current, (sup.comps index).supervised = true
  later : ∀ index > sup.current, sup.comps index = .unborn
  fresh : sup.stage.isFresh = true → sup.child = .unborn
  before : sup.stage.isBeforeMark = true → sup.child.supervised = false
  after : sup.stage.isAfterMark = true → sup.child.supervised = true
  seen : sup.stage = .exitedErr → sup.child.exited = true

variable {kinds : List ChildKind} {sup : Supervised} {stage : BringUpStage}
variable {index : Nat} {child : Component}

@[simp] theorem setChild_comps_self : (sup.setChild index child).comps index = child := by
  simp [Supervised.setChild]

theorem setChild_comps_of_ne {other : Nat} (hother : other ≠ index) :
    (sup.setChild index child).comps other = sup.comps other := by
  simp [Supervised.setChild, hother]

theorem sound_start : (start kinds).Sound where
  children index := by
    apply ChildSound.unborn
    unfold start
    split <;> exact nofun
  backstop := nofun
  earlier index hindex := absurd hindex (Nat.not_lt_zero index)
  later _ _ := rfl
  fresh _ := rfl
  before _ := rfl
  after := by
    unfold start
    split <;> exact nofun
  seen := by
    unfold start
    split <;> exact nofun

/-- A step that leaves the mark of a child alone and does nothing for a child that is not
there. -/
theorem Sound.setChild (hsound : sup.Sound)
    (hchild : ChildSound (sup.stage.blamed = some index) child)
    (hmark : child.supervised = (sup.comps index).supervised)
    (hexited : (sup.comps index).exited = true → child.exited = true)
    (hunborn : sup.current < index ∨ sup.stage.isFresh = true → sup.comps index = .unborn →
      child = .unborn) : (sup.setChild index child).Sound := by
  have hsupervised : ∀ other, ((sup.setChild index child).comps other).supervised =
      (sup.comps other).supervised := by
    intro other
    by_cases hother : other = index
    · subst hother
      rw [setChild_comps_self, hmark]
    · rw [setChild_comps_of_ne hother]
  have hstill : ∀ other, sup.current < other ∨ sup.stage.isFresh = true →
      sup.comps other = .unborn → (sup.setChild index child).comps other = .unborn := by
    intro other hwhen hbefore
    by_cases hother : other = index
    · subst hother
      rw [setChild_comps_self, hunborn hwhen hbefore]
    · rw [setChild_comps_of_ne hother, hbefore]
  constructor
  case children =>
    intro other
    by_cases hother : other = index
    · subst hother
      rw [setChild_comps_self]
      exact hchild
    · rw [setChild_comps_of_ne hother]
      exact hsound.children other
  case backstop => exact hsound.backstop
  case earlier =>
    intro other hother
    rw [hsupervised]
    exact hsound.earlier other hother
  case later =>
    intro other hother
    exact hstill other (.inl hother) (hsound.later other hother)
  case fresh => exact fun hfresh => hstill _ (.inr hfresh) (hsound.fresh hfresh)
  case before => exact fun hbefore => (hsupervised _).trans (hsound.before hbefore)
  case after => exact fun hafter => (hsupervised _).trans (hsound.after hafter)
  intro hstage
  change ((sup.setChild index child).comps sup.current).exited = true
  by_cases hother : sup.current = index
  · subst hother
    rw [setChild_comps_self]
    exact hexited (hsound.seen hstage)
  · rw [setChild_comps_of_ne hother]
    exact hsound.seen hstage

theorem Sound.marked_of_supervising (hsound : sup.Sound)
    (hsupervising : sup.supervising = true) (hborn : (sup.comps index).reaper = .read) :
    (sup.comps index).supervised = true := by
  have hup := hsound.backstop hsupervising
  have hnot : sup.comps index ≠ .unborn := by
    intro hunborn
    rw [hunborn] at hborn
    cases hborn
  obtain hindex | hindex | hindex := Nat.lt_trichotomy index sup.current
  · exact hsound.earlier index hindex
  · subst hindex
    exact absurd (hsound.fresh (by rw [hup]; rfl)) hnot
  · exact absurd (hsound.later index hindex) hnot

theorem blamed_of_leadsTo {before after : BringUpStage} (hleads : before.leadsTo after = true) :
    before.blamed = none := by
  cases before <;> first | rfl | cases hleads

theorem Sound.goTo (hsound : sup.Sound) (hleads : sup.stage.leadsTo stage = true)
    (hseen : stage = .exitedErr → sup.child.exited = true) : (sup.goTo stage).Sound := by
  have hblamed := blamed_of_leadsTo hleads
  simp only [BringUpStage.leadsTo, Bool.and_eq_true, Bool.or_eq_true, Bool.not_eq_true',
    Option.isNone_iff_eq_none] at hleads
  obtain ⟨⟨⟨⟨hgoing, hnone⟩, hfresh⟩, hbefore⟩, hafter⟩ := hleads
  constructor
  case children =>
    intro index
    have hchild := hsound.children index
    rw [hblamed] at hchild
    change ChildSound (stage.blamed = some index) _
    rw [hnone]
    exact hchild
  case backstop =>
    intro hsupervising
    rw [hsound.backstop hsupervising] at hgoing
    obtain hgoing | hgoing := hgoing <;> cases hgoing
  case earlier => exact hsound.earlier
  case later => exact hsound.later
  case fresh =>
    intro hnow
    change stage.isFresh = true at hnow
    rw [hfresh] at hnow
    cases hnow
  case before =>
    intro hnow
    change stage.isBeforeMark = true at hnow
    exact hsound.before (hbefore.resolve_left (by simp [hnow]))
  case after =>
    intro hnow
    change stage.isAfterMark = true at hnow
    exact hsound.after (hafter.resolve_left (by simp [hnow]))
  case seen => exact hseen

theorem Sound.advance (hsound : sup.Sound) (hstage : sup.stage.isAfterMark = true) :
    (sup.advance kinds).Sound := by
  have hnext : sup.comps (sup.current + 1) = .unborn :=
    hsound.later _ (Nat.lt_succ_self _)
  have hblamed : sup.stage.blamed = none := by
    cases hsup : sup.stage <;> first | rfl | (rw [hsup] at hstage; cases hstage)
  have hnone : (sup.advance kinds).stage.blamed = none := by
    unfold Supervised.advance
    dsimp only
    split <;> rfl
  constructor
  case children =>
    intro index
    have hchild := hsound.children index
    rw [hblamed] at hchild
    rw [hnone]
    exact hchild
  case backstop =>
    intro hsupervising
    rw [hsound.backstop hsupervising] at hstage
    cases hstage
  case earlier =>
    intro index hindex
    obtain hindex | hindex := Nat.lt_succ_iff_lt_or_eq.1 hindex
    · exact hsound.earlier index hindex
    · rw [hindex]
      exact hsound.after hstage
  case later =>
    intro index hindex
    exact hsound.later index (Nat.lt_of_succ_lt hindex)
  case fresh => exact fun _ => hnext
  case before =>
    intro _
    change (sup.comps (sup.current + 1)).supervised = false
    rw [hnext]
    rfl
  case after =>
    unfold Supervised.advance
    dsimp only
    split <;> exact nofun
  case seen =>
    unfold Supervised.advance
    dsimp only
    split <;> exact nofun

theorem Sound.marks (hsound : sup.Sound) (hstage : sup.stage = .marking)
    (hchild : ChildSound (stage.blamed = some sup.current) child)
    (hmarked : child.supervised = true)
    (hothers : ∀ index, index ≠ sup.current → stage.blamed ≠ some index)
    (hfresh : stage.isFresh = false) (hbefore : stage.isBeforeMark = false)
    (hseen : stage ≠ .exitedErr) : ((sup.setChild sup.current child).goTo stage).Sound := by
  have hcomps : ∀ index, index ≠ sup.current →
      ((sup.setChild sup.current child).goTo stage).comps index = sup.comps index :=
    fun index hindex => setChild_comps_of_ne hindex
  have hnow : ((sup.setChild sup.current child).goTo stage).comps sup.current = child :=
    setChild_comps_self
  constructor
  case backstop =>
    intro hsupervising
    have hup := hsound.backstop hsupervising
    rw [hstage] at hup
    cases hup
  case earlier =>
    intro index hindex
    rw [hcomps index (Nat.ne_of_lt hindex)]
    exact hsound.earlier index hindex
  case later =>
    intro index hindex
    rw [hcomps index (Nat.ne_of_gt hindex)]
    exact hsound.later index hindex
  case fresh => exact fun hnot => absurd hnot (ne_true_of_eq_false hfresh)
  case before => exact fun hnot => absurd hnot (ne_true_of_eq_false hbefore)
  case after =>
    intro _
    change (((sup.setChild sup.current child).goTo stage).comps sup.current).supervised = true
    rw [hnow, hmarked]
  case seen => exact fun hnot => absurd hnot hseen
  intro index
  by_cases hindex : index = sup.current
  · rw [hindex, hnow]
    exact hchild
  have hother := hsound.children index
  rw [hstage] at hother
  rw [hcomps index hindex]
  have hblame : (((sup.setChild sup.current child).goTo stage).stage.blamed = some index) =
      (BringUpStage.marking.blamed = some index) :=
    propext ⟨fun hblamed => absurd hblamed (hothers index hindex), nofun⟩
  rw [hblame]
  exact hother

/-- `markSupervised` on a child it does not find dead: unless the reaper stands between its
decision and the close, that is still to come or was heard. -/
theorem Sound.mark (hsound : sup.Sound) (hstage : sup.stage = .marking)
    (hapart : sup.child.reaper ≠ .decided true ∧ sup.child.reaper ≠ .decided false)
    (halive : ¬(sup.child.exited = true ∧ sup.child.reported = false)) :
    ((sup.setChild sup.current { sup.child with supervised := true }).goTo .closing).Sound := by
  have hcurrent := hsound.children sup.current
  rw [hstage] at hcurrent
  change ChildSound _ sup.child at hcurrent
  have hsilent : sup.child.reaper.decision ≠ some false := by
    intro hdecision
    cases hreported : sup.child.reported
    · have hopen : sup.child.exited = false := by
        simpa [hreported] using halive
      rw [hcurrent.exited_iff] at hopen
      cases hreaper : sup.child.reaper with
      | unborn | waiting | read => rw [hreaper] at hdecision; cases hdecision
      | decided fire =>
        rw [hreaper] at hapart hdecision
        exact hapart.2 (congrArg ReaperStage.decided (Option.some.inj hdecision))
      | published fire | finished fire => rw [hreaper] at hopen; cases hopen
    · exact nomatch hcurrent.spared hdecision hreported
  refine hsound.marks hstage ?_ rfl (fun _ _ => nofun) rfl rfl nofun
  obtain ⟨hexited, hcalled, hundecided, hfired, hspared, hclaimed, -⟩ := hcurrent
  refine ⟨hexited, hcalled, hundecided, ?_, hspared, hclaimed, ?_⟩
  · exact fun hdecision => ⟨(hfired hdecision).1, rfl⟩
  · exact fun hdecision => absurd hdecision hsilent

/-- `markSupervised` on a child it finds dead: the reaper decided before, on an unmarked
child, so the error is the only report. -/
theorem Sound.claim (hsound : sup.Sound) (hstage : sup.stage = .marking)
    (hexited : sup.child.exited = true) (hreported : sup.child.reported = false) :
    ((sup.setChild sup.current { sup.child with supervised := true, reported := true }).goTo
      (.failed (.exited sup.current false))).Sound := by
  have hcurrent := hsound.children sup.current
  change ChildSound _ sup.child at hcurrent
  have hdecision : sup.child.reaper.decision = some false := by
    have hpublished := hcurrent.exited_iff
    rw [hexited] at hpublished
    cases hreaper : sup.child.reaper with
    | unborn | waiting | read | decided => rw [hreaper] at hpublished; cases hpublished
    | published fire | finished fire =>
      cases fire
      · rfl
      have hfired := (hcurrent.fired (by rw [hreaper]; rfl)).1
      rw [hreported] at hfired
      cases hfired
  have hothers : ∀ index, index ≠ sup.current →
      (BringUpStage.failed (.exited sup.current false)).blamed ≠ some index := by
    intro index hindex hblamed
    exact hindex (Option.some.inj hblamed).symm
  refine hsound.marks hstage ?_ rfl hothers rfl rfl nofun
  refine ⟨hcurrent.exited_iff, hcurrent.called_eq, ?_, fun _ => ⟨rfl, rfl⟩, fun _ _ => rfl,
    fun _ => hdecision, fun _ _ => rfl⟩
  intro hundecided
  change sup.child.reaper.decision = none at hundecided
  rw [hdecision] at hundecided
  cases hundecided

theorem Sound.reported_of_exitedErr (hsound : sup.Sound) (hstage : sup.stage = .exitedErr) :
    sup.child.reported = true := by
  have hcurrent := hsound.children sup.current
  rw [hstage] at hcurrent
  change ChildSound _ sup.child at hcurrent
  have hmarked : sup.child.supervised = true := hsound.after (by rw [hstage]; rfl)
  cases hdecision : sup.child.reaper.decision with
  | none =>
    have hpublished := hcurrent.exited_iff
    rw [hsound.seen hstage] at hpublished
    cases hreaper : sup.child.reaper with
    | unborn | waiting | read => rw [hreaper] at hpublished; cases hpublished
    | decided fire | published fire | finished fire => rw [hreaper] at hdecision; cases hdecision
  | some fire =>
    cases fire
    · exact nomatch hcurrent.heard hdecision hmarked
    · exact (hcurrent.fired hdecision).1

theorem Sound.afterMark (hsound : (sup.goTo .closing).Sound) : (sup.afterMark kinds).Sound := by
  unfold Supervised.afterMark
  split
  · exact hsound.advance rfl
  · exact hsound
  · exact hsound.goTo rfl nofun

theorem Sound.markSupervised (hsound : sup.Sound) (hstage : sup.stage = .marking)
    (hapart : sup.child.reaper ≠ .decided true ∧ sup.child.reaper ≠ .decided false) :
    (sup.markSupervised kinds).Sound := by
  unfold Supervised.markSupervised
  dsimp only
  split
  case isTrue hdead =>
    rw [Bool.and_eq_true, Bool.not_eq_true'] at hdead
    exact hsound.claim hstage hdead.1 hdead.2
  case isFalse halive =>
    rw [Bool.and_eq_true, Bool.not_eq_true'] at halive
    exact (hsound.mark hstage hapart halive).afterMark

theorem Sound.answered (hsound : sup.Sound) {wait : EtcdWait} {answer : CallAnswer}
    (hstage : sup.stage = .asking wait) : (sup.answered kinds wait answer).Sound := by
  have hgo : ∀ stage : BringUpStage, (BringUpStage.asking wait).leadsTo stage = true →
      stage ≠ .exitedErr → (sup.goTo stage).Sound := by
    intro stage hleads hother
    exact hsound.goTo (hstage ▸ hleads) fun hsame => absurd hsame hother
  fun_cases Supervised.answered kinds sup wait answer
  case case1 =>
    unfold Supervised.afterLearner
    split <;> exact hgo _ rfl nofun
  all_goals exact hgo _ rfl nofun

theorem Sound.bringUp (hsound : sup.Sound) {answer : CallAnswer}
    (hapart : sup.MarkApart (.bringUp answer)) : (sup.bringUp kinds answer).Sound := by
  have hgo : ∀ stage : BringUpStage, sup.stage.leadsTo stage = true →
      stage ≠ .exitedErr → (sup.goTo stage).Sound := by
    intro stage hleads hother
    exact hsound.goTo hleads fun hsame => absurd hsame hother
  unfold Supervised.bringUp
  split
  case h_2 hstage =>
    rw [hstage] at hgo
    split <;> exact hgo _ rfl nofun
  case h_3 hstage =>
    rw [hstage] at hgo
    cases answer
    · have hmarking := hgo .marking rfl nofun
      apply hmarking.setChild (hmarking.children sup.current).readied rfl id
      rintro (hlater | hfresh)
      · exact absurd hlater (Nat.lt_irrefl _)
      · cases hfresh
    · exact hgo _ rfl nofun
    · exact hgo _ rfl nofun
  case h_4 hstage => exact hsound.markSupervised hstage (hapart hstage)
  case h_5 hstage =>
    rw [hstage] at hgo
    cases answer
    · unfold Supervised.afterDial
      dsimp only
      split <;> exact hgo _ rfl nofun
    · exact hgo _ rfl nofun
    · exact hgo _ rfl nofun
  case h_6 wait hstage => exact hsound.answered hstage
  case h_7 hstage =>
    split
    case isTrue hexited => exact hsound.goTo (by rw [hstage]; rfl) fun _ => hexited
    rw [hstage] at hgo
    exact hgo _ rfl nofun
  case h_8 hstage =>
    rw [hstage] at hgo
    unfold Supervised.etcdExitedErr
    rw [if_pos (hsound.reported_of_exitedErr hstage)]
    exact hgo _ rfl nofun
  case h_9 hstage =>
    cases answer
    · exact hsound.advance (by rw [hstage]; rfl)
    · rw [hstage] at hgo
      exact hgo _ rfl nofun
    · rw [hstage] at hgo
      exact hgo _ rfl nofun
  case h_10 hstage =>
    have hchildren := hsound.children
    rw [hstage] at hchildren
    exact ⟨hchildren, fun _ => rfl, hsound.earlier, hsound.later,
      fun _ => hsound.fresh (by rw [hstage]; rfl), nofun, nofun, nofun⟩
  case h_11 => exact hsound
  rename_i hstage
  rw [hstage] at hgo
  cases answer
  · -- the spawned child takes the place of one that was not there
    apply (hgo .awaiting rfl nofun).setChild (ChildSound.spawned nofun)
    · exact (hsound.before (by rw [hstage]; rfl)).symm
    · intro hexited
      have hunborn := hsound.fresh (by rw [hstage]; rfl)
      change sup.child.exited = true at hexited
      rw [hunborn] at hexited
      cases hexited
    · rintro (hlater | hfresh)
      · exact absurd hlater (Nat.lt_irrefl _)
      · cases hfresh
  · exact hgo _ rfl nofun
  · exact hgo _ rfl nofun

theorem Sound.selects (hsound : sup.Sound) {choice : Selected} : (sup.selects choice).Sound := by
  have hgo : ∀ stage : BringUpStage, sup.stage.leadsTo stage = true →
      stage ≠ .exitedErr → (sup.goTo stage).Sound := by
    intro stage hleads hother
    exact hsound.goTo hleads fun hsame => absurd hsame hother
  unfold Supervised.selects
  split
  case h_1 hstage => exact hgo _ (by rw [hstage]; rfl) nofun
  case h_2 hstage =>
    split
    · exact hgo _ (by rw [hstage]; rfl) nofun
    · exact hsound
  case h_3 hstage => exact hgo _ (by rw [hstage]; rfl) nofun
  case h_4 hstage =>
    split
    case isTrue hexited => exact hsound.goTo (by rw [hstage]; rfl) fun _ => hexited
    case isFalse => exact hgo _ (by rw [hstage]; rfl) nofun
  case h_5 hstage =>
    split
    case isTrue hexited => exact hsound.goTo (by rw [hstage]; rfl) fun _ => hexited
    case isFalse => exact hsound
  case h_6 wait hstage =>
    cases wait <;> exact hgo _ (by rw [hstage]; rfl) nofun
  case h_7 => exact hsound

theorem Sound.next (hsound : sup.Sound) {event : SupervisedStep} (hapart : sup.MarkApart event) :
    (sup.next kinds event).Sound := by
  cases event with
  | dies index =>
    apply hsound.setChild (hsound.children index).dies
    · unfold Component.dies; split <;> rfl
    · unfold Component.dies; split <;> exact id
    · intro _ hunborn; rw [hunborn]; rfl
  | decides index =>
    apply hsound.setChild ((hsound.children index).decides hsound.marked_of_supervising)
    · unfold Component.decides; split <;> rfl
    · unfold Component.decides; split <;> exact id
    · intro _ hunborn; rw [hunborn]; rfl
  | publishes index =>
    apply hsound.setChild (hsound.children index).publishes
    · unfold Component.publishes; split <;> rfl
    · unfold Component.publishes; split
      · exact fun _ => rfl
      · exact id
    · intro _ hunborn; rw [hunborn]; rfl
  | calls index =>
    apply hsound.setChild (hsound.children index).calls
    · unfold Component.calls; split <;> rfl
    · unfold Component.calls; split <;> exact id
    · intro _ hunborn; rw [hunborn]; rfl
  | bringUp answer => exact hsound.bringUp hapart
  | selects choice => exact hsound.selects

theorem blamed_eq_some : stage.blamed = some index ↔ stage = .failed (.exited index false) := by
  constructor
  · intro hblamed
    cases stage with
    | failed error =>
      cases error with
      | exited other wrapped =>
        cases wrapped
        · rw [Option.some.inj hblamed]
        · cases hblamed
      | other => cases hblamed
    | _ => cases hblamed
  · intro hstage
    rw [hstage]
    rfl

/-- The reaper's part of the reports and bring-up's exclude each other, and a decision not
to fire on a marked child is bring-up's to report. -/
theorem Sound.oneReport (hsound : sup.Sound) (index : Nat) : sup.OneReport index := by
  have hchild := hsound.children index
  have hclaimed := hchild.claimed
  have hheard := hchild.heard
  rw [blamed_eq_some] at hclaimed hheard
  constructor
  case not_neither =>
    rintro - hmarked ⟨fire, hreaper⟩
    unfold Supervised.reports
    rw [hchild.called_eq]
    rw [hreaper] at hclaimed hheard ⊢
    cases fire
    · rw [decide_eq_true (hheard rfl hmarked)]
      rfl
    · have hstage : sup.stage ≠ .failed (.exited index false) :=
        fun hstage => nomatch hclaimed hstage
      rw [decide_eq_false hstage]
      rfl
  unfold Supervised.reports
  rw [hchild.called_eq]
  by_cases hstage : sup.stage = .failed (.exited index false)
  · have hdecision := hclaimed hstage
    have hsilent : (sup.comps index).reaper.toldCallback = 0 := by
      cases hreaper : (sup.comps index).reaper with
      | finished fire =>
        rw [hreaper] at hdecision
        rw [Option.some.inj hdecision]
        rfl
      | _ => rfl
    rw [hsilent, decide_eq_true hstage]
    rfl
  · rw [decide_eq_false hstage]
    cases (sup.comps index).reaper with
    | finished fire => exact Bool.toNat_le fire
    | _ => exact Nat.zero_le 1

/-- One death, one report: in every history of any number of children in which no
`markSupervised` runs between a reaper's decision and its closing of the channel. -/
theorem one_death_one_report (kinds : List ChildKind) (events : List SupervisedStep)
    (hapart : EachStep MarkApart (next kinds) (start kinds) events) :
    Always (fun sup => ∀ index, sup.OneReport index) (next kinds) (start kinds) events := by
  have hsound : Always Sound (next kinds) (start kinds) events :=
    always_of_eachStep (fun _ _ hsound hmeets => hsound.next hmeets) sound_start hapart
  exact hsound.mono fun _ hsound => hsound.oneReport

def comesUp : List SupervisedStep :=
  [.bringUp .yes, .bringUp .yes, .bringUp .yes, .bringUp .yes]

/-- A joining member that dies during the quorum wait and an apiserver never reached. -/
def memberDies : List SupervisedStep :=
  comesUp ++ ([.bringUp .yes, .bringUp .no, .bringUp .yes, .bringUp .no, .dies 0, .decides 0,
    .publishes 0, .selects .exited, .calls 0, .bringUp .yes] : List SupervisedStep)

theorem memberDies_reported_once :
    ((memberDies.foldl (next (etcdPosture true true)) (start (etcdPosture true true))).comps
      0).reaper = .finished true ∧
    Always (fun sup => ∀ index, sup.OneReport index) (next (etcdPosture true true))
      (start (etcdPosture true true)) memberDies :=
  ⟨by decide +kernel, one_death_one_report _ memberDies (by decide +kernel)⟩

/-- The controller-manager dies before it is marked; its reaper decides, bring-up marks it, and
only then is `exited` closed. -/
def lostDeath : List SupervisedStep :=
  comesUp ++ [SupervisedStep.bringUp .yes] ++ comesUp ++ comesUp ++ ([.bringUp .yes, .bringUp .yes,
    .bringUp .yes, .dies 3, .decides 3, .bringUp .yes, .publishes 3, .calls 3, .bringUp .yes] :
      List SupervisedStep)

/-- The death of the controller-manager reaches nobody: `Start` succeeds and the callback stays
silent. -/
theorem lostDeath_reported_by_nobody :
    (lostDeath.foldl (next kinePosture) (start kinePosture)).stage = .up ∧
    (lostDeath.foldl (next kinePosture) (start kinePosture)).reports 3 = 0 ∧
    ¬Always (fun sup => ∀ index, sup.OneReport index) (next kinePosture) (start kinePosture)
      lostDeath := by
  have hnone : (lostDeath.foldl (next kinePosture) (start kinePosture)).reports 3 = 0 := by
    decide +kernel
  refine ⟨by decide +kernel, hnone, ?_⟩
  intro halways
  have hone := (halways.last 3).not_neither (by decide +kernel) (by decide +kernel)
    ⟨false, by decide +kernel⟩
  rw [hnone] at hone
  cases hone

end Supervised

end K3sm.Executor

import K3sm.Updatectl.Roll

/-!
# What a pass can do to an entry

The phases an entry goes through lie in order: it is pending, then held (cordoned or
drained), then with its node, and then it has ended.  Whatever the calls answer, one
pass takes an entry on from where it is, and every patch it sends meanwhile goes to
the entry's own node.
-/

namespace K3sm.Updatectl

open K3sm.Core K3sm.Core.Filepath

def heldPhase : NodePhase → Bool
  | .cordoning | .draining => true
  | _ => false

def activePhase (phase : NodePhase) : Bool := heldPhase phase || nodeSidePhase phase

def throughPhase : NodePhase → Bool
  | .done | .skipped => true
  | _ => false

def Node.settledOn (node : Node) (tag : Str) : Bool :=
  node.reported == .done && onTarget node.kubeletVersion tag && node.ready

/-- When the node was handed over, as far as a pass knows. -/
def Entry.handedAt (entry : Entry) (node : Node) (now : Time) : Time :=
  (annotationTime node.annotations.handedOverAt).getD (entry.startedAt.getD now)

def Ripe (update : Update) (now : Time) (node : Node) : Prop :=
  node.annotations.updateVersion = some update.spec.version ∧
    node.settledOn update.spec.version = true ∧ ∃ readyAt,
      annotationTime node.annotations.readyAt = some readyAt ∧ settlePeriod ≤ now - readyAt

def GivesUp (config : Config) (update : Update) (now : Time) (entry : Entry) (node : Node) : Prop :=
  if node.annotations.updateVersion = some update.spec.version then
    node.reported = .failed ∨ config.nodeTimeout < now - entry.handedAt node now
  else config.nodeTimeout < 0

def AnswersNode : (request : Request) → request.Answer → Prop
  | .patch name patch _, answer => ∀ node, answer = some node →
      ∃ old : Node, old.name = name ∧ node = patch.apply old
  | _, _ => True

def EntryPatch (update : Update) (now : Time) (settles : Prop) : Patch → Prop
  | .cordon | .release _ | .unsettle => True
  | .handover uid _ _ _ time => uid = update.uid ∧ time = now
  | .settle time => time = now ∧ settles
  | .orphan _ _ => False

/-- The calls made for one entry: the release index, the signer, the pods, and patches
of the entry's node that carry the entry as it stands. -/
def ForEntry (update : Update) (now : Time) (settles : Prop) (name : Str)
    (work : Entry → List Entry) : Request → Prop
  | .resolve _ | .sign _ => True
  | .drain node => node = name
  | .patch node patch working => node = name ∧ EntryPatch update now settles patch ∧
      ∃ entry : Entry, entry.name = name ∧ working = work entry
  | _ => False

structure Watched (name : Str) (resolution : Resolution) (ripe fails : Prop) (result : Advanced) :
    Prop where
  name : result.entry.name = name
  resolution : result.resolution = resolution
  error : result.error ≠ none → result.error = some .transient
  phase : nodeSidePhase result.entry.phase = true ∨
    (result.error = none ∧
      ((result.entry.phase = .done ∧ ripe) ∨ (result.entry.phase = .failed ∧ fails)))

structure Held (name : Str) (result : Advanced) : Prop where
  name : result.entry.name = name
  error : result.error ≠ none → result.error = some .transient
  phase : activePhase result.entry.phase = true ∨
    (result.error = none ∧ result.entry.phase = .failed)

theorem Watched.held {name : Str} {resolution : Resolution} {fails : Prop} {result : Advanced}
    (hwatched : Watched name resolution False fails result) : Held name result where
  name := hwatched.name
  error := hwatched.error
  phase := by
    rcases hwatched.phase with hside | ⟨hnone, ⟨-, hnot⟩ | ⟨hfailed, -⟩⟩
    · exact .inl (by simp [activePhase, hside])
    · exact hnot.elim
    · exact .inr ⟨hnone, hfailed⟩

section Parts

variable {config : Config} {update : Update} {now : Time} {work : Entry → List Entry}
  {resolution : Resolution} {entry : Entry} {node : Node} {handedAt readyAt : Time}
  {settles ripe fails : Prop}

theorem forEntry_patch (hnode : node.name = entry.name) {patch : Patch}
    (hpatch : EntryPatch update now settles patch) :
    ForEntry update now settles entry.name work (.patch node.name patch (work entry)) :=
  ⟨hnode, hpatch, entry, rfl, rfl⟩

theorem answersNode_name {name : Str} {patch : Patch} {working : List Entry} {answer : Option Node}
    (hanswer : AnswersNode (.patch name patch working) answer) :
    ∀ node, answer = some node → node.name = name := by
  intro node hsome
  obtain ⟨old, hold, rfl⟩ := hanswer node hsome
  exact (Patch.apply_name old patch).trans hold

theorem watched_stays (hphase : nodeSidePhase entry.phase = true) (resolution : Resolution)
    (error : Option AdvanceError) (herror : error = none ∨ error = some .transient) :
    Watched entry.name resolution ripe fails ⟨entry, resolution, error⟩ where
  name := rfl
  resolution := rfl
  error := fun hsome => herror.resolve_left hsome
  phase := .inl hphase

theorem watched_expire (entry : Entry) (hphase : nodeSidePhase entry.phase = true)
    (resolution : Resolution) (hfails : config.nodeTimeout < now - handedAt → fails) :
    Watched entry.name resolution ripe fails
      ⟨expire config now handedAt entry, resolution, none⟩ := by
  unfold expire
  split_ifs with hlate
  · exact ⟨rfl, rfl, fun hsome => absurd rfl hsome, .inr ⟨rfl, .inr ⟨rfl, hfails hlate⟩⟩⟩
  · exact watched_stays hphase resolution none (.inl rfl)

structure HandedOver (update : Update) (now : Time) (name : Str) (node : Node) : Prop where
  name : node.name = name
  reported : node.reported = .unset
  version : node.annotations.updateVersion = some update.spec.version
  time : annotationTime node.annotations.handedOverAt = some now

theorem payload_version {payload' : Payload}
    (hpayload : payload config update resolution = some payload') :
    payload'.version = update.spec.version := by
  unfold payload at hpayload
  split at hpayload
  · rw [← Option.some.inj hpayload]
  · cases hpayload

section

variable (hnode : node.name = entry.name)

include hnode

theorem handover_all :
    (handover config update now work resolution entry node).All AnswersNode
      (ForEntry update now settles entry.name work) fun answer => ∀ node, answer = some node →
        HandedOver update now entry.name node := by
  unfold handover
  cases hpayload : payload config update resolution with
  | none => simp
  | some payload' =>
    simp only [Prog.ask_bind, Prog.all_call]
    refine ⟨trivial, ?_⟩
    rintro (_ | ⟨sig, signer⟩) -
    · simp
    refine ⟨forEntry_patch hnode ⟨rfl, rfl⟩, fun answer hanswer node hsome => ?_⟩
    obtain ⟨old, hold, rfl⟩ := hanswer node hsome
    exact {
      name := hold.trans hnode
      reported := rfl
      version := congrArg some (payload_version hpayload)
      time := rfl }

theorem release_all :
    (release work entry node).All AnswersNode (ForEntry update now settles entry.name work)
      fun _ => True :=
  ⟨forEntry_patch hnode trivial, fun _ _ => trivial⟩

theorem cordon_all :
    (cordon work entry node).All AnswersNode (ForEntry update now settles entry.name work)
      fun answer => ∀ node, answer = some node → node.name = entry.name := by
  unfold cordon
  split_ifs
  · intro other hother
    rwa [← Option.some.inj hother]
  · refine ⟨forEntry_patch hnode trivial, fun answer hanswer other hsome => ?_⟩
    exact (answersNode_name hanswer other hsome).trans hnode

theorem settled_all (hphase : nodeSidePhase entry.phase = true)
    (hripe : settlePeriod ≤ now - readyAt → ripe)
    (hfails : config.nodeTimeout < now - handedAt → fails) :
    (settled config update now work resolution entry node handedAt readyAt).All
      AnswersNode (ForEntry update now settles entry.name work)
      (Watched entry.name resolution ripe fails) := by
  unfold settled
  split_ifs with hperiod
  · apply (release_all hnode).bind
    rintro (_ | _) -
    · exact watched_stays hphase resolution _ (.inr rfl)
    · exact ⟨rfl, rfl, fun hsome => absurd rfl hsome, .inr ⟨rfl, .inl ⟨rfl, hripe hperiod⟩⟩⟩
  · exact watched_expire entry hphase resolution hfails

theorem settle_all (hphase : nodeSidePhase entry.phase = true) (hsettles : settles)
    (hripe : ∀ readyAt, annotationTime node.annotations.readyAt = some readyAt →
      settlePeriod ≤ now - readyAt → ripe) (hfails : config.nodeTimeout < now - handedAt → fails) :
    (settle config update now work resolution entry node handedAt).All AnswersNode
      (ForEntry update now settles entry.name work) (Watched entry.name resolution ripe fails) := by
  unfold settle
  split
  · rename_i readyAt hready
    exact settled_all hnode hphase (hripe readyAt hready) hfails
  · refine ⟨forEntry_patch hnode ⟨rfl, hsettles⟩, ?_⟩
    rintro (_ | other) hanswer
    · exact watched_stays hphase resolution _ (.inr rfl)
    refine settled_all ((answersNode_name hanswer other rfl).trans hnode) hphase ?_ hfails
    -- the settle has only begun
    intro hperiod
    simp [settlePeriod] at hperiod

theorem unsettle_all (hphase : nodeSidePhase entry.phase = true)
    (hfails : config.nodeTimeout < now - handedAt → fails) :
    (unsettle config now work resolution entry node handedAt).All AnswersNode
      (ForEntry update now settles entry.name work) (Watched entry.name resolution ripe fails) := by
  unfold unsettle
  split_ifs
  · refine ⟨forEntry_patch hnode trivial, ?_⟩
    rintro (_ | other) -
    · exact watched_stays hphase resolution _ (.inr rfl)
    · exact watched_expire entry hphase resolution hfails
  · exact watched_expire entry hphase resolution hfails

theorem observe_all (hphase : nodeSidePhase entry.phase = true)
    (hsettles : node.settledOn update.spec.version = true → settles)
    (hripe : node.settledOn update.spec.version = true → ∀ readyAt,
      annotationTime node.annotations.readyAt = some readyAt → settlePeriod ≤ now - readyAt → ripe)
    (hfails : node.reported = .failed ∨
      config.nodeTimeout < now - entry.handedAt node now → fails) :
    (observe config update now work resolution entry node).All AnswersNode
      (ForEntry update now settles entry.name work) (Watched entry.name resolution ripe fails) := by
  unfold observe
  split
  case h_1 hreported =>
    exact ⟨rfl, rfl, fun hsome => absurd rfl hsome, .inr ⟨rfl, .inr ⟨rfl, hfails (.inl hreported)⟩⟩⟩
  case h_2 hreported =>
    split_ifs with htarget hready
    · have hnow : node.settledOn update.spec.version = true := by
        simp [Node.settledOn, hreported, htarget, hready]
      exact settle_all hnode hphase (hsettles hnow) (hripe hnow) fun hlate => hfails (.inr hlate)
    · exact unsettle_all hnode hphase fun hlate => hfails (.inr hlate)
    · exact watched_expire entry hphase resolution fun hlate => hfails (.inr hlate)
  case h_3 =>
    split_ifs with hreported
    · exact watched_expire { entry with phase := _ } hreported resolution
        fun hlate => hfails (.inr hlate)
    · exact watched_expire entry hphase resolution fun hlate => hfails (.inr hlate)

end

theorem observe_handedOver_all (entry : Entry) (hnode : HandedOver update now entry.name node)
    (hphase : nodeSidePhase entry.phase = true) (hfails : config.nodeTimeout < 0 → fails) :
    (observe config update now work resolution entry node).All AnswersNode
      (ForEntry update now settles entry.name work) (Watched entry.name resolution ripe fails) := by
  have hnot : node.settledOn update.spec.version = false := by
    simp [Node.settledOn, hnode.reported]
  refine observe_all hnode.name hphase ?_ ?_ ?_
  · intro hripe
    rw [hnot] at hripe
    cases hripe
  · intro hripe
    rw [hnot] at hripe
    cases hripe
  · rintro (hreported | hlate)
    · rw [hnode.reported] at hreported
      cases hreported
    · apply hfails
      simpa [Entry.handedAt, hnode.time] using hlate

theorem watch_all (entry : Entry) (hnode : node.name = entry.name)
    (hphase : nodeSidePhase entry.phase = true)
    (hsettles : node.settledOn update.spec.version = true → settles) :
    (watch config update now work resolution entry node).All AnswersNode
      (ForEntry update now settles entry.name work)
      (Watched entry.name resolution (Ripe update now node)
        (GivesUp config update now entry node)) := by
  unfold watch
  rw [if_neg (by simp [hphase])]
  split_ifs with hversion
  · refine observe_all hnode hphase hsettles ?_ ?_
    · exact fun hsettled readyAt hready hperiod => ⟨hversion, hsettled, readyAt, hready, hperiod⟩
    · rw [GivesUp, if_pos hversion]
      exact fun hfails => hfails
  · apply (handover_all hnode).bind
    rintro (_ | other) hother
    · exact watched_stays hphase resolution _ (.inr rfl)
    refine observe_handedOver_all entry (hother other rfl) hphase ?_
    rw [GivesUp, if_neg hversion]
    exact fun hfails => hfails

theorem held_stays (hphase : activePhase entry.phase = true) (resolution : Resolution)
    (error : Option AdvanceError) (herror : error = none ∨ error = some .transient) :
    Held entry.name ⟨entry, resolution, error⟩ where
  name := rfl
  error := fun hsome => herror.resolve_left hsome
  phase := .inl hphase

theorem held_fails (resolution : Resolution) :
    Held entry.name ⟨entry.finish now .failed, resolution, none⟩ where
  name := rfl
  error := fun hsome => absurd rfl hsome
  phase := .inr ⟨rfl, rfl⟩

theorem watch_handedOver_all (entry : Entry) (hnode : HandedOver update now entry.name node)
    (hphase : nodeSidePhase entry.phase = true) :
    (watch config update now work resolution entry node).All AnswersNode
      (ForEntry update now settles entry.name work) (Watched entry.name resolution False True) := by
  unfold watch
  rw [if_neg (by simp [hphase]), if_pos hnode.version]
  exact observe_handedOver_all entry hnode hphase fun _ => trivial

theorem handOverAndWatch_all (hnode : node.name = entry.name)
    (hphase : activePhase entry.phase = true) :
    (handOverAndWatch config update now work resolution entry node).All AnswersNode
      (ForEntry update now settles entry.name work) (Held entry.name) := by
  unfold handOverAndWatch
  apply (handover_all hnode).bind
  rintro (_ | other) hother
  · exact held_stays hphase resolution _ (.inr rfl)
  · exact (watch_handedOver_all { entry with phase := .downloading } (hother other rfl) rfl).mono
      fun _ hwatched => hwatched.held

theorem drainAndHandOver_all (entry : Entry) (hnode : node.name = entry.name)
    (hphase : activePhase entry.phase = true) :
    (drainAndHandOver config update now work resolution entry node).All AnswersNode
      (ForEntry update now settles entry.name work) (Held entry.name) := by
  unfold drainAndHandOver
  simp only [Prog.ask_bind, Prog.all_call]
  refine ⟨hnode, ?_⟩
  rintro (_ | ⟨remaining, bare⟩) -
  · exact held_stays hphase resolution _ (.inr rfl)
  simp only
  split_ifs
  · exact held_fails resolution
  · exact held_fails resolution
  · exact held_stays hphase resolution _ (.inl rfl)
  · exact handOverAndWatch_all hnode hphase

theorem hold_all (entry : Entry) (hnode : node.name = entry.name)
    (hphase : heldPhase entry.phase = true) (hcancel : update.spec.cancel = false) :
    (hold config update now work resolution entry node).All AnswersNode
      (ForEntry update now settles entry.name work) (Held entry.name) := by
  have hactive : activePhase entry.phase = true := by simp [activePhase, hphase]
  unfold hold
  rw [if_neg (by simp [hcancel])]
  apply (cordon_all hnode).bind
  rintro (_ | other) hother
  · exact held_stays hactive resolution _ (.inr rfl)
  simp only
  split_ifs
  · exact handOverAndWatch_all (hother other rfl) hactive
  · exact drainAndHandOver_all { entry with phase := .draining } (hother other rfl) rfl

end Parts

structure Advances (cancel : Bool) (name : Str) (phase : NodePhase) (resolution : Resolution)
    (ripe fails : Prop) (result : Advanced) : Prop where
  sameName : result.entry.name = name
  failure : ∀ pin, result.error = some (.rollFailure pin) →
    isPending phase = true ∧ result.entry.phase = phase
  retry : result.error = some .transient →
    (isPending phase = true ∧ result.entry.phase = phase) ∨ activePhase result.entry.phase = true
  moved : result.error = none → activePhase result.entry.phase = true ∨
    throughPhase result.entry.phase = true ∨ result.entry.phase = .failed ∨
    result.entry.phase = .cancelled
  watched : nodeSidePhase phase = true → Watched name resolution ripe fails result
  passed : throughPhase result.entry.phase = true → result.resolution = resolution ∧
    (result.entry.phase = .done → nodeSidePhase phase = true)
  cancelled : result.entry.phase = .cancelled → cancel = true ∧ heldPhase phase = true

theorem activePhase_not {phase : NodePhase} (hactive : activePhase phase = true) :
    isPending phase = false ∧ throughPhase phase = false ∧ phase ≠ .failed ∧
      phase ≠ .cancelled := by
  cases phase <;> simp_all [activePhase, heldPhase, nodeSidePhase, isPending, throughPhase]

section Advance

variable {config : Config} {update : Update} {now : Time} {work : Entry → List Entry}
  {resolution : Resolution} {entry : Entry} {node : Option Node} {settles ripe fails : Prop}
  {cancel : Bool} {name : Str} {phase : NodePhase} {result : Advanced}

theorem Held.advances (hheld : Held name result) (hphase : nodeSidePhase phase = false) :
    Advances cancel name phase resolution ripe fails result where
  sameName := hheld.name
  failure := by
    intro pin hpin
    have htransient := hheld.error (by simp [hpin])
    rw [hpin] at htransient
    cases htransient
  retry := by
    intro htransient
    rcases hheld.phase with hactive | ⟨hnone, -⟩
    · exact .inr hactive
    · rw [hnone] at htransient
      cases htransient
  moved := by
    intro _
    rcases hheld.phase with hactive | ⟨-, hfailed⟩
    · exact .inl hactive
    · exact .inr (.inr (.inl hfailed))
  watched := fun hside => absurd hside (by simp [hphase])
  passed := by
    intro hthrough
    rcases hheld.phase with hactive | ⟨-, hfailed⟩
    · rw [(activePhase_not hactive).2.1] at hthrough
      cases hthrough
    · rw [hfailed] at hthrough
      cases hthrough
  cancelled := by
    intro hcancelled
    rcases hheld.phase with hactive | ⟨-, hfailed⟩
    · exact absurd hcancelled (activePhase_not hactive).2.2.2
    · rw [hfailed] at hcancelled
      cases hcancelled

theorem Watched.advances (hwatched : Watched name resolution ripe fails result)
    (hphase : nodeSidePhase phase = true) :
    Advances cancel name phase resolution ripe fails result where
  sameName := hwatched.name
  failure := by
    intro pin hpin
    have htransient := hwatched.error (by simp [hpin])
    rw [hpin] at htransient
    cases htransient
  retry := by
    intro htransient
    rcases hwatched.phase with hside | ⟨hnone, -⟩
    · exact .inr (by simp [activePhase, hside])
    · rw [hnone] at htransient
      cases htransient
  moved := by
    intro _
    rcases hwatched.phase with hside | ⟨-, ⟨hdone, -⟩ | ⟨hfailed, -⟩⟩
    · exact .inl (by simp [activePhase, hside])
    · exact .inr (.inl (by rw [hdone]; rfl))
    · exact .inr (.inr (.inl hfailed))
  watched := fun _ => hwatched
  passed := fun _ => ⟨hwatched.resolution, fun _ => hphase⟩
  cancelled := by
    intro hcancelled
    rcases hwatched.phase with hside | ⟨-, ⟨hdone, -⟩ | ⟨hfailed, -⟩⟩
    · rw [hcancelled] at hside
      cases hside
    · rw [hdone] at hcancelled
      cases hcancelled
    · rw [hfailed] at hcancelled
      cases hcancelled

theorem ensureResolved_all (name : Str) :
    (ensureResolved update now resolution).All AnswersNode
      (ForEntry update now settles name work) fun _ => True := by
  unfold ensureResolved
  split_ifs
  · trivial
  · trivial
  · exact ⟨trivial, fun _ _ => trivial⟩

theorem hold_cancelled_all (entry : Entry) {node : Node} (hnode : node.name = entry.name)
    (hphase : heldPhase entry.phase = true) (hcancel : update.spec.cancel = true) :
    (hold config update now work resolution entry node).All AnswersNode
      (ForEntry update now settles entry.name work)
      (Advances update.spec.cancel entry.name entry.phase resolution ripe fails) := by
  have hactive : activePhase entry.phase = true := by simp [activePhase, hphase]
  have hside : nodeSidePhase entry.phase = false := by
    cases hentry : entry.phase <;> simp_all [heldPhase, nodeSidePhase]
  unfold hold
  rw [if_pos hcancel]
  apply (release_all hnode).bind
  rintro (_ | _) -
  · exact (held_stays hactive resolution _ (.inr rfl)).advances hside
  exact {
    sameName := rfl
    failure := fun _ hpin => nomatch hpin
    retry := fun htransient => nomatch htransient
    moved := fun _ => .inr (.inr (.inr rfl))
    watched := fun hwith => absurd hwith (by simp [hside])
    passed := fun hthrough => nomatch hthrough
    cancelled := fun _ => ⟨hcancel, hphase⟩ }

theorem advances_failed (hfails : nodeSidePhase entry.phase = true → fails) :
    Advances cancel entry.name entry.phase resolution ripe fails
      ⟨entry.finish now .failed, resolution, none⟩ where
  sameName := rfl
  failure := fun _ hpin => nomatch hpin
  retry := fun htransient => nomatch htransient
  moved := fun _ => .inr (.inr (.inl rfl))
  watched := fun hside => ⟨rfl, rfl, fun hsome => absurd rfl hsome,
    .inr ⟨rfl, .inr ⟨rfl, hfails hside⟩⟩⟩
  passed := fun hthrough => nomatch hthrough
  cancelled := fun hcancelled => nomatch hcancelled

theorem advances_skipped (hphase : nodeSidePhase entry.phase = false) :
    Advances cancel entry.name entry.phase resolution ripe fails
      ⟨entry.finish now .skipped, resolution, none⟩ where
  sameName := rfl
  failure := fun _ hpin => nomatch hpin
  retry := fun htransient => nomatch htransient
  moved := fun _ => .inr (.inl rfl)
  watched := fun hside => absurd hside (by simp [hphase])
  passed := fun _ => ⟨rfl, fun hdone => nomatch hdone⟩
  cancelled := fun hcancelled => nomatch hcancelled

/-- What the pass has seen of the entry's node: it is settled, its settle is over, or it
is gone, has failed or is out of time. -/
def SeenSettled (update : Update) (entry : Entry) (node : Option Node) : Prop :=
  nodeSidePhase entry.phase = true ∧
    ∃ found, node = some found ∧ found.settledOn update.spec.version = true

def SeenRipe (update : Update) (now : Time) (node : Option Node) : Prop :=
  ∃ found, node = some found ∧ Ripe update now found

def SeenFailing (config : Config) (update : Update) (now : Time) (entry : Entry)
    (node : Option Node) : Prop :=
  ∀ found, node = some found → GivesUp config update now entry found

theorem proceed_all (entry : Entry) (hnode : ∀ found, node = some found → found.name = entry.name)
    (hphase : activePhase entry.phase = true) :
    (proceed config update now work resolution entry node).All AnswersNode
      (ForEntry update now (SeenSettled update entry node) entry.name work)
      (Advances update.spec.cancel entry.name entry.phase resolution (SeenRipe update now node)
        (SeenFailing config update now entry node)) := by
  cases node with
  | none => exact advances_failed fun _ _ hnone => nomatch hnone
  | some found =>
    have hname := hnode found rfl
    set started : Entry := { entry with startedAt := some (entry.startedAt.getD now) }
    simp only [proceed]
    split_ifs with hheld
    · have hphase : heldPhase entry.phase = true := by
        rcases hheld with hheld | hheld <;> rw [hheld] <;> rfl
      have hside : nodeSidePhase entry.phase = false := by
        rcases hheld with hheld | hheld <;> rw [hheld] <;> rfl
      cases hcancel : update.spec.cancel with
      | true =>
        rw [← hcancel]
        exact hold_cancelled_all started hname hphase hcancel
      | false =>
        exact (hold_all started hname hphase hcancel).mono fun _ hheld => hheld.advances hside
    have hside : nodeSidePhase entry.phase = true := by
      rw [not_or] at hheld
      cases hentry : entry.phase <;> simp_all [activePhase, heldPhase]
    refine (watch_all started hname hside fun hsettled =>
      ⟨hside, found, rfl, hsettled⟩).mono ?_
    intro result hwatched
    refine Watched.advances ⟨hwatched.name, hwatched.resolution, hwatched.error, ?_⟩ hside
    refine hwatched.phase.imp_right fun hended => ⟨hended.1, ?_⟩
    refine hended.2.imp (And.imp_right fun hripe => ⟨found, rfl, hripe⟩)
      (And.imp_right fun hfails other hother => ?_)
    rw [← Option.some.inj hother]
    exact hfails

/-- One pass over an entry that is not through: it moves on from its phase, and every
call is the entry's own. -/
theorem advance_all (hnode : ∀ found, node = some found → found.name = entry.name)
    (hphase : isPending entry.phase = true ∨ activePhase entry.phase = true)
    (hcancel : isPending entry.phase = true → update.spec.cancel = false) :
    (advance config update now work resolution entry node).All AnswersNode
      (ForEntry update now (SeenSettled update entry node) entry.name work)
      (Advances update.spec.cancel entry.name entry.phase resolution (SeenRipe update now node)
        (SeenFailing config update now entry node)) := by
  unfold advance
  split_ifs with hpending
  · have hside : nodeSidePhase entry.phase = false := by
      cases hentry : entry.phase <;> simp_all [isPending, nodeSidePhase]
    cases node with
    | none => exact advances_failed fun _ _ hnone => nomatch hnone
    | some found =>
      simp only
      split_ifs
      · exact advances_skipped hside
      apply (ensureResolved_all entry.name).bind
      rintro ⟨resolution, error⟩ -
      cases error with
      | some error =>
        exact {
          sameName := rfl
          failure := fun _ _ => ⟨hpending, rfl⟩
          retry := fun _ => .inl ⟨hpending, rfl⟩
          moved := fun hnone => nomatch hnone
          watched := fun hwith => absurd hwith (by simp [hside])
          passed := by
            intro hthrough
            simp only at hthrough
            cases hentry : entry.phase <;> simp_all [isPending, throughPhase]
          cancelled := by
            intro hcancelled
            simp only at hcancelled
            rw [hcancelled] at hpending
            cases hpending }
      | none =>
        exact (hold_all { entry with
          from' := fromRelease found.kubeletVersion, startedAt := some now
          phase := .cordoning } (hnode found rfl) rfl (hcancel hpending)).mono
          fun _ hheld => hheld.advances hside
  · exact proceed_all entry hnode (hphase.resolve_left hpending)

end Advance

end K3sm.Updatectl

import K3sm.Updatectl.Settle

/-!
# Passes that settle a node and passes that start over

A pass that sees every marked node settled leaves all marks good.  A pass that sees one
that is not takes its mark off, if its calls take effect and it runs to its end.  Either
way the statuses that are written call Done only what was settled for the period.
-/

namespace K3sm.Updatectl

open K3sm.Core K3sm.Core.Filepath List

section Clear

variable {config : Config} {read : Update} {views : List View} {world : World} {now : Time}
  {work : Entry → List Entry} {node : Node}

theorem viewed_noMark_safe {Result : Type} {post : Result → Prop} {program : Act Result}
    {name : Str} {allow : World → Request → Outcome → Prop}
    (hall : program.All AnswersNode (ForEntry read now False name work) post) (world : World) :
    program.Safe api (fun _ _ => True) allow
      (fun world => Viewed config read views world ∧ NoMark world name)
      (fun result _ => post result) world := by
  refine hall.safe ?_ ?_ world
  · intro world request outcome hinv _
    exact answersNode_of_inOrder config request _ (hinv.1.toSound.answers request outcome)
  · intro world request outcome hinv hrequest _
    have hmarks : MarksSettled read views request := marksSettled_of_held hrequest
    refine ⟨hinv.1.handle hmarks.1 outcome, hinv.2.handle ?_ outcome⟩
    rintro time working rfl
    exact hrequest.2.1.2

theorem patch_clears {patch : Patch} {entry : Entry} {next : Option Node → Act Advanced}
    (hpatch : ∀ node, annotationTime (patch.apply node).annotations.readyAt = none)
    (hnext : ∀ outcome world, Viewed config read views world → NoMark world node.name →
      (next outcome).Safe api (fun _ _ => True) (TakesMarks config) (Viewed config read views)
        (fun _ world => NoMark world node.name) world) :
    (Prog.call (.patch node.name patch (work entry)) next : Act Advanced).Safe api
      (fun _ _ => True) (TakesMarks config) (Viewed config read views)
      (fun _ world => NoMark world node.name) world := by
  intro later _ hviewed outcome houtcome
  have hkept : Viewed config read views
      (World.handle (.patch node.name patch (work entry)) outcome later).2 :=
    hviewed.handle ⟨rfl, rfl⟩ outcome
  exact ⟨hkept, hnext _ _ hkept (noMark_of_patch hpatch houtcome)⟩

theorem noMark_done {Result : Type} {name : Str} {result : Result}
    {allow : World → Request → Outcome → Prop} (hviewed : Viewed config read views world)
    (hnone : NoMark world name) :
    (Prog.done result : Act Result).Safe api (fun _ _ => True) allow (Viewed config read views)
      (fun _ world => NoMark world name) world :=
  Prog.safe_done viewed_stable noMark_stable hviewed hnone

theorem observe_clears (entry : Entry) {resolution : Resolution}
    (hmarked : (annotationTime node.annotations.readyAt).isSome = true)
    (hreported : node.reported = .done)
    (htarget : onTarget node.kubeletVersion read.spec.version = true)
    (hready : node.ready = false) :
    (observe config read now work resolution entry node).Safe api (fun _ _ => True)
      (TakesMarks config) (Viewed config read views)
      (fun _ world => NoMark world node.name) world := by
  have hmark : node.annotations.readyAt.isSome = true := by
    cases hmark : node.annotations.readyAt with
    | none => simp [hmark, annotationTime] at hmarked
    | some stamp => rfl
  unfold observe
  rw [hreported]
  simp only
  rw [if_pos htarget, if_neg (by simp [hready])]
  unfold unsettle
  rw [if_pos hmark]
  simp only [Prog.ask_bind]
  refine patch_clears (fun _ => rfl) ?_
  rintro (_ | other) world hviewed hnone
  · exact noMark_done hviewed hnone
  · exact noMark_done hviewed hnone

theorem handover_clears (entry : Entry) (hnode : node.name = entry.name)
    {resolution : Resolution} {next : Option Node → Act Advanced}
    (hpayload : (payload config read resolution).isSome = true)
    (hnext : ∀ answer world, (∀ other, answer = some other → HandedOver read now entry.name other) →
      Viewed config read views world → NoMark world node.name →
      (next answer).Safe api (fun _ _ => True) (TakesMarks config) (Viewed config read views)
        (fun _ world => NoMark world node.name) world) :
    (handover config read now work resolution entry node >>= next).Safe api (fun _ _ => True)
      (TakesMarks config) (Viewed config read views)
      (fun _ world => NoMark world node.name) world := by
  obtain ⟨payload', hsome⟩ := Option.isSome_iff_exists.1 hpayload
  unfold handover
  simp only [hsome, Prog.ask_bind, Prog.call_bind]
  intro later _ hviewed outcome houtcome
  refine ⟨hviewed, ?_⟩
  cases outcome with
  | signed sig signer =>
    intro later _ hviewed outcome houtcome
    have hkept : Viewed config read views (World.handle (.patch node.name
        (.handover read.uid payload' sig signer now) (work entry)) outcome later).2 :=
      hviewed.handle ⟨rfl, rfl⟩ outcome
    refine ⟨hkept, hnext _ _ ?_ hkept (noMark_of_patch (fun _ => rfl) houtcome)⟩
    intro other hother
    have hanswer := answersNode_of_inOrder config _ _ (hviewed.toSound.answers (.patch node.name
      (.handover read.uid payload' sig signer now) (work entry)) outcome)
    obtain ⟨old, hold, rfl⟩ := hanswer other hother
    exact {
      name := hold.trans hnode
      reported := rfl
      version := congrArg some (payload_version hsome)
      time := rfl }
  | done | lost | unanswered | unneeded | resolved answer | drained remaining bare => cases houtcome

theorem watch_clears (entry : Entry) (hnode : node.name = entry.name)
    (hphase : nodeSidePhase entry.phase = true)
    (hmarked : (annotationTime node.annotations.readyAt).isSome = true)
    (hstarts : startsOver config read node = true) :
    (watch config read now work read.status.resolution entry node).Safe api (fun _ _ => True)
      (TakesMarks config) (Viewed config read views)
      (fun _ world => NoMark world entry.name) world := by
  rw [← hnode]
  unfold watch
  rw [if_neg (by simp [hphase])]
  unfold startsOver at hstarts
  split_ifs with hversion
  · rw [if_pos hversion] at hstarts
    simp only [Bool.and_eq_true, beq_iff_eq, Bool.not_eq_true'] at hstarts
    exact observe_clears entry hmarked hstarts.1.1 hstarts.1.2 hstarts.2
  rw [if_neg hversion] at hstarts
  refine handover_clears entry hnode hstarts ?_
  rintro (_ | other) world hother hviewed hnone
  · exact noMark_done hviewed hnone
  have hobserve : (observe config read now work read.status.resolution entry other).All
      AnswersNode (ForEntry read now False entry.name work)
      (Watched entry.name read.status.resolution False True) :=
    observe_handedOver_all entry (hother other rfl) hphase fun _ => trivial
  rw [hnode] at hnone ⊢
  exact (Prog.Safe.frame viewed_stable noMark_stable hviewed hnone
    (viewed_noMark_safe hobserve world)).mono fun _ _ _ hpost => hpost.2

theorem advance_clears (entry : Entry) (hnode : node.name = entry.name)
    (hphase : nodeSidePhase entry.phase = true)
    (hmarked : (annotationTime node.annotations.readyAt).isSome = true)
    (hstarts : startsOver config read node = true) :
    (advance config read now work read.status.resolution entry (some node)).Safe api
      (fun _ _ => True) (TakesMarks config) (Viewed config read views)
      (fun _ world => NoMark world entry.name) world := by
  have hnot : isPending entry.phase = false ∧ ¬ (entry.phase = .cordoning ∨
      entry.phase = .draining) := by
    cases hentry : entry.phase <;> simp_all [nodeSidePhase, isPending]
  unfold advance
  rw [if_neg (by simp [hnot.1])]
  simp only [proceed]
  rw [if_neg hnot.2]
  exact watch_clears { entry with startedAt := some (entry.startedAt.getD now) } hnode hphase
    hmarked hstarts

theorem not_ripe_of_startsOver (hstarts : startsOver config read node = true) :
    ¬ Ripe read now node := by
  rintro ⟨hversion, hsettled, -⟩
  rw [startsOver, if_pos hversion] at hstarts
  simp only [Node.settledOn, Bool.and_eq_true, Bool.not_eq_true'] at hstarts hsettled
  rw [hsettled.2] at hstarts
  cases hstarts.2

theorem rollEntries_clears (entries : List Entry) {front : List Entry} {nodes : List Node}
    {name : Str} (hfront : ∀ entry ∈ front, throughPhase entry.phase = true)
    (hdone : DoneOk read views front) (hentries : Underway entries)
    (hseen : Seen read views now nodes entries)
    (hclears : ∀ entry ∈ entries, nodeSidePhase entry.phase = true → entry.name = name ∧
      ∃ found, nodes.find? (fun node => node.name == entry.name) = some found ∧
        (annotationTime found.annotations.readyAt).isSome = true ∧
        startsOver config read found = true)
    (hside : ∃ entry ∈ entries, nodeSidePhase entry.phase = true)
    (hviewed : Viewed config read views world) :
    (rollEntries config read now nodes read.status.resolution front entries).Safe api
      (fun _ _ => True) (TakesMarks config) (Viewed config read views)
      (fun rolled world => (DoneOk read views rolled.nodes ∧ ∀ entry ∈ rolled.nodes,
        nodeSidePhase entry.phase = true → entry.name = name) ∧ NoMark world name) world := by
  induction entries generalizing front world with
  | nil =>
    obtain ⟨entry, hnone, -⟩ := hside
    cases hnone
  | cons entry rest ih =>
    unfold rollEntries
    rcases hentries with ⟨hthrough, hrest⟩ | ⟨hphase, hrest⟩
    · rw [if_pos (by rw [← or_assoc]; exact .inl (through_iff.1 hthrough))]
      refine ih ?_ (hdone.append ?_) hrest hseen.rest
        (fun other hother => hclears other (mem_cons_of_mem _ hother)) ?_ hviewed
      · exact forall_mem_append.2 ⟨hfront, by simpa using hthrough⟩
      · intro other hother
        rw [mem_singleton.1 hother]
        exact hseen.done entry mem_cons_self
      · obtain ⟨other, hother, hphase⟩ := hside
        rcases mem_cons.1 hother with rfl | hlater
        · rw [through_not_side hthrough] at hphase
          cases hphase
        · exact ⟨other, hlater, hphase⟩
    have hentrySide : nodeSidePhase entry.phase = true := by
      obtain ⟨other, hother, hotherSide⟩ := hside
      rcases mem_cons.1 hother with rfl | hlater
      · exact hotherSide
      · rw [hrest other hlater] at hotherSide
        cases hotherSide
    have hpending : isPending entry.phase = false := by
      cases hentry : entry.phase <;> simp_all [nodeSidePhase, isPending]
    obtain ⟨rfl, found, hfound, hmarked, hstarts⟩ :=
      hclears entry mem_cons_self hentrySide
    have hname : found.name = entry.name := by simpa using List.find?_some hfound
    have hstop : ∀ (current : Entry) (reason : Reason) (resolution : Resolution)
        (world : World), current.name = entry.name → current.phase ≠ .done →
        Viewed config read views world → NoMark world entry.name →
        (Prog.done ⟨front ++ current :: rest, resolution, reason⟩ : Act Rolled).Safe api
          (fun _ _ => True) (TakesMarks config) (Viewed config read views)
          (fun rolled world => (DoneOk read views rolled.nodes ∧ ∀ other ∈ rolled.nodes,
            nodeSidePhase other.phase = true → other.name = entry.name) ∧
            NoMark world entry.name) world := by
      intro current reason resolution world hsame hnot hviewed hnone later hothers _
      refine ⟨⟨hdone.append ?_, ?_⟩, (noMark_stable.others viewed_stable hothers hviewed hnone).2⟩
      · refine doneOk_of_not (forall_mem_cons.2 ⟨hnot, ?_⟩)
        intro other hother
        rw [hrest other hother]
        decide
      intro other hother hotherSide
      rcases mem_append.1 hother with hmem | hmem
      · rw [through_not_side (hfront other hmem)] at hotherSide
        cases hotherSide
      · rcases mem_cons.1 hmem with rfl | hlater
        · exact hsame
        · rw [hrest other hlater] at hotherSide
          cases hotherSide
    have hnot := next_not hphase
    rw [if_neg (by simp [hnot]), if_neg hnot.2.2.2, if_neg (by simp [hpending])]
    have hcancel : isPending entry.phase = true → read.spec.cancel = false :=
      fun hnot => absurd hnot (by simp [hpending])
    have hadvance := advance_next_all config now nodes
      (fun current => front ++ current :: rest) read.status.resolution hphase hcancel
    simp only [hfound] at hadvance ⊢
    apply ((advance_clears entry hname hentrySide hmarked hstarts).and_all hadvance
      fun world request outcome hinv _ => answersNode_of_inOrder config request _
        (hinv.toSound.answers request outcome)).bind hviewed
    rintro result world hviewed ⟨hnone, hresult⟩
    have hwatched := hresult.watched hentrySide
    have hnotDone : result.entry.phase ≠ .done := by
      intro hdone
      rcases hwatched.phase with hphase | ⟨-, ⟨-, other, hother, hripe⟩ | ⟨hphase, -⟩⟩
      · rw [hdone] at hphase
        cases hphase
      · rw [← Option.some.inj hother] at hripe
        exact not_ripe_of_startsOver hstarts hripe
      · rw [hdone] at hphase
        cases hphase
    have hstopped : ∀ reason resolution, (Prog.done
        ⟨front ++ result.entry :: rest, resolution, reason⟩ : Act Rolled).Safe api
          (fun _ _ => True) (TakesMarks config) (Viewed config read views)
          (fun rolled world => (DoneOk read views rolled.nodes ∧ ∀ other ∈ rolled.nodes,
            nodeSidePhase other.phase = true → other.name = entry.name) ∧
            NoMark world entry.name) world :=
      fun reason resolution => hstop result.entry reason resolution world hresult.sameName
        hnotDone hviewed hnone
    cases herror : result.error with
    | some error =>
      cases error with
      | rollFailure pin | transient => exact hstopped _ _
    | none =>
      rcases hwatched.phase with hphase | ⟨-, ⟨hphase, -⟩ | ⟨hphase, -⟩⟩
      · cases hcase : result.entry.phase <;> simp only [hcase] at hphase hnotDone ⊢ <;>
          first | exact hstopped _ _ | cases hphase
      · exact absurd hphase hnotDone
      · simp only [hphase]
        exact hstopped _ _

end Clear

def SettleInv (config : Config) (world : World) : Prop := SettleBase config world ∧ MarksOk world

structure Settled (read : Update) (status : Status) (world : World) : Prop where
  readOf : ReadOf read world
  done : DoneOk read world.views status.nodes
  side : SideOk read status.nodes world

def ReadMarks (read : Update) (world : World) : Prop :=
  ∀ entry ∈ read.status.nodes, nodeSidePhase entry.phase = true →
    GoodMark world entry.name read.spec.version

section Pass

variable {config : Config} {read : Update} {status : Status} {views : List View} {world : World}
  {now : Time} {allow : World → Request → Outcome → Prop}

theorem Settled.change (hsettled : Settled read status world) (change : Change) :
    Settled read status (world.change change) :=
  ⟨hsettled.readOf.change change, by rw [change_views]; exact hsettled.done,
    hsettled.side.change change⟩

variable {entries : List Entry} {rely : World → Change → Prop} {inv : World → Prop}

theorem settleInv_stable : Stable api rely (fun _ => True) (SettleInv config) :=
  fun _ change _ _ hinv => ⟨hinv.1.change change, hinv.2.change change⟩

theorem settleBase_stable : Stable api rely (fun _ => True) (SettleBase config) :=
  fun _ change _ _ hbase => hbase.change change

theorem marksOk_stable : Stable api rely inv MarksOk :=
  fun _ change _ _ hmarks => hmarks.change change

theorem settled_stable : Stable api rely inv (Settled read status) :=
  fun _ change _ _ hsettled => hsettled.change change

theorem SettleInv.write (hinv : SettleInv config world) (hsettled : Settled read status world)
    (hstatus : StatusOk config status) (outcome : Outcome) :
    SettleInv config (World.handle (.writeStatus read status) outcome world).2 := by
  have hlogged : SettleInv config (world.logWrite read status) := by
    refine ⟨⟨⟨hinv.1.nodes, hinv.1.status⟩, hinv.1.uids, ?_⟩, hinv.2⟩
    exact forall_mem_append.2 ⟨hinv.1.writes, forall_mem_singleton.2 hsettled.done⟩
  have hwritten : SettleInv config ((world.logWrite read status).written read status) := by
    refine ⟨⟨hlogged.1.toSound.written read hstatus, hlogged.1.uids.written read status,
      hlogged.1.writes⟩, ?_⟩
    intro update hupdate
    obtain ⟨old, hold, rfl⟩ := Option.map_eq_some_iff.1 hupdate
    split_ifs with hsame
    · have hequal := hsettled.readOf.current hold hsame
      subst hequal
      intro entry hentry hphase
      rcases hsettled.side entry hentry hphase with ⟨before, hbefore, hname, hwas⟩ | hnone
      · rw [← hname]
        exact hinv.2 old hold before hbefore hwas
      · exact hnone.good _
    · exact hinv.2 old hold
  cases outcome with
  | done | unanswered => exact hwritten
  | lost | unneeded | resolved answer | signed sig signer | drained remaining bare => exact hlogged

theorem releaseOrphans_settleInv (current : Option Update) :
    (releaseOrphans current).Safe api (fun _ _ => True) allow (SettleInv config)
      (fun _ _ => True) world := by
  refine (releaseOrphans_orphans current).safe (fun _ _ _ _ _ => trivial) ?_ world
  intro world request outcome hinv hrequest _
  have hplain : request.isWrite = false ∧ request.isList = false := by
    cases request <;> first | exact ⟨rfl, rfl⟩ | cases hrequest
  refine ⟨hinv.1.handle hplain.1 outcome, ?_⟩
  intro update hupdate entry hentry hphase node hnode hname time htime
  rw [api, (handle_update hplain.1 outcome world).1] at hupdate
  rw [api, handle_views hplain.2]
  rcases handle_readyAt hnode with ⟨now, working, rfl, -⟩ | hnone | ⟨old, hold, hsame, hready⟩
  · cases hrequest
  · rw [hnone] at htime
    cases htime
  · exact hinv.2 update hupdate entry hentry hphase old hold (hsame.trans hname) time
      (hready ▸ htime)

theorem written_settleInv (hinv : SettleInv config world) (hsettled : Settled read status world)
    (hstatus : StatusOk config status) :
    (do
      let written ← call (.writeStatus read status)
      if written then releaseOrphans (some { read with status := status })
      else return () : Act Unit).Safe api (fun _ _ => True) allow (SettleInv config)
      (fun _ _ => True) world := by
  simp only [Prog.ask_bind]
  refine Prog.safe_call settleInv_stable settled_stable hinv hsettled ?_
  intro later hinv hsettled outcome _
  refine ⟨hinv.write hsettled hstatus outcome, ?_⟩
  split_ifs
  · exact releaseOrphans_settleInv _
  · exact fun _ _ _ => trivial

theorem viewed_listed (hbase : SettleBase config world) (hread : ReadOf read world) (now : Time) :
    Viewed config read (world.views ++ [⟨now, world.nodes⟩]) (world.logView now) :=
  ⟨⟨⟨hbase.nodes, hbase.status⟩, hbase.uids, hbase.writes⟩,
    ⟨hread.uid, hread.since, hread.version, hread.created⟩, rfl⟩

theorem shows_of_mem {node : Node} {tag : Str} (hnode : node ∈ world.nodes)
    (hsettled : node.settledOn tag = true) :
    View.shows ⟨now, world.nodes⟩ node.name tag = true := by
  simp only [View.shows, any_eq_true]
  exact ⟨node, hnode, by simp [hsettled]⟩

theorem seen_entries (hmarks : ReadMarks read world)
    (hentries : entries = read.status.nodes ∨ ∀ entry ∈ entries, entry.phase = .pending) :
    Seen read (world.views ++ [⟨now, world.nodes⟩]) now world.nodes entries := by
  have hside : ∀ entry ∈ entries, nodeSidePhase entry.phase = true → entry ∈ read.status.nodes := by
    intro entry hentry hphase
    rcases hentries with rfl | hpending
    · exact hentry
    · rw [hpending entry hentry] at hphase
      cases hphase
  refine ⟨?_, ?_, ?_, ?_⟩
  · rcases hentries with rfl | hpending
    · exact doneOk_read
    refine doneOk_of_not fun entry hentry => ?_
    rw [hpending entry hentry]
    decide
  · exact fun entry hentry hphase => ⟨entry, hside entry hentry hphase, rfl, hphase⟩
  · rintro entry - ⟨-, found, hfound, hsettled⟩
    have hname : found.name = entry.name := by simpa using List.find?_some hfound
    have hshows : View.shows ⟨now, world.nodes⟩ found.name read.spec.version = true :=
      shows_of_mem (mem_of_find?_eq_some hfound) hsettled
    rw [← hname]
    exact settledSince_last hshows
  · rintro entry hentry hphase ⟨found, hfound, -, hsettled, readyAt, hready, hperiod⟩
    have hname : found.name = entry.name := by simpa using List.find?_some hfound
    have hmem := mem_of_find?_eq_some hfound
    have hsince := hmarks entry (hside entry hentry hphase) hphase found hmem hname readyAt hready
    rw [← hname] at hsince ⊢
    exact (hsince.append (shows_of_mem hmem hsettled)).settledFor (le_sub_iff_add_le'.1 hperiod)

def Knows (read : Update) (views : List View) (world : World) : Prop :=
  ReadOf read world ∧ world.views = views

theorem knows_stable : Stable api rely inv (Knows read views) :=
  fun world change _ _ hkept => ⟨hkept.1.change change, (change_views world change).trans hkept.2⟩

theorem steady_iff (world : World) :
    Steady config read views world ↔ SettleInv config world ∧ Knows read views world := by
  constructor
  · intro hsteady
    exact ⟨⟨hsteady.1.toSettleBase, hsteady.2⟩, hsteady.1.read, hsteady.1.views⟩
  · intro hboth
    exact ⟨⟨hboth.1.1, hboth.2.1, hboth.2.2⟩, hboth.1.2⟩

theorem viewed_iff (world : World) :
    Viewed config read views world ↔ SettleBase config world ∧ Knows read views world := by
  constructor
  · intro hviewed
    exact ⟨hviewed.toSettleBase, hviewed.read, hviewed.views⟩
  · intro hboth
    exact ⟨hboth.1, hboth.2.1, hboth.2.2⟩

theorem settled_same (hread : ReadOf read world) (hnodes : status.nodes = read.status.nodes) :
    Settled read status world := by
  refine ⟨hread, ?_, ?_⟩
  · rw [hnodes]
    exact doneOk_read
  · rw [hnodes]
    exact fun entry hentry hphase => .inl ⟨entry, hentry, rfl, hphase⟩

theorem rolled_steady (hbase : SettleBase config world) (hread : ReadOf read world)
    (hmarks : ReadMarks read world) (hok : MarksOk (world.logView now))
    (hunderway : Underway entries)
    (hentries : entries = read.status.nodes ∨ ∀ entry ∈ entries, entry.phase = .pending) :
    (rollEntries config read now world.nodes read.status.resolution [] entries >>= fun rolled =>
      pure (Status.ended rolled)).Safe api (fun _ _ => True) allow (SettleInv config)
      (fun status world => Settled read status world) (world.logView now) := by
  have hviewed := viewed_listed hbase hread now
  have hinv : SettleInv config (world.logView now) := ⟨hviewed.toSettleBase, hok⟩
  have hrolled : (rollEntries config read now world.nodes read.status.resolution [] entries).Safe
      api (fun _ _ => True) allow (Steady config read (world.views ++ [⟨now, world.nodes⟩]))
      (fun rolled later => DoneOk read (world.views ++ [⟨now, world.nodes⟩]) rolled.nodes ∧
        SideOk read rolled.nodes later) (world.logView now) :=
    rollEntries_steady entries (fun _ hnone => nomatch hnone) (fun _ hnone => nomatch hnone)
      hunderway (seen_entries hmarks hentries) ⟨hviewed, hok⟩
  apply (Prog.Safe.frame settleInv_stable knows_stable hinv ⟨hviewed.read, hviewed.views⟩
    (hrolled.congr steady_iff)).bind hinv
  rintro rolled later hinv ⟨⟨hdone, hside⟩, hread, hviews⟩
  exact Prog.safe_done settleInv_stable settled_stable hinv
    ⟨hread, by rw [hviews]; exact hdone, hside⟩

theorem listed_steady (hbase : SettleBase config world) (hread : ReadOf read world)
    (hmarks : ReadMarks read world) (hok : MarksOk (world.logView now))
    (hunderway : Underway read.status.nodes) :
    (if read.status.nodes = [] then
        match plan config read.spec world.nodes with
        | .error _ => return Status.ended ⟨[], read.status.resolution, .failed⟩
        | .ok planned => do
          let rolled ← rollEntries config read now world.nodes read.status.resolution [] planned
          return Status.ended rolled
      else do
        let rolled ← rollEntries config read now world.nodes read.status.resolution []
          read.status.nodes
        return Status.ended rolled : Act Status).Safe api (fun _ _ => True) allow
      (SettleInv config) (fun status world => Settled read status world) (world.logView now) := by
  have hviewed := viewed_listed hbase hread now
  split_ifs with hempty
  · cases hplan : plan config read.spec world.nodes with
    | error cause =>
      exact Prog.safe_done settleInv_stable settled_stable ⟨hviewed.toSettleBase, hok⟩
        (settled_same hviewed.read hempty.symm)
    | ok planned =>
      obtain ⟨-, hpending⟩ := plan_spec hplan
      exact rolled_steady hbase hread hmarks hok (underway_of_pending hpending) (.inr hpending)
  · exact rolled_steady hbase hread hmarks hok hunderway (.inl rfl)

theorem ReadMarks.change (hmarks : ReadMarks read world) (change : Change) :
    ReadMarks read (world.change change) :=
  fun entry hentry hphase => (hmarks entry hentry hphase).change change

theorem MarksOk.listed (hmarks : MarksOk world) {outcome : Outcome}
    (hsees : SeesSettled world (.listNodes now) outcome) : MarksOk (world.logView now) := by
  intro update hupdate entry hentry hphase node hnode hname time htime
  have hsince := hmarks update hupdate entry hentry hphase node hnode hname time htime
  have hsettling : node ∈ settling world update := by
    refine mem_filter.2 ⟨hnode, ?_⟩
    rw [Bool.and_eq_true, any_eq_true]
    exact ⟨by rw [htime]; rfl, entry, hentry, by simp [hphase, hname]⟩
  rw [← hname] at hsince ⊢
  exact hsince.append (shows_of_mem hnode (hsees update hupdate node hsettling))

theorem roll_steady (hinv : SettleInv config world) (hupdate : world.update = some read) :
    (roll config read now).Safe api (fun _ _ => True) SeesSettled (SettleInv config)
      (fun status world => Settled read status world) world := by
  have hread := readOf_current hinv.1.uids hupdate
  have hstatus := hinv.1.status read hupdate
  unfold roll
  by_cases hfinished : finished read.status = true
  · rw [if_pos hfinished]
    exact Prog.safe_done settleInv_stable settled_stable hinv (settled_same hread rfl)
  rw [if_neg hfinished]
  simp only [Prog.ask_bind]
  have hstable : Stable api (fun _ _ => True) (SettleInv config) fun world =>
      ReadOf read world ∧ ReadMarks read world :=
    fun _ change _ _ hboth => ⟨hboth.1.change change, hboth.2.change change⟩
  refine Prog.safe_call settleInv_stable hstable hinv ⟨hread, hinv.2 read hupdate⟩ ?_
  intro later hinv hboth outcome hsees
  have hviewed := viewed_listed hinv.1 hboth.1 now
  have hok := hinv.2.listed hsees
  refine ⟨⟨hviewed.toSettleBase, hok⟩, ?_⟩
  simp only [api, World.handle]
  by_cases hlisted : outcome = .done
  · rw [if_pos hlisted]
    exact listed_steady hinv.1 hboth.1 hboth.2 hok (hstatus.underway (by simpa using hfinished))
  · rw [if_neg hlisted]
    exact Prog.safe_done settleInv_stable settled_stable ⟨hviewed.toSettleBase, hok⟩
      (settled_same hviewed.read rfl)

theorem Underway.side_unique (hunderway : Underway entries) {left right : Entry}
    (hleft : left ∈ entries) (hright : right ∈ entries)
    (hleftSide : nodeSidePhase left.phase = true) (hrightSide : nodeSidePhase right.phase = true) :
    left = right := by
  induction entries with
  | nil => cases hleft
  | cons entry rest ih =>
    rcases hunderway with ⟨hthrough, hrest⟩ | ⟨-, hpending⟩
    · have hmem : ∀ other, other ∈ entry :: rest → nodeSidePhase other.phase = true →
          other ∈ rest := by
        intro other hother hside
        rcases mem_cons.1 hother with rfl | hlater
        · rw [through_not_side hthrough] at hside
          cases hside
        · exact hlater
      exact ih hrest (hmem left hleft hleftSide) (hmem right hright hrightSide)
    have hsame : ∀ other, other ∈ entry :: rest → nodeSidePhase other.phase = true →
        other = entry := by
      intro other hother hside
      rcases mem_cons.1 hother with rfl | hlater
      · rfl
      · rw [hpending other hlater] at hside
        cases hside
    rw [hsame left hleft hleftSide, hsame right hright hrightSide]

theorem startsOver_congr {update : Update} (hstatus : update.status = read.status)
    (hversion : update.spec.version = read.spec.version) (node : Node) :
    startsOver config update node = startsOver config read node := by
  have hpayload : (payload config update update.status.resolution).isSome =
      (payload config read read.status.resolution).isSome := by
    rw [hstatus]
    unfold payload
    rw [hversion]
    split <;> rfl
  rw [startsOver, startsOver, hversion, hpayload]

theorem listed_clears (hbase : SettleBase config world) (hread : ReadOf read world)
    (hmarks : ReadMarks read world) (hunderway : Underway read.status.nodes) {entry : Entry}
    (hentry : entry ∈ read.status.nodes) (hphase : nodeSidePhase entry.phase = true) {node : Node}
    (hnode : node ∈ world.nodes) (hname : node.name = entry.name)
    (hmarked : (annotationTime node.annotations.readyAt).isSome = true)
    (hstarts : startsOver config read node = true) :
    (rollEntries config read now world.nodes read.status.resolution [] read.status.nodes >>=
      fun rolled => pure (Status.ended rolled)).Safe api (fun _ _ => True) (TakesMarks config)
      (SettleBase config) (fun status world => Settled read status world ∧ MarksOk world)
      (world.logView now) := by
  have hviewed := viewed_listed hbase hread now
  have hfind : world.nodes.find? (fun other => other.name == entry.name) = some node := by
    rw [← hname]
    exact find_of_mem hbase.nodes hnode
  have hone : ∀ other ∈ read.status.nodes, nodeSidePhase other.phase = true → other = entry :=
    fun other hother hside => hunderway.side_unique hother hentry hside hphase
  have hclears : (rollEntries config read now world.nodes read.status.resolution []
      read.status.nodes).Safe api (fun _ _ => True) (TakesMarks config)
      (Viewed config read (world.views ++ [⟨now, world.nodes⟩]))
      (fun rolled later => (DoneOk read (world.views ++ [⟨now, world.nodes⟩]) rolled.nodes ∧
        ∀ other ∈ rolled.nodes, nodeSidePhase other.phase = true → other.name = entry.name) ∧
        NoMark later entry.name) (world.logView now) := by
    refine rollEntries_clears read.status.nodes (fun _ hnone => nomatch hnone)
      (fun _ hnone => nomatch hnone) hunderway (seen_entries hmarks (.inl rfl)) ?_
      ⟨entry, hentry, hphase⟩ hviewed
    intro other hother hside
    rw [hone other hother hside]
    exact ⟨rfl, node, hfind, hmarked, hstarts⟩
  apply (Prog.Safe.frame settleBase_stable knows_stable hviewed.toSettleBase
    ⟨hviewed.read, hviewed.views⟩ (hclears.congr viewed_iff)).bind hviewed.toSettleBase
  rintro rolled later hbase ⟨⟨⟨hdone, hnames⟩, hnone⟩, hread, hviews⟩
  have hsettled : Settled read (Status.ended rolled) later := by
    refine ⟨hread, by rw [hviews]; exact hdone, ?_⟩
    intro other hother hside
    rw [hnames other hother hside]
    exact .inr hnone
  have hok : MarksOk later := by
    intro update hupdate other hother hside
    by_cases huid : update.uid = read.uid
    · rw [(hread.since update hupdate huid).1] at hother
      rw [hone other hother hside]
      exact hnone.good _
    · rw [hread.created update hupdate huid] at hother
      cases hother
  refine Prog.safe_done settleBase_stable ?_ hbase ⟨hsettled, hok⟩
  exact fun _ change _ _ hboth => ⟨hboth.1.change change, hboth.2.change change⟩

theorem roll_startsOver (hinv : SettleInv config world) (hupdate : world.update = some read) :
    (roll config read now).Safe api (fun _ _ => True) (TakesMarks config) (SettleBase config)
      (fun status world => Settled read status world ∧ MarksOk world) world := by
  have hread := readOf_current hinv.1.uids hupdate
  have hstatus := hinv.1.status read hupdate
  have hboth : ∀ status : Status, Stable api (fun _ _ => True) (SettleBase config) fun world =>
      Settled read status world ∧ MarksOk world :=
    fun _ _ change _ _ hboth => ⟨hboth.1.change change, hboth.2.change change⟩
  unfold roll
  by_cases hfinished : finished read.status = true
  · rw [if_pos hfinished]
    exact Prog.safe_done settleBase_stable (hboth _) hinv.1 ⟨settled_same hread rfl, hinv.2⟩
  rw [if_neg hfinished]
  have hunderway := hstatus.underway (by simpa using hfinished)
  simp only [Prog.ask_bind]
  have hstable : Stable api (fun _ _ => True) (SettleBase config) fun world =>
      ReadOf read world ∧ ReadMarks read world :=
    fun _ change _ _ hboth => ⟨hboth.1.change change, hboth.2.change change⟩
  refine Prog.safe_call settleBase_stable hstable hinv.1 ⟨hread, hinv.2 read hupdate⟩ ?_
  rintro later hbase ⟨hread, hmarks⟩ outcome ⟨rfl, hstarts⟩
  have hviewed := viewed_listed hbase hread now
  refine ⟨hviewed.toSettleBase, ?_⟩
  simp only [api, World.handle, if_true]
  by_cases hok : MarksOk (later.logView now)
  · exact (Prog.Safe.frame settleBase_stable marksOk_stable hviewed.toSettleBase hok
      (listed_steady hbase hread hmarks hok hunderway))
  -- some mark is not good any more, so the pass has come to take it off
  simp only [MarksOk, GoodMark, not_forall] at hok
  obtain ⟨update, hsome, entry, hentry, hphase, node, hnode, hname, time, htime, -⟩ := hok
  have huid : update.uid = read.uid := by
    by_contra hother
    rw [hread.created update hsome hother] at hentry
    cases hentry
  have hsame := (hread.since update hsome huid).1
  have hsettling : node ∈ settling later update := by
    refine mem_filter.2 ⟨hnode, ?_⟩
    rw [Bool.and_eq_true, any_eq_true]
    exact ⟨by rw [htime]; rfl, entry, hentry, by simp [hphase, hname]⟩
  have hstart := hstarts update hsome node hsettling
  rw [startsOver_congr hsame (hread.version update hsome huid)] at hstart
  rw [hsame] at hentry
  have hentries : read.status.nodes ≠ [] := ne_nil_of_mem hentry
  rw [if_neg hentries]
  exact listed_clears hbase hread hmarks hunderway hentry hphase hnode hname
    (by rw [htime]; rfl) hstart

theorem reconcile_steady (now : Time) :
    (reconcile config now).Safe api (fun _ _ => True) SeesSettled (SettleInv config)
      (fun _ _ => True) world := by
  unfold reconcile
  simp only [Prog.ask_bind]
  intro later _ hinv outcome _
  refine ⟨hinv, ?_⟩
  simp only [api, World.handle]
  by_cases hlisted : outcome = .done
  · rw [if_pos hlisted]
    cases hupdate : later.update with
    | none => exact releaseOrphans_settleInv none
    | some read =>
      simp only
      have hstatus := hinv.1.status read hupdate
      have hroll : (roll config read now).Safe api (fun _ _ => True) SeesSettled
          (SettleInv config) (fun status world => Settled read status world) later :=
        roll_steady hinv hupdate
      apply (hroll.and_all (roll_all hstatus) fun world request outcome hinv _ =>
        hinv.1.toSound.answers request outcome).bind hinv
      rintro status world hinv ⟨hsettled, hwritten⟩
      exact written_settleInv hinv hsettled hwritten
  · rw [if_neg hlisted]
    exact fun _ _ _ => trivial

theorem reconcile_startsOver (now : Time) (hinv : SettleInv config world) :
    (reconcile config now).Safe api (fun _ _ => True) (TakesMarks config) (SettleBase config)
      (fun _ world => MarksOk world) world := by
  have hweaken : ∀ (program : Act Unit) (world : World), SettleInv config world →
      program.Safe api (fun _ _ => True) (TakesMarks config) (SettleInv config) (fun _ _ => True)
        world →
      program.Safe api (fun _ _ => True) (TakesMarks config) (SettleBase config)
        (fun _ world => MarksOk world) world := by
    intro program world hinv hsafe
    exact (Prog.Safe.frame settleBase_stable marksOk_stable hinv.1 hinv.2 hsafe).mono
      fun _ _ _ hpost => hpost.2
  unfold reconcile
  simp only [Prog.ask_bind]
  refine Prog.safe_call settleBase_stable marksOk_stable hinv.1 hinv.2 ?_
  intro later hbase hmarks outcome _
  refine ⟨hbase, ?_⟩
  simp only [api, World.handle]
  by_cases hlisted : outcome = .done
  · rw [if_pos hlisted]
    cases hupdate : later.update with
    | none => exact hweaken _ later ⟨hbase, hmarks⟩ (releaseOrphans_settleInv none)
    | some read =>
      simp only
      have hstatus := hbase.status read hupdate
      have hroll : (roll config read now).Safe api (fun _ _ => True) (TakesMarks config)
          (SettleBase config) (fun status world => Settled read status world ∧ MarksOk world)
          later := roll_startsOver ⟨hbase, hmarks⟩ hupdate
      apply (hroll.and_all (roll_all hstatus) fun world request outcome hbase _ =>
        hbase.toSound.answers request outcome).bind hbase
      rintro status world hbase ⟨⟨hsettled, hmarks⟩, hwritten⟩
      exact hweaken _ world ⟨hbase, hmarks⟩ (written_settleInv ⟨hbase, hmarks⟩ hsettled hwritten)
  · rw [if_neg hlisted]
    exact Prog.safe_done settleBase_stable marksOk_stable hbase hmarks

end Pass

theorem SettleInv.next {config : Config} {world : World} (hinv : SettleInv config world)
    {step : Step} (hstep : Settles config world step) :
    SettleInv config (next config world step) := by
  cases step with
  | change change => exact ⟨hinv.1.change change, hinv.2.change change⟩
  | pass now events =>
    rcases hstep with hsees | ⟨htakes, hended⟩
    · exact ((reconcile_steady now).play settleInv_stable hinv hsees).1
    obtain ⟨hbase, hrest⟩ :=
      (reconcile_startsOver now hinv).play settleBase_stable hinv.1 htakes
    refine ⟨hbase, ?_⟩
    cases hprogram : (play api (reconcile config now) world events).1 with
    | done result =>
      rw [hprogram] at hrest
      exact hrest.result hbase
    | call request rest =>
      rw [hprogram] at hended
      cases hended

/-- Where each pass over a marked node sees it settled or takes the mark off, an entry that a
pass calls Done was seen settled at every pass of a settle period. -/
theorem done_only_after_settling (config : Config) (world : World)
    (hnodes : (world.nodes.map Node.name).Nodup) (hupdate : world.update = none)
    (hwrites : world.writes = []) (steps : List Step)
    (hsteps : EachStep (Settles config) (next config) world steps) :
    Always (fun world => ∀ write ∈ world.writes,
      DoneOk write.read write.views write.status.nodes) (next config) world steps := by
  have hinv : SettleInv config world := by
    refine ⟨⟨⟨hnodes, ?_⟩, ?_, ?_⟩, ?_⟩
    · simp [hupdate]
    · simp [UidsOk, hupdate]
    · simp [hwrites]
    · simp [MarksOk, hupdate]
  exact (always_of_eachStep (fun _ _ hinv hstep => hinv.next hstep) hinv hsteps).mono
    fun _ hinv => hinv.1.writes

/-- The worker is handed over, reports that it is done on the release, and is seen so by two
passes that are a settle period apart. -/
def workerSettles : List Step :=
  [.change (.createUpdate demoSpec), .pass 0 (answers handoverAnswers),
    .change (.report ['w'] true (demoVersion true) (some (.done, [])) none),
    .pass 10 (answers [.done, .done, .done, .done]),
    .pass 70 (answers [.done, .done, .done, .done, .signed ['g'] ['c'], .done, .done])]

theorem demo_done_after_settling :
    Always (fun world => ∀ write ∈ world.writes,
        DoneOk write.read write.views write.status.nodes) (next demoConfig) demoWorld
      workerSettles ∧
    (after demoConfig demoWorld workerSettles).writes.any (fun write =>
      write.status.nodes.any fun entry => entry.phase == .done) = true :=
  ⟨done_only_after_settling demoConfig demoWorld (by decide) rfl rfl _ (by decide), by decide⟩

/-- The worker is seen done on the release at 10 and at 70, and off it at 40. -/
def workerSlips : List Step :=
  [.change (.createUpdate demoSpec), .pass 0 (answers handoverAnswers),
    .change (.report ['w'] true (demoVersion true) (some (.done, [])) none),
    .pass 10 (answers [.done, .done, .done, .done]),
    .change (.report ['w'] true (demoVersion false) (some (.done, [])) none),
    .pass 40 (answers [.done, .done, .done]),
    .change (.report ['w'] true (demoVersion true) (some (.done, [])) none),
    .pass 70 (answers [.done, .done, .done, .done, .signed ['g'] ['c'], .done, .done])]

theorem not_settledFor {views : List View} {view : View} {name tag : Str}
    (hbefore : views.dropLast.getLast? = some view) (hview : view.shows name tag = false) :
    ¬ SettledFor views name tag := by
  rintro ⟨before, first, rest, final, rfl, hfinal, hperiod, hshows⟩
  rcases eq_nil_or_concat rest with rfl | ⟨front, other, rfl⟩
  · have hsame : first = final := by simpa using hfinal
    rw [hsame] at hperiod
    exact absurd hperiod (not_le_of_gt (lt_add_of_pos_right _ (by decide)))
  · rw [concat_eq_append, ← cons_append] at hshows hbefore
    have hmem : view ∈ first :: front := by
      rw [← append_assoc, dropLast_concat, List.getLast?_append_of_ne_nil _ (by simp)] at hbefore
      exact mem_of_getLast? hbefore
    rw [hshows view (mem_append_left _ hmem)] at hview
    cases hview

theorem done_without_settling :
    ¬ Always (fun world => ∀ write ∈ world.writes,
        DoneOk write.read write.views write.status.nodes) (next demoConfig) demoWorld
      workerSlips := by
  intro halways
  have hlast : ∃ write ∈ (after demoConfig demoWorld workerSlips).writes,
      ∃ entry ∈ write.status.nodes, entry.phase = .done ∧
        (∀ before ∈ write.read.status.nodes, before.name = entry.name → before.phase ≠ .done) ∧
        ∃ view ∈ write.views.dropLast.getLast?,
          view.shows entry.name write.read.spec.version = false := by
    decide
  obtain ⟨write, hwrite, entry, hentry, hdone, hbefore, view, hview, hslipped⟩ := hlast
  exact not_settledFor hview hslipped (halways.last write hwrite entry hentry hdone hbefore)

end K3sm.Updatectl

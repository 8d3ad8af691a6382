import K3sm.Updatectl.Advance

/-!
# One node at a time, the server last

The entries of a status stand in the order of the plan.  Those the roll has passed are through,
one may be underway, and the rest are pending.  Every pass keeps this, whatever its calls answer,
and a lost status write only means that the next pass starts from an older status of the same
kind.
-/

namespace K3sm.Updatectl

open K3sm.Core K3sm.Core.Filepath List

def InOrder (tail : Entry → List Entry → Prop) : List Entry → Prop
  | [] => True
  | entry :: rest =>
    (throughPhase entry.phase = true ∧ InOrder tail rest) ∨ tail entry rest

def Underway : List Entry → Prop :=
  InOrder fun entry rest => (activePhase entry.phase = true ∨ entry.phase = .pending) ∧
    ∀ later ∈ rest, later.phase = .pending

def Orderly : List Entry → Prop :=
  InOrder fun entry rest =>
    ((activePhase entry.phase = true ∨ entry.phase = .pending ∨ entry.phase = .failed) ∧
      ∀ later ∈ rest, later.phase = .pending) ∨
    ∀ later ∈ entry :: rest, later.phase = .cancelled

theorem through_iff {phase : NodePhase} :
    throughPhase phase = true ↔ phase = .done ∨ phase = .skipped := by
  cases phase <;> simp [throughPhase]

theorem next_not {phase : NodePhase} (hphase : activePhase phase = true ∨ phase = .pending) :
    phase ≠ .done ∧ phase ≠ .skipped ∧ phase ≠ .cancelled ∧ phase ≠ .failed := by
  rcases hphase with hactive | hpending
  · obtain ⟨-, hthrough, hfailed, hcancelled⟩ := activePhase_not hactive
    rw [Bool.eq_false_iff, ne_eq, through_iff, not_or] at hthrough
    exact ⟨hthrough.1, hthrough.2, hcancelled, hfailed⟩
  · rw [hpending]
    decide

theorem InOrder.append {tail : Entry → List Entry → Prop} {front entries : List Entry}
    (hfront : ∀ entry ∈ front, throughPhase entry.phase = true) (hentries : InOrder tail entries) :
    InOrder tail (front ++ entries) := by
  induction front with
  | nil => exact hentries
  | cons entry front ih =>
    refine .inl ⟨hfront entry mem_cons_self, ih ?_⟩
    exact fun other hother => hfront other (mem_cons_of_mem _ hother)

theorem underway_of_pending {entries : List Entry}
    (hpending : ∀ entry ∈ entries, entry.phase = .pending) : Underway entries := by
  cases entries with
  | nil => trivial
  | cons entry rest =>
    exact .inr ⟨.inr (hpending entry mem_cons_self),
      fun later hlater => hpending later (mem_cons_of_mem _ hlater)⟩

theorem inOrder_through {tail : Entry → List Entry → Prop} {entries : List Entry}
    (hthrough : ∀ entry ∈ entries, throughPhase entry.phase = true) : InOrder tail entries := by
  have happend : InOrder tail (entries ++ []) := InOrder.append hthrough trivial
  rwa [append_nil] at happend

/-- What a status promises: at most one entry is between Cordoning and Restarting, those
before it are Done or Skipped, and those after it Pending. -/
structure OneAtATime (nodes : List Entry) : Prop where
  atMostOne : (nodes.filter fun entry => activePhase entry.phase).length ≤ 1
  inTurn : ∀ front entry rest, nodes = front ++ entry :: rest →
    activePhase entry.phase = true →
    (∀ earlier ∈ front, throughPhase earlier.phase = true) ∧ ∀ later ∈ rest, later.phase = .pending

theorem Orderly.oneAtATime {nodes : List Entry} (horderly : Orderly nodes) : OneAtATime nodes where
  atMostOne := by
    induction nodes with
    | nil => simp
    | cons entry rest ih =>
      rcases horderly with ⟨hthrough, hrest⟩ | ⟨-, hpending⟩ | hcancelled
      · have hnot : activePhase entry.phase = false := by
          cases hphase : entry.phase <;> simp_all [throughPhase, activePhase, heldPhase,
            nodeSidePhase]
        rw [filter_cons_of_neg (by simp [hnot])]
        exact ih hrest
      · have hrest : rest.filter (fun entry => activePhase entry.phase) = [] := by
          apply filter_eq_nil_iff.2
          intro later hlater
          rw [hpending later hlater]
          decide
        rw [filter_cons, hrest]
        split_ifs <;> simp
      · have hnone : (entry :: rest).filter (fun entry => activePhase entry.phase) = [] := by
          apply filter_eq_nil_iff.2
          intro later hlater
          rw [hcancelled later hlater]
          decide
        simp [hnone]
  inTurn := by
    intro front entry rest hnodes hactive
    obtain ⟨hpending, hthrough, hfailed, hcancelled⟩ := activePhase_not hactive
    subst hnodes
    induction front with
    | nil =>
      rcases horderly with ⟨hpassed, -⟩ | ⟨-, hrest⟩ | hall
      · rw [hthrough] at hpassed
        cases hpassed
      · exact ⟨fun _ hnone => absurd hnone not_mem_nil, hrest⟩
      · exact absurd (hall entry mem_cons_self) hcancelled
    | cons first front ih =>
      have hmem : entry ∈ front ++ entry :: rest := by simp
      rcases horderly with ⟨hpassed, hrest⟩ | ⟨-, hlater⟩ | hall
      · obtain ⟨hfront, hafter⟩ := ih hrest
        exact ⟨forall_mem_cons.2 ⟨hpassed, hfront⟩, hafter⟩
      · rw [hlater entry hmem] at hpending
        cases hpending
      · exact absurd (hall entry (mem_cons_of_mem _ hmem)) hcancelled

def ServerLast (serverNode : Str) (names : List Str) : Prop := serverNode ∉ names.dropLast

theorem ServerLast.rest {serverNode : Str} {front rest : List Str}
    (hlast : ServerLast serverNode (front ++ serverNode :: rest)) : rest = [] := by
  by_contra hrest
  apply hlast
  rw [dropLast_append_of_ne_nil (by simp), dropLast_cons_of_ne_nil hrest]
  simp

section Order

variable {serverNode : Str} {nodes : List Node}

theorem filter_name_length_le (hnodup : (nodes.map Node.name).Nodup) (name : Str) :
    (nodes.filter fun node => node.name == name).length ≤ 1 := by
  have hcount := nodup_iff_count_le_one.1 hnodup name
  rw [count_eq_countP, countP_map, countP_eq_length_filter] at hcount
  exact hcount

theorem getLast?_toList_of_length_le {items : List Node} (hlength : items.length ≤ 1) :
    items.getLast?.toList = items := by
  cases items with
  | nil => rfl
  | cons first more =>
    have hmore : more = [] := by simpa using hlength
    rw [hmore]
    rfl

theorem order_perm (hnodup : (nodes.map Node.name).Nodup) :
    (order serverNode nodes).Perm nodes := by
  have hself := getLast?_toList_of_length_le (filter_name_length_le hnodup serverNode)
  have hothers : ∀ others : List Node,
      ((others.filter fun node => !node.server).insertionSort (fun left right =>
        left.name ≤ right.name) ++ (others.filter Node.server).insertionSort fun left right =>
        left.name ≤ right.name).Perm others := by
    intro others
    refine ((perm_insertionSort _ _).append (perm_insertionSort _ _)).trans ?_
    exact perm_append_comm.trans (filter_append_perm Node.server others)
  rw [order, hself]
  refine ((hothers _).append_right _).trans (perm_append_comm.trans ?_)
  exact filter_append_perm (fun node : Node => node.name == serverNode) nodes

theorem order_serverLast (serverNode : Str) (nodes : List Node) :
    ServerLast serverNode ((order serverNode nodes).map Node.name) := by
  set others := nodes.filter fun node => node.name != serverNode with hothers
  have hplain : ∀ list : List Node, (∀ node ∈ list, node ∈ others) →
      serverNode ∉ list.map Node.name := by
    intro list hlist hmem
    obtain ⟨node, hnode, hname⟩ := mem_map.1 hmem
    have hother := (mem_filter.1 (hlist node hnode)).2
    simp [hname] at hother
  rw [order, ServerLast, map_append]
  have hfront : serverNode ∉ (((others.filter fun node => !node.server).insertionSort
      fun left right => left.name ≤ right.name) ++ ((others.filter Node.server).insertionSort
      fun left right => left.name ≤ right.name)).map Node.name := by
    apply hplain
    intro node hnode
    rw [mem_append, mem_insertionSort, mem_insertionSort] at hnode
    exact hnode.elim mem_of_mem_filter mem_of_mem_filter
  cases hself : (nodes.filter fun node => node.name == serverNode).getLast? with
  | none =>
    rw [Option.toList_none, map_nil, append_nil]
    exact fun hmem => hfront (mem_of_mem_dropLast hmem)
  | some self =>
    rw [Option.toList_some, map_singleton, dropLast_concat]
    exact hfront

end Order

structure StatusOk (config : Config) (status : Status) : Prop where
  names : (status.nodes.map Entry.name).Nodup
  server : ServerLast config.serverNode (status.nodes.map Entry.name)
  orderly : Orderly status.nodes
  underway : finished status = false → Underway status.nodes

theorem plan_spec {config : Config} {spec : Spec} {nodes : List Node} {planned : List Entry}
    (hplan : plan config spec nodes = .ok planned) :
    planned.map Entry.name = (order config.serverNode nodes).map Node.name ∧
      ∀ entry ∈ planned, entry.phase = .pending := by
  have hplanned : planned = (order config.serverNode nodes).map fun node => {
      name := node.name, from' := fromRelease node.kubeletVersion, to' := spec.version
      phase := .pending, startedAt := none, finishedAt := none } := by
    unfold plan at hplan
    split_ifs at hplan
    · exact (Except.ok.inj hplan).symm
    simp only at hplan
    split at hplan
    · cases hplan
    · exact (Except.ok.inj hplan).symm
  rw [hplanned]
  constructor
  · rw [map_map]
    rfl
  · intro entry hentry
    obtain ⟨node, -, rfl⟩ := mem_map.1 hentry
    rfl

/-- A handover of the server's own node goes out when every other entry is through, and
a status that is written is in order. -/
def InTurn (config : Config) : Request → Prop
  | .patch node patch working => patch.isHandover = true → node = config.serverNode →
      ∀ entry ∈ working, entry.name ≠ config.serverNode → throughPhase entry.phase = true
  | .writeStatus _ status => StatusOk config status
  | _ => True

structure RolledOk (names : List Str) (rolled : Rolled) : Prop where
  names : rolled.nodes.map Entry.name = names
  orderly : Orderly rolled.nodes
  underway : rolled.reason = .rolling ∨ rolled.reason = .retrying → Underway rolled.nodes

section Loop

variable {config : Config} {update : Update} {now : Time} {nodes : List Node}
  {resolution : Resolution} {front rest : List Entry} {entry : Entry}

theorem inTurn_of_forEntry (hfront : ∀ earlier ∈ front, throughPhase earlier.phase = true)
    (hserver : ServerLast config.serverNode ((front ++ entry :: rest).map Entry.name))
    {settles : Prop} {request : Request}
    (hrequest : ForEntry update now settles entry.name (fun current => front ++ current :: rest)
      request) : InTurn config request := by
  cases request with
  | patch node patch working =>
    obtain ⟨rfl, -, current, hcurrent, rfl⟩ := hrequest
    intro _ hself other hother hname
    rw [map_append, map_cons, hself] at hserver
    have hrest : rest = [] := by simpa using hserver.rest
    rw [hrest] at hother
    rcases mem_append.1 hother with hmem | hmem
    · exact hfront other hmem
    · rw [mem_singleton.1 hmem, hcurrent] at hname
      exact absurd hself hname
  | writeStatus read status => exact hrequest.elim
  | listUpdates | listNodes now | listOrphans | resolve version | sign payload
  | drain node => trivial

theorem advance_next_all (config : Config) (now : Time) (nodes : List Node)
    (work : Entry → List Entry) (resolution : Resolution)
    (hphase : activePhase entry.phase = true ∨ entry.phase = .pending)
    (hcancel : isPending entry.phase = true → update.spec.cancel = false) :
    (advance config update now work resolution entry
      (nodes.find? fun node => node.name == entry.name)).All AnswersNode
      (ForEntry update now
        (SeenSettled update entry (nodes.find? fun node => node.name == entry.name))
          entry.name work)
      (Advances update.spec.cancel entry.name entry.phase resolution
        (SeenRipe update now (nodes.find? fun node => node.name == entry.name))
        (SeenFailing config update now entry
          (nodes.find? fun node => node.name == entry.name))) := by
  refine advance_all ?_ (hphase.symm.imp_left fun hpending => by rw [hpending]; rfl) hcancel
  intro found hfound
  simpa using List.find?_some hfound

theorem rolledOk_current (reason : Reason) {names : List Str} (current : Entry)
    (hnames : (front ++ current :: rest).map Entry.name = names)
    (hfront : ∀ earlier ∈ front, throughPhase earlier.phase = true)
    (hrest : ∀ later ∈ rest, later.phase = .pending)
    (hcurrent : activePhase current.phase = true ∨ current.phase = .pending ∨
      (current.phase = .failed ∧ reason = .failed)) :
    RolledOk names ⟨front ++ current :: rest, resolution, reason⟩ where
  names := hnames
  orderly := by
    apply InOrder.append hfront
    refine .inr (.inl ⟨?_, hrest⟩)
    exact hcurrent.imp_right (Or.imp_right And.left)
  underway := by
    intro hreason
    apply InOrder.append hfront
    refine .inr ⟨?_, hrest⟩
    rcases hcurrent with hactive | hpending | ⟨-, hfailed⟩
    · exact .inl hactive
    · exact .inr hpending
    · rw [hfailed] at hreason
      rcases hreason with hreason | hreason <;> cases hreason

theorem cancelFrom_names (entries : List Entry) :
    (cancelFrom entries).map Entry.name = entries.map Entry.name := by
  rw [cancelFrom, map_map]
  apply map_congr_left
  intro entry _
  simp only [Function.comp_apply]
  split_ifs <;> rfl

theorem cancelFrom_cancelled (entries : List Entry)
    (hpending : ∀ entry ∈ entries, entry.phase = .pending) :
    ∀ entry ∈ cancelFrom entries, entry.phase = .cancelled := by
  intro entry hentry
  obtain ⟨old, hold, rfl⟩ := mem_map.1 hentry
  rw [if_pos (by rw [hpending old hold]; rfl)]

theorem rolledOk_cancelled {names : List Str} {entries : List Entry}
    (hnames : (front ++ entries).map Entry.name = names)
    (hfront : ∀ earlier ∈ front, throughPhase earlier.phase = true)
    (hcancelled : ∀ entry ∈ entries, entry.phase = .cancelled) :
    RolledOk names ⟨front ++ entries, resolution, .cancelled⟩ where
  names := hnames
  orderly := by
    apply InOrder.append hfront
    cases entries with
    | nil => trivial
    | cons entry rest => exact .inr (.inr hcancelled)
  underway := fun hreason => hreason.elim (nofun) nofun

theorem rollEntries_all (entries : List Entry)
    (hfront : ∀ earlier ∈ front, throughPhase earlier.phase = true) (hentries : Underway entries)
    (hserver : ServerLast config.serverNode ((front ++ entries).map Entry.name)) :
    (rollEntries config update now nodes resolution front entries).All AnswersNode
      (InTurn config) (RolledOk ((front ++ entries).map Entry.name)) := by
  induction entries generalizing front resolution with
  | nil =>
    refine ⟨by simp, inOrder_through hfront, ?_⟩
    exact fun hreason => hreason.elim (nofun) nofun
  | cons entry rest ih =>
    have hpass : ∀ current : Entry, current.name = entry.name →
        throughPhase current.phase = true → Underway rest → ∀ resolution,
        (rollEntries config update now nodes resolution (front ++ [current]) rest).All
          AnswersNode (InTurn config) (RolledOk ((front ++ entry :: rest).map Entry.name)) := by
      intro current hname hthrough hrest resolution
      have hsame : ((front ++ [current]) ++ rest).map Entry.name =
          (front ++ entry :: rest).map Entry.name := by simp [hname]
      rw [← hsame] at hserver ⊢
      refine ih ?_ hrest hserver
      exact forall_mem_append.2 ⟨hfront, by simpa using hthrough⟩
    -- an entry the loop does not pass is underway or next, and the rest are pending
    have hcurrent : ¬ (entry.phase = .done ∨ entry.phase = .skipped ∨
        entry.phase = .cancelled) → (activePhase entry.phase = true ∨ entry.phase = .pending) ∧
        ∀ later ∈ rest, later.phase = .pending := by
      intro hnot
      refine hentries.resolve_left fun hthrough => hnot ?_
      exact through_iff.1 hthrough.1 |>.imp_right .inl
    unfold rollEntries
    split_ifs with hpassed hfailed hcancel
    · rcases hentries with ⟨hthrough, hrest⟩ | ⟨hactive | hpending, -⟩
      · exact hpass entry rfl hthrough hrest resolution
      · obtain ⟨-, hnot, -, hnot'⟩ := activePhase_not hactive
        rw [Bool.eq_false_iff, ne_eq, through_iff] at hnot
        tauto
      · rw [hpending] at hpassed
        simp at hpassed
    · rcases (hcurrent hpassed).1 with hactive | hpending
      · exact absurd hfailed (activePhase_not hactive).2.2.1
      · rw [hfailed] at hpending
        cases hpending
    · obtain ⟨hphase, hrest⟩ := hcurrent hpassed
      have hpending : entry.phase = .pending := by
        refine hphase.resolve_left fun hactive => ?_
        rw [(activePhase_not hactive).1] at hcancel
        cases hcancel.1
      apply rolledOk_cancelled _ hfront
      · exact cancelFrom_cancelled _ (forall_mem_cons.2 ⟨hpending, hrest⟩)
      · rw [map_append, cancelFrom_names, map_append]
    obtain ⟨hphase, hrest⟩ := hcurrent hpassed
    have hpendingPhase : isPending entry.phase = true → entry.phase = .pending := by
      intro hpending
      refine hphase.resolve_left fun hactive => ?_
      rw [(activePhase_not hactive).1] at hpending
      cases hpending
    have hadvance := advance_next_all config now nodes
      (fun current => front ++ current :: rest) resolution hphase
      fun hpending => by simpa [hpending] using hcancel
    apply (hadvance.widen (fun _ _ hvalid => hvalid) fun _ hrequest =>
      inTurn_of_forEntry hfront hserver hrequest).bind
    intro result hresult
    have hnames : (front ++ result.entry :: rest).map Entry.name =
        (front ++ entry :: rest).map Entry.name := by simp [hresult.sameName]
    cases herror : result.error with
    | some error =>
      cases error with
      | rollFailure pin =>
        obtain ⟨hpending, hsame⟩ := hresult.failure pin herror
        refine rolledOk_current .failed result.entry hnames hfront hrest ?_
        exact .inr (.inl (hsame.trans (hpendingPhase hpending)))
      | transient =>
        refine rolledOk_current .retrying result.entry hnames hfront hrest ?_
        rcases hresult.retry herror with ⟨hpending, hsame⟩ | hactive
        · exact .inr (.inl (hsame.trans (hpendingPhase hpending)))
        · exact .inl hactive
    | none =>
      simp only
      split
      case h_1 hdone =>
        exact hpass _ hresult.sameName (by rw [hdone]; rfl) (underway_of_pending hrest) _
      case h_2 hskipped =>
        exact hpass _ hresult.sameName (by rw [hskipped]; rfl) (underway_of_pending hrest) _
      case h_3 hfailed =>
        exact rolledOk_current .failed result.entry hnames hfront hrest
          (.inr (.inr ⟨hfailed, rfl⟩))
      case h_4 hcancelled =>
        apply rolledOk_cancelled _ hfront
        · exact forall_mem_cons.2 ⟨hcancelled, cancelFrom_cancelled rest hrest⟩
        · rw [← hnames, map_append, map_append, map_cons, map_cons, cancelFrom_names]
      case h_5 hdone hskipped hfailed hcancelled =>
        refine rolledOk_current .rolling result.entry hnames hfront hrest (.inl ?_)
        rcases hresult.moved herror with hactive | hthrough | hnot | hnot
        · exact hactive
        · exact ((through_iff.1 hthrough).elim hdone hskipped).elim
        · exact (hfailed hnot).elim
        · exact (hcancelled hnot).elim

end Loop

def AnswersInOrder (config : Config) : (request : Request) → request.Answer → Prop
  | .listUpdates, answer => ∀ update, answer = some (some update) → StatusOk config update.status
  | .listNodes _, answer => ∀ nodes, answer = some nodes → (nodes.map Node.name).Nodup
  | .patch name patch _, answer => ∀ node, answer = some node →
      ∃ old : Node, old.name = name ∧ node = patch.apply old
  | _, _ => True

theorem answersNode_of_inOrder (config : Config) (request : Request) (answer : request.Answer)
    (hanswer : AnswersInOrder config request answer) : AnswersNode request answer := by
  cases request <;> first | exact hanswer | trivial

theorem finished_ended (rolled : Rolled) :
    finished (Status.ended rolled) =
      !(rolled.reason == .rolling || rolled.reason == .retrying) := by
  cases rolled with
  | mk nodes resolution reason => cases reason <;> rfl

theorem RolledOk.status {config : Config} {names : List Str} {rolled : Rolled}
    (hrolled : RolledOk names rolled) (hnames : names.Nodup)
    (hserver : ServerLast config.serverNode names) : StatusOk config (Status.ended rolled) where
  names := by
    rw [← hrolled.names] at hnames
    exact hnames
  server := by
    rw [← hrolled.names] at hserver
    exact hserver
  orderly := hrolled.orderly
  underway := by
    intro hunfinished
    apply hrolled.underway
    rw [finished_ended, Bool.not_eq_false'] at hunfinished
    simpa using hunfinished

section Pass

variable {config : Config} {update : Update} {now : Time}

theorem rolls {nodes : List Node} {resolution : Resolution} (entries : List Entry)
    (hentries : Underway entries) (hnodup : (entries.map Entry.name).Nodup)
    (hserver : ServerLast config.serverNode (entries.map Entry.name)) :
    ((rollEntries config update now nodes resolution [] entries) >>= fun rolled =>
      pure (Status.ended rolled)).All (AnswersInOrder config) (InTurn config)
        (StatusOk config) := by
  have hall : (rollEntries config update now nodes resolution [] entries).All AnswersNode
      (InTurn config) (RolledOk (entries.map Entry.name)) :=
    rollEntries_all entries (fun _ hnone => absurd hnone not_mem_nil) hentries hserver
  apply (hall.widen (answersNode_of_inOrder config) fun _ hrequest => hrequest).bind
  intro rolled hrolled
  exact hrolled.status hnodup hserver

theorem roll_all (hupdate : StatusOk config update.status) :
    (roll config update now).All (AnswersInOrder config) (InTurn config) (StatusOk config) := by
  unfold roll
  by_cases hfinished : finished update.status = true
  · rw [if_pos hfinished]
    exact hupdate
  rw [if_neg hfinished]
  have hunderway := hupdate.underway (by simpa using hfinished)
  simp only [Prog.ask_bind, Prog.all_call]
  refine ⟨trivial, ?_⟩
  intro answer hanswer
  cases answer with
  | none =>
    have hrolled : RolledOk (update.status.nodes.map Entry.name)
        ⟨update.status.nodes, update.status.resolution, .retrying⟩ :=
      ⟨rfl, hupdate.orderly, fun _ => hunderway⟩
    exact hrolled.status hupdate.names hupdate.server
  | some nodes =>
    simp only
    split_ifs with hempty
    · cases hplan : plan config update.spec nodes with
      | error cause =>
        have hrolled : RolledOk [] ⟨[], update.status.resolution, .failed⟩ :=
          ⟨rfl, trivial, fun _ => trivial⟩
        exact hrolled.status nodup_nil (by simp [ServerLast])
      | ok planned =>
        obtain ⟨hplanned, hpending⟩ := plan_spec hplan
        have hnodup : (planned.map Entry.name).Nodup := by
          rw [hplanned]
          exact ((order_perm (hanswer nodes rfl)).map Node.name).nodup_iff.2 (hanswer nodes rfl)
        have hserver : ServerLast config.serverNode (planned.map Entry.name) := by
          rw [hplanned]
          exact order_serverLast config.serverNode nodes
        exact rolls planned (underway_of_pending hpending) hnodup hserver
    · exact rolls update.status.nodes hunderway hupdate.names hupdate.server

theorem releaseEach_all (current : Option Update) (nodes : List Node) :
    (releaseEach current nodes).All (AnswersInOrder config) (InTurn config) fun _ => True := by
  induction nodes with
  | nil => trivial
  | cons node nodes ih =>
    unfold releaseEach
    split_ifs
    · exact ⟨(nofun), fun _ _ => ih⟩
    · exact ih

theorem releaseOrphans_all (current : Option Update) :
    (releaseOrphans current).All (AnswersInOrder config) (InTurn config) fun _ => True := by
  unfold releaseOrphans
  split_ifs
  · trivial
  refine ⟨trivial, ?_⟩
  rintro (_ | nodes) -
  · trivial
  · exact releaseEach_all current nodes

theorem reconcile_all (now : Time) :
    (reconcile config now).All (AnswersInOrder config) (InTurn config) fun _ => True := by
  refine ⟨trivial, ?_⟩
  intro answer hanswer
  match answer with
  | none => trivial
  | some none => exact releaseOrphans_all none
  | some (some update) =>
    apply (roll_all (hanswer update rfl)).bind
    intro status hstatus
    refine ⟨hstatus, ?_⟩
    rintro (_ | _) -
    · trivial
    · exact releaseOrphans_all _

end Pass

structure Sound (config : Config) (world : World) : Prop where
  nodes : (world.nodes.map Node.name).Nodup
  status : ∀ update, world.update = some update → StatusOk config update.status

structure Kept (config : Config) (world : World) : Prop extends Sound config world where
  sent : ∀ sent ∈ world.sent, sent.patch.isHandover = true → sent.node = config.serverNode →
    ∀ entry ∈ sent.working, entry.name ≠ config.serverNode → throughPhase entry.phase = true

section Run

variable {config : Config} {world : World}

theorem setNode_names (world : World) (actor : Actor) (name : Str) {set : Node → Node}
    (hset : ∀ node, (set node).name = node.name) :
    (world.setNode actor name set).nodes.map Node.name = world.nodes.map Node.name := by
  unfold World.setNode
  split
  · rfl
  rw [map_map]
  apply map_congr_left
  intro node _
  simp only [Function.comp_apply]
  split_ifs
  · exact hset node
  · rfl

theorem setNode_update (world : World) (actor : Actor) (name : Str) (set : Node → Node) :
    (world.setNode actor name set).update = world.update := by
  unfold World.setNode
  split <;> rfl

theorem setNode_sent (world : World) (actor : Actor) (name : Str) (set : Node → Node) :
    (world.setNode actor name set).sent = world.sent := by
  unfold World.setNode
  split <;> rfl

theorem change_sent (world : World) (change : Change) :
    (world.change change).sent = world.sent := by
  cases change <;> simp only [World.change, setNode_sent] <;> split_ifs <;> rfl

theorem statusOk_empty (config : Config) : StatusOk config Status.empty where
  names := nodup_nil
  server := by simp [ServerLast, Status.empty]
  orderly := trivial
  underway := fun _ => trivial

theorem Sound.setNode (hsound : Sound config world) (actor : Actor) (name : Str)
    {set : Node → Node} (hset : ∀ node, (set node).name = node.name) :
    Sound config (world.setNode actor name set) where
  nodes := by
    rw [setNode_names world actor name hset]
    exact hsound.nodes
  status := by
    rw [setNode_update]
    exact hsound.status

theorem Sound.change (hsound : Sound config world) (change : Change) :
    Sound config (world.change change) := by
  cases change with
  | report name ready kubeletVersion phase rotated | moveRequest name version
  | operator name unschedulable => exact hsound.setNode _ _ fun _ => rfl
  | removeNode name =>
    exact ⟨hsound.nodes.sublist (filter_sublist.map Node.name), hsound.status⟩
  | addNode name server kubeletVersion ready =>
    simp only [World.change]
    split_ifs with hfound
    · exact hsound
    refine ⟨?_, hsound.status⟩
    rw [map_append, map_singleton]
    apply nodup_append.2
    refine ⟨hsound.nodes, nodup_singleton _, ?_⟩
    intro other hother same hsame hequal
    rw [mem_singleton.1 hsame] at hequal
    obtain ⟨node, hnode, rfl⟩ := mem_map.1 hother
    apply hfound
    rw [World.find, List.find?_isSome]
    exact ⟨node, hnode, by simpa using hequal⟩
  | editSpec cancel drain allowDowngrade =>
    refine ⟨hsound.nodes, ?_⟩
    intro update hupdate
    obtain ⟨old, hold, rfl⟩ := Option.map_eq_some_iff.1 hupdate
    exact hsound.status old hold
  | deleteUpdate => exact ⟨hsound.nodes, fun _ hnone => by cases hnone⟩
  | createUpdate spec =>
    simp only [World.change]
    split_ifs
    · exact hsound
    refine ⟨hsound.nodes, ?_⟩
    intro update hupdate
    rw [← Option.some.inj hupdate]
    exact statusOk_empty config

theorem Sound.patched (hsound : Sound config world) (name : Str) (patch : Patch) :
    Sound config (world.patched name patch) := by
  have hset := hsound.setNode .controller name (Patch.apply_name · patch)
  exact ⟨hset.nodes, hset.status⟩

theorem Sound.written (hsound : Sound config world) (read : Update) {status : Status}
    (hstatus : StatusOk config status) : Sound config (world.written read status) := by
  refine ⟨hsound.nodes, ?_⟩
  intro update hupdate
  obtain ⟨old, hold, rfl⟩ := Option.map_eq_some_iff.1 hupdate
  split_ifs
  · exact hstatus
  · exact hsound.status old hold

theorem Sound.handle (hsound : Sound config world) {request : Request} (outcome : Outcome)
    (hrequest : ∀ read status, request = .writeStatus read status → StatusOk config status) :
    Sound config (World.handle request outcome world).2 := by
  cases request with
  | listUpdates => exact hsound
  | listNodes now => exact ⟨hsound.nodes, hsound.status⟩
  | listOrphans | resolve version | sign payload | drain node => exact hsound
  | patch name patch working =>
    have hlogged : Sound config (world.logSent name patch working) :=
      ⟨hsound.nodes, hsound.status⟩
    cases outcome <;> first | exact hlogged.patched name patch | exact hlogged
  | writeStatus read status =>
    have hlogged : Sound config (world.logWrite read status) := ⟨hsound.nodes, hsound.status⟩
    cases outcome <;>
      first | exact hlogged.written read (hrequest read status rfl) | exact hlogged

theorem handle_sent (world : World) (request : Request) (outcome : Outcome) :
    (World.handle request outcome world).2.sent = world.sent ∨
      ∃ name patch working, request = .patch name patch working ∧
        (World.handle request outcome world).2.sent =
          world.sent ++ [⟨name, patch, world.cordonedBy name, working⟩] := by
  cases request with
  | patch name patch working =>
    refine .inr ⟨name, patch, working, rfl, ?_⟩
    cases outcome <;> simp [World.handle, World.patched, setNode_sent, World.logSent]
  | writeStatus read status => cases outcome <;> exact .inl rfl
  | listUpdates | listNodes now | listOrphans | resolve version | sign payload
  | drain node => exact .inl rfl

theorem Kept.change (hkept : Kept config world) (change : Change) :
    Kept config (world.change change) :=
  ⟨hkept.toSound.change change, by rw [change_sent]; exact hkept.sent⟩

theorem Kept.handle (hkept : Kept config world) {request : Request}
    (hrequest : InTurn config request) (outcome : Outcome) :
    Kept config (World.handle request outcome world).2 := by
  refine ⟨hkept.toSound.handle outcome ?_, ?_⟩
  · rintro read status rfl
    exact hrequest
  · rcases handle_sent world request outcome with hsame | ⟨name, patch, working, rfl, hadded⟩
    · rw [hsame]
      exact hkept.sent
    · rw [hadded]
      exact forall_mem_append.2 ⟨hkept.sent, forall_mem_singleton.2 hrequest⟩

theorem Sound.answers (hsound : Sound config world) (request : Request) (outcome : Outcome) :
    AnswersInOrder config request (World.handle request outcome world).1 := by
  cases request with
  | listUpdates =>
    intro update hupdate
    simp only [World.handle] at hupdate
    split_ifs at hupdate
    exact hsound.status update (Option.some.inj hupdate)
  | listNodes now =>
    intro nodes hnodes
    simp only [World.handle] at hnodes
    split_ifs at hnodes
    rw [← Option.some.inj hnodes]
    exact hsound.nodes
  | patch name patch working =>
    intro node hnode
    cases outcome with
    | done =>
      obtain ⟨old, hold, rfl⟩ := Option.map_eq_some_iff.1 hnode
      exact ⟨old, by simpa using List.find?_some hold, rfl⟩
    | lost | unanswered | unneeded | resolved answer | signed sig signer
    | drained remaining bare => cases hnode
  | listOrphans | resolve version | sign payload | drain node | writeStatus read status => trivial

theorem Kept.next (hkept : Kept config world) (step : Step) :
    Kept config (next config world step) := by
  cases step with
  | change change => exact hkept.change change
  | pass now events =>
    have hsafe : (reconcile config now).Safe api (fun _ _ => True) (fun _ _ _ => True)
        (Kept config) (fun _ _ => True) world :=
      (reconcile_all now).safe
        (fun _ request outcome hkept _ => hkept.toSound.answers request outcome)
        (fun _ _ outcome hkept hrequest _ => hkept.handle hrequest outcome) world
    exact (hsafe.play (fun _ change _ _ hkept => hkept.change change) hkept
      (eventsMeet_of_forall _ _ _ (fun _ _ => trivial) (fun _ _ _ => trivial) _ _ _)).1

theorem Kept.after (hkept : Kept config world) (steps : List Step) :
    Kept config (after config world steps) := by
  induction steps generalizing world with
  | nil => exact hkept
  | cons step steps ih => exact ih (hkept.next step)

end Run

/-- Every status that is persisted has one node at a time underway, in the order of the
plan, and the server's own node is handed over after all others. -/
theorem one_node_at_a_time_server_last (config : Config) (world : World)
    (hnodes : (world.nodes.map Node.name).Nodup) (hupdate : world.update = none)
    (hsent : world.sent = []) (steps : List Step) :
    (∀ update, (after config world steps).update = some update → OneAtATime update.status.nodes) ∧
    ∀ sent ∈ (after config world steps).sent, sent.patch.isHandover = true →
      sent.node = config.serverNode → ∀ entry ∈ sent.working,
      entry.name ≠ config.serverNode → throughPhase entry.phase = true := by
  have hstart : Kept config world := by
    refine ⟨⟨hnodes, ?_⟩, ?_⟩
    · intro update hsome
      rw [hupdate] at hsome
      cases hsome
    · intro sent hmem
      rw [hsent] at hmem
      cases hmem
  have hkept := hstart.after steps
  exact ⟨fun update hsome => (hkept.status update hsome).orderly.oneAtATime, hkept.sent⟩

/-! ## A worker and the server -/

def demoConfig : Config where
  serverNode := ['s']
  drainTimeout := 600
  nodeTimeout := 1800
  assetURL := fun _ => some ['u']

def demoTag : Str := ['v', '2']

/-- A node that runs release 1, or the release the Update names. -/
def demoVersion (updated : Bool) : Str := nodeVersionMarker ++ [if updated then '2' else '1']

def demoNode (name : Str) (server : Bool) : Node where
  name := name
  server := server
  kubeletVersion := demoVersion false
  ready := true
  unschedulable := false
  annotations := Annotations.none

def demoWorld : World where
  nodes := [demoNode ['s'] true, demoNode ['w'] false]
  update := none
  nextUid := 0
  cordonedBy := fun _ => none
  handed := []
  views := []
  sent := []
  writes := []

def demoSpec : Spec where
  version := demoTag
  cancel := false
  drain := false
  allowDowngrade := false
  signature := []
  pinRequired := none

def demoSha : Str := List.replicate 64 'a'

/-- A pass that cordons a node and hands it over, with the release resolved. -/
def handoverAnswers : List Outcome :=
  [.done, .done, .resolved (.release demoSha false), .done, .signed ['g'] ['c'], .done, .done]

def answers (outcomes : List Outcome) : List (Event Change Outcome) := outcomes.map .answer

theorem demo_one_node_at_a_time :
    ∃ update, (after demoConfig demoWorld [.change (.createUpdate demoSpec),
        .pass 0 (answers handoverAnswers)]).update = some update ∧
      update.status.nodes.map Entry.phase = [.downloading, .pending] ∧
      OneAtATime update.status.nodes := by
  have hrun := one_node_at_a_time_server_last demoConfig demoWorld (by decide) rfl rfl
    [.change (.createUpdate demoSpec), .pass 0 (answers handoverAnswers)]
  exact ⟨_, rfl, by decide, hrun.1 _ rfl⟩

end K3sm.Updatectl

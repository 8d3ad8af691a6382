import K3sm.Registry.QuotaKept

/-!
# The count is exact at rest

When the count is built and neither a PUT nor a DELETE is in flight, the usage of a limited type
is the size of the distinct layers its stored manifests name.
-/

namespace K3sm.Registry.QuotaCount

open K3sm.Core List

variable {Bytes : Type} {env : Env Bytes}

/-- A stored manifest of the type names the layer, and its repository holds it. -/
def StoredLayer (world : World env) (artifactType : Text) (layer : Digest) : Prop :=
  ∃ key, Counted env world.store key ∧ (env.keyEntry key).artifactType = artifactType ∧
    layer ∈ (env.keyEntry key).layers

/-- With no request under way, the quota counts what the store holds. -/
def ExactAtRest (world : World env) : Prop :=
  world.quota.built = true → world.puts = [] → world.deletes = 0 →
    ∀ artifactType, env.limited artifactType = true → ∃ layers : Finset Digest,
      (∀ layer, layer ∈ layers ↔ StoredLayer world artifactType layer) ∧
        world.quota.usage artifactType = ∑ layer ∈ layers, env.size layer

def OneKind (store : Store) (put : Put env) (digest : Digest) : Prop :=
  RowRecord.KindsAgree (store.rows put.repo) ∧
    ∀ row ∈ store.rows put.repo, row.digest = digest →
      isIndexType row.mediaType = isIndexType put.mediaType

def HasRow (store : Store) (key : Key) : Prop :=
  RowRecord.HasRow (store.rows key.repo) key.digest false

/-- A row write that returns an error leaves index.json as it was, a PUT gives no digest a
second kind, and a DELETE leaves a row of each PUT that has written it under its hold. -/
def settles (world : World env) : Op env → Prop
  | .write index stop ok =>
    errorsKeepIndex world (.write index stop ok) ∧
      ∀ thread, world.puts[index]? = some thread → OneKind world.store thread.put thread.put.digest
  | .writeTag index _ _ _ =>
    ∀ thread, world.puts[index]? = some thread →
      OneKind world.store thread.put thread.put.canonicalDigest
  | .delete repo removal stop ok =>
    let files := writeRows (env.records repo) (world.store.files repo) removal.write stop
    (ok = false → files.index = (world.store.files repo).index) ∧
      ∀ thread ∈ world.puts, thread.put.limited → thread.wrote = true →
        HasRow (world.store.set repo files) thread.put.key
  | _ => True

instance (rows : List Row) : Decidable (RowRecord.KindsAgree rows) :=
  inferInstanceAs (Decidable (∀ row ∈ rows, ∀ other ∈ rows, _ → _))

instance (rows : List Row) (digest : Digest) (index : Bool) :
    Decidable (RowRecord.HasRow rows digest index) :=
  inferInstanceAs (Decidable (∃ row ∈ rows, _))

instance (store : Store) (put : Put env) (digest : Digest) : Decidable (OneKind store put digest) :=
  inferInstanceAs (Decidable (_ ∧ ∀ row ∈ store.rows put.repo, _ → _))

instance (store : Store) (key : Key) : Decidable (HasRow store key) :=
  inferInstanceAs (Decidable (RowRecord.HasRow _ _ _))

instance (world : World env) (op : Op env) : Decidable (settles world op) :=
  match op with
  | .write index stop ok =>
    inferInstanceAs (Decidable
      ((∀ thread ∈ world.puts[index]?, ok = false →
        (writeRows (env.records thread.put.repo) (world.store.opened env thread.put.repo)
          thread.put.write stop).index = (world.store.opened env thread.put.repo).index) ∧
        ∀ thread ∈ world.puts[index]?, OneKind world.store thread.put thread.put.digest))
  | .writeTag index _ _ _ =>
    inferInstanceAs (Decidable (∀ thread ∈ world.puts[index]?,
      OneKind world.store thread.put thread.put.canonicalDigest))
  | .delete _ _ _ _ =>
    inferInstanceAs (Decidable ((_ → _) ∧ ∀ thread ∈ world.puts, _ → _ → _))
  | .admitQuota _ | .finish _ | .invalidate | .beginRebuild | .listRepositories | .readRepository
  | .endRebuild | .failRebuild => isTrue trivial

section Exact

variable {world after : World env} {store : Store} {key : Key} {thread : Thread env}

variable {put : Put env} {rebuild : Rebuild} {stop : ℕ}

theorem HasRow.write {digest : Digest} {write : RowRecord.Write} (hrow : HasRow store key)
    (hkind : OneKind store put digest) (hputs : write.Puts (put.descriptor digest)) :
    HasRow (store.set put.repo
      (writeRows (env.records put.repo) (store.opened env put.repo) write stop)) key := by
  unfold HasRow at hrow ⊢
  rw [rows_set]
  split
  case isFalse => exact hrow
  rename_i hrepo
  have hstops : writeRows (env.records put.repo) (store.opened env put.repo) write stop ∈
      (RowRecord.updateIndex (env.records put.repo) (store.opened env put.repo) write).stops
        (store.opened env put.repo) := ⟨stop, rfl⟩
  rw [hrepo] at hrow
  rcases RowRecord.updateIndex_stops_cases hstops with
    hsame | ⟨rows, changed, hrows, hchange, hnew⟩
  · rw [hsame, opened_rows]
    exact hrow
  · have hopened : store.rows put.repo = rows := by
      rw [← opened_rows, hrows]
      rfl
    rw [hnew]
    rw [hopened] at hrow
    exact hrow.change (hopened ▸ hkind.1) (hopened ▸ hkind.2) hputs hchange

theorem Put.puts_write (put : Put env) : put.write.Puts (put.descriptor put.digest) := by
  unfold Put.write
  split
  · exact .inl ⟨_, rfl⟩
  · exact .inr rfl

theorem hasRow_of_answer (hlimited : put.limited) (hkind : OneKind store put put.digest)
    (hanswers : answers (env.records put.repo) (store.opened env put.repo) put.write true stop =
      true) :
    HasRow (store.set put.repo
      (writeRows (env.records put.repo) (store.opened env put.repo) put.write stop)) put.key := by
  have himage : isIndexType put.mediaType = false := (put.shape hlimited).1
  unfold HasRow
  rw [rows_set, Put.key, if_pos rfl, ← himage]
  unfold answers at hanswers
  split at hanswers
  case h_1 => cases hanswers
  rename_i rows hrows
  have hopened : store.rows put.repo = rows := by
    rw [← opened_rows, hrows]
    rfl
  have hkind' := hkind.2
  rw [hopened] at hkind'
  split at hanswers
  case h_1 hunchanged =>
    have hsame : writeRows (env.records put.repo) (store.opened env put.repo) put.write stop =
        store.opened env put.repo := by
      simp [writeRows, RowRecord.updateIndex, hrows, hunchanged]
    rw [hsame, hrows]
    exact RowRecord.hasRow_unchanged hkind' put.puts_write hunchanged
  case h_2 changed hchange =>
    simp only [Bool.and_eq_true, decide_eq_true_eq] at hanswers
    have hnew := RowRecord.updateIndex_complete hrows hchange hanswers.1 hanswers.2
    rw [writeRows, hnew]
    exact RowRecord.hasRow_changed put.puts_write hchange

/-- The key has its row, or the removal that took it is going to be noticed: a DELETE
has still to invalidate the count, or one has since the rebuild began. -/
def Noticed (world : World env) (gen : ℕ) (key : Key) : Prop :=
  HasRow world.store key ∨ 0 < world.deletes ∨ gen < world.quota.gen

structure ExactInv (world : World env) : Prop where
  cover : CoverInv world
  written : ∀ thread ∈ world.puts, thread.put.limited → thread.wrote = true →
    HasRow world.store thread.put.key
  stored : world.quota.built = true → ∀ charge ∈ world.quota.charges, charge.stored = true →
    HasRow world.store charge.key ∨ 0 < world.deletes
  since : ∀ rebuild, world.quota.building = some rebuild → ∀ charge ∈ world.quota.charges,
    charge.wroteSince rebuild.seq = true → Noticed world rebuild.gen charge.key
  read : ∀ rebuild, world.quota.building = some rebuild → ∀ key ∈ rebuild.read,
    Noticed world rebuild.gen key
  gen : ∀ rebuild, world.quota.building = some rebuild → rebuild.gen ≤ world.quota.gen

/-- The rule for the steps that remove nothing and leave a rebuild alone: a charge that
stands for a stored manifest stood for it before, or has its row. -/
theorem ExactInv.transfer (hinv : ExactInv world) (hcover : CoverInv after)
    (hbuilding : after.quota.building = world.quota.building)
    (hbuilt : after.quota.built = true → world.quota.built = true)
    (hgen : after.quota.gen = world.quota.gen) (hdeletes : after.deletes = world.deletes)
    (hrows : ∀ key, HasRow world.store key → HasRow after.store key)
    (hwritten : ∀ thread ∈ after.puts, thread.put.limited → thread.wrote = true →
      HasRow after.store thread.put.key)
    (hcharges : ∀ charge ∈ after.quota.charges, charge.stored = true →
      HasRow after.store charge.key ∨ ∃ was ∈ world.quota.charges, was.key = charge.key ∧
        was.stored = true ∧ was.doneSeq = charge.doneSeq) : ExactInv after := by
  have hnoticed : ∀ gen key, Noticed world gen key → Noticed after gen key := by
    rintro gen key (hrow | hpending | hlate)
    · exact .inl (hrows key hrow)
    · exact .inr (.inl (hdeletes ▸ hpending))
    · exact .inr (.inr (hgen ▸ hlate))
  refine ⟨hcover, hwritten, ?_, ?_, ?_, ?_⟩
  · intro hbuilt' charge hcharge hstored
    rcases hcharges charge hcharge hstored with hrow | ⟨was, hwas, hkey, hstored', -⟩
    · exact .inl hrow
    · rw [hdeletes, ← hkey]
      exact (hinv.stored (hbuilt hbuilt') was hwas hstored').imp_left (hrows was.key)
  · intro rebuild hrebuild charge hcharge hwrote
    rw [hbuilding] at hrebuild
    simp only [Charge.wroteSince, Bool.and_eq_true] at hwrote
    rcases hcharges charge hcharge hwrote.1 with hrow | ⟨was, hwas, hkey, hstored, hdone⟩
    · exact .inl hrow
    rw [← hkey]
    apply hnoticed
    apply hinv.since rebuild hrebuild was hwas
    simp only [Charge.wroteSince, hstored, hdone, Bool.true_and]
    exact hwrote.2
  · intro rebuild hrebuild key hkey
    rw [hbuilding] at hrebuild
    exact hnoticed _ _ (hinv.read rebuild hrebuild key hkey)
  · intro rebuild hrebuild
    rw [hbuilding] at hrebuild
    rw [hgen]
    exact hinv.gen rebuild hrebuild

theorem hold_frame {quota next : Quota} {entry : Entry} {limit : ℤ}
    (hhold : quota.hold env key entry limit = some next) :
    next.building = quota.building ∧ next.built = quota.built ∧ next.gen = quota.gen := by
  rcases hold_cases hhold with ⟨-, rfl⟩ | ⟨-, -, rfl⟩ <;> exact ⟨rfl, rfl, rfl⟩

theorem stored_hold {quota next : Quota} {entry : Entry} {limit : ℤ} {charge : Charge}
    (hhold : quota.hold env key entry limit = some next) (hcharge : charge ∈ next.charges)
    (hstored : charge.stored = true) :
    ∃ was ∈ quota.charges, was.key = charge.key ∧ was.stored = true ∧
      was.doneSeq = charge.doneSeq := by
  rcases hold_cases hhold with ⟨-, rfl⟩ | ⟨-, -, rfl⟩
  · obtain ⟨was, hwas, rfl⟩ := mem_map.1 hcharge
    refine ⟨was, hwas, ?_⟩
    split at hstored
    · rename_i hkey
      simp only [if_pos hkey]
      exact ⟨trivial, hstored, trivial⟩
    · rename_i hkey
      simp only [if_neg hkey]
      exact ⟨trivial, hstored, trivial⟩
  · rcases mem_cons.1 hcharge with rfl | hcharge
    · cases hstored
    · exact ⟨charge, hcharge, rfl, hstored, rfl⟩

theorem ExactInv.admitQuota (hinv : ExactInv world)
    (hadmitted : world.admitQuota put = some after) :
    ExactInv after := by
  have hcover := hinv.cover.admitQuota hadmitted
  have hwritten : ∀ thread ∈ (⟨put, false, true⟩ : Thread env) :: world.puts,
      thread.put.limited → thread.wrote = true → HasRow world.store thread.put.key := by
    intro thread hthread hlimited hwrote
    rcases mem_cons.1 hthread with rfl | hthread
    · cases hwrote
    · exact hinv.written thread hthread hlimited hwrote
  rcases admitQuota_cases hadmitted with ⟨-, rfl⟩ | ⟨limit, quota, -, -, -, hhold, rfl⟩
  · exact hinv.transfer hcover rfl (fun hbuilt => hbuilt) rfl rfl (fun _ hrow => hrow) hwritten
      fun charge hcharge hstored => .inr ⟨charge, hcharge, rfl, hstored, rfl⟩
  · obtain ⟨hbuilding, hbuilt, hgen⟩ := hold_frame hhold
    exact hinv.transfer hcover hbuilding (fun hafter => hbuilt ▸ hafter) hgen rfl
      (fun _ hrow => hrow) hwritten
      fun charge hcharge hstored => .inr (stored_hold hhold hcharge hstored)

theorem ExactInv.writeRow {index : ℕ} {ok : Bool} {write : RowRecord.Write} {digest : Digest}
    (hinv : ExactInv world) (hcover : CoverInv after) (hthread : world.puts[index]? = some thread)
    (hkind : OneKind world.store thread.put digest)
    (hputs : write.Puts (thread.put.descriptor digest))
    (hown : thread.wrote = false → ok = true → thread.put.limited →
      HasRow (world.store.set thread.put.repo (writeRows (env.records thread.put.repo)
        (world.store.opened env thread.put.repo) write stop)) thread.put.key)
    (hstep : world.writeRow index thread write stop ok = some after) : ExactInv after := by
  unfold World.writeRow at hstep
  dsimp only at hstep
  split_ifs at hstep
  cases hstep
  refine hinv.transfer hcover rfl (fun hbuilt => hbuilt) rfl rfl
    (fun key hrow => hrow.write hkind hputs) ?_
    fun charge hcharge hstored => .inr ⟨charge, hcharge, rfl, hstored, rfl⟩
  intro other hother hlimited hwrote
  rcases mem_cons.1 hother with rfl | hother
  · cases hbefore : thread.wrote with
    | true =>
      exact (hinv.written thread (mem_of_getElem? hthread) hlimited hbefore).write hkind hputs
    | false =>
      refine hown hbefore ?_ hlimited
      simpa [hbefore] using hwrote
  · exact (hinv.written other (mem_of_mem_eraseIdx hother) hlimited hwrote).write hkind hputs

theorem ExactInv.finish {index : ℕ} (hinv : ExactInv world)
    (hthread : world.puts[index]? = some thread) :
    ExactInv { world with
      quota := if thread.put.limited then world.quota.unhold thread.put.key thread.wrote
        else world.quota
      puts := world.puts.eraseIdx index } := by
  have hcover := hinv.cover.finish hthread
  have hperm := RowRecord.perm_cons_eraseIdx hthread
  have hwritten : ∀ other ∈ world.puts.eraseIdx index, other.put.limited → other.wrote = true →
      HasRow world.store other.put.key :=
    fun other hother => hinv.written other (mem_of_mem_eraseIdx hother)
  cases hlimited : thread.put.limited with
  | true =>
    simp only [hlimited, if_true] at hcover ⊢
    have hledger : LedgerInv world.quota (thread :: world.puts.eraseIdx index) := by
      apply hinv.cover.ledger.congr
      · exact fun key => (holders_perm hperm key).symm
      · exact fun other hother hother' => ⟨other, hperm.mem_iff.2 hother, hother', rfl⟩
    obtain ⟨ended, hended, hkey, -, hmem⟩ := mem_unhold hledger hlimited thread.wrote
    obtain ⟨hbuilding, hbuilt, hgen⟩ := unhold_frame world.quota thread.put.key thread.wrote
    refine hinv.transfer hcover hbuilding (fun hafter => hbuilt ▸ hafter) hgen rfl
      (fun _ hrow => hrow) hwritten ?_
    intro charge hcharge hstored
    rcases (hmem charge).1 hcharge with ⟨hold, -⟩ | ⟨rfl, -⟩
    · exact .inr ⟨charge, hold, rfl, hstored, rfl⟩
    cases hwrote : thread.wrote with
    | true =>
      left
      rw [unhold_key, hkey]
      exact hinv.written thread (mem_of_getElem? hthread) hlimited hwrote
    | false =>
      rw [hwrote] at hstored
      exact .inr ⟨ended, hended, by simp, hstored, rfl⟩
  | false =>
    simp only [hlimited, Bool.false_eq_true, if_false] at hcover ⊢
    exact hinv.transfer hcover rfl (fun hbuilt => hbuilt) rfl rfl (fun _ hrow => hrow) hwritten
      fun charge hcharge hstored => .inr ⟨charge, hcharge, rfl, hstored, rfl⟩

/-- A DELETE that failed changed no row; one that returned is noticed until it has
invalidated the count. -/
theorem ExactInv.delete {repo : String} {removal : Removal} {ok : Bool} (hinv : ExactInv world)
    (hsettles : settles world (.delete repo removal stop ok)) :
    ExactInv { world with
      store := world.store.set repo
        (writeRows (env.records repo) (world.store.files repo) removal.write stop)
      deletes := if ok then world.deletes + 1 else world.deletes } := by
  have hcover : CoverInv { world with
      store := world.store.set repo
        (writeRows (env.records repo) (world.store.files repo) removal.write stop)
      deletes := if ok then world.deletes + 1 else world.deletes } := hinv.cover.delete
  cases ok with
  | true =>
    refine ⟨hcover, hsettles.2, ?_, ?_, ?_, hinv.gen⟩
    · exact fun _ _ _ _ => .inr (Nat.succ_pos _)
    · exact fun _ _ _ _ _ => .inr (.inl (Nat.succ_pos _))
    · exact fun _ _ _ _ => .inr (.inl (Nat.succ_pos _))
  | false =>
    refine hinv.transfer hcover rfl (fun hbuilt => hbuilt) rfl rfl ?_ hsettles.2
      fun charge hcharge hstored => .inr ⟨charge, hcharge, rfl, hstored, rfl⟩
    intro key hrow
    unfold HasRow at hrow ⊢
    rw [rows_set]
    split
    case isFalse => exact hrow
    rename_i hrepo
    rw [hsettles.1 rfl, ← hrepo]
    exact hrow

theorem ExactInv.invalidate {deletes : ℕ} (hinv : ExactInv world) :
    ExactInv { world with quota := world.quota.invalidate, deletes := deletes } where
  cover := hinv.cover.invalidate
  written := hinv.written
  stored := fun hbuilt => by cases hbuilt
  since := fun rebuild hrebuild _ _ _ =>
    .inr (.inr (Nat.lt_succ_of_le (hinv.gen rebuild hrebuild)))
  read := fun rebuild hrebuild _ _ =>
    .inr (.inr (Nat.lt_succ_of_le (hinv.gen rebuild hrebuild)))
  gen := fun rebuild hrebuild => (hinv.gen rebuild hrebuild).trans (Nat.le_succ _)

theorem ExactInv.beginRebuild (hinv : ExactInv world) :
    ExactInv { world with
      quota := { world.quota with
        building := some ⟨world.quota.gen, world.quota.seq, none, []⟩ } } where
  cover := hinv.cover.beginRebuild
  written := hinv.written
  stored := hinv.stored
  since := by
    rintro rebuild ⟨rfl⟩ charge hcharge hwrote
    -- no PUT has written after the sequence there is
    have hdone := hinv.cover.ledger.done charge hcharge
    simp only [Charge.wroteSince, Bool.and_eq_true, decide_eq_true_eq] at hwrote
    exact absurd hwrote.2 (not_lt.2 hdone)
  read := by
    rintro rebuild ⟨rfl⟩ key hkey
    cases hkey
  gen := by
    rintro rebuild ⟨rfl⟩
    exact le_rfl

theorem ExactInv.listRepositories (hinv : ExactInv world)
    (hrebuild : world.quota.building = some rebuild) :
    ExactInv { world with
      quota := { world.quota with
        building := some { rebuild with todo := some world.store.repositories } } } where
  cover := hinv.cover.listRepositories hrebuild
  written := hinv.written
  stored := hinv.stored
  since := by
    rintro listed ⟨rfl⟩
    exact hinv.since rebuild hrebuild
  read := by
    rintro listed ⟨rfl⟩
    exact hinv.read rebuild hrebuild
  gen := by
    rintro listed ⟨rfl⟩
    exact hinv.gen rebuild hrebuild

theorem ExactInv.readRepository {repo : String} {todo : List String} (hinv : ExactInv world)
    (hrebuild : world.quota.building = some rebuild) (htodo : rebuild.todo = some (repo :: todo)) :
    ExactInv { world with
      quota := { world.quota with
        building := some { rebuild with
          todo := some todo
          read := readRows env repo (world.store.rows repo) ++
            rebuild.read.filter (· ∉ readRows env repo (world.store.rows repo)) } } } where
  cover := hinv.cover.readRepository hrebuild htodo
  written := hinv.written
  stored := hinv.stored
  since := by
    rintro next ⟨rfl⟩
    exact hinv.since rebuild hrebuild
  read := by
    rintro next ⟨rfl⟩ key hkey
    rcases mem_append.1 hkey with hnow | hbefore
    · exact .inl (mem_readRows.1 hnow).2.1
    · exact hinv.read rebuild hrebuild key (mem_of_mem_filter hbefore)
  gen := by
    rintro next ⟨rfl⟩
    exact hinv.gen rebuild hrebuild

theorem ExactInv.install (hinv : ExactInv world) (hrebuild : world.quota.building = some rebuild)
    (htodo : rebuild.todo = some []) (hgen : world.quota.gen = rebuild.gen) :
    ExactInv { world with
      quota := { world.quota with building := none }.install env rebuild.read rebuild.seq } := by
  have hnoticed : ∀ key, Noticed world rebuild.gen key →
      HasRow world.store key ∨ 0 < world.deletes := by
    rintro key (hrow | hpending | hlate)
    · exact .inl hrow
    · exact .inr hpending
    · exact absurd hlate (by rw [hgen]; exact lt_irrefl _)
  refine ⟨hinv.cover.install hrebuild htodo, hinv.written, ?_, ?_, ?_, ?_⟩
  · intro _ charge hcharge hstored
    rw [install_eq] at hcharge
    rcases mem_installed.1 hcharge with ⟨key, hkey, rfl⟩ | ⟨was, hwas, -, -, rfl⟩
    · rw [readCharge_key]
      exact hnoticed key (hinv.read rebuild hrebuild key hkey)
    · exact hnoticed was.key (hinv.since rebuild hrebuild was hwas hstored)
  all_goals
    intro next hnext
    rw [install_eq] at hnext
    cases hnext

theorem ExactInv.endRebuild (hinv : ExactInv world) :
    ExactInv { world with quota := { world.quota with building := none } } where
  cover := hinv.cover.endRebuild
  written := hinv.written
  stored := hinv.stored
  since := fun _ hnone => by cases hnone
  read := fun _ hnone => by cases hnone
  gen := fun _ hnone => by cases hnone

theorem settles_keeps {op : Op env} (hsettles : settles world op) : errorsKeepIndex world op := by
  cases op with
  | write index stop ok => exact hsettles.1
  | _ => trivial

theorem ExactInv.step {op : Op env} (hinv : ExactInv world) (hsettles : settles world op)
    (hstep : step world op = some after) : ExactInv after := by
  have hcover := hinv.cover.step (settles_keeps hsettles) hstep
  cases op with
  | admitQuota put => exact hinv.admitQuota hstep
  | write index stop ok =>
    obtain ⟨thread, hthread, hwrite⟩ := Option.bind_eq_some_iff.1 hstep
    split_ifs at hwrite
    have hkind := hsettles.2 thread hthread
    refine hinv.writeRow hcover hthread hkind thread.put.puts_write ?_ hwrite
    rintro - rfl hlimited
    apply hasRow_of_answer hlimited hkind
    unfold World.writeRow at hwrite
    dsimp only at hwrite
    split at hwrite
    case isTrue hanswers => simpa using hanswers
    case isFalse => cases hwrite
  | writeTag index tag stop ok =>
    obtain ⟨thread, hthread, hwrite⟩ := Option.bind_eq_some_iff.1 hstep
    split_ifs at hwrite with hactive
    refine hinv.writeRow hcover hthread (hsettles thread hthread) (.inl ⟨tag, rfl⟩) ?_ hwrite
    intro hunwritten
    rw [hactive.2.1] at hunwritten
    cases hunwritten
  | finish index =>
    obtain ⟨thread, hthread, rfl⟩ := Option.map_eq_some_iff.1 hstep
    exact hinv.finish hthread
  | delete repo removal stop ok =>
    simp only [QuotaCount.step] at hstep
    split at hstep
    case isFalse => cases hstep
    cases hstep
    exact hinv.delete hsettles
  | invalidate =>
    simp only [QuotaCount.step] at hstep
    split at hstep
    case isFalse => cases hstep
    cases hstep
    exact hinv.invalidate
  | beginRebuild =>
    simp only [QuotaCount.step] at hstep
    split at hstep
    case isTrue => cases hstep
    cases hstep
    exact hinv.beginRebuild
  | listRepositories =>
    obtain ⟨rebuild, hrebuild, hnext⟩ := Option.bind_eq_some_iff.1 hstep
    split at hnext <;> cases hnext
    exact hinv.listRepositories hrebuild
  | readRepository =>
    obtain ⟨rebuild, hrebuild, hnext⟩ := Option.bind_eq_some_iff.1 hstep
    split at hnext <;> cases hnext
    exact hinv.readRepository hrebuild ‹_›
  | endRebuild =>
    obtain ⟨rebuild, hrebuild, hnext⟩ := Option.bind_eq_some_iff.1 hstep
    split at hnext
    case h_2 => cases hnext
    rename_i htodo
    split at hnext
    case isTrue =>
      cases hnext
      exact hinv.endRebuild
    case isFalse hgen =>
      cases hnext
      exact hinv.install hrebuild htodo (not_not.1 hgen)
  | failRebuild =>
    obtain ⟨rebuild, -, rfl⟩ := Option.map_eq_some_iff.1 hstep
    exact hinv.endRebuild

theorem startWorld_exact (store : Store) : ExactInv (startWorld env store) where
  cover := startWorld_cover store
  written := fun _ hthread => by cases hthread
  stored := fun hbuilt => by cases hbuilt
  since := fun _ hnone => by cases hnone
  read := fun _ hnone => by cases hnone
  gen := fun _ hnone => by cases hnone

theorem ExactInv.charge_counted (hinv : ExactInv world) (hbuilt : world.quota.built = true)
    (hputs : world.puts = []) (hdeletes : world.deletes = 0) {charge : Charge}
    (hcharge : charge ∈ world.quota.charges)
    (hlimited : env.limited charge.entry.artifactType = true) :
    Counted env world.store charge.key := by
  have hholds : charge.holds = 0 := by
    rw [hinv.cover.ledger.holds charge hcharge, hputs]
    rfl
  have hstored : charge.stored = true := by
    have hbusy := hinv.cover.ledger.busy charge hcharge
    simpa [Charge.idle, hholds] using hbusy
  have hrow : HasRow world.store charge.key := by
    rcases hinv.stored hbuilt charge hcharge hstored with hrow | hpending
    · exact hrow
    · rw [hdeletes] at hpending
      cases hpending
  refine ⟨hrow, ?_⟩
  rwa [hinv.cover.ledger.entries charge hcharge] at hlimited

theorem ExactInv.exactAtRest (hinv : ExactInv world) : ExactAtRest world := by
  intro hbuilt hputs hdeletes artifactType hlimited
  refine ⟨(chargedLayers world.quota.charges artifactType).toFinset, ?_,
    (hinv.cover.ledger.counts artifactType).total⟩
  intro layer
  rw [mem_toFinset]
  constructor
  · intro hlayer
    simp only [chargedLayers, mem_flatMap, mem_filter, decide_eq_true_eq] at hlayer
    obtain ⟨charge, ⟨hcharge, htype⟩, hlayer⟩ := hlayer
    have hentry := hinv.cover.ledger.entries charge hcharge
    exact ⟨charge.key, hinv.charge_counted hbuilt hputs hdeletes hcharge (htype ▸ hlimited),
      hentry ▸ htype, hentry ▸ hlayer⟩
  · rintro ⟨key, hcounted, rfl, hlayer⟩
    exact layers_counted hinv.cover.ledger (hinv.cover.charged_stored hbuilt hcounted) hlayer

end Exact

/-- Over every interleaving of PUTs, DELETEs and rebuilds whose steps meet `settles`:
whenever the count is built and no PUT or DELETE is in flight, it is exact. -/
theorem exact_at_rest_of_run (store : Store) {ops : List (Op env)} {world : World env}
    (hrun : Run (guardedStep settles fun before op after => step before op = some after)
      (startWorld env store) ops world) : ExactAtRest world := by
  have hinv : ExactInv world :=
    hrun.invariant (startWorld_exact store)
      fun before op after hbefore hstep => hbefore.step hstep.1 hstep.2
  exact hinv.exactAtRest

/-! ## A row that goes before its PUT has finished -/

def removedOps : List (Op demoEnv) :=
  storedOps ++ [.delete "app" (.byDigest (.sha256 0)) 9 true, .invalidate, .beginRebuild,
    .listRepositories, .readRepository, .endRebuild]

/-- The DELETE and the rebuild come between the PUT's row write and its end. -/
def overtakenOps : List (Op demoEnv) :=
  buildOps ++ [.admitQuota demoPut, .write 0 9 true, .delete "app" (.byDigest (.sha256 0)) 9 true,
    .invalidate, .beginRebuild, .listRepositories, .readRepository, .endRebuild, .finish 0]

theorem demo_exact_at_rest : ∃ world : World demoEnv, world.quota.built = true ∧
    world.puts = [] ∧ world.deletes = 0 ∧ world.store.rows "app" = [] ∧
      world.quota.usage (.plain "model") = 0 ∧ ExactAtRest world := by
  have hends : (removedOps.foldlM (fun world op => if settles world op then step world op else none)
      (startWorld demoEnv demoStore)).map (fun world =>
        (world.quota.built, world.puts.length, world.deletes, world.store.rows "app",
          world.quota.usage (.plain "model"))) = some (true, 0, 0, [], 0) := by
    rfl
  obtain ⟨world, hfold, hstate⟩ := Option.map_eq_some_iff.1 hends
  simp only [Prod.mk.injEq, length_eq_zero_iff] at hstate
  obtain ⟨hbuilt, hputs, hdeletes, hrows, husage⟩ := hstate
  exact ⟨world, hbuilt, hputs, hdeletes, hrows, husage,
    exact_at_rest_of_run demoStore (guarded_run_of_foldlM hfold)⟩

theorem overtaken_put_counted : ∃ world : World demoEnv,
    Run (fun before op after => step before op = some after) (startWorld demoEnv demoStore)
      overtakenOps world ∧ ¬ ExactAtRest world := by
  have hends : (overtakenOps.foldlM step (startWorld demoEnv demoStore)).map (fun world =>
      (world.quota.built, world.puts.length, world.deletes, world.store.dirs,
        world.store.rows "app", world.quota.usage (.plain "model"))) =
        some (true, 0, 0, ["app"], [], 1) := by
    rfl
  obtain ⟨world, hfold, hstate⟩ := Option.map_eq_some_iff.1 hends
  simp only [Prod.mk.injEq, length_eq_zero_iff] at hstate
  obtain ⟨hbuilt, hputs, hdeletes, hdirs, hrows, husage⟩ := hstate
  refine ⟨world, run_of_foldlM hfold, ?_⟩
  intro hexact
  obtain ⟨layers, hlayers, hsum⟩ := hexact hbuilt hputs hdeletes (.plain "model") rfl
  have hempty : layers = ∅ := by
    apply Finset.eq_empty_of_forall_notMem
    intro layer hlayer
    obtain ⟨key, hcounted, -⟩ := (hlayers layer).1 hlayer
    -- the one directory of the store holds no row
    have hdir := mem_repositories hcounted
    rw [Store.repositories, hdirs] at hdir
    have happ : key.repo = "app" := by simpa using (mem_filter.1 hdir).1
    obtain ⟨⟨row, hrow, -⟩, -⟩ := hcounted
    rw [happ, hrows] at hrow
    cases hrow
  rw [hempty, husage] at hsum
  cases hsum

end K3sm.Registry.QuotaCount

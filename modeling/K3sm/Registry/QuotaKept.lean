import K3sm.Registry.QuotaLedger

/-!
# No stored manifest is lost from the count

While the count is built, every stored manifest of a limited type is charged, and while a rebuild
reads, every manifest it will miss is vouched for by a PUT that is in flight or wrote since the
rebuild began.

This rests on one thing the code does not guarantee: that a PUT whose row write returns an error
has not stored the row.
-/

namespace K3sm.Registry.QuotaCount

open K3sm.Core List

variable {Bytes : Type} {env : Env Bytes}

/-- A charge counts the manifest: one of the same repository and the same body.  A PUT
by sha512 digest writes its tags under the sha256 digest of that body. -/
def Charged (env : Env Bytes) (quota : Quota) (key : Key) : Prop :=
  ∃ charge ∈ quota.charges, charge.key.repo = key.repo ∧
    env.blob charge.key.digest = env.blob key.digest

/-- A layer of the type takes room: a stored manifest names it, or a PUT that is
admitted. -/
def TakesRoom (world : World env) (artifactType : Text) (layer : Digest) : Prop :=
  ∃ key, (env.keyEntry key).artifactType = artifactType ∧ layer ∈ (env.keyEntry key).layers ∧
    (Counted env world.store key ∨ ∃ thread ∈ world.puts, thread.put.limited ∧ thread.put.key = key)

/-- What the store holds is charged, and so is what was admitted. -/
structure NothingLost (world : World env) : Prop where
  stored : world.quota.built → ∀ key, Counted env world.store key → Charged env world.quota key
  admitted : ∀ thread ∈ world.puts, thread.put.limited → Charged env world.quota thread.put.key
  room : ∀ put next limit, world.admitQuota put = some next →
    env.limits put.checked.artifactType = some limit → world.quota.counts put.key = false →
    ∀ layers : Finset Digest, (∀ layer ∈ layers,
      TakesRoom next put.checked.artifactType layer) → ∑ layer ∈ layers, env.size layer ≤ limit

/-- A PUT whose first row write returns an error leaves index.json as it was. -/
def errorsKeepIndex (world : World env) : Op env → Prop
  | .write index stop ok => ∀ thread, world.puts[index]? = some thread → ok = false →
      (writeRows (env.records thread.put.repo) (world.store.opened env thread.put.repo)
        thread.put.write stop).index = (world.store.opened env thread.put.repo).index
  | _ => True

theorem quotaShapeOf_congr {left right : Digest} (hsame : env.blob left = env.blob right) :
    quotaShapeOf env left = quotaShapeOf env right := by
  simp only [quotaShapeOf, hsame]

theorem Put.blob_canonicalDigest (put : Put env) :
    env.blob put.canonicalDigest = env.blob put.digest := by
  apply env.blob_eq
  simp [Put.canonicalDigest, Codec.hashesTo]

theorem Put.limited_of_shape (put : Put env) (hindex : isIndexType put.mediaType = false)
    (hlimited : env.limited (quotaShapeOf env put.digest).artifactType = true) :
    put.limited = true := by
  obtain ⟨manifest, hmanifest, htype, -⟩ := checkManifest_image hindex put.accepted
  simpa [quotaShapeOf, hmanifest, Put.limited, htype] using hlimited

theorem rows_set (store : Store) (repo other : String) (files : RowRecord.Files) :
    (store.set repo files).rows other =
      if other = repo then files.index.getD [] else store.rows other := by
  by_cases hsame : other = repo
  · subst hsame
    simp [Store.rows, Store.set]
  · simp [Store.rows, Store.set, hsame]

theorem opened_rows (store : Store) (repo : String) :
    (store.opened env repo).index.getD [] = store.rows repo :=
  RowRecord.initLocked_finish_rows (env.records repo) (store.files repo)

theorem counted_of_write {store : Store} {repo : String} {files : RowRecord.Files}
    {write : RowRecord.Write} {stop : ℕ} {key : Key}
    (hfiles : files.index.getD [] = store.rows repo)
    (hcounted : Counted env (store.set repo (writeRows (env.records repo) files write stop)) key) :
    Counted env store key ∨
      ((writeRows (env.records repo) files write stop).index ≠ files.index ∧ key.repo = repo ∧
        env.limited (quotaShapeOf env key.digest).artifactType = true ∧
        ∃ desc : Descriptor, key.digest = desc.digest ∧ isIndexType desc.mediaType = false ∧
          write.Puts desc) := by
  obtain ⟨⟨row, hrow, hdigest, hkind⟩, hlimited⟩ := hcounted
  rw [rows_set] at hrow
  split at hrow
  case isFalse => exact .inl ⟨⟨row, hrow, hdigest, hkind⟩, hlimited⟩
  rename_i hrepo
  have hold : ∀ old ∈ files.index.getD [], old.digest = row.digest →
      old.mediaType = row.mediaType → Counted env store key := by
    intro old hold hsame hmedia
    rw [hfiles, ← hrepo] at hold
    exact ⟨⟨old, hold, hsame.trans hdigest, hmedia ▸ hkind⟩, hlimited⟩
  by_cases hindex : (writeRows (env.records repo) files write stop).index = files.index
  · rw [hindex] at hrow
    exact .inl (hold row hrow rfl rfl)
  have hstops : writeRows (env.records repo) files write stop ∈
      (RowRecord.updateIndex (env.records repo) files write).stops files := ⟨stop, rfl⟩
  rcases RowRecord.updateIndex_stops_cases hstops with
    hsame | ⟨rows, changed, hrows, hchange, hnew⟩
  · exact absurd hsame hindex
  rw [hnew] at hrow
  rw [hrows] at hold
  rcases RowRecord.hasKind_change hchange hrow with
    ⟨old, hmem, hsame, hmedia⟩ | ⟨desc, hdesc, hmedia, hwrite⟩
  · exact .inl (hold old hmem hsame hmedia)
  · exact .inr ⟨hindex, hrepo, hlimited, desc, hdigest.symm.trans hdesc, hmedia ▸ hkind, hwrite⟩

theorem counted_of_removal {store : Store} {repo : String} {removal : Removal} {stop : ℕ}
    {key : Key}
    (hcounted : Counted env (store.set repo
      (writeRows (env.records repo) (store.files repo) removal.write stop)) key) :
    Counted env store key := by
  rcases counted_of_write rfl hcounted with hold | ⟨-, -, -, desc, -, -, hwrite⟩
  · exact hold
  · cases removal <;> simp [Removal.write, RowRecord.Write.Puts] at hwrite

def Charge.fresh (since : Option ℕ) (charge : Charge) : Bool :=
  match since with
  | none => charge.stored
  | some seq => charge.wroteSince seq

def Backed (puts : List (Thread env)) (since : Option ℕ) (charge : Charge) : Prop :=
  charge.fresh since = true ∨
    ∃ thread ∈ puts, thread.put.limited ∧ thread.put.key = charge.key ∧ thread.wrote = true

def Vouched (env : Env Bytes) (charges : List Charge) (puts : List (Thread env))
    (since : Option ℕ) (key : Key) : Prop :=
  ∃ charge ∈ charges, charge.key.repo = key.repo ∧
    env.blob charge.key.digest = env.blob key.digest ∧ Backed puts since charge

def Rebuild.Unread (rebuild : Rebuild) (repo : String) : Prop :=
  ∀ todo, rebuild.todo = some todo → repo ∈ todo

/-- The invariant by which nothing stored goes uncharged. -/
structure CoverInv (world : World env) : Prop where
  ledger : LedgerInv world.quota world.puts
  built : world.quota.built → ∀ key, Counted env world.store key →
    Vouched env world.quota.charges world.puts none key
  reading : ∀ rebuild, world.quota.building = some rebuild → ∀ key,
    Counted env world.store key → rebuild.Unread key.repo ∨ key ∈ rebuild.read ∨
      Vouched env world.quota.charges world.puts (some rebuild.seq) key
  rebuild : ∀ rebuild, world.quota.building = some rebuild →
    rebuild.read.Nodup ∧ rebuild.seq ≤ world.quota.seq

section Cover

variable {world after : World env} {quota : Quota} {charges others : List Charge}
  {puts rest : List (Thread env)} {since : Option ℕ} {key : Key} {thread : Thread env}

theorem Vouched.mono (hvouched : Vouched env charges puts since key)
    (hbacked : ∀ charge ∈ charges, Backed puts since charge →
      ∃ other ∈ others, other.key = charge.key ∧ Backed rest since other) :
    Vouched env others rest since key := by
  obtain ⟨charge, hcharge, hrepo, hblob, hback⟩ := hvouched
  obtain ⟨other, hother, hkey, hback'⟩ := hbacked charge hcharge hback
  exact ⟨other, hother, hkey ▸ hrepo, hkey ▸ hblob, hback'⟩

variable {charge : Charge} {put : Put env} {rebuild : Rebuild} {index : ℕ} {limit : ℤ}

theorem Backed.mono (hback : Backed puts since charge)
    (hputs : ∀ thread ∈ puts, thread.put.limited → thread.wrote = true →
      ∃ other ∈ rest, other.put.limited ∧ other.put.key = thread.put.key ∧ other.wrote = true) :
    Backed rest since charge := by
  rcases hback with hfresh | ⟨thread, hthread, hlimited, hkey, hwrote⟩
  · exact .inl hfresh
  · obtain ⟨other, hother, hlimited', hsame, hwrote'⟩ := hputs thread hthread hlimited hwrote
    exact .inr ⟨other, hother, hlimited', hsame.trans hkey, hwrote'⟩

/-- The rule for the steps that leave a rebuild alone: what is backed stays backed, and
what is newly counted is vouched for. -/
theorem CoverInv.transfer (hinv : CoverInv world) (hledger : LedgerInv after.quota after.puts)
    (hbuilding : after.quota.building = world.quota.building)
    (hbuilt : after.quota.built → world.quota.built) (hseq : world.quota.seq ≤ after.quota.seq)
    (hcounted : ∀ key, Counted env after.store key → Counted env world.store key ∨
      ∀ since, Vouched env after.quota.charges after.puts since key)
    (hbacked : ∀ since, (∀ seq, since = some seq → seq ≤ world.quota.seq) →
      ∀ charge ∈ world.quota.charges, Backed world.puts since charge →
        ∃ other ∈ after.quota.charges, other.key = charge.key ∧ Backed after.puts since other) :
    CoverInv after where
  ledger := hledger
  built := by
    intro hbuilt' key hkey
    rcases hcounted key hkey with hold | hnew
    · exact (hinv.built (hbuilt hbuilt') key hold).mono (hbacked none (by simp))
    · exact hnew none
  reading := by
    intro rebuild hrebuild key hkey
    rw [hbuilding] at hrebuild
    rcases hcounted key hkey with hold | hnew
    · rcases hinv.reading rebuild hrebuild key hold with hunread | hread | hvouched
      · exact .inl hunread
      · exact .inr (.inl hread)
      refine .inr (.inr (hvouched.mono (hbacked _ ?_)))
      rintro seq ⟨rfl⟩
      exact (hinv.rebuild rebuild hrebuild).2
    · exact .inr (.inr (hnew _))
  rebuild := by
    intro rebuild hrebuild
    rw [hbuilding] at hrebuild
    exact ⟨(hinv.rebuild rebuild hrebuild).1, (hinv.rebuild rebuild hrebuild).2.trans hseq⟩

theorem admitQuota_cases (hadmitted : world.admitQuota put = some after) :
    (put.limited = false ∧ after = { world with puts := ⟨put, false, true⟩ :: world.puts }) ∨
      ∃ limit quota, put.limited = true ∧ env.limits put.checked.artifactType = some limit ∧
        world.quota.built = true ∧
        world.quota.hold env put.key (env.keyEntry put.key) limit = some quota ∧
        after = { world with quota := quota, puts := ⟨put, false, true⟩ :: world.puts } := by
  unfold World.admitQuota at hadmitted
  split at hadmitted
  case h_1 hnone =>
    cases hadmitted
    exact .inl ⟨by simp [Put.limited, Env.limited, hnone], rfl⟩
  rename_i limit hlimit
  have hlimited : put.limited = true := by simp [Put.limited, Env.limited, hlimit]
  split at hadmitted
  case isFalse => cases hadmitted
  rename_i hbuilt
  obtain ⟨quota, hhold, rfl⟩ := Option.map_eq_some_iff.1 hadmitted
  rw [put.entry_eq hlimited] at hhold
  exact .inr ⟨limit, quota, hlimited, hlimit, hbuilt, hhold, rfl⟩

theorem hold_cases {key : Key} {entry : Entry} {after : Quota}
    (hhold : quota.hold env key entry limit = some after) :
    (key ∈ quota.charges.map Charge.key ∧ after = { quota with
        charges := quota.charges.map fun charge =>
          if charge.key = key then { charge with holds := charge.holds + 1 } else charge }) ∨
      (key ∉ quota.charges.map Charge.key ∧
        quota.usage entry.artifactType +
          (quota.count entry.artifactType).grows env.size entry.layers ≤ limit ∧
        after = Quota.charge env { quota with
          charges := ⟨key, entry, false, 1, 0⟩ :: quota.charges } entry) := by
  unfold Quota.hold at hhold
  split at hhold
  case isTrue hcounts =>
    cases hhold
    exact .inl ⟨counts_iff.1 hcounts, rfl⟩
  case isFalse hcounts =>
    split at hhold
    case isTrue => cases hhold
    rename_i hroom
    cases hhold
    exact .inr ⟨fun hkey => hcounts (counts_iff.2 hkey), not_lt.1 hroom, rfl⟩

theorem LedgerInv.hold {after : Quota} (hledger : LedgerInv quota puts)
    (hlimited : thread.put.limited)
    (hhold : quota.hold env thread.put.key (env.keyEntry thread.put.key) limit = some after) :
    LedgerInv after (thread :: puts) := by
  rcases hold_cases hhold with ⟨hcounted, rfl⟩ | ⟨hcounted, -, rfl⟩
  · exact hledger.holdAgain hlimited hcounted
  · exact hledger.holdNew hlimited hcounted

theorem CoverInv.admitQuota (hinv : CoverInv world)
    (hadmitted : world.admitQuota put = some after) :
    CoverInv after := by
  have hputs : ∀ thread ∈ world.puts, thread.put.limited → thread.wrote = true →
      ∃ other ∈ (⟨put, false, true⟩ : Thread env) :: world.puts, other.put.limited ∧
        other.put.key = thread.put.key ∧ other.wrote = true :=
    fun thread hthread hlimited hwrote =>
      ⟨thread, mem_cons_of_mem _ hthread, hlimited, rfl, hwrote⟩
  rcases admitQuota_cases hadmitted with ⟨hunlimited, rfl⟩ | ⟨limit, quota, hlimited, -,
    -, hhold, rfl⟩
  · exact hinv.transfer (hinv.ledger.cons_unlimited hunlimited) rfl (fun hbuilt => hbuilt) le_rfl
      (fun _ hcounted => .inl hcounted)
      fun _ _ charge hcharge hback => ⟨charge, hcharge, rfl, hback.mono hputs⟩
  have hledger : LedgerInv quota (⟨put, false, true⟩ :: world.puts) :=
    hinv.ledger.hold hlimited hhold
  rcases hold_cases hhold with ⟨-, rfl⟩ | ⟨-, -, rfl⟩
  · refine hinv.transfer hledger rfl (fun hbuilt => hbuilt) le_rfl
      (fun _ hcounted => .inl hcounted) ?_
    intro since _ charge hcharge hback
    refine ⟨_, mem_map_of_mem hcharge, by split <;> rfl, ?_⟩
    -- one hold more changes neither the key nor what the charge stands for
    split
    · exact (hback.mono hputs : Backed _ since charge)
    · exact hback.mono hputs
  · exact hinv.transfer hledger rfl (fun hbuilt => hbuilt) le_rfl
      (fun _ hcounted => .inl hcounted)
      fun _ _ charge hcharge hback =>
        ⟨charge, mem_cons_of_mem _ hcharge, rfl, hback.mono hputs⟩

theorem LedgerInv.advance {wrote active : Bool} (hledger : LedgerInv quota puts)
    (hthread : puts[index]? = some thread) :
    LedgerInv quota (⟨thread.put, wrote, active⟩ :: puts.eraseIdx index) := by
  have hperm := RowRecord.perm_cons_eraseIdx hthread
  apply hledger.congr
  · intro key
    rw [holders_perm hperm, holders_cons, holders_cons]
  · intro other hother hlimited
    rcases mem_cons.1 hother with rfl | hother
    · exact ⟨thread, mem_of_getElem? hthread, hlimited, rfl⟩
    · exact ⟨other, mem_of_mem_eraseIdx hother, hlimited, rfl⟩

theorem Backed.advance {ok active : Bool} (hback : Backed puts since charge)
    (hthread : puts[index]? = some thread) :
    Backed (⟨thread.put, thread.wrote || ok, active⟩ :: puts.eraseIdx index) since charge := by
  apply hback.mono
  intro other hother hlimited hwrote
  rcases mem_cons.1 ((RowRecord.perm_cons_eraseIdx hthread).mem_iff.1 hother) with rfl | hrest
  · exact ⟨_, mem_cons_self, hlimited, rfl, by simp [hwrote]⟩
  · exact ⟨other, mem_cons_of_mem _ hrest, hlimited, rfl, hwrote⟩

theorem CoverInv.writeRow {stop : ℕ} {ok : Bool} {write : RowRecord.Write} (hinv : CoverInv world)
    (hthread : world.puts[index]? = some thread)
    (hwrites : ∀ desc, write.Puts desc → desc.mediaType = thread.put.mediaType ∧
      env.blob desc.digest = env.blob thread.put.digest) (hkept : (thread.wrote || ok) = true ∨
      (writeRows (env.records thread.put.repo) (world.store.opened env thread.put.repo) write
        stop).index = (world.store.opened env thread.put.repo).index)
    (hstep : world.writeRow index thread write stop ok = some after) : CoverInv after := by
  unfold World.writeRow at hstep
  dsimp only at hstep
  split_ifs at hstep
  cases hstep
  have hledger : LedgerInv world.quota
      (⟨thread.put, thread.wrote || ok, ok⟩ :: world.puts.eraseIdx index) :=
    hinv.ledger.advance hthread
  refine hinv.transfer hledger rfl (fun hbuilt => hbuilt) le_rfl ?_
    fun _ _ charge hcharge hback => ⟨charge, hcharge, rfl, hback.advance hthread⟩
  intro key hkey
  rcases counted_of_write (opened_rows world.store thread.put.repo) hkey with
    hold | ⟨hindex, hrepo, hlimited, desc, hdigest, hkind, hwrite⟩
  · exact .inl hold
  right
  intro since
  obtain ⟨hmedia, hblob⟩ := hwrites desc hwrite
  have hwrote := hkept.resolve_right hindex
  rw [← hdigest] at hblob
  have hput : thread.put.limited = true := by
    apply thread.put.limited_of_shape (hmedia ▸ hkind)
    rwa [← quotaShapeOf_congr hblob]
  obtain ⟨charge, hcharge, hcharged⟩ :=
    mem_map.1 (hledger.held _ mem_cons_self hput)
  refine ⟨charge, hcharge, ?_, ?_, .inr ⟨_, mem_cons_self, hput, hcharged.symm, hwrote⟩⟩
  · rw [hcharged]
    exact hrepo.symm
  · rw [hcharged]
    exact hblob.symm

theorem backed_unhold (hledger : LedgerInv quota (thread :: rest)) (hlimited : thread.put.limited)
    (hsince : ∀ seq, since = some seq → seq ≤ quota.seq) (hcharge : charge ∈ quota.charges)
    (hback : Backed (thread :: rest) since charge) :
    ∃ other ∈ (quota.unhold thread.put.key thread.wrote).charges, other.key = charge.key ∧
      Backed rest since other := by
  obtain ⟨ended, hended, hkey, hholds, hmem⟩ := mem_unhold hledger hlimited thread.wrote
  by_cases hsame : charge.key = ended.key
  · have heq : charge = ended := by
      have hfind := find_charge hledger.keys hcharge
      rw [hsame, find_charge hledger.keys hended] at hfind
      exact (Option.some.inj hfind).symm
    subst heq
    have hleft : Backed rest since (charge.unhold thread.wrote (seqAfter quota thread.wrote)) ∧
        (charge.unhold thread.wrote (seqAfter quota thread.wrote)).idle = false := by
      cases hwrote : thread.wrote with
      | true =>
        -- the row is written: the charge is stored, and written last of all
        refine ⟨.inl ?_, by simp [Charge.unhold, Charge.idle]⟩
        cases since with
        | none => rfl
        | some seq =>
          have hle := hsince seq rfl
          simp only [Charge.fresh, Charge.wroteSince, Charge.unhold, seqAfter, if_true,
            Bool.true_and, decide_eq_true_eq]
          exact Nat.lt_succ_of_le hle
      | false =>
        rcases hback with hfresh | ⟨other, hother, hlimited', hkey', hwrote'⟩
        · have hstored : charge.stored = true := by
            cases since with
            | none => exact hfresh
            | some seq =>
              simp only [Charge.fresh, Charge.wroteSince, Bool.and_eq_true] at hfresh
              exact hfresh.1
          refine ⟨.inl ?_, by simp [Charge.unhold, Charge.idle, hstored]⟩
          cases since <;> exact hfresh
        have hrest : other ∈ rest := by
          rcases mem_cons.1 hother with rfl | hrest
          · rw [hwrote] at hwrote'
            cases hwrote'
          · exact hrest
        have hpos : 0 < holders rest charge.key := by
          rw [holders, countP_pos_iff]
          exact ⟨other, hrest, by simp [hlimited', hkey']⟩
        refine ⟨.inr ⟨other, hrest, hlimited', ?_, hwrote'⟩, ?_⟩
        · rw [unhold_key]
          exact hkey'
        · simp only [Charge.idle, unhold_holds, hholds, Nat.add_sub_cancel]
          simp [hpos.ne']
    exact ⟨_, (hmem _).2 (.inr ⟨rfl, hleft.2⟩), unhold_key _ _ _, hleft.1⟩
  · refine ⟨charge, (hmem _).2 (.inl ⟨hcharge, hsame⟩), rfl, ?_⟩
    rcases hback with hfresh | ⟨other, hother, hlimited', hkey', hwrote⟩
    · exact .inl hfresh
    rcases mem_cons.1 hother with rfl | hrest
    · exact absurd (hkey'.symm.trans hkey.symm) hsame
    · exact .inr ⟨other, hrest, hlimited', hkey', hwrote⟩

theorem unhold_frame (quota : Quota) (key : Key) (wrote : Bool) :
    (quota.unhold key wrote).building = quota.building ∧
      (quota.unhold key wrote).built = quota.built ∧ (quota.unhold key wrote).gen = quota.gen := by
  unfold Quota.unhold
  split
  · exact ⟨rfl, rfl, rfl⟩
  · dsimp only
    split <;> split <;> exact ⟨rfl, rfl, rfl⟩

theorem CoverInv.finish (hinv : CoverInv world) (hthread : world.puts[index]? = some thread) :
    CoverInv { world with
      quota := if thread.put.limited then world.quota.unhold thread.put.key thread.wrote
        else world.quota
      puts := world.puts.eraseIdx index } := by
  have hperm := RowRecord.perm_cons_eraseIdx hthread
  have hledger : LedgerInv world.quota (thread :: world.puts.eraseIdx index) := by
    apply hinv.ledger.congr
    · exact fun key => (holders_perm hperm key).symm
    · exact fun other hother hlimited => ⟨other, hperm.mem_iff.2 hother, hlimited, rfl⟩
  have hbacks : ∀ {since : Option ℕ} {charge : Charge}, Backed world.puts since charge →
      Backed (thread :: world.puts.eraseIdx index) since charge :=
    fun hback => hback.mono fun other hother hlimited hwrote =>
      ⟨other, hperm.mem_iff.1 hother, hlimited, rfl, hwrote⟩
  cases hlimited : thread.put.limited with
  | true =>
    simp only [if_true]
    obtain ⟨hbuilding, hbuilt, -⟩ := unhold_frame world.quota thread.put.key thread.wrote
    refine hinv.transfer (hledger.unhold hlimited thread.wrote) hbuilding
      (fun hafter => hbuilt ▸ hafter) ?_ (fun _ hcounted => .inl hcounted) ?_
    · rw [seq_unhold hledger hlimited]
      exact seq_le_seqAfter world.quota thread.wrote
    · exact fun since hsince charge hcharge hback =>
        backed_unhold hledger hlimited hsince hcharge (hbacks hback)
  | false =>
    simp only [Bool.false_eq_true, if_false]
    have hrest : LedgerInv world.quota (world.puts.eraseIdx index) := by
      apply hledger.congr
      · intro key
        simp [holders_cons, hlimited]
      · exact fun other hother hother' => ⟨other, mem_cons_of_mem _ hother, hother', rfl⟩
    refine hinv.transfer hrest rfl (fun hbuilt => hbuilt) le_rfl
      (fun _ hcounted => .inl hcounted) ?_
    intro since _ charge hcharge hback
    refine ⟨charge, hcharge, rfl, (hbacks hback).mono ?_⟩
    intro other hother hother' hwrote
    rcases mem_cons.1 hother with rfl | hother
    · rw [hlimited] at hother'
      cases hother'
    · exact ⟨other, hother, hother', rfl, hwrote⟩

theorem CoverInv.delete {repo : String} {removal : Removal} {stop deletes : ℕ}
    (hinv : CoverInv world) :
    CoverInv { world with
      store := world.store.set repo
        (writeRows (env.records repo) (world.store.files repo) removal.write stop)
      deletes := deletes } :=
  hinv.transfer hinv.ledger rfl (fun hbuilt => hbuilt) le_rfl
    (fun _ hcounted => .inl (counted_of_removal hcounted))
    fun _ _ charge hcharge hback => ⟨charge, hcharge, rfl, hback⟩

theorem CoverInv.invalidate {deletes : ℕ} (hinv : CoverInv world) :
    CoverInv { world with quota := world.quota.invalidate, deletes := deletes } where
  ledger := hinv.ledger.reframe rfl rfl rfl
  built := fun hbuilt => by cases hbuilt
  reading := hinv.reading
  rebuild := hinv.rebuild

theorem CoverInv.beginRebuild (hinv : CoverInv world) :
    CoverInv { world with
      quota := { world.quota with
        building := some ⟨world.quota.gen, world.quota.seq, none, []⟩ } } where
  ledger := hinv.ledger.reframe rfl rfl rfl
  built := hinv.built
  reading := by
    rintro rebuild ⟨rfl⟩ key _
    left
    intro todo htodo
    cases htodo
  rebuild := by
    rintro rebuild ⟨rfl⟩
    exact ⟨nodup_nil, le_rfl⟩

theorem mem_repositories {store : Store} (hcounted : Counted env store key) :
    key.repo ∈ store.repositories := by
  obtain ⟨⟨row, hrow, -, -⟩, -⟩ := hcounted
  have hindex : (store.files key.repo).index.isSome := by
    cases hnone : (store.files key.repo).index with
    | none => simp [Store.rows, hnone] at hrow
    | some rows => rfl
  exact mem_filter.2 ⟨store.listed key.repo hindex, hindex⟩

theorem CoverInv.listRepositories (hinv : CoverInv world)
    (hrebuild : world.quota.building = some rebuild) :
    CoverInv { world with
      quota := { world.quota with
        building := some { rebuild with todo := some world.store.repositories } } } where
  ledger := hinv.ledger.reframe rfl rfl rfl
  built := hinv.built
  reading := by
    rintro listed ⟨rfl⟩ key hcounted
    left
    rintro todo ⟨rfl⟩
    exact mem_repositories hcounted
  rebuild := by
    rintro listed ⟨rfl⟩
    exact hinv.rebuild rebuild hrebuild

theorem CoverInv.readRepository {repo : String} {todo : List String} (hinv : CoverInv world)
    (hrebuild : world.quota.building = some rebuild) (htodo : rebuild.todo = some (repo :: todo)) :
    CoverInv { world with
      quota := { world.quota with
        building := some { rebuild with
          todo := some todo
          read := readRows env repo (world.store.rows repo) ++
            rebuild.read.filter (· ∉ readRows env repo (world.store.rows repo)) } } } where
  ledger := hinv.ledger.reframe rfl rfl rfl
  built := hinv.built
  reading := by
    rintro next ⟨rfl⟩ key hcounted
    by_cases hrepo : key.repo = repo
    · exact .inr (.inl (mem_append_left _ (mem_readRows.2 ⟨hrepo, hcounted⟩)))
    rcases hinv.reading rebuild hrebuild key hcounted with hunread | hread | hvouched
    · left
      rintro left ⟨rfl⟩
      exact (mem_cons.1 (hunread _ htodo)).resolve_left hrepo
    · right
      left
      by_cases hnow : key ∈ readRows env repo (world.store.rows repo)
      · exact mem_append_left _ hnow
      · exact mem_append_right _ (mem_filter.2 ⟨hread, by simpa using hnow⟩)
    · exact .inr (.inr hvouched)
  rebuild := by
    rintro next ⟨rfl⟩
    obtain ⟨hnodup, hseq⟩ := hinv.rebuild rebuild hrebuild
    refine ⟨nodup_append.2 ⟨nodup_readRows _ _ _, hnodup.filter _, ?_⟩, hseq⟩
    rintro key hkey other hother rfl
    have hnot := (mem_filter.1 hother).2
    simp [hkey] at hnot

theorem CoverInv.install (hinv : CoverInv world) (hrebuild : world.quota.building = some rebuild)
    (htodo : rebuild.todo = some []) :
    CoverInv { world with
      quota := { world.quota with building := none }.install env rebuild.read rebuild.seq } where
  ledger := by
    have hledger : LedgerInv { world.quota with building := none } world.puts :=
      hinv.ledger.reframe rfl rfl rfl
    exact hledger.install (hinv.rebuild rebuild hrebuild).1
  built := by
    intro _ key hcounted
    rw [install_eq]
    dsimp only
    rcases hinv.reading rebuild hrebuild key hcounted with hunread | hread | hvouched
    · cases hunread [] htodo
    · refine ⟨_, installed_of_read hread, ?_, ?_, .inl (readCharge_stored _ _ _)⟩
      · rw [readCharge_key]
      · rw [readCharge_key]
    obtain ⟨was, hwas, hrepo, hblob, hback⟩ := hvouched
    have hkept : was.kept rebuild.seq = true := by
      rcases hback with hfresh | ⟨thread, hthread, hlimited, hkey, -⟩
      · have hwrote : was.wroteSince rebuild.seq = true := hfresh
        simp [Charge.kept, hwrote]
      · have hpos : 0 < holders world.puts was.key := by
          rw [holders, countP_pos_iff]
          exact ⟨thread, hthread, by simp [hlimited, hkey]⟩
        simp [Charge.kept, hinv.ledger.holds was hwas, hpos.ne']
    obtain ⟨charge, hcharge, hsame, hstored⟩ := installed_of_kept hwas hkept
    refine ⟨charge, hcharge, hsame ▸ hrepo, hsame ▸ hblob, ?_⟩
    rcases hback with hfresh | hthread
    · exact .inl (hstored hfresh)
    · exact .inr (hsame ▸ hthread)
  reading := by
    intro next hnext
    rw [install_eq] at hnext
    cases hnext
  rebuild := by
    intro next hnext
    rw [install_eq] at hnext
    cases hnext

theorem CoverInv.endRebuild (hinv : CoverInv world) :
    CoverInv { world with quota := { world.quota with building := none } } where
  ledger := hinv.ledger.reframe rfl rfl rfl
  built := hinv.built
  reading := fun _ hnone => by cases hnone
  rebuild := fun _ hnone => by cases hnone

theorem Put.write_puts {desc : Descriptor} (hputs : put.write.Puts desc) :
    desc = put.descriptor put.digest := by
  unfold Put.write at hputs
  split at hputs
  · rcases hputs with ⟨tag, hwrite⟩ | hwrite
    · cases hwrite
      rfl
    · cases hwrite
  · rcases hputs with ⟨tag, hwrite⟩ | hwrite
    · cases hwrite
    · cases hwrite
      rfl

theorem CoverInv.step {op : Op env} (hinv : CoverInv world) (hkeeps : errorsKeepIndex world op)
    (hstep : step world op = some after) : CoverInv after := by
  cases op with
  | admitQuota put => exact hinv.admitQuota hstep
  | write index stop ok =>
    obtain ⟨thread, hthread, hwrite⟩ := Option.bind_eq_some_iff.1 hstep
    split_ifs at hwrite
    refine hinv.writeRow hthread ?_ ?_ hwrite
    · intro desc hputs
      rw [Put.write_puts hputs]
      exact ⟨rfl, rfl⟩
    cases ok with
    | true => exact .inl (Bool.or_true _)
    | false => exact .inr (hkeeps thread hthread rfl)
  | writeTag index tag stop ok =>
    obtain ⟨thread, hthread, hwrite⟩ := Option.bind_eq_some_iff.1 hstep
    split_ifs at hwrite with hactive
    refine hinv.writeRow hthread ?_ (.inl (by simp [hactive.2.1])) hwrite
    rintro desc (⟨other, hsame⟩ | hsame)
    · cases hsame
      exact ⟨rfl, thread.put.blob_canonicalDigest⟩
    · cases hsame
  | finish index =>
    obtain ⟨thread, hthread, rfl⟩ := Option.map_eq_some_iff.1 hstep
    exact hinv.finish hthread
  | delete repo removal stop ok =>
    simp only [QuotaCount.step] at hstep
    split at hstep
    case isFalse => cases hstep
    cases hstep
    exact hinv.delete
  | invalidate =>
    simp only [QuotaCount.step] at hstep
    split at hstep
    case isFalse => cases hstep
    cases hstep
    exact hinv.invalidate
  | beginRebuild =>
    simp only [QuotaCount.step] at hstep
    split at hstep
    case isTrue => cases hstep
    cases hstep
    exact hinv.beginRebuild
  | listRepositories =>
    obtain ⟨rebuild, hrebuild, hnext⟩ := Option.bind_eq_some_iff.1 hstep
    split at hnext <;> cases hnext
    exact hinv.listRepositories hrebuild
  | readRepository =>
    obtain ⟨rebuild, hrebuild, hnext⟩ := Option.bind_eq_some_iff.1 hstep
    split at hnext <;> cases hnext
    exact hinv.readRepository hrebuild ‹_›
  | endRebuild =>
    obtain ⟨rebuild, hrebuild, hnext⟩ := Option.bind_eq_some_iff.1 hstep
    split at hnext
    case h_2 => cases hnext
    rename_i htodo
    split at hnext
    case isTrue =>
      cases hnext
      exact hinv.endRebuild
    case isFalse =>
      cases hnext
      exact hinv.install hrebuild htodo
  | failRebuild =>
    obtain ⟨rebuild, -, rfl⟩ := Option.map_eq_some_iff.1 hstep
    exact hinv.endRebuild

theorem startWorld_cover (store : Store) : CoverInv (startWorld env store) where
  ledger := by
    refine ⟨nodup_nil, ?_, ?_, ?_, ?_, ?_, fun _ => Tally.counts_empty env.size⟩
    all_goals
      intro _ hmem
      cases hmem
  built := fun hbuilt => by cases hbuilt
  reading := fun _ hnone => by cases hnone
  rebuild := fun _ hnone => by cases hnone

theorem layers_counted (hledger : LedgerInv quota puts) (hcharged : Charged env quota key)
    {layer : Digest} (hlayer : layer ∈ (env.keyEntry key).layers) :
    layer ∈ chargedLayers quota.charges (env.keyEntry key).artifactType := by
  obtain ⟨charge, hcharge, hrepo, hblob⟩ := hcharged
  have hentry : charge.entry = env.keyEntry key := by
    rw [hledger.entries charge hcharge, Env.keyEntry, Env.keyEntry, hrepo, quotaShapeOf_congr hblob]
  rw [chargedLayers, mem_flatMap]
  exact ⟨charge, mem_filter.2 ⟨hcharge, by simp [hentry]⟩, hentry ▸ hlayer⟩

theorem size_nonneg (env : Env Bytes) (digest : Digest) : 0 ≤ env.size digest :=
  Int.natCast_nonneg _

theorem CoverInv.charged_stored (hinv : CoverInv world) (hbuilt : world.quota.built)
    (hcounted : Counted env world.store key) : Charged env world.quota key := by
  obtain ⟨charge, hcharge, hrepo, hblob, -⟩ := hinv.built hbuilt key hcounted
  exact ⟨charge, hcharge, hrepo, hblob⟩

theorem CoverInv.charged_admitted (hinv : CoverInv world) (hthread : thread ∈ world.puts)
    (hlimited : thread.put.limited) : Charged env world.quota thread.put.key := by
  obtain ⟨charge, hcharge, hkey⟩ := mem_map.1 (hinv.ledger.held thread hthread hlimited)
  exact ⟨charge, hcharge, by rw [hkey], by rw [hkey]⟩

theorem CoverInv.room_le_usage (hinv : CoverInv world) (hbuilt : world.quota.built)
    {artifactType : Text} {layers : Finset Digest}
    (hlayers : ∀ layer ∈ layers, TakesRoom world artifactType layer) :
    ∑ layer ∈ layers, env.size layer ≤ world.quota.usage artifactType := by
  rw [Quota.usage, (hinv.ledger.counts artifactType).total]
  apply Finset.sum_le_sum_of_subset_of_nonneg
  · intro layer hlayer
    obtain ⟨key, rfl, hnamed, htaken⟩ := hlayers layer hlayer
    rw [mem_toFinset]
    apply layers_counted hinv.ledger _ hnamed
    rcases htaken with hcounted | ⟨thread, hthread, hlimited, rfl⟩
    · exact hinv.charged_stored hbuilt hcounted
    · exact hinv.charged_admitted hthread hlimited
  · exact fun layer _ _ => size_nonneg env layer

theorem usage_hold {entry : Entry} {next : Quota} (hnodup : entry.layers.Nodup)
    (hnew : quota.counts key = false) (hhold : quota.hold env key entry limit = some next) :
    next.usage entry.artifactType ≤ limit := by
  rcases hold_cases hhold with ⟨hcounted, -⟩ | ⟨-, hroom, rfl⟩
  · rw [counts_iff.2 hcounted] at hnew
    cases hnew
  calc
    (Quota.charge env { quota with
        charges := ⟨key, entry, false, 1, 0⟩ :: quota.charges } entry).usage
        entry.artifactType =
        ((quota.count entry.artifactType).addAll env.size entry.layers).total := by
      simp [Quota.usage, Quota.charge]
    _ = quota.usage entry.artifactType +
        (quota.count entry.artifactType).grows env.size entry.layers :=
      Tally.total_addAll hnodup
    _ ≤ limit := hroom

theorem CoverInv.nothingLost (hinv : CoverInv world) : NothingLost world where
  stored := fun hbuilt key hcounted => hinv.charged_stored hbuilt hcounted
  admitted := fun thread hthread hlimited => hinv.charged_admitted hthread hlimited
  room := by
    intro put next limit hadmitted hlimit hnew layers hlayers
    have hnext := hinv.admitQuota hadmitted
    rcases admitQuota_cases hadmitted with ⟨hunlimited, -⟩ |
      ⟨limit', quota, hlimited, hlimit', hbuilt, hhold, rfl⟩
    · simp [Put.limited, Env.limited, hlimit] at hunlimited
    rw [hlimit] at hlimit'
    cases hlimit'
    have htype : (env.keyEntry put.key).artifactType = put.checked.artifactType := by
      rw [← put.entry_eq hlimited, Env.entry]
    have hbuilt' : quota.built = true := by
      rcases hold_cases hhold with ⟨-, rfl⟩ | ⟨-, -, rfl⟩ <;> exact hbuilt
    calc
      ∑ layer ∈ layers, env.size layer ≤ quota.usage put.checked.artifactType :=
        hnext.room_le_usage hbuilt' hlayers
      _ ≤ limit := htype ▸ usage_hold (nodup_dedup _) hnew hhold

end Cover

/-- Where a PUT's first row write that returns an error has left index.json as it was,
nothing stored or admitted is lost from the count, and nothing that does not fit admitted. -/
theorem nothing_lost_of_run (store : Store) {ops : List (Op env)} {world : World env}
    (hrun : Run (guardedStep errorsKeepIndex fun before op after => step before op = some after)
      (startWorld env store) ops world) : NothingLost world := by
  have hinv : CoverInv world :=
    hrun.invariant (startWorld_cover store)
      fun before op after hbefore hstep => hbefore.step hstep.1 hstep.2
  exact hinv.nothingLost

/-- Body 0 is an artifact of a limited type with layer 2, body 1 its config. -/
def demoCodec : Codec ℕ where
  len := fun _ => 1
  json := fun
    | 0 => some (.obj [(.schemaVersion, .int 2), (.mediaType, .str mediaTypeImageManifest),
        (.artifactType, .str (.plain "model")),
        (.config, .obj [(.digest, .str (.sha256 1)), (.size, .int 1)]),
        (.layers, .arr [.obj [(.digest, .str (.sha256 2)), (.size, .int 1)]])])
    | _ => none
  tokens := fun _ => []
  sha256 := id
  sha512 := id
  sha256_injective := Function.injective_id
  sha512_injective := Function.injective_id
  artifactType := fun artifact config => if artifact = .plain "" then config else artifact

def demoEnv : Env ℕ where
  codec := demoCodec
  indexLen := List.length
  limits := fun artifactType => if artifactType = .plain "model" then some 1 else none
  limits_named := rfl
  blob := fun
    | .sha256 encoded | .sha512 encoded => encoded
    | .plain _ => 0
  blob_eq := by
    rintro body (encoded | encoded | text) hhash
    · exact (beq_iff_eq.1 hhash).symm
    · exact (beq_iff_eq.1 hhash).symm
    · cases hhash
  held := fun _ _ => true

def demoPut : Put demoEnv where
  repo := "app"
  tag := some "v1"
  digest := .sha256 0
  mediaType := mediaTypeImageManifest
  checked := ⟨[.sha256 1, .sha256 2], [], none, .plain "model", [.sha256 2]⟩
  hashes := rfl
  accepted := rfl
  canonical := fun _ => rfl

def demoStore : Store where
  files := fun _ => { id := "id", index := none, record := none }
  dirs := []
  listed := by simp

def buildOps : List (Op demoEnv) := [.beginRebuild, .listRepositories, .endRebuild]

def storedOps : List (Op demoEnv) :=
  buildOps ++ [.admitQuota demoPut, .write 0 9 true, .finish 0]

def failedOps : List (Op demoEnv) :=
  buildOps ++ [.admitQuota demoPut, .write 0 2 false, .finish 0]

theorem demo_nothing_lost : ∃ world : World demoEnv, world.quota.built = true ∧
    (world.store.rows "app").length = 1 ∧ world.quota.usage (.plain "model") = 1 ∧
      NothingLost world := by
  have hends : (storedOps.foldlM step (startWorld demoEnv demoStore)).map (fun world =>
      (world.quota.built, (world.store.rows "app").length,
        world.quota.usage (.plain "model"))) = some (true, 1, 1) := by
    rfl
  obtain ⟨world, hfold, hcounts⟩ := Option.map_eq_some_iff.1 hends
  have hguard : ∀ op ∈ storedOps, ∀ world : World demoEnv, errorsKeepIndex world op := by
    intro op hop world
    simp only [storedOps, buildOps, cons_append, nil_append, mem_cons, not_mem_nil, or_false] at hop
    rcases hop with rfl | rfl | rfl | rfl | rfl | rfl
    case inr.inr.inr.inr.inl =>
      intro thread _ hfailed
      cases hfailed
    all_goals trivial
  simp only [Prod.mk.injEq] at hcounts
  exact ⟨world, hcounts.1, hcounts.2.1, hcounts.2.2,
    nothing_lost_of_run demoStore ((run_of_foldlM hfold).guarded hguard)⟩

/-- The PUT answers with an error and gives its hold back, and its row is stored. -/
theorem failed_write_uncounted : ∃ world : World demoEnv,
    Run (fun before op after => step before op = some after) (startWorld demoEnv demoStore)
      failedOps world ∧ ¬ NothingLost world := by
  have hends : (failedOps.foldlM step (startWorld demoEnv demoStore)).map (fun world =>
      (world.quota.built, world.quota.charges, readRows demoEnv "app" (world.store.rows "app"))) =
        some (true, [], [⟨"app", .sha256 0⟩]) := by
    rfl
  obtain ⟨world, hfold, hstate⟩ := Option.map_eq_some_iff.1 hends
  simp only [Prod.mk.injEq] at hstate
  refine ⟨world, run_of_foldlM hfold, ?_⟩
  intro hlost
  have hread : (⟨"app", .sha256 0⟩ : Key) ∈ readRows demoEnv "app" (world.store.rows "app") := by
    simp [hstate.2.2]
  obtain ⟨charge, hcharge, -⟩ := hlost.stored hstate.1 _ (mem_readRows.1 hread).2
  rw [hstate.2.1] at hcharge
  cases hcharge

end K3sm.Registry.QuotaCount

import K3sm.Registry.Quota

/-!
# The quota's ledger

The charges are a ledger of who is counted and why.  `LedgerInv` says that it is in order: one
charge for each key, a hold for each admitted PUT, and a tally that counts exactly the layers the
charges name.  Every operation on the quota keeps it.
-/

namespace K3sm.Registry.QuotaCount

open K3sm.Core List

variable {Bytes : Type} {env : Env Bytes}

/-- What the server read from an accepted manifest of a limited type is what a rebuild
reads from its body. -/
theorem Put.shape (put : Put env) (hlimited : put.limited) :
    isIndexType put.mediaType = false ∧
      quotaShapeOf env put.digest = ⟨put.checked.artifactType, put.checked.layers⟩ := by
  have hlimited' : env.limited put.checked.artifactType = true := hlimited
  cases hindex : isIndexType put.mediaType with
  | true =>
    have htype := (checkManifest_index hindex put.accepted).2
    simp [Env.limited, htype, env.limits_named] at hlimited'
  | false =>
    obtain ⟨manifest, hmanifest, htype, hlayers⟩ := checkManifest_image hindex put.accepted
    refine ⟨rfl, ?_⟩
    rw [htype] at hlimited'
    simp [quotaShapeOf, hmanifest, htype, hlayers, hlimited']

theorem Put.entry_eq (put : Put env) (hlimited : put.limited) :
    env.entry put.repo put.checked.artifactType put.checked.layers = env.keyEntry put.key := by
  rw [Env.keyEntry, Put.key, (put.shape hlimited).2]

def Counted (env : Env Bytes) (store : Store) (key : Key) : Prop :=
  (∃ row ∈ store.rows key.repo, row.digest = key.digest ∧ isIndexType row.mediaType = false) ∧
    env.limited (quotaShapeOf env key.digest).artifactType = true

theorem mem_readRows {store : Store} {repo : String} {key : Key} :
    key ∈ readRows env repo (store.rows repo) ↔ key.repo = repo ∧ Counted env store key := by
  obtain ⟨name, digest⟩ := key
  simp only [readRows, mem_map, mem_filter, mem_dedup, Key.mk.injEq, Counted]
  constructor
  · rintro ⟨found, ⟨⟨row, ⟨hrow, hkind⟩, rfl⟩, hlimited⟩, rfl, rfl⟩
    exact ⟨rfl, ⟨row, hrow, rfl, by simpa using hkind⟩, hlimited⟩
  · rintro ⟨rfl, ⟨row, hrow, rfl, hkind⟩, hlimited⟩
    exact ⟨row.digest, ⟨⟨row, ⟨hrow, by simp [hkind]⟩, rfl⟩, hlimited⟩, rfl, rfl⟩

theorem nodup_readRows (env : Env Bytes) (repo : String) (rows : List Row) :
    (readRows env repo rows).Nodup := by
  refine List.Nodup.map ?_ ((nodup_dedup _).filter _)
  intro left right hsame
  exact (Key.mk.injEq _ _ _ _ ▸ hsame).2

def chargedLayers (charges : List Charge) (artifactType : Text) : List Digest :=
  (charges.filter (·.entry.artifactType = artifactType)).flatMap (·.entry.layers)

def holders (puts : List (Thread env)) (key : Key) : ℕ :=
  puts.countP fun thread => thread.put.limited && thread.put.key = key

structure LedgerInv (quota : Quota) (puts : List (Thread env)) : Prop where
  keys : (quota.charges.map Charge.key).Nodup
  entries : ∀ charge ∈ quota.charges, charge.entry = env.keyEntry charge.key
  holds : ∀ charge ∈ quota.charges, charge.holds = holders puts charge.key
  held : ∀ thread ∈ puts, thread.put.limited → thread.put.key ∈ quota.charges.map Charge.key
  busy : ∀ charge ∈ quota.charges, charge.idle = false
  done : ∀ charge ∈ quota.charges, charge.doneSeq ≤ quota.seq
  counts : ∀ artifactType, (quota.count artifactType).Counts env.size
    (chargedLayers quota.charges artifactType)

theorem chargedLayers_cons (charge : Charge) (charges : List Charge) (artifactType : Text) :
    chargedLayers (charge :: charges) artifactType =
      (if charge.entry.artifactType = artifactType then charge.entry.layers else []) ++
        chargedLayers charges artifactType := by
  by_cases hsame : charge.entry.artifactType = artifactType <;> simp [chargedLayers, hsame]

theorem chargedLayers_map {charges : List Charge} {change : Charge → Charge}
    (hentry : ∀ charge ∈ charges, (change charge).entry = charge.entry) (artifactType : Text) :
    chargedLayers (charges.map change) artifactType = chargedLayers charges artifactType := by
  induction charges with
  | nil => rfl
  | cons charge charges ih =>
    rw [map_cons, chargedLayers_cons, chargedLayers_cons,
      hentry charge mem_cons_self,
      ih fun other hother => hentry other (mem_cons_of_mem _ hother)]

theorem chargedLayers_perm {charges others : List Charge} (hperm : charges.Perm others)
    (artifactType : Text) :
    (chargedLayers charges artifactType).Perm (chargedLayers others artifactType) :=
  (hperm.filter _).flatMap_right _

theorem perm_cons_filter {charges : List Charge} {charge : Charge}
    (hkeys : (charges.map Charge.key).Nodup) (hmem : charge ∈ charges) :
    charges.Perm (charge :: charges.filter (·.key ≠ charge.key)) := by
  induction charges with
  | nil => cases hmem
  | cons first charges ih =>
    rw [map_cons, nodup_cons] at hkeys
    rcases mem_cons.1 hmem with rfl | hmem
    · have hrest : charges.filter (·.key ≠ charge.key) = charges := by
        rw [filter_eq_self]
        intro other hother
        have hne : other.key ≠ charge.key :=
          fun hsame => hkeys.1 (hsame ▸ mem_map_of_mem hother)
        simpa using hne
      rw [filter_cons_of_neg (by simp), hrest]
    · have hne : first.key ≠ charge.key :=
        fun hsame => hkeys.1 (hsame ▸ mem_map_of_mem hmem)
      rw [filter_cons_of_pos (by simpa using hne)]
      exact ((ih hkeys.2 hmem).cons first).trans (List.Perm.swap _ _ _)

theorem find_charge {charges : List Charge} {charge : Charge}
    (hkeys : (charges.map Charge.key).Nodup) (hmem : charge ∈ charges) :
    charges.find? (·.key = charge.key) = some charge := by
  induction charges with
  | nil => cases hmem
  | cons first charges ih =>
    rw [map_cons, nodup_cons] at hkeys
    rcases mem_cons.1 hmem with rfl | hmem
    · simp
    have hne : first.key ≠ charge.key :=
      fun hsame => hkeys.1 (hsame ▸ mem_map_of_mem hmem)
    rw [List.find?_cons_of_neg (by simpa using hne)]
    exact ih hkeys.2 hmem

theorem counts_iff {quota : Quota} {key : Key} :
    quota.counts key = true ↔ key ∈ quota.charges.map Charge.key := by
  simp only [Quota.counts, any_eq_true, decide_eq_true_eq, mem_map]

section Ledger

variable {quota after : Quota} {puts rest : List (Thread env)} {thread : Thread env}

theorem holders_cons (thread : Thread env) (puts : List (Thread env)) (key : Key) :
    holders (thread :: puts) key =
      holders puts key + if thread.put.limited ∧ thread.put.key = key then 1 else 0 := by
  simp [holders, countP_cons]

theorem holders_perm (hperm : puts.Perm rest) (key : Key) : holders puts key = holders rest key :=
  hperm.countP_eq _

theorem LedgerInv.congr (hledger : LedgerInv quota puts)
    (hholders : ∀ key, holders rest key = holders puts key)
    (hkeys : ∀ thread ∈ rest, thread.put.limited →
      ∃ other ∈ puts, other.put.limited ∧ other.put.key = thread.put.key) :
    LedgerInv quota rest where
  keys := hledger.keys
  entries := hledger.entries
  holds := fun charge hcharge => (hledger.holds charge hcharge).trans (hholders charge.key).symm
  held := by
    intro thread hthread hlimited
    obtain ⟨other, hother, hlimited', hkey⟩ := hkeys thread hthread hlimited
    rw [← hkey]
    exact hledger.held other hother hlimited'
  busy := hledger.busy
  done := hledger.done
  counts := hledger.counts

theorem LedgerInv.reframe (hledger : LedgerInv quota puts)
    (hcharges : after.charges = quota.charges) (hcount : after.count = quota.count)
    (hseq : after.seq = quota.seq) : LedgerInv after puts where
  keys := hcharges ▸ hledger.keys
  entries := hcharges ▸ hledger.entries
  holds := hcharges ▸ hledger.holds
  held := hcharges ▸ hledger.held
  busy := hcharges ▸ hledger.busy
  done := by
    rw [hcharges, hseq]
    exact hledger.done
  counts := by
    rw [hcharges, hcount]
    exact hledger.counts

theorem LedgerInv.cons_unlimited (hledger : LedgerInv quota puts)
    (hunlimited : thread.put.limited = false) : LedgerInv quota (thread :: puts) := by
  apply hledger.congr
  · intro key
    simp [holders_cons, hunlimited]
  · intro other hother hlimited
    rcases mem_cons.1 hother with rfl | hother
    · rw [hunlimited] at hlimited
      cases hlimited
    · exact ⟨other, hother, hlimited, rfl⟩

theorem LedgerInv.holdAgain (hledger : LedgerInv quota puts) (hlimited : thread.put.limited)
    (hcounted : thread.put.key ∈ quota.charges.map Charge.key) :
    LedgerInv { quota with
      charges := quota.charges.map fun charge =>
        if charge.key = thread.put.key then { charge with holds := charge.holds + 1 }
        else charge } (thread :: puts) := by
  have hkey : ∀ charge : Charge, (if charge.key = thread.put.key then
      { charge with holds := charge.holds + 1 } else charge).key = charge.key := by
    intro charge
    split <;> rfl
  have hkeys : (quota.charges.map fun charge =>
      if charge.key = thread.put.key then { charge with holds := charge.holds + 1 }
      else charge).map Charge.key = quota.charges.map Charge.key := by
    rw [map_map]
    exact map_congr_left fun charge _ => hkey charge
  refine ⟨?_, ?_, ?_, ?_, ?_, ?_, ?_⟩
  · dsimp only
    rw [hkeys]
    exact hledger.keys
  · intro charge hcharge
    obtain ⟨old, hold, rfl⟩ := mem_map.1 hcharge
    rw [hkey, ← hledger.entries old hold]
    split <;> rfl
  · intro charge hcharge
    obtain ⟨old, hold, rfl⟩ := mem_map.1 hcharge
    rw [hkey, holders_cons, ← hledger.holds old hold]
    by_cases hsame : old.key = thread.put.key
    · simp [hsame, hlimited]
    · simp [hsame, Ne.symm hsame]
  · intro other hother hlimited'
    dsimp only
    rw [hkeys]
    rcases mem_cons.1 hother with rfl | hother
    · exact hcounted
    · exact hledger.held other hother hlimited'
  · intro charge hcharge
    obtain ⟨old, hold, rfl⟩ := mem_map.1 hcharge
    split
    · simp [Charge.idle]
    · exact hledger.busy old hold
  · intro charge hcharge
    obtain ⟨old, hold, rfl⟩ := mem_map.1 hcharge
    split
    · exact hledger.done old hold
    · exact hledger.done old hold
  · intro artifactType
    dsimp only
    rw [chargedLayers_map]
    · exact hledger.counts artifactType
    · intro charge _
      split <;> rfl

theorem counts_charge {charges : List Charge} (charge : Charge)
    (hcounts : ∀ artifactType, (quota.count artifactType).Counts env.size
      (chargedLayers charges artifactType)) (artifactType : Text) :
    ((quota.charge env charge.entry).count artifactType).Counts env.size
      (chargedLayers (charge :: charges) artifactType) := by
  rw [chargedLayers_cons, Quota.charge]
  by_cases hsame : artifactType = charge.entry.artifactType
  · subst hsame
    simp only [Function.update_self, if_true]
    exact (hcounts _).addAll _
  · simp only [Function.update_of_ne hsame, if_neg (Ne.symm hsame), nil_append]
    exact hcounts artifactType

theorem LedgerInv.holdNew (hledger : LedgerInv quota puts) (hlimited : thread.put.limited)
    (hcounted : thread.put.key ∉ quota.charges.map Charge.key) :
    LedgerInv (Quota.charge env { quota with
      charges := ⟨thread.put.key, env.keyEntry thread.put.key, false, 1, 0⟩ :: quota.charges }
      (env.keyEntry thread.put.key)) (thread :: puts) := by
  have hnone : holders puts thread.put.key = 0 := by
    rw [holders, countP_eq_zero]
    intro other hother hholds
    simp only [Bool.and_eq_true, decide_eq_true_eq] at hholds
    exact hcounted (hholds.2 ▸ hledger.held other hother hholds.1)
  refine ⟨nodup_cons.2 ⟨hcounted, hledger.keys⟩, ?_, ?_, ?_, ?_, ?_, ?_⟩
  · intro charge hcharge
    rcases mem_cons.1 hcharge with rfl | hcharge
    · rfl
    · exact hledger.entries charge hcharge
  · intro charge hcharge
    rcases mem_cons.1 hcharge with rfl | hcharge
    · simp [holders_cons, hlimited, hnone]
    have hne : charge.key ≠ thread.put.key :=
      fun hsame => hcounted (hsame ▸ mem_map_of_mem hcharge)
    rw [holders_cons, hledger.holds charge hcharge]
    simp [Ne.symm hne]
  · intro other hother hlimited'
    rcases mem_cons.1 hother with rfl | hother
    · exact mem_cons_self
    · exact mem_cons_of_mem _ (hledger.held other hother hlimited')
  · intro charge hcharge
    rcases mem_cons.1 hcharge with rfl | hcharge
    · rfl
    · exact hledger.busy charge hcharge
  · exact forall_mem_cons.2 ⟨Nat.zero_le _, hledger.done⟩
  · exact counts_charge ⟨thread.put.key, env.keyEntry thread.put.key, false, 1, 0⟩ hledger.counts

@[simp]
theorem unhold_key (charge : Charge) (wrote : Bool) (seq : ℕ) :
    (charge.unhold wrote seq).key = charge.key := by
  unfold Charge.unhold
  split <;> rfl

@[simp]
theorem unhold_entry (charge : Charge) (wrote : Bool) (seq : ℕ) :
    (charge.unhold wrote seq).entry = charge.entry := by
  unfold Charge.unhold
  split <;> rfl

@[simp]
theorem unhold_holds (charge : Charge) (wrote : Bool) (seq : ℕ) :
    (charge.unhold wrote seq).holds = charge.holds - 1 := by
  unfold Charge.unhold
  split <;> rfl

def seqAfter (quota : Quota) (wrote : Bool) : ℕ := if wrote then quota.seq + 1 else quota.seq

theorem seq_le_seqAfter (quota : Quota) (wrote : Bool) : quota.seq ≤ seqAfter quota wrote := by
  unfold seqAfter
  split
  · exact Nat.le_succ _
  · exact le_rfl

section

variable (hledger : LedgerInv quota (thread :: rest)) (hlimited : thread.put.limited)

include hledger hlimited

theorem unhold_eq (wrote : Bool) :
    ∃ charge ∈ quota.charges, charge.key = thread.put.key ∧
      charge.holds = holders rest charge.key + 1 ∧
      quota.unhold thread.put.key wrote =
        if (charge.unhold wrote (seqAfter quota wrote)).idle then
          Quota.uncharge { quota with
            seq := seqAfter quota wrote
            charges := quota.charges.filter (·.key ≠ charge.key) } charge.entry
        else
          { quota with
            seq := seqAfter quota wrote
            charges := quota.charges.map fun other =>
              if other.key = charge.key then charge.unhold wrote (seqAfter quota wrote)
              else other } := by
  obtain ⟨charge, hcharge, hkey⟩ :=
    mem_map.1 (hledger.held thread mem_cons_self hlimited)
  refine ⟨charge, hcharge, hkey, ?_, ?_⟩
  · rw [hledger.holds charge hcharge, holders_cons, if_pos ⟨hlimited, hkey.symm⟩]
  have hfind := find_charge hledger.keys hcharge
  rw [hkey] at hfind
  rw [Quota.unhold, hfind, hkey]
  rfl

theorem mem_unhold (wrote : Bool) :
    ∃ charge ∈ quota.charges, charge.key = thread.put.key ∧
      charge.holds = holders rest charge.key + 1 ∧
      ∀ other, other ∈ (quota.unhold thread.put.key wrote).charges ↔
        (other ∈ quota.charges ∧ other.key ≠ charge.key) ∨
          (other = charge.unhold wrote (seqAfter quota wrote) ∧ other.idle = false) := by
  obtain ⟨charge, hcharge, hkey, hholds, hquota⟩ := unhold_eq hledger hlimited wrote
  refine ⟨charge, hcharge, hkey, hholds, ?_⟩
  intro other
  rw [hquota]
  split
  case isTrue hidle =>
    simp only [Quota.uncharge, mem_filter, decide_eq_true_eq]
    constructor
    · exact .inl
    rintro (hother | ⟨rfl, hbusy⟩)
    · exact hother
    · rw [hidle] at hbusy
      cases hbusy
  rename_i hbusy
  simp only [mem_map]
  constructor
  · rintro ⟨old, hold, rfl⟩
    by_cases hsame : old.key = charge.key
    · rw [if_pos hsame]
      exact .inr ⟨rfl, by simpa using hbusy⟩
    · rw [if_neg hsame]
      exact .inl ⟨hold, hsame⟩
  · rintro (⟨hother, hne⟩ | ⟨rfl, -⟩)
    · exact ⟨other, hother, if_neg hne⟩
    · exact ⟨charge, hcharge, if_pos rfl⟩

theorem seq_unhold (wrote : Bool) :
    (quota.unhold thread.put.key wrote).seq = seqAfter quota wrote := by
  obtain ⟨charge, -, -, -, hquota⟩ := unhold_eq hledger hlimited wrote
  rw [hquota]
  split <;> rfl

theorem keys_unhold (wrote : Bool) :
    ((quota.unhold thread.put.key wrote).charges.map Charge.key).Nodup := by
  obtain ⟨charge, -, -, -, hquota⟩ := unhold_eq hledger hlimited wrote
  rw [hquota]
  split
  · exact hledger.keys.sublist (filter_sublist.map _)
  have hkeys : (quota.charges.map fun other =>
      if other.key = charge.key then charge.unhold wrote (seqAfter quota wrote)
      else other).map Charge.key = quota.charges.map Charge.key := by
    rw [map_map]
    apply map_congr_left
    intro other _
    by_cases hsame : other.key = charge.key <;> simp [hsame]
  dsimp only
  rw [hkeys]
  exact hledger.keys

theorem counts_unhold (wrote : Bool) (artifactType : Text) :
    ((quota.unhold thread.put.key wrote).count artifactType).Counts env.size
      (chargedLayers (quota.unhold thread.put.key wrote).charges artifactType) := by
  obtain ⟨charge, hcharge, -, -, hquota⟩ := unhold_eq hledger hlimited wrote
  rw [hquota]
  split
  case isFalse =>
    dsimp only
    rw [chargedLayers_map]
    · exact hledger.counts artifactType
    intro other hother
    by_cases hsame : other.key = charge.key
    · rw [if_pos hsame, unhold_entry, hledger.entries charge hcharge,
        hledger.entries other hother, hsame]
    · rw [if_neg hsame]
  have hperm := chargedLayers_perm (perm_cons_filter hledger.keys hcharge) artifactType
  have hcounts := (hledger.counts artifactType).perm hperm
  rw [chargedLayers_cons] at hcounts
  simp only [Quota.uncharge]
  by_cases hsame : artifactType = charge.entry.artifactType
  · subst hsame
    rw [if_pos rfl] at hcounts
    rw [Function.update_self]
    exact hcounts.removeAll
  · rw [if_neg (Ne.symm hsame), nil_append] at hcounts
    rw [Function.update_of_ne hsame]
    exact hcounts

end

theorem LedgerInv.unhold (hledger : LedgerInv quota (thread :: rest))
    (hlimited : thread.put.limited) (wrote : Bool) :
    LedgerInv (quota.unhold thread.put.key wrote) rest := by
  obtain ⟨charge, hcharge, hkey, hholds, hmem⟩ := mem_unhold hledger hlimited wrote
  refine ⟨keys_unhold hledger hlimited wrote, ?_, ?_, ?_, ?_, ?_,
    counts_unhold hledger hlimited wrote⟩
  · intro other hother
    rcases (hmem other).1 hother with ⟨hold, -⟩ | ⟨rfl, -⟩
    · exact hledger.entries other hold
    · rw [unhold_entry, unhold_key]
      exact hledger.entries charge hcharge
  · intro other hother
    rcases (hmem other).1 hother with ⟨hold, hne⟩ | ⟨rfl, -⟩
    · rw [hledger.holds other hold, holders_cons, ← hkey]
      simp [Ne.symm hne]
    · rw [unhold_holds, unhold_key, hholds, Nat.add_sub_cancel]
  · intro other hother hlimited'
    have hcharged := hledger.held other (mem_cons_of_mem _ hother) hlimited'
    obtain ⟨old, hold, hold'⟩ := mem_map.1 hcharged
    by_cases hsame : old.key = charge.key
    · -- the PUT that is left holds the key as well
      have hpos : 0 < holders rest charge.key := by
        rw [holders, countP_pos_iff]
        exact ⟨other, hother, by simp [hlimited', ← hold', hsame]⟩
      have hbusy : (charge.unhold wrote (seqAfter quota wrote)).idle = false := by
        simp only [Charge.idle, unhold_holds, hholds, Nat.add_sub_cancel]
        simp [hpos.ne']
      have hleft := (hmem _).2 (.inr ⟨rfl, hbusy⟩)
      rw [← hold', hsame, ← unhold_key charge wrote (seqAfter quota wrote)]
      exact mem_map_of_mem hleft
    · rw [← hold']
      exact mem_map_of_mem ((hmem old).2 (.inl ⟨hold, hsame⟩))
  · intro other hother
    rcases (hmem other).1 hother with ⟨hold, -⟩ | ⟨-, hbusy⟩
    · exact hledger.busy other hold
    · exact hbusy
  intro other hother
  rw [seq_unhold hledger hlimited]
  rcases (hmem other).1 hother with ⟨hold, -⟩ | ⟨rfl, -⟩
  · exact (hledger.done other hold).trans (seq_le_seqAfter quota wrote)
  unfold Charge.unhold
  split
  · exact le_rfl
  · exact (hledger.done charge hcharge).trans (seq_le_seqAfter quota wrote)

@[simp]
theorem readCharge_key (old : List Charge) (seq : ℕ) (key : Key) :
    (readCharge env old seq key).key = key := by
  unfold readCharge
  split
  · split <;> rfl
  · rfl

@[simp]
theorem readCharge_entry (old : List Charge) (seq : ℕ) (key : Key) :
    (readCharge env old seq key).entry = env.keyEntry key := by
  unfold readCharge
  split
  · split <;> rfl
  · rfl

@[simp]
theorem readCharge_stored (old : List Charge) (seq : ℕ) (key : Key) :
    (readCharge env old seq key).stored = true := by
  unfold readCharge
  split
  · split <;> rfl
  · rfl

variable {old : List Charge} {read : List Key} {seq : ℕ}

theorem mem_installed {charge : Charge} :
    charge ∈ installed env old read seq ↔
      (∃ key ∈ read, charge = readCharge env old seq key) ∨
        ∃ was ∈ old, was.kept seq = true ∧ was.key ∉ read ∧
          charge = { was with stored := was.wroteSince seq } := by
  simp only [installed, mem_append, mem_map, mem_filter, Bool.and_eq_true,
    decide_eq_true_eq]
  constructor
  · rintro (⟨key, hkey, rfl⟩ | ⟨was, ⟨hwas, hkept, hmissed⟩, rfl⟩)
    · exact .inl ⟨key, hkey, rfl⟩
    · exact .inr ⟨was, hwas, hkept, hmissed, rfl⟩
  · rintro (⟨key, hkey, rfl⟩ | ⟨was, hwas, hkept, hmissed, rfl⟩)
    · exact .inl ⟨key, hkey, rfl⟩
    · exact .inr ⟨was, ⟨hwas, hkept, hmissed⟩, rfl⟩

theorem installed_of_read {key : Key} (hkey : key ∈ read) :
    readCharge env old seq key ∈ installed env old read seq :=
  mem_installed.2 (.inl ⟨key, hkey, rfl⟩)

theorem installed_of_kept {was : Charge} (hwas : was ∈ old) (hkept : was.kept seq = true) :
    ∃ charge ∈ installed env old read seq, charge.key = was.key ∧
      (was.wroteSince seq = true → charge.stored = true) := by
  by_cases hmem : was.key ∈ read
  · exact ⟨_, installed_of_read hmem, readCharge_key _ _ _, fun _ => readCharge_stored _ _ _⟩
  · exact ⟨_, mem_installed.2 (.inr ⟨was, hwas, hkept, hmem, rfl⟩), rfl, fun hwrote => hwrote⟩

theorem keys_installed (hold : (old.map Charge.key).Nodup) (hread : read.Nodup) :
    ((installed env old read seq).map Charge.key).Nodup := by
  have hreadKeys : (read.map (readCharge env old seq)).map Charge.key = read := by
    rw [map_map]
    exact (map_congr_left fun key _ => readCharge_key old seq key).trans (map_id _)
  have holdKeys : ((old.filter fun charge => charge.kept seq && charge.key ∉ read).map
      fun charge => { charge with stored := charge.wroteSince seq }).map Charge.key =
        (old.filter fun charge => charge.kept seq && charge.key ∉ read).map Charge.key := by
    rw [map_map]
    rfl
  rw [installed, map_append, hreadKeys, holdKeys]
  refine nodup_append.2 ⟨hread, hold.sublist (filter_sublist.map _), ?_⟩
  rintro key hkey other hother rfl
  obtain ⟨charge, hcharge, rfl⟩ := mem_map.1 hother
  simp only [mem_filter, Bool.and_eq_true, decide_eq_true_eq] at hcharge
  exact hcharge.2.2 hkey

theorem foldl_charge (charges : List Charge) (quota : Quota) :
    charges.foldl (fun quota charge => quota.charge env charge.entry) quota =
      { quota with count :=
          (charges.foldl (fun quota charge => quota.charge env charge.entry) quota).count } := by
  induction charges generalizing quota with
  | nil => rfl
  | cons charge charges ih =>
    rw [foldl_cons, ih]
    rfl

theorem counts_foldl_charge {done : List Charge} (charges : List Charge)
    (hcounts : ∀ artifactType, (quota.count artifactType).Counts env.size
      (chargedLayers done artifactType)) (artifactType : Text) :
    ((charges.foldl (fun quota charge => quota.charge env charge.entry) quota).count
      artifactType).Counts env.size (chargedLayers (charges ++ done) artifactType) := by
  induction charges generalizing quota done with
  | nil => exact hcounts artifactType
  | cons charge charges ih =>
    have hrest := ih (counts_charge charge hcounts)
    apply hrest.perm
    exact chargedLayers_perm perm_middle artifactType

theorem install_eq (env : Env Bytes) (quota : Quota) (read : List Key) (seq : ℕ) :
    quota.install env read seq =
      { quota with
        built := true
        charges := installed env quota.charges read seq
        count := (quota.install env read seq).count } :=
  foldl_charge _ _

theorem readCharge_holds (hledger : LedgerInv quota puts) (seq : ℕ) (key : Key) :
    (readCharge env quota.charges seq key).holds = holders puts key := by
  unfold readCharge
  split
  case h_1 charge hfind =>
    have hcharge := mem_of_find?_eq_some hfind
    have hkey : charge.key = key := by simpa using List.find?_some hfind
    have hholds := hledger.holds charge hcharge
    rw [hkey] at hholds
    split
    case isTrue => exact hholds
    rename_i hdropped
    simp only [Charge.kept, Bool.or_eq_true, bne_iff_ne, ne_eq, not_or, not_not] at hdropped
    rw [← hholds, hdropped.1]
  rename_i hfind
  symm
  rw [holders, countP_eq_zero]
  intro thread hthread hholds
  simp only [Bool.and_eq_true, decide_eq_true_eq] at hholds
  obtain ⟨charge, hcharge, hkey⟩ := mem_map.1 (hledger.held thread hthread hholds.1)
  have hno := List.find?_eq_none.1 hfind charge hcharge
  simp [hkey, hholds.2] at hno

theorem readCharge_doneSeq (hledger : LedgerInv quota puts) (seq : ℕ) (key : Key) :
    (readCharge env quota.charges seq key).doneSeq ≤ quota.seq := by
  unfold readCharge
  split
  case h_2 => exact Nat.zero_le _
  rename_i charge hfind
  split
  · exact hledger.done charge (mem_of_find?_eq_some hfind)
  · exact Nat.zero_le _

theorem LedgerInv.install (hledger : LedgerInv quota puts) (hread : read.Nodup) :
    LedgerInv (quota.install env read seq) puts := by
  rw [install_eq]
  refine ⟨keys_installed hledger.keys hread, ?_, ?_, ?_, ?_, ?_, ?_⟩
  · intro charge hcharge
    rcases mem_installed.1 hcharge with ⟨key, -, rfl⟩ | ⟨was, hwas, -, -, rfl⟩
    · rw [readCharge_entry, readCharge_key]
    · exact hledger.entries was hwas
  · intro charge hcharge
    rcases mem_installed.1 hcharge with ⟨key, -, rfl⟩ | ⟨was, hwas, -, -, rfl⟩
    · rw [readCharge_key]
      exact readCharge_holds hledger seq key
    · exact hledger.holds was hwas
  · intro thread hthread hlimited
    obtain ⟨was, hwas, hkey⟩ := mem_map.1 (hledger.held thread hthread hlimited)
    have hpos : 0 < holders puts was.key := by
      rw [holders, countP_pos_iff]
      exact ⟨thread, hthread, by simp [hlimited, hkey]⟩
    have hkept : was.kept seq = true := by
      simp [Charge.kept, hledger.holds was hwas, hpos.ne']
    obtain ⟨charge, hcharge, hsame, -⟩ := installed_of_kept hwas hkept
    rw [← hkey, ← hsame]
    exact mem_map_of_mem hcharge
  · intro charge hcharge
    rcases mem_installed.1 hcharge with ⟨key, -, rfl⟩ | ⟨was, -, hkept, -, rfl⟩
    · simp [Charge.idle]
    simp only [Charge.kept, Bool.or_eq_true, bne_iff_ne] at hkept
    rcases hkept with hholds | hwrote
    · simp [Charge.idle, hholds]
    · simp [Charge.idle, hwrote]
  · intro charge hcharge
    rcases mem_installed.1 hcharge with ⟨key, -, rfl⟩ | ⟨was, hwas, -, -, rfl⟩
    · exact readCharge_doneSeq hledger seq key
    · exact hledger.done was hwas
  intro artifactType
  have hempty : ∀ artifactType, (({ quota with
      built := true
      charges := installed env quota.charges read seq
      count := fun _ => Tally.empty } : Quota).count artifactType).Counts env.size
        (chargedLayers [] artifactType) :=
    fun _ => Tally.counts_empty env.size
  have hcounts := counts_foldl_charge (installed env quota.charges read seq) hempty artifactType
  rwa [append_nil] at hcounts

end Ledger

end K3sm.Registry.QuotaCount

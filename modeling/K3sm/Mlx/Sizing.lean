import K3sm.Core.Int64

/-!
# The context that a model's memory funds

The pins of an engine are solved from `spec.memory` in 64-bit integers.  Up to
`sizedMemory` nothing comes round and each step is monotone; one byte above it the product
with the cache's share does.
-/

namespace K3sm.Mlx

open K3sm.Core

def quo (value divisor : ℤ) : ℤ := if 0 ≤ value then value / divisor else -(-value / divisor)

def rem (value divisor : ℤ) : ℤ := value - divisor * quo value divisor

/-- What the size of a token's keys and values depends on. -/
structure KVGeometry where
  layers : ℤ
  kvHeads : ℤ
  headDim : ℤ
  deriving DecidableEq

def KVGeometry.Known (geo : KVGeometry) : Prop := 0 < geo.layers ∧ 0 < geo.kvHeads ∧ 0 < geo.headDim

instance (geo : KVGeometry) : Decidable geo.Known := inferInstanceAs (Decidable (_ ∧ _))

def KVGeometry.bytesPerToken (geo : KVGeometry) : ℤ :=
  if geo.Known then int64 (int64 (int64 (4 * geo.layers) * geo.kvHeads) * geo.headDim) else 0

def kvBytesPerToken : ℤ := 157286

def compileScratchBytes : ℤ := 512 * 2 ^ 20

def headroomPercent : ℤ := 6

def kvSharePercent : ℤ := 25

def defaultMaxSequences : ℤ := 4

def minContextTokens : ℤ := 512

def maxContextTokens : ℤ := 32768

def contextGranularityTokens : ℤ := 256

def perRankRoundingBytes : ℤ := 2 ^ 20

structure Sizing where
  maxContextTokens : ℤ
  maxSequences : ℤ
  kvBytesPerToken : ℤ
  kvCacheBytes : ℤ

inductive SizingError
  | noMemory
  | memoryTooSmall (context : ℤ)
  | invalidRanks (ranks : ℤ)
  | perRankShare (ranks : ℤ) (error : SizingError)

section Derive

variable (total : ℤ) (geo : KVGeometry)

def usable : ℤ :=
  int64 (int64 (total - compileScratchBytes) - quo (int64 (total * headroomPercent)) 100)

def kvBudget : ℤ :=
  if 0 < usable total then quo (int64 (usable total * kvSharePercent)) 100 else 0

def sizedBytes : ℤ := if geo.Known then geo.bytesPerToken else kvBytesPerToken

def pinned (context : ℤ) : ℤ :=
  let context := if maxContextTokens < context then maxContextTokens else context
  int64 (context - rem context contextGranularityTokens)

def contextTokens : ℤ := pinned (quo (quo (kvBudget total) defaultMaxSequences) (sizedBytes geo))

def deriveSizing : Except SizingError Sizing :=
  if total ≤ 0 then .error .noMemory
  else if contextTokens total geo < minContextTokens then
    .error (.memoryTooSmall (contextTokens total geo))
  else
    .ok {
      maxContextTokens := contextTokens total geo
      maxSequences := defaultMaxSequences
      kvBytesPerToken := sizedBytes geo
      kvCacheBytes :=
        int64 (int64 (contextTokens total geo * defaultMaxSequences) * sizedBytes geo) }

/-- The products of `deriveSizing`, in the operands it takes them of. -/
structure NoProductWraps : Prop where
  headroom : FitsInt64 (total * headroomPercent)
  share : 0 < usable total → FitsInt64 (usable total * kvSharePercent)
  token : geo.Known → FitsInt64 (4 * geo.layers) ∧ FitsInt64 (4 * geo.layers * geo.kvHeads) ∧
    FitsInt64 (4 * geo.layers * geo.kvHeads * geo.headDim)
  cost : minContextTokens ≤ contextTokens total geo →
    FitsInt64 (contextTokens total geo * defaultMaxSequences) ∧
      FitsInt64 (contextTokens total geo * defaultMaxSequences * sizedBytes geo)

end Derive

section Share

variable (total ranks : ℤ)

def rankShare : ℤ := quo (int64 (int64 (total + ranks) - 1)) ranks

def perRank : ℤ :=
  let perRank := int64 (rankShare total ranks + compileScratchBytes)
  let odd := rem perRank perRankRoundingBytes
  if odd ≠ 0 then int64 (perRank + int64 (perRankRoundingBytes - odd)) else perRank

def perRankMemory : Except SizingError ℤ :=
  if total ≤ 0 then .error .noMemory
  else if ranks < 1 then .error (.invalidRanks ranks)
  else
    match deriveSizing (perRank total ranks) ⟨0, 0, 0⟩ with
    | .error error => .error (.perRankShare ranks error)
    | .ok _ => .ok (perRank total ranks)

end Share

/-- The cache stays in its share, and no smaller memory funds more. -/
structure SizesWell (total : ℤ) (geo : KVGeometry) : Prop where
  products : 0 < total → NoProductWraps total geo
  bounded : ∀ sizing, deriveSizing total geo = .ok sizing →
    sizing.maxContextTokens * sizing.maxSequences * sizing.kvBytesPerToken ≤
      (total - compileScratchBytes - total * headroomPercent / 100) * kvSharePercent / 100
  monotone : ∀ smaller ≤ total, ∀ sizing, deriveSizing smaller geo = .ok sizing →
    ∃ larger, deriveSizing total geo = .ok larger ∧
      sizing.maxContextTokens ≤ larger.maxContextTokens

/-- The shares hold the whole beside what each rank pays on its own. -/
structure SharesWell (total ranks : ℤ) : Prop where
  products : 0 < total → 1 ≤ ranks → 0 < perRank total ranks →
    NoProductWraps (perRank total ranks) ⟨0, 0, 0⟩
  covers : ∀ share, perRankMemory total ranks = .ok share →
    total ≤ ranks * (share - compileScratchBytes)

/-- The most memory whose usable part the share can be taken of. -/
def sizedMemory : ℤ := 392483917033044621

/-- The most of it for one rank, in whole MiB and without the floor. -/
def sizedShare : ℤ := 392483916495192064

/-- The shares are small enough, or so large that a sum comes round below zero and the share
is refused. -/
def ShareSized (total ranks : ℤ) : Prop :=
  total ≤ 0 ∨ ranks < 1 ∨ total ≤ ranks * sizedShare ∨ 2 ^ 63 < total + ranks ∨
    (ranks = 1 ∧ 2 ^ 63 < total + compileScratchBytes + perRankRoundingBytes)

section Exact

variable {total smaller ranks : ℤ} {geo : KVGeometry}

theorem quo_of_nonneg {value divisor : ℤ} (hvalue : 0 ≤ value) :
    quo value divisor = value / divisor := if_pos hvalue

theorem usable_eq (hlow : 0 < total) (hhigh : total * 6 < 2 ^ 63) :
    usable total = total - 2 ^ 29 - total * 6 / 100 := by
  have hproduct : int64 (total * 6) = total * 6 := int64_of_fits (by omega) hhigh
  rw [usable, headroomPercent, hproduct, quo_of_nonneg (by omega)]
  unfold int64 compileScratchBytes
  omega

/-- The share is of nothing where there is no room for the floor. -/
theorem kvBudget_eq (hlow : 0 < total) (hhigh : total ≤ sizedMemory) :
    kvBudget total = max 0 (total - 2 ^ 29 - total * 6 / 100) * 25 / 100 := by
  unfold sizedMemory at hhigh
  rw [kvBudget, usable_eq hlow (by omega)]
  unfold int64 quo kvSharePercent
  omega

theorem pinned_eq {context : ℤ} (hcontext : 0 ≤ context) :
    pinned context = min 32768 context / 256 * 256 := by
  unfold pinned int64 rem quo maxContextTokens contextGranularityTokens
  dsimp only
  omega

theorem contextTokens_eq (hbytes : 0 < sizedBytes geo) (hlow : 0 < total)
    (hhigh : total ≤ sizedMemory) :
    contextTokens total geo = min 32768 (kvBudget total / 4 / sizedBytes geo) / 256 * 256 := by
  have hbudget : 0 ≤ kvBudget total := by
    rw [kvBudget_eq hlow hhigh]
    omega
  have hquarter : 0 ≤ kvBudget total / 4 := by omega
  rw [contextTokens, defaultMaxSequences, quo_of_nonneg hbudget, quo_of_nonneg hquarter]
  exact pinned_eq (Int.ediv_nonneg hquarter hbytes.le)

theorem contextTokens_mono (hbytes : 0 < sizedBytes geo) (hlow : 0 < smaller)
    (hle : smaller ≤ total) (hhigh : total ≤ sizedMemory) :
    contextTokens smaller geo ≤ contextTokens total geo := by
  rw [contextTokens_eq hbytes hlow (hle.trans hhigh),
    contextTokens_eq hbytes (hlow.trans_le hle) hhigh]
  have hquarter : kvBudget smaller / 4 ≤ kvBudget total / 4 := by
    rw [kvBudget_eq hlow (hle.trans hhigh), kvBudget_eq (hlow.trans_le hle) hhigh]
    omega
  have hcontext := Int.ediv_le_ediv hbytes hquarter
  omega

/-- The cost of a context is within the budget it was divided from. -/
theorem contextTokens_cost (hbytes : 0 < sizedBytes geo) (hlow : 0 < total)
    (hhigh : total ≤ sizedMemory) :
    0 ≤ contextTokens total geo * 4 * sizedBytes geo ∧
      contextTokens total geo * 4 * sizedBytes geo ≤ kvBudget total ∧
      0 ≤ contextTokens total geo ∧ contextTokens total geo ≤ 32768 := by
  have hbudget := kvBudget_eq hlow hhigh
  have hcontext := contextTokens_eq hbytes hlow hhigh
  have hnonneg : 0 ≤ kvBudget total / 4 / sizedBytes geo :=
    Int.ediv_nonneg (by omega) hbytes.le
  have hcost : contextTokens total geo * sizedBytes geo ≤ kvBudget total / 4 :=
    (mul_le_mul_of_nonneg_right (by omega) hbytes.le).trans (Int.ediv_mul_le _ hbytes.ne')
  have hpos : 0 ≤ contextTokens total geo * sizedBytes geo := mul_nonneg (by omega) hbytes.le
  rw [mul_right_comm]
  omega

/-- The bytes of a token are a positive `int64`. -/
theorem bytes_of_small (hlayers : geo.layers ≤ 2 ^ 16) (hheads : geo.kvHeads ≤ 2 ^ 16)
    (hdim : geo.headDim ≤ 2 ^ 16) :
    (geo.Known → FitsInt64 (4 * geo.layers) ∧ FitsInt64 (4 * geo.layers * geo.kvHeads) ∧
      FitsInt64 (4 * geo.layers * geo.kvHeads * geo.headDim)) ∧ 0 < sizedBytes geo := by
  by_cases hknown : geo.Known
  · have ⟨hlayer, hhead, hwide⟩ := hknown
    have hrow : 0 < geo.layers * geo.kvHeads ∧ geo.layers * geo.kvHeads ≤ 2 ^ 16 * 2 ^ 16 :=
      ⟨by positivity, by gcongr⟩
    have hall : 0 < geo.layers * geo.kvHeads * geo.headDim ∧
        geo.layers * geo.kvHeads * geo.headDim ≤ 2 ^ 16 * 2 ^ 16 * 2 ^ 16 :=
      ⟨by positivity, by gcongr⟩
    have hfits : FitsInt64 (4 * geo.layers) ∧ FitsInt64 (4 * geo.layers * geo.kvHeads) ∧
        FitsInt64 (4 * geo.layers * geo.kvHeads * geo.headDim) := by
      simp only [FitsInt64, mul_assoc] at hrow hall ⊢
      omega
    refine ⟨fun _ => hfits, ?_⟩
    rw [sizedBytes, if_pos hknown, KVGeometry.bytesPerToken, if_pos hknown,
      int64_of_fits hfits.1.1 hfits.1.2,
      int64_of_fits hfits.2.1.1 hfits.2.1.2, int64_of_fits hfits.2.2.1 hfits.2.2.2]
    positivity
  · refine ⟨fun hyes => absurd hyes hknown, ?_⟩
    rw [sizedBytes, if_neg hknown]
    decide

theorem noProductWraps (hlayers : geo.layers ≤ 2 ^ 16) (hheads : geo.kvHeads ≤ 2 ^ 16)
    (hdim : geo.headDim ≤ 2 ^ 16) (hlow : 0 < total) (hhigh : total ≤ sizedMemory) :
    NoProductWraps total geo := by
  obtain ⟨htoken, hbytes⟩ := bytes_of_small hlayers hheads hdim
  have hcost := contextTokens_cost hbytes hlow hhigh
  rw [kvBudget_eq hlow hhigh] at hcost
  unfold sizedMemory at hhigh
  have husable := usable_eq hlow (by omega)
  refine ⟨?_, ?_, htoken, fun _ => ⟨?_, ?_⟩⟩
  all_goals
    unfold FitsInt64
    first
      | unfold headroomPercent
      | unfold kvSharePercent
      | unfold defaultMaxSequences
    omega

theorem productWraps (hhigh : sizedMemory < total) (hfits : total < 2 ^ 63) :
    ¬ NoProductWraps total geo := by
  rintro ⟨hheadroom, hshare, -, -⟩
  unfold FitsInt64 sizedMemory headroomPercent at *
  rw [usable_eq (by omega) hheadroom.2, kvSharePercent] at hshare
  have := (hshare (by omega)).2
  omega

theorem deriveSizing_ok {sizing : Sizing} : deriveSizing total geo = .ok sizing ↔
    0 < total ∧ minContextTokens ≤ contextTokens total geo ∧ sizing =
      ⟨contextTokens total geo, defaultMaxSequences, sizedBytes geo,
        int64 (int64 (contextTokens total geo * defaultMaxSequences) * sizedBytes geo)⟩ := by
  unfold deriveSizing
  split
  · simp [*]
  split
  · simp [*]
  · simp_all [eq_comm]

/-! ## The shares of the ranks -/

/-- A share that is no `int64` with its floor and its rounding comes round below zero. -/
theorem perRank_cases
    (hshare : (-2 ^ 63 ≤ rankShare total ranks ∧ rankShare total ranks ≤ -2 ^ 31) ∨
      (0 < rankShare total ranks ∧ rankShare total ranks < 2 ^ 63)) :
    (0 < rankShare total ranks ∧ rankShare total ranks + 2 ^ 29 + 2 ^ 20 ≤ 2 ^ 63 ∧
        perRank total ranks =
          rankShare total ranks + 2 ^ 29 + -(rankShare total ranks + 2 ^ 29) % 2 ^ 20) ∨
      ((rankShare total ranks < 0 ∨ 2 ^ 63 < rankShare total ranks + 2 ^ 29 + 2 ^ 20) ∧
        perRank total ranks < 0) := by
  unfold perRank rem quo int64 compileScratchBytes perRankRoundingBytes
  dsimp only
  omega

theorem rankShare_of_wrap (hfits : total < 2 ^ 63) (hranks : ranks < 2 ^ 31)
    (hsum : 2 ^ 63 < total + ranks) :
    -2 ^ 63 ≤ rankShare total ranks ∧ rankShare total ranks ≤ -2 ^ 31 := by
  have hwrap : int64 (int64 (total + ranks) - 1) = -(2 ^ 64 + 1 - total - ranks) := by
    unfold int64
    omega
  have hlow : 2 ^ 31 ≤ (2 ^ 64 + 1 - total - ranks) / ranks := by
    rw [Int.le_ediv_iff_mul_le (by omega)]
    omega
  have hhigh : (2 ^ 64 + 1 - total - ranks) / ranks ≤ 2 ^ 64 + 1 - total - ranks :=
    Int.ediv_le_self _ (by omega)
  rw [rankShare, hwrap, quo, if_neg (by omega), neg_neg]
  omega

theorem rankShare_le (hlow : 0 < total) (hranks : 1 ≤ ranks) (hsum : total + ranks ≤ 2 ^ 63)
    (most : ℤ) : rankShare total ranks ≤ most ↔ total ≤ ranks * most := by
  have hexact : int64 (int64 (total + ranks) - 1) = total + ranks - 1 := by
    unfold int64
    omega
  rw [rankShare, hexact, quo_of_nonneg (by omega), ← Int.lt_add_one_iff,
    Int.ediv_lt_iff_lt_mul (by omega)]
  constructor <;> intro hmost <;> linarith

theorem perRankMemory_ok {share : ℤ} (hok : perRankMemory total ranks = .ok share) :
    0 < total ∧ 1 ≤ ranks ∧ share = perRank total ranks ∧ 0 < share := by
  unfold perRankMemory at hok
  split at hok
  · cases hok
  split at hok
  · cases hok
  split at hok
  · cases hok
  rename_i sizing hsizing
  cases hok
  exact ⟨by omega, by omega, rfl, (deriveSizing_ok.1 hsizing).1⟩

theorem sharesWell_of_refused (hrefused : 0 < total → 1 ≤ ranks → perRank total ranks < 0) :
    SharesWell total ranks where
  products := fun hlow hone hpos => absurd hpos (hrefused hlow hone).not_gt
  covers := by
    intro share hok
    obtain ⟨hlow, hone, rfl, hpos⟩ := perRankMemory_ok hok
    exact absurd hpos (hrefused hlow hone).not_gt

theorem sharesWell_iff (hfits : total < 2 ^ 63) (hranks : ranks < 2 ^ 31) :
    SharesWell total ranks ↔ ShareSized total ranks := by
  unfold ShareSized
  by_cases hjudged : 0 < total ∧ 1 ≤ ranks
  swap
  · exact iff_of_true (sharesWell_of_refused fun hlow hone => absurd ⟨hlow, hone⟩ hjudged)
      (by omega)
  obtain ⟨hlow, hone⟩ := hjudged
  by_cases hsum : total + ranks ≤ 2 ^ 63
  swap
  · have hshare := rankShare_of_wrap hfits hranks (by omega)
    refine iff_of_true (sharesWell_of_refused fun _ _ => ?_) (by omega)
    have := perRank_cases (.inl hshare)
    omega
  have hle := rankShare_le hlow hone hsum
  have hpos : 0 < rankShare total ranks := by
    have := hle 0
    omega
  have hcover := (hle _).1 le_rfl
  have hhalf := hle (2 ^ 62)
  have hwhole := (hle total).2 (le_mul_of_one_le_left hlow.le hone)
  rcases perRank_cases (.inr ⟨hpos, by omega⟩) with ⟨-, hround, hrank⟩ | ⟨hlarge, hneg⟩
  · unfold compileScratchBytes perRankRoundingBytes sizedShare
    constructor
    · intro hwell
      by_contra hnot
      have hmost := hle 392483916495192064
      refine productWraps ?_ ?_ (hwell.products hlow hone ?_)
      · unfold sizedMemory
        omega
      · omega
      · omega
    intro hsized
    have hsmall : rankShare total ranks ≤ 392483916495192064 := by
      rw [hle]
      rcases hsized with hnone | hnone | hsmall | hwrap | ⟨rfl, hlast⟩ <;> omega
    refine ⟨fun _ _ hpos => noProductWraps (by decide) (by decide) (by decide) hpos ?_, ?_⟩
    · unfold sizedMemory
      omega
    · intro share hok
      obtain ⟨-, -, rfl, -⟩ := perRankMemory_ok hok
      refine hcover.trans (mul_le_mul_of_nonneg_left ?_ (by omega))
      unfold compileScratchBytes
      omega
  · refine iff_of_true (sharesWell_of_refused fun _ _ => hneg) ?_
    unfold compileScratchBytes perRankRoundingBytes
    have hranks : ranks = 1 := by
      by_contra hmore
      have : total ≤ ranks * 2 ^ 62 := by linarith [show 2 ≤ ranks by omega]
      omega
    omega

end Exact

/-- A memory is sized as promised exactly up to `sizedMemory`, and the shares of ranks exactly
where `ShareSized` says so. -/
theorem sizing_exact (memory ranks : ℤ) (geo : KVGeometry) (hmemory : FitsInt64 memory)
    (hranks : ranks < 2 ^ 31) (hlayers : geo.layers ≤ 2 ^ 16) (hheads : geo.kvHeads ≤ 2 ^ 16)
    (hdim : geo.headDim ≤ 2 ^ 16) :
    (SizesWell memory geo ↔ memory ≤ sizedMemory) ∧
      (SharesWell memory ranks ↔ ShareSized memory ranks) := by
  refine ⟨⟨?_, ?_⟩, sharesWell_iff hmemory.2 hranks⟩
  · intro hwell
    by_contra hlarge
    have hhigh := not_le.1 hlarge
    exact productWraps hhigh hmemory.2 (hwell.products (lt_trans (by decide) hhigh))
  intro hhigh
  obtain ⟨-, hbytes⟩ := bytes_of_small hlayers hheads hdim
  refine ⟨fun hlow => noProductWraps hlayers hheads hdim hlow hhigh, ?_, ?_⟩
  · intro sizing hok
    obtain ⟨hlow, hfunded, rfl⟩ := deriveSizing_ok.1 hok
    have hcost := contextTokens_cost hbytes hlow hhigh
    have hpos : 0 < contextTokens memory geo * 4 * sizedBytes geo :=
      mul_pos (mul_pos (lt_of_lt_of_le (by decide) hfunded) (by decide)) hbytes
    rw [kvBudget_eq hlow hhigh] at hcost
    dsimp only
    unfold compileScratchBytes headroomPercent kvSharePercent defaultMaxSequences
    omega
  · intro smaller hle sizing hok
    obtain ⟨hlow, hfunded, rfl⟩ := deriveSizing_ok.1 hok
    have hcontext := contextTokens_mono hbytes hlow hle hhigh
    exact ⟨_, deriveSizing_ok.2 ⟨hlow.trans_le hle, hfunded.trans hcontext, rfl⟩, hcontext⟩

theorem sizing_exact_sixteen :
    SizesWell (16 * 2 ^ 30) ⟨36, 8, 128⟩ ∧ SharesWell (16 * 2 ^ 30) 4 := by
  have hsized := sizing_exact (16 * 2 ^ 30) 4 ⟨36, 8, 128⟩ ⟨by decide, by decide⟩ (by decide)
    (by decide) (by decide) (by decide)
  exact ⟨hsized.1.2 (by decide), hsized.2.2 (.inr (.inr (.inl (by decide))))⟩

theorem large_memory_refused : ¬ SizesWell 400000000000000000 ⟨36, 8, 128⟩ := by
  intro hwell
  have hok : deriveSizing (16 * 2 ^ 30) ⟨36, 8, 128⟩ = .ok ⟨6400, 4, 147456, 3774873600⟩ := by
    rfl
  obtain ⟨larger, hlarger, -⟩ := hwell.monotone (16 * 2 ^ 30) (by decide) _ hok
  cases hlarger

end K3sm.Mlx

import K3sm.Registry.UploadSpace

/-!
# The free space that uploads leave

A claim reads the free space and is judged under the server's lock, while other bodies go on
writing.  What a body has written and not yet given back is counted twice, as reserved and as gone
from the free space, so the free space and what is written together cover the floor and all that
is reserved, as long as no read brings more than its body holds.
-/

namespace K3sm.Registry.UploadSpace

open K3sm.Core Multiset

/-- The store volume and the server.  `checking` is whether a claim has read the free space and
holds the server's lock. -/
structure Volume where
  server : Server
  free : Fin (2 ^ 64)
  checking : Bool

/-- A body with what its last read brought and is not written yet, and the free space its claim
has read. -/
structure Body where
  reader : SpaceReader
  unwritten : ℕ
  statfs : Option (Fin (2 ^ 64))

inductive BodyEvent
  | read
  | done
  | stat
  | statFails
  | judge
  | delivered (count : Fin (2 ^ 63))
  | write (count : ℕ)

def newBody (owner : String) (contentLength : Int64) : Body where
  reader := newReader owner contentLength
  unwritten := 0
  statfs := none

def onReader (event : SpaceEvent) (volume : Volume) (body : Body) : Volume × Body :=
  ({ volume with server := (act event volume.server body.reader).shared },
    { body with reader := (act event volume.server body.reader).thread })

def SpaceReader.isClaiming (reader : SpaceReader) : Bool :=
  match reader.phase with
  | .claiming _ => true
  | _ => false

/-- One step of a body.  What its last read brought is written before the next read.  The
server's lock keeps out what gives back while a claim is judged. -/
def bodyStep (volume : Volume) (body : Body) : BodyEvent → Volume × Body
  | .read =>
    if body.unwritten = 0 ∧ (volume.checking = false ∨
      min body.reader.last body.reader.held ≤ 0) then
      onReader .read volume body
    else (volume, body)
  | .done =>
    if body.reader.phase = .idle ∧ (volume.checking = false ∨ body.reader.held ≤ 0) then
      onReader .done volume { body with unwritten := 0 }
    else (volume, body)
  | .stat =>
    if body.reader.isClaiming ∧ volume.checking = false then
      ({ volume with checking := true }, { body with statfs := some volume.free })
    else (volume, body)
  | .statFails =>
    if volume.checking = false then onReader (.free none) volume body else (volume, body)
  | .judge =>
    match body.statfs with
    | none => (volume, body)
    | some bytes => onReader (.free (some bytes)) { volume with checking := false }
        { body with statfs := none }
  | .delivered count =>
    if body.reader.phase = .reading then
      onReader (.delivered count) volume { body with unwritten := count }
    else (volume, body)
  | .write count =>
    if count ≤ body.unwritten ∧ count ≤ (volume.free : ℕ) then
      ({ volume with free := ⟨volume.free - count,
        lt_of_le_of_lt (Nat.sub_le _ _) volume.free.isLt⟩ },
        { body with unwritten := body.unwritten - count })
    else (volume, body)

def bodyAct (event : BodyEvent) (volume : Volume) (body : Body) : Taken Volume Body where
  shared := (bodyStep volume body event).1
  thread := (bodyStep volume body event).2
  started := []

def frees (count : ℕ) (volume : Volume) : Volume :=
  { volume with
    free := ⟨min (volume.free + count) (2 ^ 64 - 1),
      lt_of_le_of_lt (min_le_right _ _) (by decide)⟩ }

abbrev VolumeSystem := Threads Volume Body

abbrev VolumeMove := ThreadMove Body BodyEvent ℕ

def volumeNext : VolumeSystem → VolumeMove → VolumeSystem := Threads.next bodyAct frees

/-- A server that no body has reached, on a volume with that much free. -/
def emptyVolume (minFree free : Fin (2 ^ 64)) : VolumeSystem where
  shared := ⟨(unused minFree).shared, free, false⟩
  threads := []

def Body.written (body : Body) : ℤ := body.reader.last - body.unwritten

def writtenInAll (bodies : Multiset Body) : ℤ := (bodies.map Body.written).sum

def readersOf (bodies : Multiset Body) : Multiset SpaceReader := bodies.map Body.reader

structure Body.Fits (body : Body) : Prop where
  unwritten : (body.unwritten : ℤ) ≤ body.reader.last
  last : body.reader.last ≤ body.reader.held
  busy : body.reader.phase ≠ .idle → body.reader.last = 0
  statfs : body.statfs.isSome = true → body.reader.isClaiming = true

/-- The free space and what is written cover the floor and what is reserved, and every free
space that a claim has read. -/
structure Covered (volume : Volume) (bodies : Multiset Body) : Prop where
  balanced : Balanced volume.server (readersOf bodies)
  fits : ∀ body ∈ bodies, body.Fits
  readings : bodies.countP (fun body => body.statfs.isSome = true) = volume.checking.toNat
  judged : ∀ body ∈ bodies, ∀ bytes, body.statfs = some bytes →
    (bytes : ℤ) ≤ volume.free + writtenInAll bodies
  covers : (volume.server.minFree : ℤ) + heldInAll (readersOf bodies) ≤
    volume.free + writtenInAll bodies

section Cover

variable {volume after : Volume} {body later : Body} {others bodies : Multiset Body}

theorem writtenInAll_cons (body : Body) (others : Multiset Body) :
    writtenInAll (body ::ₘ others) = body.written + writtenInAll others := by
  unfold writtenInAll
  rw [map_cons, sum_cons]

theorem readersOf_cons (body : Body) (others : Multiset Body) :
    readersOf (body ::ₘ others) = body.reader ::ₘ readersOf others :=
  map_cons _ _ _

theorem writtenInAll_le (hfits : ∀ body ∈ bodies, body.Fits) :
    writtenInAll bodies ≤ heldInAll (readersOf bodies) := by
  unfold writtenInAll heldInAll readersOf
  rw [map_map]
  apply sum_map_le_sum_map
  intro body hbody
  have hlast := (hfits body hbody).last
  simp only [Body.written, Function.comp_apply]
  omega

theorem writtenInAll_nonneg (hfits : ∀ body ∈ bodies, body.Fits) : 0 ≤ writtenInAll bodies := by
  apply sum_nonneg
  intro written hwritten
  obtain ⟨body, hbody, rfl⟩ := mem_map.1 hwritten
  have hpart := (hfits body hbody).unwritten
  unfold Body.written
  omega

theorem Covered.floor (hcovered : Covered volume bodies) : volume.server.minFree ≤ volume.free := by
  have hcovers := hcovered.covers
  have hle := writtenInAll_le hcovered.fits
  have hfloor : (volume.server.minFree : ℤ) ≤ volume.free := by omega
  exact Fin.le_def.2 (Int.ofNat_le.1 hfloor)

theorem Covered.no_reading (hcovered : Covered volume bodies) (hchecking : volume.checking = false)
    (hbody : body ∈ bodies) : body.statfs = none := by
  have hnone := hcovered.readings
  rw [hchecking, Bool.toNat_false, countP_eq_zero] at hnone
  exact Option.not_isSome_iff_eq_none.1 (hnone body hbody)

theorem Covered.shift (hcovered : Covered volume (body ::ₘ others))
    (hbalanced : Balanced after.server (later.reader ::ₘ readersOf others)) (hfits : later.Fits)
    (hreadings : later.statfs.isSome.toNat + volume.checking.toNat =
      body.statfs.isSome.toNat + after.checking.toNat)
    (hcover : (volume.free : ℤ) + body.written ≤ after.free + later.written ∨
      volume.checking = false)
    (hown : ∀ bytes, later.statfs = some bytes →
      (bytes : ℤ) ≤ after.free + later.written + writtenInAll others)
    (hfloor : (after.server.minFree : ℤ) + later.reader.held + heldInAll (readersOf others) ≤
      after.free + later.written + writtenInAll others) : Covered after (later ::ₘ others) where
  balanced := by rwa [readersOf_cons]
  fits := by
    intro other hother
    rcases mem_cons.1 hother with rfl | hmem
    · exact hfits
    · exact hcovered.fits other (mem_cons_of_mem hmem)
  readings := by
    have hbefore := hcovered.readings
    rw [countP_cons] at hbefore ⊢
    cases hlater : later.statfs.isSome <;> cases hbody : body.statfs.isSome <;>
      simp only [hlater, hbody, Bool.toNat_true, Bool.toNat_false, if_true, if_false,
        Bool.false_eq_true] at hreadings hbefore ⊢ <;> omega
  judged := by
    intro other hother bytes hbytes
    rw [writtenInAll_cons, ← add_assoc]
    rcases mem_cons.1 hother with rfl | hmem
    · exact hown bytes hbytes
    have hold := hcovered.judged other (mem_cons_of_mem hmem) bytes hbytes
    rw [writtenInAll_cons] at hold
    rcases hcover with hcover | hchecking
    · omega
    · rw [hcovered.no_reading hchecking (mem_cons_of_mem hmem)] at hbytes
      cases hbytes
  covers := by
    rw [writtenInAll_cons, readersOf_cons, heldInAll_cons]
    omega

theorem Covered.covers_cons (hcovered : Covered volume (body ::ₘ others)) :
    (volume.server.minFree : ℤ) + body.reader.held + heldInAll (readersOf others) ≤
      volume.free + body.written + writtenInAll others := by
  have hcovers := hcovered.covers
  rw [writtenInAll_cons, readersOf_cons, heldInAll_cons] at hcovers
  omega

theorem Covered.balanced_cons (hcovered : Covered volume (body ::ₘ others)) :
    Balanced volume.server (body.reader ::ₘ readersOf others) := by
  rw [← readersOf_cons]
  exact hcovered.balanced

theorem Body.Fits.statfs_none (hfits : body.Fits) (hclaiming : body.reader.isClaiming = false) :
    body.statfs = none := by
  by_contra hsome
  have hisSome := Option.isSome_iff_ne_none.2 hsome
  rw [hfits.statfs hisSome] at hclaiming
  cases hclaiming

theorem isClaiming_of_phase {reader : SpaceReader} {phase : ReadPhase}
    (hphase : reader.phase = phase)
    (hother : ∀ need, phase ≠ .claiming need) : reader.isClaiming = false := by
  unfold SpaceReader.isClaiming
  rw [hphase]
  cases phase with
  | claiming need => exact absurd rfl (hother need)
  | idle | reading => rfl

theorem beginRead_last (server : Server) (reader : SpaceReader) :
    (beginRead server reader).2.last = 0 ∧ (beginRead server reader).1.minFree = server.minFree ∧
      (beginRead server reader).2.phase ≠ .idle := by
  unfold beginRead
  dsimp only
  refine ⟨rfl, ?_, ?_⟩
  · split <;> rfl
  · split <;> exact nofun

theorem beginRead_held (hbalanced : Balanced volume.server (body.reader ::ₘ readersOf others))
    (hfits : body.Fits) :
    (beginRead volume.server body.reader).2.held = body.reader.held - body.reader.last := by
  have hlast := hfits.last
  have hpart := hfits.unwritten
  have hgive : min body.reader.last body.reader.held = body.reader.last := min_eq_left hlast
  have hle := hbalanced.reader_le
  have hbound := hbalanced.fits
  unfold beginRead
  dsimp only
  rw [hgive]
  split
  case isTrue =>
    exact int64_of_fits (by omega) (by omega)
  case isFalse =>
    dsimp only
    omega

theorem Covered.read (hcovered : Covered volume (body ::ₘ others)) :
    Covered (bodyStep volume body .read).1 ((bodyStep volume body .read).2 ::ₘ others) := by
  unfold bodyStep
  dsimp only
  split
  case isFalse => exact hcovered
  rename_i hready
  unfold onReader UploadSpace.act
  rcases hphase : body.reader.phase with _ | _ | _
  case claiming => exact hcovered
  case reading => exact hcovered
  have hbalanced := hcovered.balanced_cons
  have hfits := hcovered.fits body (mem_cons_self _ _)
  have hheld := beginRead_held hbalanced hfits
  obtain ⟨hlast, hfree, -⟩ := beginRead_last volume.server body.reader
  have hnone := hfits.statfs_none (isClaiming_of_phase hphase nofun)
  have hafter := hbalanced.beginRead
  have hnonneg := (hafter.fine _ (mem_cons_self _ _)).held
  have hcovers := hcovered.covers_cons
  have hunwritten := hready.1
  have hpart := hfits.unwritten
  refine hcovered.shift hafter ⟨?_, ?_, fun _ => hlast, ?_⟩ rfl ?_ ?_ ?_
  · dsimp only
    rw [hunwritten, hlast]
    rfl
  · dsimp only
    rw [hlast]
    exact hnonneg
  · dsimp only
    rw [hnone]
    exact nofun
  · rcases hready.2 with hchecking | hnothing
    · exact .inr hchecking
    left
    rw [min_eq_left hfits.last] at hnothing
    unfold Body.written
    dsimp only
    rw [hlast, hunwritten]
    omega
  · dsimp only
    rw [hnone]
    exact nofun
  · unfold Body.written at hcovers ⊢
    dsimp only
    rw [hlast, hheld, hfree, hunwritten]
    rw [hunwritten] at hcovers
    omega

theorem finish_minFree (server : Server) (reader : SpaceReader) :
    (finish server reader).1.minFree = server.minFree := by
  unfold finish
  dsimp only
  split <;> rfl

theorem Covered.done (hcovered : Covered volume (body ::ₘ others)) :
    Covered (bodyStep volume body .done).1 ((bodyStep volume body .done).2 ::ₘ others) := by
  unfold bodyStep
  dsimp only
  split
  case isFalse => exact hcovered
  rename_i hready
  unfold onReader UploadSpace.act
  dsimp only
  rw [hready.1]
  dsimp only
  have hbalanced := hcovered.balanced_cons
  have hfits := hcovered.fits body (mem_cons_self _ _)
  have hnone := hfits.statfs_none (isClaiming_of_phase hready.1 nofun)
  have hcovers := hcovered.covers_cons
  have hfree := finish_minFree volume.server body.reader
  have hlast := hfits.last
  refine hcovered.shift (hbalanced.finish hready.1) ⟨le_rfl, le_rfl, fun _ => rfl, ?_⟩ rfl ?_ ?_ ?_
  · dsimp only
    rw [hnone]
    exact nofun
  · rcases hready.2 with hchecking | hnothing
    · exact .inr hchecking
    left
    unfold Body.written finish
    dsimp only
    omega
  · dsimp only
    rw [hnone]
    exact nofun
  · unfold Body.written at hcovers ⊢
    rw [hfree]
    unfold finish
    dsimp only
    omega

theorem Covered.stat (hcovered : Covered volume (body ::ₘ others)) :
    Covered (bodyStep volume body .stat).1 ((bodyStep volume body .stat).2 ::ₘ others) := by
  unfold bodyStep
  dsimp only
  split
  case isFalse => exact hcovered
  rename_i hready
  obtain ⟨hclaiming, hchecking⟩ := hready
  have hfits := hcovered.fits body (mem_cons_self _ _)
  have hnone := hcovered.no_reading hchecking (mem_cons_self _ _)
  have hnonneg := writtenInAll_nonneg hcovered.fits
  rw [writtenInAll_cons] at hnonneg
  refine hcovered.shift hcovered.balanced_cons ⟨hfits.unwritten, hfits.last, hfits.busy,
    fun _ => hclaiming⟩ ?_ (.inr hchecking) ?_ hcovered.covers_cons
  · rw [hchecking, hnone]
    rfl
  · intro bytes hbytes
    obtain rfl := Option.some.inj hbytes
    change _ ≤ (volume.free : ℤ) + body.written + writtenInAll others
    omega

theorem claimRead_none {server : Server} {reader : SpaceReader} {need : ℤ}
    {free : Option (Fin (2 ^ 64))} (hclaim : claim server reader.owner need free = none) :
    claimRead server reader need free = (server, { reader with phase := .idle }) := by
  unfold claimRead
  rw [hclaim]

theorem Covered.statFails (hcovered : Covered volume (body ::ₘ others)) :
    Covered (bodyStep volume body .statFails).1
    ((bodyStep volume body .statFails).2 ::ₘ others) := by
  unfold bodyStep
  dsimp only
  split
  case isFalse => exact hcovered
  rename_i hchecking
  unfold onReader UploadSpace.act
  rcases hphase : body.reader.phase with _ | need | _
  case idle => exact hcovered
  case reading => exact hcovered
  have hbalanced := hcovered.balanced_cons
  have hfits := hcovered.fits body (mem_cons_self _ _)
  have hnone := hcovered.no_reading hchecking (mem_cons_self _ _)
  have hafter := @Balanced.claimRead _ _ _ need hbalanced hphase none nofun
  have hrefused := @claimRead_none volume.server body.reader need none rfl
  dsimp only
  rw [hrefused] at hafter ⊢
  refine hcovered.shift hafter ⟨hfits.unwritten, hfits.last, fun hbusy => absurd rfl hbusy, ?_⟩
    rfl (.inr hchecking) ?_ hcovered.covers_cons
  · dsimp only
    rw [hnone]
    exact nofun
  · dsimp only
    rw [hnone]
    exact nofun

theorem claim_minFree {server after : Server} {owner : String} {need : ℤ}
    {free : Option (Fin (2 ^ 64))} (hclaim : claim server owner need free = some after) :
    after.minFree = server.minFree ∧ roomRefuses server owner need free = false := by
  unfold claim at hclaim
  split at hclaim
  case isTrue => cases hclaim
  rename_i hpassed
  obtain rfl := Option.some.inj hclaim
  exact ⟨rfl, Bool.eq_false_of_not_eq_true hpassed⟩

theorem Covered.judge (hcovered : Covered volume (body ::ₘ others))
    (hroom : ∀ bytes, body.statfs = some bytes → RoomFits volume.server bytes) :
    Covered (bodyStep volume body .judge).1 ((bodyStep volume body .judge).2 ::ₘ others) := by
  unfold bodyStep
  rcases hstatfs : body.statfs with _ | bytes
  case none => exact hcovered
  have hbalanced := hcovered.balanced_cons
  have hfits := hcovered.fits body (mem_cons_self _ _)
  have hclaiming := hfits.statfs (by rw [hstatfs]; rfl)
  have hlocked : volume.checking = true := by
    by_contra hchecking
    have hnone := hcovered.no_reading (Bool.eq_false_of_not_eq_true hchecking) (mem_cons_self _ _)
    rw [hstatfs] at hnone
    cases hnone
  unfold onReader UploadSpace.act
  unfold SpaceReader.isClaiming at hclaiming
  rcases hphase : body.reader.phase with _ | need | _
  case idle =>
    rw [hphase] at hclaiming
    cases hclaiming
  case reading =>
    rw [hphase] at hclaiming
    cases hclaiming
  dsimp only
  have hroomy : ∀ found, some bytes = some found → RoomFits volume.server found := by
    rintro found ⟨⟩
    exact hroom bytes hstatfs
  have hafter := hbalanced.claimRead hphase hroomy
  have hcovers := hcovered.covers_cons
  have hlast := hfits.busy (by rw [hphase]; exact nofun)
  have hreadings : (none : Option (Fin (2 ^ 64))).isSome.toNat + volume.checking.toNat =
      body.statfs.isSome.toNat + false.toNat := by
    rw [hlocked, hstatfs]
    rfl
  rcases hclaim : claim volume.server body.reader.owner need (some bytes) with _ | claimed
  · rw [claimRead_none hclaim] at hafter ⊢
    refine hcovered.shift hafter ⟨hfits.unwritten, hfits.last, fun hbusy => absurd rfl hbusy, nofun⟩
      hreadings (.inl le_rfl) nofun hcovers
  obtain ⟨hfree, hpassed⟩ := claim_minFree hclaim
  obtain ⟨hlow, hhigh⟩ := (hbalanced.fine _ (mem_cons_self _ _)).claiming need hphase
  have hadmits := hbalanced.admits hlow hhigh hpassed
  have hsmall := hbalanced.claim_fits (hroom bytes hstatfs) hlow hhigh hpassed
  have hle := hbalanced.reader_le
  have hnonneg := (hbalanced.fine _ (mem_cons_self _ _)).held
  have hheld : int64 (body.reader.held + need) = body.reader.held + need :=
    int64_of_fits (by omega) (by omega)
  have hclaimed : claimRead volume.server body.reader need (some bytes) =
      (claimed, { body.reader with
        held := int64 (body.reader.held + need), since := 0, phase := .reading }) := by
    unfold UploadSpace.claimRead
    rw [hclaim]
  rw [hclaimed] at hafter ⊢
  refine hcovered.shift hafter ⟨hfits.unwritten, ?_, fun _ => hlast, nofun⟩ hreadings
    (.inl le_rfl) nofun ?_
  · dsimp only
    rw [hheld, hlast]
    omega
  have hjudged := hcovered.judged body (mem_cons_self _ _) bytes hstatfs
  have hroomLeft := hadmits.room
  have hfloor := Fin.le_def.1 hadmits.free
  rw [writtenInAll_cons] at hjudged
  rw [hbalanced.held, heldInAll_cons] at hroomLeft
  unfold Body.written at hjudged ⊢
  dsimp only
  rw [hheld, hfree]
  omega

theorem Covered.delivered (hcovered : Covered volume (body ::ₘ others)) {count : Fin (2 ^ 63)}
    (hcount : body.reader.phase = .reading → (count : ℤ) ≤ body.reader.held) :
    Covered (bodyStep volume body (.delivered count)).1
      ((bodyStep volume body (.delivered count)).2 ::ₘ others) := by
  unfold bodyStep
  dsimp only
  split
  case isFalse => exact hcovered
  rename_i hreading
  unfold onReader UploadSpace.act
  dsimp only
  rw [hreading]
  dsimp only
  have hbalanced := hcovered.balanced_cons
  have hfits := hcovered.fits body (mem_cons_self _ _)
  have hlast := hfits.busy (by rw [hreading]; exact nofun)
  have hpart := hfits.unwritten
  have hnone := hfits.statfs_none (isClaiming_of_phase hreading nofun)
  have hcovers := hcovered.covers_cons
  refine hcovered.shift (hbalanced.endRead hreading count)
    ⟨le_rfl, hcount hreading, fun hbusy => absurd rfl hbusy, ?_⟩ rfl (.inl ?_) ?_ ?_
  · dsimp only
    rw [hnone]
    exact nofun
  · unfold Body.written endRead
    dsimp only
    omega
  · dsimp only
    rw [hnone]
    exact nofun
  · unfold Body.written at hcovers
    unfold Body.written endRead
    dsimp only
    omega

theorem Covered.write (hcovered : Covered volume (body ::ₘ others)) (count : ℕ) :
    Covered (bodyStep volume body (.write count)).1
      ((bodyStep volume body (.write count)).2 ::ₘ others) := by
  unfold bodyStep
  dsimp only
  split
  case isFalse => exact hcovered
  rename_i hcount
  obtain ⟨hunwritten, hfree⟩ := hcount
  have hfits := hcovered.fits body (mem_cons_self _ _)
  have hpart := hfits.unwritten
  have hcovers := hcovered.covers_cons
  refine hcovered.shift hcovered.balanced_cons ⟨?_, hfits.last, hfits.busy, hfits.statfs⟩ rfl
    (.inl ?_) ?_ ?_
  · dsimp only
    omega
  · unfold Body.written
    dsimp only
    omega
  · intro bytes hbytes
    have hjudged := hcovered.judged body (mem_cons_self _ _) bytes hbytes
    rw [writtenInAll_cons] at hjudged
    unfold Body.written at hjudged ⊢
    dsimp only
    omega
  · unfold Body.written at hcovers ⊢
    dsimp only
    omega

theorem Covered.frees (hcovered : Covered volume bodies) (count : ℕ) :
    Covered (frees count volume) bodies := by
  have hmore : (volume.free : ℤ) ≤ (UploadSpace.frees count volume).free := by
    have hbound := volume.free.isLt
    unfold UploadSpace.frees
    dsimp only
    omega
  refine ⟨hcovered.balanced, hcovered.fits, hcovered.readings, ?_, ?_⟩
  · intro body hbody bytes hbytes
    have hjudged := hcovered.judged body hbody bytes hbytes
    omega
  · have hcovers := hcovered.covers
    change (volume.server.minFree : ℤ) + _ ≤ _
    omega

end Cover

/-- No read brings more than its body holds, and no claim is judged on a room of 2^63 bytes and
more. -/
def WithinHeld (volume : Volume) (body : Body) : BodyEvent → Prop
  | .delivered count => body.reader.phase = .reading → (count : ℤ) ≤ body.reader.held
  | .judge => ∀ bytes, body.statfs = some bytes → RoomFits volume.server bytes
  | _ => True

theorem Covered.step {volume : Volume} {body : Body} {others : Multiset Body} {event : BodyEvent}
    (hcovered : Covered volume (body ::ₘ others)) (hwithin : WithinHeld volume body event) :
    Covered (bodyStep volume body event).1 ((bodyStep volume body event).2 ::ₘ others) := by
  cases event with
  | read => exact hcovered.read
  | done => exact hcovered.done
  | stat => exact hcovered.stat
  | statFails => exact hcovered.statFails
  | judge => exact hcovered.judge hwithin
  | delivered count => exact hcovered.delivered hwithin
  | write count => exact hcovered.write count

theorem covered_empty {minFree free : Fin (2 ^ 64)} (hfree : minFree ≤ free) :
    Covered (emptyVolume minFree free).shared (emptyVolume minFree free).threads := by
  refine ⟨balanced_unused minFree, nofun, rfl, nofun, ?_⟩
  have hfloor := Fin.le_def.1 hfree
  change (minFree : ℤ) + 0 ≤ free + 0
  omega

theorem Covered.start {volume : Volume} {bodies : Multiset Body} (hcovered : Covered volume bodies)
    (owner : String) (contentLength : Int64) :
    Covered volume (newBody owner contentLength ::ₘ bodies) := by
  have hwritten : (newBody owner contentLength).written = 0 := rfl
  have hheld : (newBody owner contentLength).reader.held = 0 := rfl
  refine ⟨?_, ?_, ?_, ?_, ?_⟩
  · rw [readersOf_cons]
    exact hcovered.balanced.start owner contentLength
  · intro body hbody
    rcases mem_cons.1 hbody with rfl | hmem
    · exact ⟨le_rfl, le_rfl, fun _ => rfl, nofun⟩
    · exact hcovered.fits body hmem
  · rw [countP_cons_of_neg _ nofun]
    exact hcovered.readings
  · intro body hbody bytes hbytes
    rw [writtenInAll_cons, hwritten, zero_add]
    rcases mem_cons.1 hbody with rfl | hmem
    · cases hbytes
    · exact hcovered.judged body hmem bytes hbytes
  · rw [writtenInAll_cons, readersOf_cons, heldInAll_cons, hwritten, hheld, zero_add, zero_add]
    exact hcovered.covers

/-- Bodies come with any principal and any content length. -/
abbrev MovesWithinHeld : VolumeSystem → VolumeMove → Prop :=
  Threads.Meets (fun body => ∃ owner contentLength, body = newBody owner contentLength) WithinHeld

/-- The free space stays at the floor or above it throughout every run in which no read brings
more than its body holds and no claim is judged on a room of 2^63 bytes and more. -/
theorem uploads_keep_floor {minFree free : Fin (2 ^ 64)} (hfree : minFree ≤ free)
    {moves : List VolumeMove}
    (hmoves : EachStep MovesWithinHeld volumeNext (emptyVolume minFree free) moves) :
    Always (fun system => system.shared.server.minFree ≤ system.shared.free) volumeNext
      (emptyVolume minFree free) moves := by
  have hcovered : Always (fun system => Covered system.shared system.threads) volumeNext
      (emptyVolume minFree free) moves := by
    refine Threads.always_inv ?_ ?_ ?_ (covered_empty hfree) hmoves
    · rintro volume bodies body hcovered ⟨owner, contentLength, rfl⟩
      exact hcovered.start owner contentLength
    · intro volume body others event hcovered hwithin
      have hafter := hcovered.step hwithin
      have hstarted : (bodyAct event volume body).started = [] := rfl
      rw [hstarted, coe_nil, add_zero]
      exact hafter
    · intro volume bodies count hcovered
      exact hcovered.frees count
  exact hcovered.mono fun _ hstate => hstate.floor

def tightVolume : VolumeSystem :=
  emptyVolume defaultMinFreeSpace ⟨2 * 2 ^ 30 + 2 ^ 26, by decide⟩

/-- The body's first read is admitted on 64 MiB and brings all but one byte of them. -/
def firstRead : List VolumeMove :=
  [.start (newBody "" (-1)), .turn 0 .read, .turn 0 .stat, .turn 0 .judge,
    .turn 0 (.delivered ⟨2 ^ 26 - 1, by decide⟩), .turn 0 (.write (2 ^ 26 - 1)), .turn 0 .read]

def overshoot : List VolumeMove :=
  firstRead ++ [.turn 0 (.delivered ⟨2 ^ 15, by decide⟩), .turn 0 (.write (2 ^ 15))]

theorem firstRead_within : EachStep MovesWithinHeld volumeNext tightVolume firstRead := by
  refine ⟨⟨"", -1, rfl⟩, fun _ _ => trivial, fun _ _ => trivial, ?_, ?_, fun _ _ => trivial,
    fun _ _ => trivial, trivial⟩
  · rintro body ⟨⟩ bytes ⟨⟩
    unfold RoomFits
    decide
  · rintro body ⟨⟩ -
    decide +kernel

/-- A next read of the one byte that is left stays at the floor. -/
theorem lastByte_keeps_floor :
    EachStep MovesWithinHeld volumeNext tightVolume
        (firstRead ++ [.turn 0 (.delivered 1), .turn 0 (.write 1)]) ∧
      Always (fun system => system.shared.server.minFree ≤ system.shared.free)
        volumeNext tightVolume
        (firstRead ++ [.turn 0 (.delivered 1), .turn 0 (.write 1)]) := by
  have hmoves : EachStep MovesWithinHeld volumeNext tightVolume
      (firstRead ++ [.turn 0 (.delivered 1), .turn 0 (.write 1)]) := by
    refine eachStep_append.2 ⟨firstRead_within, ?_, fun _ _ => trivial, trivial⟩
    rintro body ⟨⟩ -
    decide +kernel
  exact ⟨hmoves, uploads_keep_floor (by decide) hmoves⟩

/-- The read that fills its buffer takes the free space below the floor. -/
theorem overshoot_breaks_floor :
    ¬ Always (fun system => system.shared.server.minFree ≤ system.shared.free)
      volumeNext tightVolume
      overshoot := by
  intro halways
  exact absurd halways.last (by decide +kernel)

end K3sm.Registry.UploadSpace

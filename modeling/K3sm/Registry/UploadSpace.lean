import K3sm.Core.Int64
import K3sm.Core.Threads

/-!
# The space that upload bodies reserve

A body in flight reserves bytes of the store volume when it is first read, takes more when it runs
out and gives back what the read before has delivered.  Counts are of 64 bits: a sum that leaves
the signed range comes round, and is compared with the room as an unsigned number.
-/

namespace K3sm.Registry.UploadSpace

open K3sm.Core Function Multiset

/-- `uint64` of a signed number. -/
def uint64 (value : ℤ) : ℕ := (value % 2 ^ 64).toNat

def spaceCheckEvery : ℤ := 64 * 2 ^ 20

/-- The server's account.  A principal without an entry holds 0. -/
structure Server where
  minFree : Fin (2 ^ 64)
  spaceHeld : ℤ
  spaceHeldBy : String → ℤ

section Account

/-- `roomLocked`: whether it refuses, given what the volume says is free. -/
def roomRefuses (server : Server) (owner : String) (need : ℤ) : Option (Fin (2 ^ 64)) → Bool
  | none => true
  | some free =>
    if free < server.minFree then true
    else
      let room := (free : ℕ) - server.minFree
      if room < uint64 (int64 (server.spaceHeld + need)) then true
      else
        decide (owner ≠ "" ∧ 0 < need ∧
          room - room / 4 < uint64 (int64 (server.spaceHeldBy owner + need)))

def claim (server : Server) (owner : String) (need : ℤ) (free : Option (Fin (2 ^ 64))) :
    Option Server :=
  if roomRefuses server owner need free then none
  else
    some { server with
      spaceHeld := int64 (server.spaceHeld + need)
      spaceHeldBy :=
        if owner ≠ "" ∧ 0 < need then
          Function.update server.spaceHeldBy owner (int64 (server.spaceHeldBy owner + need))
        else server.spaceHeldBy }

/-- `unclaim`; an entry that is not positive goes. -/
def unclaim (server : Server) (owner : String) (count : ℤ) : Server where
  minFree := server.minFree
  spaceHeld := int64 (server.spaceHeld - count)
  spaceHeldBy :=
    if owner ≠ "" then
      Function.update server.spaceHeldBy owner
        (if int64 (server.spaceHeldBy owner - count) ≤ 0 then 0
        else int64 (server.spaceHeldBy owner - count))
    else server.spaceHeldBy

end Account

inductive ReadPhase
  | idle
  | claiming (need : ℤ)
  | reading
  deriving DecidableEq

/-- `spaceReader`; `finished` is whether `done` was the last call. -/
structure SpaceReader where
  owner : String
  left : ℤ
  held : ℤ
  since : ℤ
  last : ℤ
  started : Bool
  phase : ReadPhase
  finished : Bool

/-- A body of the content length, negative when it is unknown. -/
def newReader (owner : String) (contentLength : Int64) : SpaceReader where
  owner := owner
  left := contentLength.toInt
  held := 0
  since := 0
  last := 0
  started := false
  phase := .idle
  finished := false

/-- What a turn of a body brings: a call, the free space when it claims, or how much the
request's own reader delivered, whether with an error or without. -/
inductive SpaceEvent
  | read
  | done
  | free (bytes : Option (Fin (2 ^ 64)))
  | delivered (count : Fin (2 ^ 63))

/-- What the switch of `Read` asks for, if it claims at all. -/
def SpaceReader.asks (reader : SpaceReader) : Option ℤ :=
  if reader.started = false then
    some (if reader.left < 0 then spaceCheckEvery else reader.left)
  else if reader.left = 0 then none
  else if reader.held ≤ 0 then some spaceCheckEvery
  else if spaceCheckEvery ≤ reader.since then some 0
  else none

/-- The first section of `Read`: what the read before delivered is given back. -/
def beginRead (server : Server) (reader : SpaceReader) : Server × SpaceReader :=
  let give := min reader.last reader.held
  let (server, held) :=
    if 0 < give then (unclaim server reader.owner give, int64 (reader.held - give))
    else (server, reader.held)
  let reader := { reader with held := held, last := 0, finished := false }
  (server,
    { reader with
      started := true
      phase :=
        match reader.asks with
        | some need => .claiming need
        | none => .reading })

def claimRead (server : Server) (reader : SpaceReader) (need : ℤ) (free : Option (Fin (2 ^ 64))) :
    Server × SpaceReader :=
  match claim server reader.owner need free with
  | none => (server, { reader with phase := .idle })
  | some after =>
    (after, { reader with held := int64 (reader.held + need), since := 0, phase := .reading })

def endRead (reader : SpaceReader) (count : ℕ) : SpaceReader :=
  { reader with
    since := int64 (reader.since + count)
    last := count
    left := if 0 < reader.left then max (int64 (reader.left - count)) 0 else reader.left
    phase := .idle }

/-- `done`. -/
def finish (server : Server) (reader : SpaceReader) : Server × SpaceReader :=
  (if 0 < reader.held then unclaim server reader.owner reader.held else server,
    { reader with held := 0, last := 0, finished := true })

def act (event : SpaceEvent) (server : Server) (reader : SpaceReader) : Taken Server SpaceReader :=
  let after : Server × SpaceReader :=
    match reader.phase, event with
    | .idle, .read => beginRead server reader
    | .idle, .done => finish server reader
    | .claiming need, .free bytes => claimRead server reader need bytes
    | .reading, .delivered count => (server, endRead reader count)
    | _, _ => (server, reader)
  { shared := after.1, thread := after.2, started := [] }

abbrev SpaceSystem := Threads Server SpaceReader

abbrev SpaceMove := ThreadMove SpaceReader SpaceEvent Empty

def next : SpaceSystem → SpaceMove → SpaceSystem := Threads.next act nofun

def unused (minFree : Fin (2 ^ 64)) : SpaceSystem where
  shared :=
    { minFree := minFree
      spaceHeld := 0
      spaceHeldBy := fun _ => 0 }
  threads := []

theorem uint64_int64 {value : ℤ} (hlow : 0 ≤ value) (hhigh : value < 2 ^ 64) :
    (uint64 (int64 value) : ℤ) = value := by
  unfold uint64
  rw [int64_emod, Int.emod_eq_of_lt hlow hhigh, Int.toNat_of_nonneg hlow]

def heldInAll (readers : Multiset SpaceReader) : ℤ := (readers.map SpaceReader.held).sum

def heldByOwner (owner : String) (readers : Multiset SpaceReader) : ℤ :=
  (readers.map fun reader => if reader.owner = owner then reader.held else 0).sum

structure SpaceReader.Fine (reader : SpaceReader) : Prop where
  held : 0 ≤ reader.held
  left : reader.left < 2 ^ 63
  claiming : ∀ need, reader.phase = .claiming need → 0 ≤ need ∧ need < 2 ^ 63
  finished : reader.finished = true → reader.held = 0 ∧ reader.phase = .idle

/-- The server's counts are the sums of what the readers hold. -/
structure Balanced (server : Server) (readers : Multiset SpaceReader) : Prop where
  held : server.spaceHeld = heldInAll readers
  owners : ∀ owner, owner ≠ "" → server.spaceHeldBy owner = heldByOwner owner readers
  nameless : server.spaceHeldBy "" = 0
  fine : ∀ reader ∈ readers, reader.Fine
  fits : server.spaceHeld < 2 ^ 63

section Balance

variable {server after : Server} {reader later : SpaceReader}
  {others readers : Multiset SpaceReader}
  {owner : String} {need count : ℤ}

theorem heldInAll_cons (reader : SpaceReader) (others : Multiset SpaceReader) :
    heldInAll (reader ::ₘ others) = reader.held + heldInAll others := by
  unfold heldInAll
  rw [map_cons, sum_cons]

theorem heldByOwner_cons (owner : String) (reader : SpaceReader) (others : Multiset SpaceReader) :
    heldByOwner owner (reader ::ₘ others) =
      (if reader.owner = owner then reader.held else 0) + heldByOwner owner others := by
  unfold heldByOwner
  rw [map_cons, sum_cons]

theorem heldInAll_nonneg (hfine : ∀ reader ∈ readers, reader.Fine) : 0 ≤ heldInAll readers := by
  apply sum_nonneg
  intro held hheld
  obtain ⟨reader, hreader, rfl⟩ := mem_map.1 hheld
  exact (hfine reader hreader).held

theorem heldByOwner_nonneg (owner : String) (hfine : ∀ reader ∈ readers, reader.Fine) :
    0 ≤ heldByOwner owner readers := by
  apply sum_nonneg
  intro held hheld
  obtain ⟨reader, hreader, rfl⟩ := mem_map.1 hheld
  split
  · exact (hfine reader hreader).held
  · exact le_rfl

theorem heldByOwner_le (owner : String) (hfine : ∀ reader ∈ readers, reader.Fine) :
    heldByOwner owner readers ≤ heldInAll readers := by
  apply sum_map_le_sum_map
  intro reader hreader
  split
  · exact le_rfl
  · exact (hfine reader hreader).held

theorem Balanced.nonneg (hbalanced : Balanced server readers) : 0 ≤ server.spaceHeld := by
  rw [hbalanced.held]
  exact heldInAll_nonneg hbalanced.fine

theorem Balanced.owner_nonneg (hbalanced : Balanced server readers) (owner : String) :
    0 ≤ server.spaceHeldBy owner := by
  by_cases howner : owner = ""
  · rw [howner, hbalanced.nameless]
  · rw [hbalanced.owners owner howner]
    exact heldByOwner_nonneg owner hbalanced.fine

theorem Balanced.owner_le (hbalanced : Balanced server readers) (owner : String) :
    server.spaceHeldBy owner ≤ server.spaceHeld := by
  by_cases howner : owner = ""
  · rw [howner, hbalanced.nameless]
    exact hbalanced.nonneg
  · rw [hbalanced.owners owner howner, hbalanced.held]
    exact heldByOwner_le owner hbalanced.fine

section

variable (hbalanced : Balanced server (reader ::ₘ others))

include hbalanced

theorem Balanced.reader_le : reader.held ≤ server.spaceHeld := by
  have hothers : 0 ≤ heldInAll others :=
    heldInAll_nonneg fun other hother => hbalanced.fine other (mem_cons_of_mem hother)
  rw [hbalanced.held, heldInAll_cons]
  exact le_add_of_nonneg_right hothers

theorem Balanced.reader_le_owner (howner : reader.owner ≠ "") :
    reader.held ≤ server.spaceHeldBy reader.owner := by
  have hothers : 0 ≤ heldByOwner reader.owner others :=
    heldByOwner_nonneg _ fun other hother => hbalanced.fine other (mem_cons_of_mem hother)
  rw [hbalanced.owners reader.owner howner, heldByOwner_cons, if_pos rfl]
  exact le_add_of_nonneg_right hothers

theorem Balanced.shift (howner : later.owner = reader.owner)
    (hheld : after.spaceHeld = server.spaceHeld + (later.held - reader.held))
    (howners : ∀ owner, owner ≠ "" → after.spaceHeldBy owner =
      server.spaceHeldBy owner + if reader.owner = owner then later.held - reader.held else 0)
    (hnameless : after.spaceHeldBy "" = 0) (hfine : later.Fine) (hfits : after.spaceHeld < 2 ^ 63) :
    Balanced after (later ::ₘ others) where
  held := by
    rw [hheld, hbalanced.held, heldInAll_cons, heldInAll_cons]
    ring
  owners := by
    intro owner hnamed
    rw [howners owner hnamed, hbalanced.owners owner hnamed, heldByOwner_cons, heldByOwner_cons,
      howner]
    split <;> ring
  nameless := hnameless
  fine := by
    intro other hother
    rcases mem_cons.1 hother with rfl | hmem
    · exact hfine
    · exact hbalanced.fine other (mem_cons_of_mem hmem)
  fits := hfits

theorem Balanced.same (howner : later.owner = reader.owner) (hheld : later.held = reader.held)
    (hfine : later.Fine) : Balanced server (later ::ₘ others) := by
  refine hbalanced.shift howner ?_ ?_ hbalanced.nameless hfine hbalanced.fits
  · rw [hheld, sub_self, add_zero]
  · intro owner _
    rw [hheld, sub_self, ite_self, add_zero]

end

theorem Balanced.unclaim (hbalanced : Balanced server (reader ::ₘ others))
    (howner : later.owner = reader.owner) (hcount : 0 ≤ count)
    (hheld : later.held = reader.held - count) (hfine : later.Fine) :
    Balanced (UploadSpace.unclaim server reader.owner count) (later ::ₘ others) := by
  have hpart : count ≤ reader.held := by
    have := hfine.held
    omega
  have hall := hbalanced.reader_le
  have hfits := hbalanced.fits
  have hspace : int64 (server.spaceHeld - count) = server.spaceHeld - count :=
    int64_of_fits (by omega) (by omega)
  refine hbalanced.shift howner ?_ ?_ ?_ hfine ?_
  · show int64 (server.spaceHeld - count) = _
    rw [hspace, hheld]
    ring
  · intro owner hnamed
    unfold UploadSpace.unclaim
    dsimp only
    by_cases hsame : reader.owner = owner
    · subst hsame
      have hown := hbalanced.reader_le_owner hnamed
      have hle := hbalanced.owner_le reader.owner
      have hentry : int64 (server.spaceHeldBy reader.owner - count) =
          server.spaceHeldBy reader.owner - count := int64_of_fits (by omega) (by omega)
      rw [if_pos hnamed, update_self, if_pos rfl, hentry, hheld]
      split <;> omega
    · rw [if_neg hsame, add_zero]
      split
      · exact update_of_ne (Ne.symm hsame) _ _
      · rfl
  · unfold UploadSpace.unclaim
    dsimp only
    split
    case isFalse => exact hbalanced.nameless
    rename_i hnamed
    rw [update_of_ne (Ne.symm hnamed)]
    exact hbalanced.nameless
  · show int64 (server.spaceHeld - count) < 2 ^ 63
    rw [hspace]
    omega

def RoomFits (server : Server) (bytes : Fin (2 ^ 64)) : Prop :=
  (bytes : ℕ) < 2 ^ 63 + server.minFree

structure Admits (server : Server) (owner : String) (need : ℤ) (bytes : Fin (2 ^ 64)) : Prop where
  free : server.minFree ≤ bytes
  room : server.spaceHeld + need ≤ ((bytes : ℕ) - (server.minFree : ℕ) : ℕ)
  share : owner ≠ "" → 0 < need → server.spaceHeldBy owner + need ≤
    ((bytes : ℕ) - server.minFree - ((bytes : ℕ) - server.minFree) / 4 : ℕ)

theorem Balanced.admits (hbalanced : Balanced server readers) {bytes : Fin (2 ^ 64)}
    (hlow : 0 ≤ need) (hhigh : need < 2 ^ 63)
    (hroom : roomRefuses server owner need (some bytes) = false) :
    Admits server owner need bytes := by
  have hnonneg := hbalanced.nonneg
  have hfits := hbalanced.fits
  have howner := hbalanced.owner_nonneg owner
  have hle := hbalanced.owner_le owner
  have hsum := uint64_int64 (show 0 ≤ server.spaceHeld + need by omega) (by omega)
  have hshare := uint64_int64 (show 0 ≤ server.spaceHeldBy owner + need by omega) (by omega)
  unfold roomRefuses at hroom
  dsimp only at hroom
  split at hroom
  case isTrue => exact absurd hroom.symm Bool.false_ne_true
  rename_i hfree
  split at hroom
  case isTrue => exact absurd hroom.symm Bool.false_ne_true
  rename_i hunder
  refine ⟨not_lt.1 hfree, ?_, ?_⟩
  · rw [← hsum]
    exact Int.ofNat_le.2 (not_lt.1 hunder)
  · intro hnamed hneed
    rw [← hshare]
    have hwithin := of_decide_eq_false hroom
    exact Int.ofNat_le.2 (not_lt.1 fun hover => hwithin ⟨hnamed, hneed, hover⟩)

theorem Balanced.claim_fits (hbalanced : Balanced server readers) {bytes : Fin (2 ^ 64)}
    (hroom : RoomFits server bytes) (hlow : 0 ≤ need) (hhigh : need < 2 ^ 63)
    (hpassed : roomRefuses server owner need (some bytes) = false) :
    server.spaceHeld + need < 2 ^ 63 := by
  have hunder := (hbalanced.admits hlow hhigh hpassed).room
  unfold RoomFits at hroom
  omega

theorem Balanced.claim (hbalanced : Balanced server (reader ::ₘ others))
    {bytes : Fin (2 ^ 64)} (hroom : RoomFits server bytes) (hlow : 0 ≤ need) (hhigh : need < 2 ^ 63)
    (hclaim : UploadSpace.claim server reader.owner need (some bytes) = some after)
    (howner : later.owner = reader.owner) (hheld : later.held = reader.held + need)
    (hfine : later.Fine) : Balanced after (later ::ₘ others) := by
  unfold UploadSpace.claim at hclaim
  split at hclaim
  case isTrue => cases hclaim
  rename_i hpassed
  obtain rfl := Option.some.inj hclaim
  have hnonneg := hbalanced.nonneg
  have hsmall := hbalanced.claim_fits hroom hlow hhigh (Bool.eq_false_of_not_eq_true hpassed)
  have hspace : int64 (server.spaceHeld + need) = server.spaceHeld + need :=
    int64_of_fits (by omega) hsmall
  refine hbalanced.shift howner ?_ ?_ ?_ hfine ?_
  · dsimp only
    rw [hspace, hheld]
    ring
  · intro owner hnamed
    dsimp only
    have hentry : int64 (server.spaceHeldBy reader.owner + need) =
        server.spaceHeldBy reader.owner + need := by
      have hle := hbalanced.owner_le reader.owner
      have hpositive := hbalanced.owner_nonneg reader.owner
      exact int64_of_fits (by omega) (by omega)
    by_cases hsame : reader.owner = owner
    · subst hsame
      rw [if_pos rfl, hheld]
      split
      case isTrue =>
        rw [update_self, hentry]
        ring
      case isFalse hnothing =>
        have hzero : need = 0 := by
          by_contra hsome
          exact hnothing ⟨hnamed, by omega⟩
        rw [hzero]
        ring
    · rw [if_neg hsame, add_zero]
      split
      · exact update_of_ne (Ne.symm hsame) _ _
      · rfl
  · dsimp only
    split
    case isFalse => exact hbalanced.nameless
    rename_i hnamed
    rw [update_of_ne (Ne.symm hnamed.1)]
    exact hbalanced.nameless
  · dsimp only
    rw [hspace]
    exact hsmall

theorem spaceCheckEvery_fits : 0 ≤ spaceCheckEvery ∧ spaceCheckEvery < 2 ^ 63 := by decide

theorem asks_fits (hleft : reader.left < 2 ^ 63) (hasks : reader.asks = some need) :
    0 ≤ need ∧ need < 2 ^ 63 := by
  unfold SpaceReader.asks at hasks
  split_ifs at hasks with _ hunknown
  · exact Option.some.inj hasks ▸ spaceCheckEvery_fits
  · obtain rfl := Option.some.inj hasks
    exact ⟨not_lt.1 hunknown, hleft⟩
  · exact Option.some.inj hasks ▸ spaceCheckEvery_fits
  · exact Option.some.inj hasks ▸ (by decide)

theorem Balanced.beginRead (hbalanced : Balanced server (reader ::ₘ others)) :
    Balanced (UploadSpace.beginRead server reader).1
      ((UploadSpace.beginRead server reader).2 ::ₘ others) := by
  have hfine := hbalanced.fine reader (mem_cons_self _ _)
  have hclaiming : ∀ (asking : SpaceReader) (need : ℤ), asking.left = reader.left →
      (match asking.asks with
        | some need => ReadPhase.claiming need
        | none => ReadPhase.reading) = .claiming need → 0 ≤ need ∧ need < 2 ^ 63 := by
    intro asking need hleft hphase
    split at hphase
    case h_2 => cases hphase
    rename_i asked hasked
    obtain rfl := ReadPhase.claiming.inj hphase
    exact asks_fits (hleft ▸ hfine.left) hasked
  unfold UploadSpace.beginRead
  dsimp only
  split
  case isFalse =>
    refine hbalanced.same rfl rfl ⟨hfine.held, hfine.left, ?_, nofun⟩
    exact fun need => hclaiming _ need rfl
  rename_i hgive
  have hrest : int64 (reader.held - min reader.last reader.held) =
      reader.held - min reader.last reader.held := by
    have hle := hbalanced.reader_le
    have hfits := hbalanced.fits
    exact int64_of_fits (by omega) (by omega)
  refine hbalanced.unclaim rfl hgive.le hrest ⟨?_, hfine.left, ?_, nofun⟩
  · dsimp only
    rw [hrest]
    omega
  · exact fun need => hclaiming _ need rfl

theorem Balanced.claimRead (hbalanced : Balanced server (reader ::ₘ others))
    (hphase : reader.phase = .claiming need) {free : Option (Fin (2 ^ 64))}
    (hroom : ∀ bytes, free = some bytes → RoomFits server bytes) :
    Balanced (UploadSpace.claimRead server reader need free).1
      ((UploadSpace.claimRead server reader need free).2 ::ₘ others) := by
  have hfine := hbalanced.fine reader (mem_cons_self _ _)
  obtain ⟨hlow, hhigh⟩ := hfine.claiming need hphase
  unfold UploadSpace.claimRead
  split
  case h_1 =>
    refine hbalanced.same rfl rfl ⟨hfine.held, hfine.left, nofun, fun hfinished => ?_⟩
    exact ⟨(hfine.finished hfinished).1, rfl⟩
  rename_i claimed hclaim
  cases free with
  | none => cases hclaim
  | some bytes =>
    have hpassed : roomRefuses server reader.owner need (some bytes) = false := by
      by_contra hrefused
      unfold UploadSpace.claim at hclaim
      rw [if_pos (Bool.eq_true_of_not_eq_false hrefused)] at hclaim
      cases hclaim
    have hsmall := hbalanced.claim_fits (hroom bytes rfl) hlow hhigh hpassed
    have hheld : int64 (reader.held + need) = reader.held + need := by
      have hle := hbalanced.reader_le
      have hnonneg := hfine.held
      exact int64_of_fits (by omega) (by omega)
    refine hbalanced.claim (hroom bytes rfl) hlow hhigh hclaim rfl hheld ⟨?_, hfine.left, nofun, ?_⟩
    · dsimp only
      rw [hheld]
      exact add_nonneg hfine.held hlow
    · intro hfinished
      rw [(hfine.finished hfinished).2] at hphase
      cases hphase

theorem Balanced.endRead (hbalanced : Balanced server (reader ::ₘ others))
    (hphase : reader.phase = .reading) (count : Fin (2 ^ 63)) :
    Balanced server (UploadSpace.endRead reader count ::ₘ others) := by
  have hfine := hbalanced.fine reader (mem_cons_self _ _)
  refine hbalanced.same rfl rfl ⟨hfine.held, ?_, nofun, fun hfinished => ?_⟩
  · show (if 0 < reader.left then max (int64 (reader.left - count)) 0 else reader.left) < 2 ^ 63
    split
    case isFalse => exact hfine.left
    rename_i hknown
    have hcount := count.isLt
    have hleft := hfine.left
    rw [int64_of_fits (by omega) (by omega)]
    omega
  · rw [(hfine.finished hfinished).2] at hphase
    cases hphase

theorem Balanced.finish (hbalanced : Balanced server (reader ::ₘ others))
    (hphase : reader.phase = .idle) :
    Balanced (UploadSpace.finish server reader).1
      ((UploadSpace.finish server reader).2 ::ₘ others) := by
  have hfine := hbalanced.fine reader (mem_cons_self _ _)
  have hdone : SpaceReader.Fine { reader with held := 0, last := 0, finished := true } :=
    ⟨le_rfl, hfine.left, hfine.claiming, fun _ => ⟨rfl, hphase⟩⟩
  unfold UploadSpace.finish
  dsimp only
  split
  case isTrue hholds => exact hbalanced.unclaim rfl hholds.le (sub_self _).symm hdone
  case isFalse hnothing =>
    exact hbalanced.same rfl (le_antisymm hfine.held (not_lt.1 hnothing)) hdone

/-- What a turn meets: room of less than 2^63 bytes wherever it is asked for. -/
def Roomy (server : Server) (_ : SpaceReader) : SpaceEvent → Prop
  | .free (some bytes) => RoomFits server bytes
  | _ => True

theorem Balanced.act {event : SpaceEvent} (hbalanced : Balanced server (reader ::ₘ others))
    (hroomy : Roomy server reader event) :
    Balanced (UploadSpace.act event server reader).shared
      ((UploadSpace.act event server reader).thread ::ₘ others) := by
  unfold UploadSpace.act
  dsimp only
  split
  case h_1 hidle => exact hbalanced.beginRead
  case h_2 hidle => exact hbalanced.finish hidle
  case h_4 count hreading => exact hbalanced.endRead hreading count
  case h_5 => exact hbalanced
  rename_i need bytes hclaiming
  apply hbalanced.claimRead hclaiming
  rintro found rfl
  exact hroomy

end Balance

/-- The counts are the sums of what the bodies hold, never negative, zero once every body is
done, and what is admitted is admitted by the sums themselves. -/
structure Balances (system : SpaceSystem) : Prop where
  held : system.shared.spaceHeld = heldInAll system.threads
  owners : ∀ owner, owner ≠ "" → system.shared.spaceHeldBy owner = heldByOwner owner system.threads
  nonneg : 0 ≤ system.shared.spaceHeld ∧ ∀ owner, 0 ≤ system.shared.spaceHeldBy owner
  returned : (∀ reader ∈ system.threads, reader.finished = true) →
    system.shared.spaceHeld = 0 ∧ ∀ owner, system.shared.spaceHeldBy owner = 0
  admits : ∀ owner need bytes, 0 ≤ need → need < 2 ^ 63 →
    roomRefuses system.shared owner need (some bytes) = false →
    Admits system.shared owner need bytes

theorem Balanced.balances {system : SpaceSystem}
    (hbalanced : Balanced system.shared system.threads) : Balances system where
  held := hbalanced.held
  owners := hbalanced.owners
  nonneg := ⟨hbalanced.nonneg, hbalanced.owner_nonneg⟩
  returned := by
    intro hfinished
    have hnone : system.shared.spaceHeld = 0 := by
      rw [hbalanced.held]
      apply sum_eq_zero
      intro held hheld
      obtain ⟨reader, hreader, rfl⟩ := mem_map.1 hheld
      exact ((hbalanced.fine reader hreader).finished (hfinished reader hreader)).1
    refine ⟨hnone, fun owner => ?_⟩
    exact le_antisymm (hnone ▸ hbalanced.owner_le owner) (hbalanced.owner_nonneg owner)
  admits := fun _ _ _ hlow hhigh hpassed => hbalanced.admits hlow hhigh hpassed

theorem balanced_unused (minFree : Fin (2 ^ 64)) :
    Balanced (unused minFree).shared (unused minFree).threads :=
  ⟨rfl, fun _ _ => rfl, rfl, nofun, show (0 : ℤ) < 2 ^ 63 by decide⟩

theorem fine_newReader (owner : String) (contentLength : Int64) :
    (newReader owner contentLength).Fine :=
  ⟨le_rfl, contentLength.toInt_lt, nofun, nofun⟩

theorem Balanced.start {server : Server} {readers : Multiset SpaceReader}
    (hbalanced : Balanced server readers) (owner : String) (contentLength : Int64) :
    Balanced server (newReader owner contentLength ::ₘ readers) where
  held := by
    rw [heldInAll_cons, hbalanced.held]
    exact (zero_add _).symm
  owners := by
    intro other hnamed
    rw [heldByOwner_cons, hbalanced.owners other hnamed]
    split <;> exact (zero_add _).symm
  nameless := hbalanced.nameless
  fine := by
    intro reader hreader
    rcases mem_cons.1 hreader with rfl | hmem
    · exact fine_newReader owner contentLength
    · exact hbalanced.fine reader hmem
  fits := hbalanced.fits

/-- Bodies come with any principal and any content length, and no claim is judged on a room
of 2^63 bytes and more. -/
abbrev MovesRoomy : SpaceSystem → SpaceMove → Prop :=
  Threads.Meets (fun reader => ∃ owner contentLength, reader = newReader owner contentLength) Roomy

/-- The reservations balance throughout every run in which no claim is judged on a room of
2^63 bytes and more. -/
theorem reservations_balance {minFree : Fin (2 ^ 64)} {moves : List SpaceMove}
    (hmoves : EachStep MovesRoomy next (unused minFree) moves) :
    Always Balances next (unused minFree) moves := by
  have hbalanced : Always (fun system => Balanced system.shared system.threads) next
      (unused minFree) moves := by
    refine Threads.always_inv ?_ ?_ nofun (balanced_unused minFree) hmoves
    · rintro server readers reader hbalanced ⟨owner, contentLength, rfl⟩
      exact hbalanced.start owner contentLength
    · intro server reader others event hbalanced hroomy
      have hafter := hbalanced.act hroomy
      have hstarted : (act event server reader).started = [] := rfl
      rw [hstarted, coe_nil, add_zero]
      exact hafter
  exact hbalanced.mono fun _ hstate => hstate.balances

def defaultMinFreeSpace : Fin (2 ^ 64) := 2 * 2 ^ 30

/-- Three bodies of two principals, whose reads interleave; the second is over before the
first has been read to its end. -/
def threeUploads : List SpaceMove :=
  [.start (newReader "alice" 5), .start (newReader "bob" 7), .turn 0 .read, .turn 1 .read,
    .turn 0 (.free (some (2 ^ 40))), .turn 1 (.free (some (2 ^ 40))),
    .start (newReader "alice" 3), .turn 0 (.delivered 2), .turn 2 .read,
    .turn 2 (.free (some (2 ^ 40))), .turn 1 (.delivered 7), .turn 1 .read,
    .turn 1 (.delivered 0), .turn 1 .done]

theorem threeUploads_balance :
    EachStep MovesRoomy next (unused defaultMinFreeSpace) threeUploads ∧
      Always Balances next (unused defaultMinFreeSpace) threeUploads ∧
      ((threeUploads.take 10).foldl next (unused defaultMinFreeSpace)).shared.spaceHeld = 15 ∧
      (threeUploads.foldl next (unused defaultMinFreeSpace)).shared.spaceHeldBy "alice" = 8 ∧
      (threeUploads.foldl next (unused defaultMinFreeSpace)).shared.spaceHeldBy "bob" = 0 := by
  have hroom : (2 : ℕ) ^ 40 < 2 ^ 63 + 2 * 2 ^ 30 := by decide
  have hmoves : EachStep MovesRoomy next (unused defaultMinFreeSpace) threeUploads :=
    ⟨⟨"alice", 5, rfl⟩, ⟨"bob", 7, rfl⟩, fun _ _ => trivial, fun _ _ => trivial, fun _ _ => hroom,
      fun _ _ => hroom, ⟨"alice", 3, rfl⟩, fun _ _ => trivial, fun _ _ => trivial, fun _ _ => hroom,
      fun _ _ => trivial, fun _ _ => trivial, fun _ _ => trivial, fun _ _ => trivial, trivial⟩
  exact ⟨hmoves, reservations_balance hmoves, by decide +kernel⟩

/-- Two bodies of 2^63 - 1 and 2^62 bytes on a volume with almost 2^64 bytes free. -/
def vastUploads : List SpaceMove :=
  [.start (newReader "" Int64.maxValue), .start (newReader "" (2 ^ 62)), .turn 0 .read,
    .turn 1 .read, .turn 0 (.free (some (2 ^ 64 - 1))), .turn 1 (.free (some (2 ^ 64 - 1)))]

theorem vastUploads_come_round :
    EachStep (Threads.Meets (fun reader => ∃ owner contentLength,
        reader = newReader owner contentLength) fun _ _ _ => True) next
        (unused defaultMinFreeSpace) vastUploads ∧
      ¬ Always Balances next (unused defaultMinFreeSpace) vastUploads := by
  refine ⟨⟨⟨_, _, rfl⟩, ⟨_, _, rfl⟩, fun _ _ => trivial, fun _ _ => trivial, fun _ _ => trivial,
    fun _ _ => trivial, trivial⟩, ?_⟩
  intro halways
  have hnegative : (vastUploads.foldl next (unused defaultMinFreeSpace)).shared.spaceHeld < 0 := by
    decide +kernel
  exact absurd halways.last.nonneg.1 (not_le.2 hnegative)

end K3sm.Registry.UploadSpace

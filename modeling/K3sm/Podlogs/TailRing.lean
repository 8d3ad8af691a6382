import Mathlib.Data.List.DropRight

/-!
# The tail of a log

The message of a container that terminated is the end of its log.  The log is written into a
ring of bytes, which wraps at its capacity; a write that fills the whole ring is copied from
its end at once.
-/

namespace K3sm.Podlogs

open List

structure TailRing where
  buf : List UInt8
  pos : ℕ
  full : Bool

/-- A capacity below zero is none. -/
def newTailRing (n : ℤ) : TailRing := ⟨replicate n.toNat 0, 0, false⟩

namespace TailRing

/-- The round of `Write`'s loop. -/
def store (ring : TailRing) (byte : UInt8) : TailRing where
  buf := ring.buf.set ring.pos byte
  pos := if ring.pos + 1 = ring.buf.length then 0 else ring.pos + 1
  full := ring.full || ring.pos + 1 = ring.buf.length

/-- The ring after `Write`, and the count that it returns. -/
def write (ring : TailRing) (bytes : List UInt8) : TailRing × ℕ :=
  if ring.buf.length = 0 then (ring, bytes.length)
  else if ring.buf.length ≤ bytes.length then
    (⟨bytes.drop (bytes.length - ring.buf.length), 0, true⟩, bytes.length)
  else (bytes.foldl store ring, bytes.length)

def bytes (ring : TailRing) : List UInt8 :=
  if ring.full then ring.buf.drop ring.pos ++ ring.buf.take ring.pos else ring.buf.take ring.pos

/-- The ring shows the end of what was written. -/
structure Keeps (ring : TailRing) (written : List UInt8) : Prop where
  within : ring.buf.length ≠ 0 → ring.pos < ring.buf.length
  tail : ring.bytes = written.rtake ring.buf.length

variable {ring : TailRing} {written : List UInt8}

/-- A byte takes the place of the oldest one once the ring is full. -/
theorem bytes_store (hpos : ring.pos < ring.buf.length) (byte : UInt8) :
    (ring.store byte).bytes = (if ring.full then ring.bytes.drop 1 else ring.bytes) ++ [byte] := by
  obtain ⟨buf, pos, full⟩ := ring
  obtain ⟨front, old, back, rfl, rfl⟩ : ∃ front old back, buf = front ++ old :: back ∧
      pos = front.length := by
    refine ⟨buf.take pos, buf[pos], buf.drop (pos + 1), ?_, ?_⟩
    · rw [getElem_cons_drop, take_append_drop]
    · exact (length_take_of_le hpos.le).symm
  cases back <;> cases full <;> simp [store, bytes, take_length_add_append]

theorem Keeps.store (hkeeps : ring.Keeps written) (hsome : ring.buf.length ≠ 0) (byte : UInt8) :
    (ring.store byte).Keeps (written ++ [byte]) where
  within := by
    intro _
    have hpos := hkeeps.within hsome
    simp only [TailRing.store, length_set]
    split_ifs <;> omega
  tail := by
    obtain ⟨room, hroom⟩ := Nat.exists_eq_succ_of_ne_zero hsome
    have hpos := hkeeps.within hsome
    have htail := hkeeps.tail
    have hlength : (if ring.full then ring.buf.length else ring.pos) =
        min ring.buf.length written.length := by
      have hsame := congrArg length htail
      simp only [bytes, rtake, length_drop] at hsame
      cases hfull : ring.full <;> simp only [hfull, if_true, if_false, Bool.false_eq_true,
        length_append, length_drop, length_take] at hsame ⊢ <;> omega
    rw [bytes_store hpos, TailRing.store, length_set, hroom, rtake_concat_succ, htail, rtake, rtake]
    cases hfull : ring.full <;> simp only [hfull, if_true, if_false,
      Bool.false_eq_true] at hlength ⊢
    · rw [show written.length - ring.buf.length = 0 by omega,
        show written.length - room = 0 by omega]
    · rw [drop_drop, show written.length - ring.buf.length + 1 = written.length - room by omega]

theorem keeps_nil (hfull : ring.full = false) (hpos : ring.pos = 0) : ring.Keeps [] where
  within := fun hsome => by omega
  tail := by simp [bytes, hfull, hpos]

theorem Keeps.write (hkeeps : ring.Keeps written) (bytes : List UInt8) :
    (ring.write bytes).1.Keeps (written ++ bytes) ∧
      (ring.write bytes).1.buf.length = ring.buf.length := by
  unfold TailRing.write
  split_ifs with hnone hlarge
  · have hempty := length_eq_zero_iff.1 hnone
    exact ⟨⟨fun hsome => absurd hnone hsome, by simp [TailRing.bytes, hempty]⟩, rfl⟩
  · refine ⟨⟨fun hsome => Nat.pos_of_ne_zero hsome, ?_⟩, by simp; omega⟩
    have hroom : bytes.length - (bytes.length - ring.buf.length) = ring.buf.length := by omega
    simp only [TailRing.bytes, rtake, if_true, drop_zero, take_zero, append_nil, length_drop, hroom,
      length_append]
    rw [show written.length + bytes.length - ring.buf.length =
      written.length + (bytes.length - ring.buf.length) by omega, drop_length_add_append]
  · clear hlarge
    induction bytes generalizing ring written with
    | nil => exact ⟨by simpa using hkeeps, rfl⟩
    | cons byte bytes ih =>
      have hlength : (ring.store byte).buf.length = ring.buf.length := length_set
      have hnext := ih (hkeeps.store hnone byte) (hlength ▸ hnone)
      rwa [append_assoc, hlength] at hnext

end TailRing

/-- After every write the ring shows the last bytes, in order, of all that was written. -/
theorem tail_ring_keeps_end (n : ℤ) (writes : List (List UInt8)) :
    (writes.foldl (fun ring bytes => (ring.write bytes).1) (newTailRing n)).bytes =
      writes.flatten.rtake (min n.toNat writes.flatten.length) := by
  have hrun : ∀ (ring : TailRing) (written : List UInt8), ring.Keeps written →
      ring.buf.length = n.toNat →
      (writes.foldl (fun ring bytes => (ring.write bytes).1) ring).bytes =
        (written ++ writes.flatten).rtake n.toNat := by
    induction writes with
    | nil =>
      intro ring written hkeeps hlength
      rw [← hlength, flatten_nil, append_nil]
      exact hkeeps.tail
    | cons bytes writes ih =>
      intro ring written hkeeps hlength
      obtain ⟨hnext, hsame⟩ := hkeeps.write bytes
      rw [flatten_cons, ← append_assoc]
      exact ih _ _ hnext (hsame.trans hlength)
  rw [hrun (newTailRing n) [] (TailRing.keeps_nil rfl rfl) length_replicate,
    nil_append, rtake, rtake]
  congr 1
  omega

end K3sm.Podlogs

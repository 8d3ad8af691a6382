import Mathlib

/-!
# Reading and copying

A reader hands out its bytes in pieces of its own choosing, an empty one included, and then ends
for good: with the end of the file or with an error, which may come together with the last bytes.
A copy reads into a buffer and writes each piece out.
-/

namespace K3sm.Core.ByteSource

open List

variable {Byte : Type*}

inductive Ending where
  | eof
  | failed
  deriving DecidableEq

/-- A reader: the pieces it delivers, and how it ends. -/
structure Source (Byte : Type*) where
  pieces : List (List Byte)
  ending : Ending
  together : Bool

def Source.bytes (source : Source Byte) : List Byte := source.pieces.flatten

/-- `Read` into a buffer of that size: the bytes, and the error if there is one. -/
def Source.read (source : Source Byte) (size : ℕ) : (List Byte × Option Ending) × Source Byte :=
  match source.pieces with
  | [] => (([], some source.ending), source)
  | piece :: rest =>
    let pieces := if piece.length ≤ size then rest else piece.drop size :: rest
    ((piece.take size, if source.together ∧ pieces = [] then some source.ending else none),
      { source with pieces := pieces })

/-- How many reads there can be, at most, before the last. -/
def Source.measure (source : Source Byte) : ℕ :=
  (source.pieces.map fun piece => piece.length + 1).sum

def readLimited (left : Option ℕ) (source : Source Byte) (size : ℕ) :
    (List Byte × Option Ending) × Source Byte :=
  match left with
  | none => source.read size
  | some 0 => (([], some .eof), source)
  | some left => source.read (min size left)

/-- A file that is appended to.  Each write goes through or, with `some count`, fails after
that many bytes; after the list they all go through. -/
structure Sink (Byte : Type*) where
  content : List Byte
  faults : List (Option ℕ)

/-- `Write`: how many bytes were written, and whether that was all. -/
def Sink.write (sink : Sink Byte) (bytes : List Byte) : (ℕ × Bool) × Sink Byte :=
  match sink.faults with
  | some count :: faults =>
    ((min count bytes.length, false), ⟨sink.content ++ bytes.take count, faults⟩)
  | none :: faults => ((bytes.length, true), ⟨sink.content ++ bytes, faults⟩)
  | [] => ((bytes.length, true), ⟨sink.content ++ bytes, []⟩)

inductive CopyError where
  | read
  | write
  deriving DecidableEq

structure Copied (Byte : Type*) where
  written : ℕ
  error : Option CopyError
  source : Source Byte
  sink : Sink Byte

def bufferSize : ℕ := 32 * 1024

section Read

variable {source after : Source Byte} {size : ℕ} {bytes : List Byte} {error : Option Ending}

theorem read_bytes (hread : source.read size = ((bytes, error), after)) :
    source.bytes = bytes ++ after.bytes ∧ after.ending = source.ending := by
  unfold Source.read at hread
  unfold Source.bytes
  split at hread
  case h_1 hpieces =>
    obtain ⟨hout, rfl⟩ := Prod.mk.inj hread
    obtain ⟨rfl, -⟩ := Prod.mk.inj hout
    exact ⟨rfl, rfl⟩
  rename_i piece rest hpieces
  obtain ⟨hout, rfl⟩ := Prod.mk.inj hread
  obtain ⟨rfl, -⟩ := Prod.mk.inj hout
  refine ⟨?_, rfl⟩
  rw [hpieces, flatten_cons]
  dsimp only
  split
  case isTrue hshort => rw [take_of_length_le hshort]
  case isFalse => rw [flatten_cons, ← append_assoc, take_append_drop]

theorem read_length (hread : source.read size = ((bytes, error), after)) : bytes.length ≤ size := by
  unfold Source.read at hread
  split at hread
  case h_1 =>
    obtain ⟨rfl, -⟩ := Prod.mk.inj (Prod.mk.inj hread).1
    exact Nat.zero_le _
  case h_2 =>
    obtain ⟨rfl, -⟩ := Prod.mk.inj (Prod.mk.inj hread).1
    exact length_take_le _ _

theorem read_error {ending : Ending} (hread : source.read size = ((bytes, some ending), after)) :
    ending = source.ending ∧ after.bytes = [] := by
  unfold Source.read at hread
  unfold Source.bytes
  split at hread
  case h_1 hpieces =>
    obtain ⟨hout, rfl⟩ := Prod.mk.inj hread
    obtain ⟨-, hending⟩ := Prod.mk.inj hout
    rw [hpieces]
    exact ⟨(Option.some.inj hending).symm, rfl⟩
  case h_2 piece rest hpieces =>
    obtain ⟨hout, rfl⟩ := Prod.mk.inj hread
    obtain ⟨-, hending⟩ := Prod.mk.inj hout
    obtain ⟨hlast, hsame⟩ := Option.ite_none_right_eq_some.1 hending
    refine ⟨(Option.some.inj hsame).symm, ?_⟩
    dsimp only
    rw [hlast.2, flatten_nil]

theorem read_measure (hsize : 0 < size) (hread : source.read size = ((bytes, none), after)) :
    after.measure < source.measure := by
  unfold Source.read at hread
  unfold Source.measure
  split at hread
  case h_1 => exact absurd (Prod.mk.inj (Prod.mk.inj hread).1).2 nofun
  rename_i piece rest hpieces
  obtain ⟨-, rfl⟩ := Prod.mk.inj hread
  rw [hpieces, map_cons, sum_cons]
  dsimp only
  split
  case isTrue => omega
  rw [map_cons, sum_cons, length_drop]
  omega

variable {left : Option ℕ}

theorem readLimited_bytes (hread : readLimited left source size = ((bytes, error), after)) :
    source.bytes = bytes ++ after.bytes ∧ after.ending = source.ending ∧
      ∀ limit, left = some limit → bytes.length ≤ limit := by
  unfold readLimited at hread
  split at hread
  case h_1 =>
    obtain ⟨hbytes, hending⟩ := read_bytes hread
    exact ⟨hbytes, hending, nofun⟩
  case h_2 =>
    obtain ⟨hout, rfl⟩ := Prod.mk.inj hread
    obtain ⟨rfl, -⟩ := Prod.mk.inj hout
    exact ⟨rfl, rfl, fun _ _ => Nat.zero_le _⟩
  case h_3 limit _ =>
    obtain ⟨hbytes, hending⟩ := read_bytes hread
    refine ⟨hbytes, hending, ?_⟩
    rintro _ ⟨⟩
    exact (read_length hread).trans (min_le_right _ _)

theorem readLimited_error {ending : Ending}
    (hread : readLimited left source size = ((bytes, some ending), after)) :
    left = some 0 ∧ bytes = [] ∧ ending = .eof ∨ ending = source.ending ∧ after.bytes = [] := by
  unfold readLimited at hread
  split at hread
  case h_1 => exact .inr (read_error hread)
  case h_3 => exact .inr (read_error hread)
  obtain ⟨rfl, hending⟩ := Prod.mk.inj (Prod.mk.inj hread).1
  exact .inl ⟨rfl, rfl, (Option.some.inj hending).symm⟩

theorem readLimited_measure (hsize : 0 < size)
    (hread : readLimited left source size = ((bytes, none), after)) :
    after.measure < source.measure := by
  unfold readLimited at hread
  split at hread
  case h_1 => exact read_measure hsize hread
  case h_2 => exact absurd (Prod.mk.inj (Prod.mk.inj hread).1).2 nofun
  rename_i limit hlimit
  have hpositive : 0 < limit := Nat.pos_of_ne_zero fun hzero => hlimit (by rw [hzero])
  exact read_measure (lt_min hsize hpositive) hread

end Read

theorem write_content {sink after : Sink Byte} {bytes : List Byte} {count : ℕ} {ok : Bool}
    (hwrite : sink.write bytes = ((count, ok), after)) :
    ∃ taken, taken <+: bytes ∧ after.content = sink.content ++ taken ∧ count = taken.length ∧
      (ok = true → taken = bytes) := by
  unfold Sink.write at hwrite
  split at hwrite
  case h_1 limit faults _ =>
    obtain ⟨hout, rfl⟩ := Prod.mk.inj hwrite
    obtain ⟨rfl, rfl⟩ := Prod.mk.inj hout
    exact ⟨bytes.take limit, take_prefix _ _, rfl, by rw [length_take], nofun⟩
  case h_2 =>
    obtain ⟨hout, rfl⟩ := Prod.mk.inj hwrite
    obtain ⟨rfl, rfl⟩ := Prod.mk.inj hout
    exact ⟨bytes, prefix_refl _, rfl, rfl, fun _ => rfl⟩
  case h_3 =>
    obtain ⟨hout, rfl⟩ := Prod.mk.inj hwrite
    obtain ⟨rfl, rfl⟩ := Prod.mk.inj hout
    exact ⟨bytes, prefix_refl _, rfl, rfl, fun _ => rfl⟩

/-- A copy at work: the bytes the limit leaves, and what has been written. -/
structure Copying (Byte : Type*) where
  left : Option ℕ
  source : Source Byte
  sink : Sink Byte
  written : ℕ

def Copying.turn (state : Copying Byte) : Option Ending → Copied Byte ⊕ Copying Byte
  | none => .inr state
  | some .eof => .inl ⟨state.written, none, state.source, state.sink⟩
  | some .failed => .inl ⟨state.written, some .read, state.source, state.sink⟩

/-- A round of the loop of `io.Copy`.  The buffer is never larger than the limit, which the
limited reader cannot tell. -/
def Copying.round (state : Copying Byte) : Copied Byte ⊕ Copying Byte :=
  let ((bytes, error), rest) := readLimited state.left state.source bufferSize
  if bytes = [] then Copying.turn { state with source := rest } error
  else
    match state.sink.write bytes with
    | ((count, false), sink) => .inl ⟨state.written + count, some .write, rest, sink⟩
    | ((count, true), sink) =>
      Copying.turn ⟨state.left.map (· - bytes.length), rest, sink, state.written + count⟩ error

theorem turn_inr {state next : Copying Byte} {error : Option Ending}
    (hturn : state.turn error = .inr next) : error = none ∧ state = next := by
  rcases error with _ | _ | _
  · exact ⟨rfl, Sum.inr.inj hturn⟩
  · exact absurd hturn nofun
  · exact absurd hturn nofun

theorem turn_inl {state : Copying Byte} {copied : Copied Byte} {error : Option Ending}
    (hturn : state.turn error = .inl copied) :
    ∃ ending failure, error = some ending ∧
      copied = ⟨state.written, failure, state.source, state.sink⟩ ∧
      (failure = none → ending = .eof) := by
  rcases error with _ | _ | _
  · exact absurd hturn nofun
  · exact ⟨_, none, rfl, (Sum.inl.inj hturn).symm, fun _ => rfl⟩
  · exact ⟨_, some .read, rfl, (Sum.inl.inj hturn).symm, nofun⟩

theorem round_inr {state next : Copying Byte} (hround : state.round = .inr next) :
    ∃ bytes rest, readLimited state.left state.source bufferSize = ((bytes, none), rest) ∧
      next.left = state.left.map (· - bytes.length) ∧ next.source = rest ∧
      next.sink.content = state.sink.content ++ bytes ∧
      next.written = state.written + bytes.length := by
  unfold Copying.round at hround
  rcases hread : readLimited state.left state.source bufferSize with ⟨⟨bytes, error⟩, rest⟩
  rw [hread] at hround
  dsimp only at hround
  split at hround
  case isTrue hempty =>
    obtain ⟨rfl, rfl⟩ := turn_inr hround
    subst hempty
    exact ⟨[], rest, rfl, by simp, rfl, by simp, rfl⟩
  rcases hwrite : state.sink.write bytes with ⟨⟨count, _ | _⟩, sink⟩
  · rw [hwrite] at hround
    exact absurd hround nofun
  · rw [hwrite] at hround
    obtain ⟨rfl, rfl⟩ := turn_inr hround
    obtain ⟨taken, -, hcontent, hcount, hall⟩ := write_content hwrite
    obtain rfl := hall rfl
    exact ⟨taken, rest, rfl, rfl, rfl, hcontent, by rw [hcount]⟩

/-- The loop of `io.Copy`. -/
def copy (state : Copying Byte) : Copied Byte :=
  match _hround : state.round with
  | .inl copied => copied
  | .inr next => copy next
termination_by state.source.measure
decreasing_by
  obtain ⟨bytes, rest, hread, -, hsource, -⟩ := round_inr _hround
  rw [hsource]
  exact readLimited_measure (by decide) hread

/-- `io.ReadFull` of one byte: the error where there is none to be had. -/
def probe (source : Source Byte) : Option Ending :=
  match _hread : source.read 1 with
  | ((_ :: _, _), _) => none
  | (([], some ending), _) => some ending
  | (([], none), after) => probe after
termination_by source.measure
decreasing_by exact read_measure Nat.one_pos _hread

section Copy

variable {after : Sink Byte} {bytes : List Byte}

theorem probe_spec (source : Source Byte) :
    probe source = none ∧ source.bytes ≠ [] ∨
      probe source = some source.ending ∧ source.bytes = [] := by
  fun_induction probe source with
  | case1 source byte bytes error after hread =>
    obtain ⟨hbytes, -⟩ := read_bytes hread
    exact .inl ⟨rfl, by rw [hbytes]; exact nofun⟩
  | case2 source ending after hread =>
    obtain ⟨hbytes, -⟩ := read_bytes hread
    obtain ⟨rfl, hafter⟩ := read_error hread
    exact .inr ⟨rfl, by rw [hbytes, hafter]; rfl⟩
  | case3 source after hread ih =>
    obtain ⟨hbytes, hending⟩ := read_bytes hread
    rwa [hbytes, ← hending]

/-- What a copy has done: it has appended the first bytes of the reader, and without an error it
stopped because it reached the limit or the end of the file. -/
structure Copies (state : Copying Byte) (copied : Copied Byte) (taken : List Byte) : Prop where
  front : taken <+: state.source.bytes
  content : copied.sink.content = state.sink.content ++ taken
  written : copied.written = state.written + taken.length
  limited : ∀ limit, state.left = some limit → taken.length ≤ limit
  rest : copied.error = none → state.source.bytes = taken ++ copied.source.bytes
  ending : copied.source.ending = state.source.ending
  stopped : copied.error = none →
    state.left = some taken.length ∨ copied.source.bytes = [] ∧ state.source.ending = .eof

variable {state next : Copying Byte} {copied : Copied Byte}

theorem copies_last {ending : Ending} {rest : Source Byte} {failure : Option CopyError}
    (hread : readLimited state.left state.source bufferSize = ((bytes, some ending), rest))
    (hcontent : after.content = state.sink.content ++ bytes)
    (hending : failure = none → ending = .eof) :
    Copies state ⟨state.written + bytes.length, failure, rest, after⟩ bytes := by
  obtain ⟨hbytes, hsame, hlimit⟩ := readLimited_bytes hread
  refine ⟨⟨rest.bytes, hbytes.symm⟩, hcontent, rfl, hlimit, fun _ => hbytes, hsame, ?_⟩
  intro hnone
  rcases readLimited_error hread with ⟨hleft, rfl, -⟩ | ⟨hreader, hrest⟩
  · exact .inl hleft
  · exact .inr ⟨hrest, hreader ▸ hending hnone⟩

theorem round_inl (hround : state.round = .inl copied) : ∃ taken, Copies state copied taken := by
  unfold Copying.round at hround
  rcases hread : readLimited state.left state.source bufferSize with ⟨⟨bytes, error⟩, rest⟩
  rw [hread] at hround
  dsimp only at hround
  split at hround
  case isTrue hempty =>
    obtain ⟨ending, failure, rfl, rfl, hending⟩ := turn_inl hround
    subst hempty
    exact ⟨[], copies_last hread (append_nil _).symm hending⟩
  rcases hwrite : state.sink.write bytes with ⟨⟨count, _ | _⟩, sink⟩
  · rw [hwrite] at hround
    obtain rfl := Sum.inl.inj hround
    obtain ⟨taken, hfront, hcontent, hcount, -⟩ := write_content hwrite
    obtain ⟨hbytes, hsame, hlimit⟩ := readLimited_bytes hread
    refine ⟨taken, ?_, hcontent, by rw [hcount], ?_, nofun, hsame, nofun⟩
    · rw [hbytes]
      exact hfront.trans (prefix_append _ _)
    · intro limit hleft
      exact hfront.length_le.trans (hlimit limit hleft)
  · rw [hwrite] at hround
    obtain ⟨ending, failure, rfl, rfl, hending⟩ := turn_inl hround
    obtain ⟨taken, -, hcontent, rfl, hall⟩ := write_content hwrite
    obtain rfl := hall rfl
    exact ⟨taken, copies_last hread hcontent hending⟩

theorem Copies.round {taken : List Byte} (hround : state.round = .inr next)
    (hcopies : Copies next copied taken) : ∃ taken, Copies state copied taken := by
  obtain ⟨bytes, rest, hread, hleft, rfl, hcontent, hwritten⟩ := round_inr hround
  obtain ⟨hbytes, hsame, hlimit⟩ := readLimited_bytes hread
  refine ⟨bytes ++ taken, ?_, ?_, ?_, ?_, ?_, hcopies.ending.trans hsame, ?_⟩
  · rw [hbytes, prefix_append_right_inj]
    exact hcopies.front
  · rw [hcopies.content, hcontent, append_assoc]
  · rw [hcopies.written, hwritten, length_append, Nat.add_assoc]
  · intro limit hlimited
    have hfirst := hlimit limit hlimited
    have hrest := hcopies.limited (limit - bytes.length) (by rw [hleft, hlimited]; rfl)
    rw [length_append]
    omega
  · intro hnone
    rw [hbytes, append_assoc, hcopies.rest hnone]
  intro hnone
  rcases hcopies.stopped hnone with hstopped | ⟨hend, hending⟩
  · left
    rw [hleft] at hstopped
    obtain ⟨limit, hlimited, hlength⟩ := Option.map_eq_some_iff.1 hstopped
    have hfirst := hlimit limit hlimited
    rw [hlimited, length_append]
    congr 1
    omega
  · exact .inr ⟨hend, hsame ▸ hending⟩

theorem copy_spec (state : Copying Byte) : ∃ taken, Copies state (copy state) taken := by
  fun_induction copy state with
  | case1 state copied hround => exact round_inl hround
  | case2 state next hround ih =>
    obtain ⟨taken, hcopies⟩ := ih
    exact hcopies.round hround

end Copy

end K3sm.Core.ByteSource

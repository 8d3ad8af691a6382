import K3sm.Core.Run
import K3sm.Registry.PruneClosure

/-!
# A prune among pushes

A prune plans again just before each delete and makes the delete conditional on the state of the
index it planned from, which the server compares under the repository's lock.  That guards what
changes the index.  A push of a manifest that has a row already, by its digest, changes nothing,
and pushes that move a tag there and back restore the index they found: neither stops the delete.
-/

namespace K3sm.Registry.Prune

open K3sm.Core List
open K3sm.Registry.Gc (Time maxManifestSize)

variable {Bytes State : Type}

inductive Ref where
  | digest (digest : Digest)
  | tag (tag : String)
  deriving DecidableEq

/-- The descriptor `PutManifestChecked` records; none where the body does not hash to the
digest. -/
def descriptorOf (codec : Codec Bytes) (mediaType : Text) (body : Bytes) : Ref → Option Descriptor
  | .digest digest =>
    if codec.hashesTo body digest then some ⟨mediaType, digest, codec.len body⟩ else none
  | .tag _ => some ⟨mediaType, .sha256 (codec.sha256 body), codec.len body⟩

def putRow (rows : List Row) (desc : Descriptor) : Ref → List Row
  | .digest _ => (putUntagged rows desc).1
  | .tag tag => (putTagged rows desc tag).1

/-- The children an index row names; none where the row cannot be read. -/
def indexChildren (codec : Codec Bytes) (blob : Digest → Option (BlobFile Bytes)) (row : Row) :
    Option (List Digest) := do
  let body ← storeManifest codec [row] blob row.digest
  let index ← (codec.json body).bind (decodeInto decodeIndexMember)
  return (sliceElements index.manifests).map Descriptor.digest

/-- `notNamedByIndex`: no other index names the digest, and all of them can be read.  Of the
rows of one digest the first of an index type is read. -/
def notNamedByIndex (codec : Codec Bytes) (blob : Digest → Option (BlobFile Bytes))
    (rows : List Row) (digest : Digest) : Bool :=
  let indexes := rows.filter fun row => isIndexType row.mediaType && row.digest != digest
  (indexes.map (·.digest)).eraseDups.all fun index =>
    match indexes.find? (·.digest == index) with
    | none => true
    | some row =>
      match indexChildren codec blob row with
      | none => false
      | some children => digest ∉ children

/-- A conditional DELETE by digest: none where it is refused. -/
def deleteIfMatch [DecidableEq State] (env : Env Bytes State)
    (blob : Digest → Option (BlobFile Bytes)) (rows : List Row) (digest : Digest)
    (state : State) : Option (List Row) :=
  if rows.any (·.digest == digest) = false then none
  else if env.indexState rows ≠ state then none
  else if isTagged rows digest then none
  else if notNamedByIndex env.toCodec blob rows digest = false then none
  else deleteDigest rows digest

/-- A manifest PUT: what it has still to record, whether the next body is written, the digests
recorded, and those of them whose row a prune has deleted since. -/
structure Put (Bytes : Type) where
  mediaType : Text
  body : Bytes
  todo : List Ref
  touched : Bool
  done : List Digest
  removed : List Digest

/-- Where the prune is with the manifest it is about to delete. -/
inductive Stage (State : Type) where
  | idle
  | begun (target : Digest) (now : Time)
  | reading (target : Digest) (now : Time) (rows : List Row) (todo : List Digest)
      (links : Option Links) (read : List (Digest × (Links × Time)))
  | decided (target : Digest) (state : State)

/-- `acked` has the digests of the PUTs that were acknowledged since the re-check began, and
`lost` those that were acknowledged and whose row a prune has deleted. -/
structure World (Bytes State : Type) where
  name : String
  rows : List Row
  blob : Digest → Option (BlobFile Bytes)
  puts : List (Put Bytes)
  stage : Stage State
  acked : List Digest
  lost : List Digest

/-- A step of a push, of a prune's re-check or of its delete. -/
inductive Op (Bytes : Type) where
  | put (mediaType : Text) (body : Bytes) (refs : List Ref)
  | writeBlob (index : ℕ) (time : Time)
  | writeIndex (index : ℕ)
  | acknowledge (index : ℕ)
  | abandon (index : ℕ)
  | recheck (target : Digest) (now : Time)
  | readIndex
  | readBody
  | stat
  | decide
  | delete
  | giveUp

def Put.next (codec : Codec Bytes) (put : Put Bytes) : Option (Ref × Descriptor) :=
  match put.todo with
  | [] => none
  | ref :: _ => (descriptorOf codec put.mediaType put.body ref).map fun desc => (ref, desc)

/-- `writeBlob`: the blob is there, and its grace starts again. -/
def World.writesBlob (codec : Codec Bytes) (world : World Bytes State) (index : ℕ) (time : Time) :
    World Bytes State :=
  match world.puts[index]? with
  | none => world
  | some put =>
    match put.next codec with
    | none => world
    | some (_, desc) =>
      { world with
        blob := Function.update world.blob desc.digest (some ⟨put.body, time⟩)
        puts := world.puts.set index { put with touched := true } }

/-- `updateIndex` of a PUT whose body has been written. -/
def World.writesIndex (codec : Codec Bytes) (world : World Bytes State) (index : ℕ) :
    World Bytes State :=
  match world.puts[index]? with
  | none => world
  | some put =>
    match put.touched, put.next codec with
    | true, some (ref, desc) =>
      { world with
        rows := putRow world.rows desc ref
        puts := world.puts.set index { put with
          todo := put.todo.tail
          touched := false
          done := desc.digest :: put.done } }
    | _, _ => world

def World.acknowledges (world : World Bytes State) (index : ℕ) : World Bytes State :=
  match world.puts[index]? with
  | none => world
  | some put =>
    if put.todo = [] then
      { world with
        puts := world.puts.eraseIdx index
        acked := put.done ++ world.acked
        lost := put.removed ++ world.lost }
    else world

def lookup (read : List (Digest × (Links × Time))) (digest : Digest) : Option (Links × Time) :=
  (read.find? (·.1 == digest)).map Prod.snd

section Steps

variable [DecidableEq State] (env : Env Bytes State) (world : World Bytes State)

/-- The re-check's next read: of a body, checked against the index as it is now. -/
def World.readsBody : World Bytes State :=
  match world.stage with
  | .reading target now rows (digest :: todo) none read =>
    match (storeManifest env.toCodec world.rows world.blob digest).bind fun body =>
        (env.json body).bind decodeLinks with
    | none => { world with stage := .idle }
    | some links =>
      { world with stage := .reading target now rows (digest :: todo) (some links) read }
  | _ => world

/-- The modification time of the blob whose body was read. -/
def World.stats : World Bytes State :=
  match world.stage with
  | .reading target now rows (digest :: todo) (some links) read =>
    match world.blob digest with
    | none => { world with stage := .idle }
    | some file =>
      { world with
        stage := .reading target now rows todo none (read ++ [(digest, (links, file.modTime))]) }
  | _ => world

def World.decides : World Bytes State :=
  match world.stage with
  | .reading target now rows [] none read =>
    match Prune.recheck (planIndex env world.name rows (lookup read) now) target with
    | .ok state => { world with stage := .decided target state }
    | .error _ => { world with stage := .idle }
  | _ => world

def World.deletes : World Bytes State :=
  match world.stage with
  | .decided target state =>
    match deleteIfMatch env world.blob world.rows target state with
    | none => { world with stage := .idle }
    | some rows =>
      { world with
        stage := .idle
        rows := rows
        puts := world.puts.map fun put =>
          if target ∈ put.done then { put with removed := target :: put.removed } else put
        lost := world.acked.filter (· == target) ++ world.lost }
  | _ => world

def next (world : World Bytes State) : Op Bytes → World Bytes State
  | .put mediaType body refs =>
    { world with puts := world.puts ++ [⟨mediaType, body, refs, false, [], []⟩] }
  | .writeBlob index time => world.writesBlob env.toCodec index time
  | .writeIndex index => world.writesIndex env.toCodec index
  | .acknowledge index => world.acknowledges index
  | .abandon index => { world with puts := world.puts.eraseIdx index }
  | .recheck target now =>
    match world.stage with
    | .idle => { world with stage := .begun target now, acked := [] }
    | _ => world
  | .readIndex =>
    match world.stage with
    | .begun target now =>
      { world with stage := .reading target now world.rows (order world.rows) none [] }
    | _ => world
  | .readBody => world.readsBody env
  | .stat => world.stats
  | .decide => world.decides env
  | .delete => world.deletes env
  | .giveUp => { world with stage := .idle }

end Steps

section Condition

variable [DecidableEq State] (env : Env Bytes State)

def Put.hasTouched (codec : Codec Bytes) (put : Put Bytes) (digest : Digest) : Bool :=
  decide (digest ∈ put.done) ||
    (put.touched && (put.next codec).any fun record => record.2.digest == digest)

/-- A PUT has recorded the digest: one that is in flight, or one that was acknowledged since
the re-check began. -/
def World.isPut (world : World Bytes State) (digest : Digest) : Bool :=
  decide (digest ∈ world.acked) || world.puts.any fun put => decide (digest ∈ put.done)

def World.isYoung (world : World Bytes State) (now : Time) (digest : Digest) : Bool :=
  (world.blob digest).all fun file => decide (now - file.modTime < pruneGrace)

/-- The re-check found the target young, or a push of it has changed the index. -/
def Shielded (world : World Bytes State) (target : Digest) (now : Time) (rows : List Row)
    (read : List (Digest × (Links × Time))) : Prop :=
  ∀ entry ∈ read, entry.1 = target → now - entry.2.2 < pruneGrace ∨
    (world.isPut target = true → world.rows ≠ rows)

/-- A delete that comes of the re-check removes no row that a PUT has recorded. -/
def StageShielded (world : World Bytes State) : Stage State → Prop
  | .idle | .begun _ _ => True
  | .reading target now rows _ _ read => Shielded world target now rows read
  | .decided target state => world.isPut target = true → env.indexState world.rows ≠ state

/-- The target and the time of a re-check that is going on. -/
def Stage.rechecks : Stage State → Option (Digest × Time)
  | .begun target now | .reading target now _ _ _ _ => some (target, now)
  | .idle | .decided _ _ => none

/-- The condition on a step.  A PUT that wrote the blob before a re-check did so less than a
grace before, a later one does not set its time back by a grace, and once the blob is found
old no record brings the index back to the state the re-check read. -/
def Shields (world : World Bytes State) : Op Bytes → Prop
  | .recheck target now => ∀ put ∈ world.puts, put.hasTouched env.toCodec target = true →
      world.isYoung now target = true
  | .writeBlob index time => ∀ recheck ∈ world.stage.rechecks, ∀ put ∈ world.puts[index]?,
      ∀ record ∈ put.next env.toCodec, record.2.digest = recheck.1 → recheck.2 - time < pruneGrace
  | .writeIndex index => StageShielded env (world.writesIndex env.toCodec index) world.stage
  | _ => True

instance (world : World Bytes State) (target : Digest) (now : Time) (rows : List Row)
    (read : List (Digest × (Links × Time))) : Decidable (Shielded world target now rows read) :=
  inferInstanceAs (Decidable (∀ entry ∈ read, _))

instance (world : World Bytes State) :
    (stage : Stage State) → Decidable (StageShielded env world stage)
  | .idle => .isTrue trivial
  | .begun _ _ => .isTrue trivial
  | .reading _ _ _ _ _ _ => inferInstanceAs (Decidable (Shielded ..))
  | .decided _ _ => inferInstanceAs (Decidable (_ → _))

instance (world : World Bytes State) (op : Op Bytes) : Decidable (Shields env world op) := by
  cases op <;> unfold Shields <;> infer_instance

end Condition

section Invariant

variable {env : Env Bytes State} {world : World Bytes State}

def World.Touched (env : Env Bytes State) (world : World Bytes State) (digest : Digest) : Prop :=
  digest ∈ world.acked ∨ ∃ put ∈ world.puts, put.hasTouched env.toCodec digest = true

def StageYoung (env : Env Bytes State) (world : World Bytes State) : Stage State → Prop
  | .begun target now => world.Touched env target → world.isYoung now target = true
  | .reading target now _ todo _ _ =>
    target ∈ todo → world.Touched env target → world.isYoung now target = true
  | .idle | .decided _ _ => True

/-- The invariant of pushes and a prune beside each other. -/
structure RaceInv (env : Env Bytes State) (world : World Bytes State) : Prop where
  young : StageYoung env world world.stage
  shielded : StageShielded env world world.stage
  removed : ∀ put ∈ world.puts, put.removed = []
  lost : world.lost = []

variable {digest : Digest} {stage : Stage State} {after : World Bytes State} {index : ℕ}

theorem isPut_iff : world.isPut digest = true ↔
    digest ∈ world.acked ∨ ∃ put ∈ world.puts, digest ∈ put.done := by
  simp [World.isPut]

theorem touched_of_isPut (hput : world.isPut digest = true) : world.Touched env digest := by
  rcases isPut_iff.1 hput with hacked | ⟨put, hmem, hdone⟩
  · exact .inl hacked
  · exact .inr ⟨put, hmem, by simp [Put.hasTouched, hdone]⟩

theorem StageShielded.mono (hshielded : StageShielded env world stage)
    (hrows : after.rows = world.rows)
    (hput : ∀ digest, after.isPut digest = true → world.isPut digest = true) :
    StageShielded env after stage := by
  cases stage with
  | idle | begun target now => trivial
  | reading target now rows todo links read =>
    intro entry hentry htarget
    refine (hshielded entry hentry htarget).imp_right fun hother hafter => ?_
    rw [hrows]
    exact hother (hput target hafter)
  | decided target state =>
    intro hafter
    rw [hrows]
    exact hshielded (hput target hafter)

theorem StageYoung.mono (hyoung : StageYoung env world stage) (hblob : after.blob = world.blob)
    (htouched : ∀ digest, after.Touched env digest → world.Touched env digest) :
    StageYoung env after stage := by
  have hsame : ∀ now digest, after.isYoung now digest = world.isYoung now digest := by
    intro now digest
    rw [World.isYoung, World.isYoung, hblob]
  cases stage with
  | idle => trivial
  | begun target now =>
    intro hafter
    rw [hsame]
    exact hyoung (htouched target hafter)
  | reading target now rows todo links read =>
    intro htodo hafter
    rw [hsame]
    exact hyoung htodo (htouched target hafter)
  | decided target state => trivial

theorem RaceInv.frame (hinv : RaceInv env world) (hstage : after.stage = world.stage)
    (hrows : after.rows = world.rows) (hblob : after.blob = world.blob)
    (hput : ∀ digest, after.isPut digest = true → world.isPut digest = true)
    (htouched : ∀ digest, after.Touched env digest → world.Touched env digest)
    (hremoved : ∀ put ∈ after.puts, put.removed = []) (hlost : after.lost = []) :
    RaceInv env after where
  young := by
    rw [hstage]
    exact hinv.young.mono hblob htouched
  shielded := by
    rw [hstage]
    exact hinv.shielded.mono hrows hput
  removed := hremoved
  lost := hlost

theorem RaceInv.stages (hinv : RaceInv env world) (hyoung : StageYoung env world stage)
    (hshielded : StageShielded env world stage) : RaceInv env { world with stage := stage } where
  young := hyoung.mono rfl fun _ htouched => htouched
  shielded := hshielded.mono rfl fun _ hput => hput
  removed := hinv.removed
  lost := hinv.lost

theorem RaceInv.idle (hinv : RaceInv env world) : RaceInv env { world with stage := .idle } :=
  hinv.stages trivial trivial

theorem RaceInv.put (hinv : RaceInv env world) (mediaType : Text) (body : Bytes)
    (refs : List Ref) : RaceInv env { world with
      puts := world.puts ++ [⟨mediaType, body, refs, false, [], []⟩] } := by
  refine hinv.frame rfl rfl rfl ?_ ?_ ?_ hinv.lost
  · intro digest hput
    simpa [World.isPut] using hput
  · rintro digest (hacked | ⟨put, hmem, htouched⟩)
    · exact .inl hacked
    rcases mem_append.1 hmem with hold | hnew
    · exact .inr ⟨put, hold, htouched⟩
    · rw [mem_singleton.1 hnew] at htouched
      simp [Put.hasTouched] at htouched
  · intro put hmem
    rcases mem_append.1 hmem with hold | hnew
    · exact hinv.removed put hold
    · rw [mem_singleton.1 hnew]

theorem RaceInv.abandon (hinv : RaceInv env world) (index : ℕ) :
    RaceInv env { world with puts := world.puts.eraseIdx index } := by
  refine hinv.frame rfl rfl rfl ?_ ?_ ?_ hinv.lost
  · intro digest hput
    rw [isPut_iff] at hput ⊢
    exact hput.imp_right fun ⟨put, hmem, hdone⟩ => ⟨put, mem_of_mem_eraseIdx hmem, hdone⟩
  · rintro digest (hacked | ⟨put, hmem, htouched⟩)
    · exact .inl hacked
    · exact .inr ⟨put, mem_of_mem_eraseIdx hmem, htouched⟩
  · exact fun put hmem => hinv.removed put (mem_of_mem_eraseIdx hmem)

theorem RaceInv.acknowledges (hinv : RaceInv env world) (index : ℕ) :
    RaceInv env (world.acknowledges index) := by
  unfold World.acknowledges
  cases hput : world.puts[index]? with
  | none => exact hinv
  | some put =>
    have hmem : put ∈ world.puts := mem_of_getElem? hput
    simp only
    split_ifs
    · refine hinv.frame rfl rfl rfl ?_ ?_ ?_ ?_
      · intro digest hisPut
        rw [isPut_iff] at hisPut ⊢
        rcases hisPut with hacked | ⟨other, hother, hdone⟩
        · rcases mem_append.1 hacked with hdone | hbefore
          · exact .inr ⟨put, hmem, hdone⟩
          · exact .inl hbefore
        · exact .inr ⟨other, mem_of_mem_eraseIdx hother, hdone⟩
      · rintro digest (hacked | ⟨other, hother, htouched⟩)
        · rcases mem_append.1 hacked with hdone | hbefore
          · exact .inr ⟨put, hmem, by simp [Put.hasTouched, hdone]⟩
          · exact .inl hbefore
        · exact .inr ⟨other, mem_of_mem_eraseIdx hother, htouched⟩
      · exact fun other hother => hinv.removed other (mem_of_mem_eraseIdx hother)
      · simp [hinv.removed put hmem, hinv.lost]
    · exact hinv

theorem mem_set_cases {puts : List (Put Bytes)} {put other : Put Bytes}
    (hmem : other ∈ puts.set index put) : other = put ∨ other ∈ puts :=
  (mem_or_eq_of_mem_set hmem).symm

theorem RaceInv.writesBlob (hinv : RaceInv env world) {time : Time}
    (hshields : Shields env world (.writeBlob index time)) :
    RaceInv env (world.writesBlob env.toCodec index time) := by
  unfold World.writesBlob
  cases hput : world.puts[index]? with
  | none => exact hinv
  | some put =>
    have hmem : put ∈ world.puts := mem_of_getElem? hput
    cases hnext : put.next env.toCodec with
    | none => simpa [hnext] using hinv
    | some record =>
      obtain ⟨ref, desc⟩ := record
      simp only [hnext]
      generalize hafter : ({ world with
        blob := Function.update world.blob desc.digest (some ⟨put.body, time⟩)
        puts := world.puts.set index { put with touched := true } } : World Bytes State) = after
      have hyoung : ∀ target now, (target, now) ∈ world.stage.rechecks →
          (world.Touched env target → world.isYoung now target = true) →
          after.Touched env target → after.isYoung now target = true := by
        intro target now hrecheck hbefore htouched
        by_cases hsame : desc.digest = target
        · have htime := hshields (target, now) hrecheck put hput (ref, desc) hnext hsame
          simp [World.isYoung, ← hafter, ← hsame, htime]
        have hold : world.Touched env target := by
          rw [← hafter] at htouched
          rcases htouched with hacked | ⟨other, hother, htouched⟩
          · exact .inl hacked
          rcases mem_set_cases hother with rfl | hold
          · have hsame' : Put.next env.toCodec { put with touched := true } =
                some (ref, desc) := hnext
            rw [Put.hasTouched, hsame'] at htouched
            simp only [Option.any_some, beq_iff_eq, hsame, Bool.or_eq_true,
              decide_eq_true_eq, Bool.and_eq_true, and_false, or_false] at htouched
            exact .inr ⟨put, hmem, by simp [Put.hasTouched, htouched]⟩
          · exact .inr ⟨other, hold, htouched⟩
        have hblob : after.blob target = world.blob target := by
          rw [← hafter]
          exact Function.update_of_ne (Ne.symm hsame) _ _
        rw [World.isYoung, hblob]
        exact hbefore hold
      have hput' : ∀ digest, after.isPut digest = true → world.isPut digest = true := by
        intro digest hisPut
        rw [← hafter, isPut_iff] at hisPut
        rw [isPut_iff]
        rcases hisPut with hacked | ⟨other, hother, hdone⟩
        · exact .inl hacked
        rcases mem_set_cases hother with rfl | hold
        · exact .inr ⟨put, hmem, hdone⟩
        · exact .inr ⟨other, hold, hdone⟩
      have hstage : after.stage = world.stage := by rw [← hafter]
      refine ⟨?_, ?_, ?_, ?_⟩
      · rw [hstage]
        have hbefore := hinv.young
        cases hcase : world.stage with
        | idle => trivial
        | begun target now =>
          rw [hcase] at hbefore
          exact hyoung target now (by simp [hcase, Stage.rechecks]) hbefore
        | reading target now rows todo links read =>
          rw [hcase] at hbefore
          intro htodo
          exact hyoung target now (by simp [hcase, Stage.rechecks]) (hbefore htodo)
        | decided target state => trivial
      · rw [hstage]
        exact hinv.shielded.mono (by rw [← hafter]) hput'
      · rw [← hafter]
        intro other hother
        rcases mem_set_cases hother with rfl | hold
        · exact hinv.removed put hmem
        · exact hinv.removed other hold
      · rw [← hafter]
        exact hinv.lost

theorem RaceInv.writesIndex (hinv : RaceInv env world)
    (hshields : Shields env world (.writeIndex index)) :
    RaceInv env (world.writesIndex env.toCodec index) := by
  unfold Shields at hshields
  unfold World.writesIndex at hshields ⊢
  cases hput : world.puts[index]? with
  | none => exact hinv
  | some put =>
    have hmem : put ∈ world.puts := mem_of_getElem? hput
    simp only [hput] at hshields
    cases htouched : put.touched with
    | false => simpa [htouched] using hinv
    | true =>
      cases hnext : put.next env.toCodec with
      | none => simpa [htouched, hnext] using hinv
      | some record =>
        obtain ⟨ref, desc⟩ := record
        simp only [htouched, hnext] at hshields ⊢
        -- what the PUT has recorded now it had written before
        refine ⟨hinv.young.mono rfl ?_, hshields, ?_, hinv.lost⟩
        · rintro digest (hacked | ⟨other, hother, hdone⟩)
          · exact .inl hacked
          rcases mem_set_cases hother with rfl | hold
          · refine .inr ⟨put, hmem, ?_⟩
            simp only [Put.hasTouched, Bool.false_and, Bool.or_false, decide_eq_true_eq,
              mem_cons] at hdone
            rcases hdone with rfl | hbefore
            · simp [Put.hasTouched, htouched, hnext]
            · simp [Put.hasTouched, hbefore]
          · exact .inr ⟨other, hold, hdone⟩
        · intro other hother
          rcases mem_set_cases hother with rfl | hold
          · exact hinv.removed put hmem
          · exact hinv.removed other hold

/-! ## The steps of the prune -/

/-- A verdict to delete: the target was read and is not young, and the state is that of the
rows. -/
theorem recheck_ok {rows : List Row} {read : Digest → Option (Links × Time)} {now : Time}
    {repository : String} {target : Digest} {state : State}
    (hok : recheck (planIndex env repository rows read now) target = .ok state) :
    state = env.indexState rows ∧ ∃ links modTime, read target = some (links, modTime) ∧
      ¬ now - modTime < pruneGrace := by
  have hdelete : state = env.indexState rows ∧
      target ∈ (planIndex env repository rows read now).deleted := by
    unfold recheck at hok
    split at hok
    · rename_i present state' hpresent hstate
      split at hok
      · cases hok
      · cases hok
      split_ifs at hok with hany
      · have hsame : state' = state := by simpa using hok
        obtain ⟨stored, hstored, hdigest⟩ := any_eq_true.1 hany
        refine ⟨?_, mem_map.2 ⟨stored, hstored, by simpa using hdigest⟩⟩
        rw [← hsame]
        unfold planIndex at hstate
        split_ifs at hstate
        · cases hstate
        · exact (Option.some.inj hstate).symm
      · split at hok <;> cases hok
    · cases hok
  obtain ⟨hstate, hdeleted⟩ := hdelete
  refine ⟨hstate, ?_⟩
  by_cases hreadable : Readable rows read
  · rw [planIndex_deleted hreadable] at hdeleted
    obtain ⟨⟨row, hrow, rfl⟩, hnot⟩ := hdeleted
    obtain ⟨⟨links, modTime⟩, hread⟩ := Option.isSome_iff_exists.1 (hreadable row hrow).2
    refine ⟨links, modTime, hread, fun hyoung => hnot ?_⟩
    rw [planIndex_keepSet hreadable]
    exact keepAll_closed.young row hrow links modTime hread hyoung
  · rw [RepoPlan.deleted, planIndex_unreadable hreadable] at hdeleted
    cases hdeleted

theorem RaceInv.readsBody (hinv : RaceInv env world) : RaceInv env (world.readsBody env) := by
  unfold World.readsBody
  split
  · rename_i target now rows digest todo read hstage
    have hyoung := hinv.young
    have hshielded := hinv.shielded
    rw [hstage] at hyoung hshielded
    split
    · exact hinv.idle
    · exact hinv.stages hyoung hshielded
  · exact hinv

theorem RaceInv.stats (hinv : RaceInv env world) : RaceInv env world.stats := by
  unfold World.stats
  split
  · rename_i target now rows digest todo links read hstage
    have hyoung := hinv.young
    have hshielded := hinv.shielded
    rw [hstage] at hyoung hshielded
    split
    · exact hinv.idle
    rename_i file hfile
    refine hinv.stages (fun htodo => hyoung (mem_cons_of_mem _ htodo)) ?_
    intro entry hentry htarget
    rcases mem_append.1 hentry with hold | hnew
    · exact hshielded entry hold htarget
    rw [mem_singleton.1 hnew] at htarget ⊢
    by_cases hrecent : now - file.modTime < pruneGrace
    · exact .inl hrecent
    -- an old blob: no PUT has written it, so none has recorded the digest
    refine .inr fun hput => absurd ?_ hrecent
    have hisYoung := hyoung (by rw [← htarget]; exact mem_cons_self) (touched_of_isPut hput)
    simp only at htarget
    rw [World.isYoung, ← htarget, hfile] at hisYoung
    simpa using hisYoung
  · exact hinv

theorem RaceInv.decides (hinv : RaceInv env world) : RaceInv env (world.decides env) := by
  unfold World.decides
  split
  · rename_i target now rows read hstage
    have hshielded := hinv.shielded
    rw [hstage] at hshielded
    split
    · rename_i state hok
      refine hinv.stages trivial ?_
      intro hput
      obtain ⟨rfl, links, modTime, hread, hold⟩ := recheck_ok hok
      obtain ⟨entry, hfound, hentry⟩ := Option.map_eq_some_iff.1 hread
      have htarget : entry.1 = target := by simpa using List.find?_some hfound
      rcases hshielded entry (mem_of_find?_eq_some hfound) htarget with hrecent | hchanged
      · rw [hentry] at hrecent
        exact absurd hrecent hold
      · exact fun hsame => hchanged hput (env.indexState_injective hsame)
    · exact hinv.idle
  · exact hinv

variable [DecidableEq State]

theorem deleteIfMatch_state {blob : Digest → Option (BlobFile Bytes)} {rows after : List Row}
    {state : State} (hdeleted : deleteIfMatch env blob rows digest state = some after) :
    env.indexState rows = state := by
  unfold deleteIfMatch at hdeleted
  split_ifs at hdeleted with _ hstate
  exact not_not.1 hstate

theorem RaceInv.deletes (hinv : RaceInv env world) : RaceInv env (world.deletes env) := by
  unfold World.deletes
  split
  · rename_i target state hstage
    have hshielded := hinv.shielded
    rw [hstage] at hshielded
    split
    · exact hinv.idle
    rename_i rows hdeleted
    have hnot : world.isPut target ≠ true :=
      fun hput => hshielded hput (deleteIfMatch_state hdeleted)
    rw [Ne, isPut_iff, not_or] at hnot
    refine ⟨trivial, trivial, ?_, ?_⟩
    · intro put hmem
      obtain ⟨before, hbefore, rfl⟩ := mem_map.1 hmem
      have hdone : target ∉ before.done := fun hdone => hnot.2 ⟨before, hbefore, hdone⟩
      rw [if_neg hdone]
      exact hinv.removed before hbefore
    · have hnone : world.acked.filter (· == target) = [] := by
        rw [filter_eq_nil_iff]
        intro digest hdigest hsame
        rw [beq_iff_eq.1 hsame] at hdigest
        exact hnot.1 hdigest
      simp [hnone, hinv.lost]
  · exact hinv

theorem RaceInv.next (hinv : RaceInv env world) {op : Op Bytes} (hshields : Shields env world op) :
    RaceInv env (next env world op) := by
  cases op with
  | put mediaType body refs => exact hinv.put mediaType body refs
  | writeBlob index time => exact hinv.writesBlob hshields
  | writeIndex index => exact hinv.writesIndex hshields
  | acknowledge index => exact hinv.acknowledges index
  | abandon index => exact hinv.abandon index
  | recheck target now =>
    simp only [Prune.next]
    split
    · refine ⟨?_, trivial, hinv.removed, hinv.lost⟩
      rintro (hacked | ⟨put, hmem, htouched⟩)
      · cases hacked
      · exact hshields put hmem htouched
    · exact hinv
  | readIndex =>
    simp only [Prune.next]
    split
    · rename_i target now hstage
      have hyoung := hinv.young
      rw [hstage] at hyoung
      exact hinv.stages (fun _ => hyoung) nofun
    · exact hinv
  | readBody => exact hinv.readsBody
  | stat => exact hinv.stats
  | decide => exact hinv.decides
  | delete => exact hinv.deletes
  | giveUp => exact hinv.idle

end Invariant

/-- Where the steps meet the condition, no prune deletes the row of a manifest whose PUT was
acknowledged since its re-check began. -/
theorem prune_spares_pushes [DecidableEq State] (env : Env Bytes State) (world : World Bytes State)
    (hputs : world.puts = []) (hstage : world.stage = .idle) (hlost : world.lost = [])
    (ops : List (Op Bytes)) (hops : EachStep (Shields env) (next env) world ops) :
    Always (fun world => world.lost = []) (next env) world ops := by
  have hinv : RaceInv env world := by
    refine ⟨?_, ?_, ?_, hlost⟩
    · rw [hstage]
      trivial
    · rw [hstage]
      trivial
    · simp [hputs]
  exact (always_of_eachStep (fun _ _ hinv hshields => hinv.next hshields) hinv hops).mono
    fun _ hinv => hinv.lost

/-! ## A push of what is there -/

def oldWorld : World ℕ (List Row) where
  name := "app"
  rows := [demoRow 4 4 none]
  blob := (demoRepo []).blob
  puts := []
  stage := .idle
  acked := []
  lost := []

/-- The re-check reads the old manifest and decides to delete it. -/
def recheckOps : List (Op ℕ) :=
  [.recheck (.sha256 4) (2 * pruneGrace), .readIndex, .readBody, .stat, .decide]

/-- The re-check, a push of the manifest, and the delete. -/
def pushOps (ref : Ref) : List (Op ℕ) :=
  recheckOps ++ [.put mediaTypeImageManifest 4 [ref], .writeBlob 0 (2 * pruneGrace), .writeIndex 0,
    .acknowledge 0, .delete]

theorem demo_push_spared :
    Always (fun world => world.lost = []) (next demoEnv) oldWorld (pushOps (.tag "v1")) ∧
    ((pushOps (.tag "v1")).foldl (next demoEnv) oldWorld).rows = [demoRow 4 4 (some "v1")] :=
  ⟨prune_spares_pushes demoEnv oldWorld rfl rfl rfl _ (by decide), by decide⟩

/-- A push by digest changes no row and does not stop it. -/
theorem push_by_digest_lost :
    ¬ Always (fun world => world.lost = []) (next demoEnv) oldWorld
      (pushOps (.digest (.sha256 4))) := by
  intro halways
  exact absurd halways.last (by decide)

end K3sm.Registry.Prune

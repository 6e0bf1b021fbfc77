import Mathlib.Logic.Function.Basic
import Emelex.Lib.Machine

/-!
# Quarantined model data

`ModelManager` never deletes model data in place: `move_to_quarantine` makes an entry directory
under `quarantine/models`, writes the entry's record into it and renames the payload into it;
`gc_quarantine` deletes the entries that are older than an age and whose snapshot no Session
references.

* `Quarantine` — the quarantine directory, the calls of `move_to_quarantine` in flight and the
  collector.
* `step` — one system call of one of them, a Session that takes or drops a snapshot, or a process
  that stops.
* `CollectsExactly ok` — what collection is for, over the runs whose steps satisfy `ok`.
* `Undisturbed` — the steps after which every entry can still be collected.

Principal definitions: `step` (the system), `CollectsExactly` (the property), `Undisturbed` (the
condition under which it holds).
-/

set_option autoImplicit false

namespace Emelex

open Machine

namespace Quarantine

/-! ## Entries -/

/-- The errors that stop a collection. -/
inductive ModelsError (S : Type) where
  | io
  | walk
  | unsafeInstall
  | manifestEncoding
  | snapshotReferenced (snapshot : S)
deriving DecidableEq

/-- `QuarantineRecord`; the time is in the units of the clock. -/
structure QuarantineRecord (S : Type) where
  schemaVersion : Nat
  quarantinedAt : Nat
  reason : String
  snapshotId : Option S
deriving DecidableEq

/-- The record file of an entry: not there, with a proper prefix of the serialized record in it
(no proper prefix of a JSON object parses), or whole. -/
inductive RecordFile (S : Type) where
  | missing
  | truncated
  | complete (record : QuarantineRecord S)
deriving DecidableEq

/-- A file, directory or link of a payload. -/
inductive PayloadNode where
  | file
  | directory
  | symlink (fileName : String)
deriving DecidableEq

/-- `LINKED_SOURCE_NAME`: the one link a model directory may hold. -/
def linkedSourceName : String := ".emelex-linked-source"

/-- Links that `make_writable` refuses. -/
def PayloadNode.foreign : PayloadNode → Bool
  | .symlink fileName => fileName != linkedSourceName
  | _ => false

/-- One directory under `quarantine/models`. -/
structure Entry (S : Type) where
  record : RecordFile S
  payload : Option (List PayloadNode)
deriving DecidableEq

variable {S : Type}

/-- Nothing in the directory. -/
def Entry.empty : Entry S := { record := .missing, payload := none }

/-- `valid_quarantine_reason`. -/
def validQuarantineReason (reason : String) : Bool :=
  !reason.isEmpty && reason.utf8ByteSize ≤ 64 &&
    reason.toList.all fun c => c.isAlphanum || c == '-'

/-- `read_quarantine_record`. -/
def readQuarantineRecord : Option (Entry S) → Except (ModelsError S) (QuarantineRecord S)
  | none => .error .io
  | some entry =>
    match entry.record with
    | .missing => .error .io
    | .truncated => .error .manifestEncoding
    | .complete record =>
      if record.schemaVersion ≠ 1 ∨ ¬ validQuarantineReason record.reason then
        .error .manifestEncoding
      else .ok record

/-- `make_writable`. -/
def makeWritable : Option (Entry S) → Except (ModelsError S) Unit
  | none => .error .walk
  | some entry =>
    if (entry.payload.getD []).any PayloadNode.foreign then .error .unsafeInstall else .ok ()

/-! ## The parties -/

/-- The uuid in the name of an entry directory. -/
abbrev Name := Nat

/-- How far a call of `move_to_quarantine` has come: it has made the directory, set its mode, opened
the record file, written it, synced it; then the payload is in, or the rename has failed and the
record and the directory are taken back. -/
inductive MovePhase where
  | created
  | permitted
  | recordOpened
  | recordWritten
  | recordSynced
  | moved
  | renameFailed
  | recordRemoved
deriving DecidableEq

/-- A call of `move_to_quarantine` in flight. -/
structure Move where
  source : List PayloadNode
  phase : MovePhase
deriving DecidableEq

/-- What `remove_dir_all` has still to unlink. -/
inductive Child where
  | record
  | payload
deriving DecidableEq

/-- Where the collector is: between two entries, at an entry it has listed, at an old entry whose
record it has read, at one it has found unreferenced, in `remove_dir_all` with these children left,
or past it. -/
inductive GcPhase (S : Type) where
  | listing
  | opened (name : Name)
  | expired (name : Name) (record : QuarantineRecord S)
  | unreferenced (name : Name) (record : QuarantineRecord S)
  | removing (name : Name) (record : QuarantineRecord S) (children : List Child)
  | removed (name : Name)
deriving DecidableEq

/-- A call of `gc_quarantine` in flight: `pending` are the names `read_dir` has still to give. -/
structure Gc (S : Type) where
  now : Nat
  age : Nat
  pending : List Name
  phase : GcPhase S
  removed : Nat
deriving DecidableEq

/-- No call, one in flight, one that returned, one whose process stopped. -/
inductive GcStatus (S : Type) where
  | idle
  | running (gc : Gc S)
  | finished (result : Except (ModelsError S) Nat)
  | stopped

/-- The quarantine directory and its parties.  `issued` has, for every name used so far, the
record its move builds; `referenced` is what the Sessions hold. -/
structure State (S : Type) where
  names : List Name
  issued : Name → Option (QuarantineRecord S)
  entries : Name → Option (Entry S)
  moves : Name → Option Move
  referenced : S → Bool
  gc : GcStatus S

/-- An empty quarantine directory. -/
def State.initial (referenced : S → Bool) : State S :=
  { names := [], issued := fun _ => none, entries := fun _ => none, moves := fun _ => none,
    referenced, gc := .idle }

namespace State

/-- Whether `ensure_unreferenced` passes. -/
def unreferenced (s : State S) (record : QuarantineRecord S) : Bool :=
  match record.snapshotId with
  | none => true
  | some snapshot => !s.referenced snapshot

def setEntry (s : State S) (name : Name) (entry : Option (Entry S)) : State S :=
  { s with entries := Function.update s.entries name entry }

def setMove (s : State S) (name : Name) (move : Option Move) : State S :=
  { s with moves := Function.update s.moves name move }

def setGc (s : State S) (gc : GcStatus S) : State S := { s with gc }

/-- The entry is there and its record can be read. -/
def readable (s : State S) (name : Name) : Prop :=
  ∃ record, readQuarantineRecord (s.entries name) = .ok record

section updates

variable (s : State S) (name other : Name) (entry : Option (Entry S)) (move : Option Move)
  (gc : GcStatus S) (snapshot : S)

@[simp, grind =] theorem setEntry_entries :
    (s.setEntry name entry).entries other = if other = name then entry else s.entries other := by
  simp [setEntry, Function.update_apply]

@[simp, grind =] theorem setEntry_names : (s.setEntry name entry).names = s.names := rfl
@[simp, grind =] theorem setEntry_issued :
    (s.setEntry name entry).issued other = s.issued other := rfl
@[simp, grind =] theorem setEntry_moves : (s.setEntry name entry).moves other = s.moves other := rfl
@[simp, grind =] theorem setEntry_referenced :
    (s.setEntry name entry).referenced snapshot = s.referenced snapshot := rfl
@[simp, grind =] theorem setEntry_gc : (s.setEntry name entry).gc = s.gc := rfl

@[simp, grind =] theorem setMove_moves :
    (s.setMove name move).moves other = if other = name then move else s.moves other := by
  simp [setMove, Function.update_apply]

@[simp, grind =] theorem setMove_names : (s.setMove name move).names = s.names := rfl
@[simp, grind =] theorem setMove_issued : (s.setMove name move).issued other = s.issued other := rfl
@[simp, grind =] theorem setMove_entries :
    (s.setMove name move).entries other = s.entries other := rfl
@[simp, grind =] theorem setMove_referenced :
    (s.setMove name move).referenced snapshot = s.referenced snapshot := rfl
@[simp, grind =] theorem setMove_gc : (s.setMove name move).gc = s.gc := rfl

@[simp, grind =] theorem setGc_names : (s.setGc gc).names = s.names := rfl
@[simp, grind =] theorem setGc_issued : (s.setGc gc).issued other = s.issued other := rfl
@[simp, grind =] theorem setGc_entries : (s.setGc gc).entries other = s.entries other := rfl
@[simp, grind =] theorem setGc_moves : (s.setGc gc).moves other = s.moves other := rfl
@[simp, grind =] theorem setGc_referenced :
    (s.setGc gc).referenced snapshot = s.referenced snapshot := rfl
@[simp, grind =] theorem setGc_gc : (s.setGc gc).gc = gc := rfl

end updates

end State

/-! ## Steps -/

/-- One system call of a party, a change of the Sessions' table, or a stop of a process (a crash, or
a system call that fails and ends the call with an error). -/
inductive Action (S : Type) where
  | create (name : Name) (reason : String) (snapshot : Option S) (source : List PayloadNode)
      (clock : Nat)
  | fill (name : Name)
  | renamePayload (name : Name)
  | renameFails (name : Name)
  | withdraw (name : Name)
  | returnMove (name : Name)
  | stopMove (name : Name)
  | reference (snapshot : S) (held : Bool)
  | gcOpen (now age : Nat)
  | gcNext (name : Name)
  | gcRead
  | gcCheck
  | gcMakeWritable
  | gcUnlinkNode (index : Nat)
  | gcUnlink (child : Child)
  | gcRmdir
  | gcSync
  | gcEnd
  | gcStop
deriving DecidableEq

/-- The next step of a move that is filling its entry: `chmod`, `open` with `O_EXCL`, `write_all`,
`sync_all`. -/
def fillStep (s : State S) (name : Name) : Option (State S) :=
  match s.moves name, s.issued name with
  | some move, some record =>
    match move.phase, s.entries name with
    | .created, some _ => some (s.setMove name (some { move with phase := .permitted }))
    | .permitted, some entry =>
      match entry.record with
      | .missing =>
        some ((s.setEntry name (some { entry with record := .truncated })).setMove name
          (some { move with phase := .recordOpened }))
      | _ => some (s.setMove name none)
    | .recordOpened, some entry =>
      some ((s.setEntry name (some { entry with record := .complete record })).setMove name
        (some { move with phase := .recordWritten }))
    | .recordWritten, _ => some (s.setMove name (some { move with phase := .recordSynced }))
    | _, _ => none
  | _, _ => none

/-- `fs::rename(source, payload)`. -/
def renamePayload (s : State S) (name : Name) : Option (State S) :=
  match s.moves name, s.entries name with
  | some move, some entry =>
    if move.phase = .recordSynced ∧ entry.payload = none then
      some ((s.setEntry name (some { entry with payload := some move.source })).setMove name
        (some { move with phase := .moved }))
    else none
  | _, _ => none

/-- The rename returned an error. -/
def renameFails (s : State S) (name : Name) : Option (State S) :=
  match s.moves name with
  | some move =>
    if move.phase = .recordSynced then
      some (s.setMove name (some { move with phase := .renameFailed }))
    else none
  | none => none

/-- After a failed rename: `remove_file` on the record, then `remove_dir`; errors are ignored. -/
def withdraw [DecidableEq S] (s : State S) (name : Name) : Option (State S) :=
  match s.moves name with
  | some move =>
    match move.phase with
    | .renameFailed =>
      some ((s.setEntry name ((s.entries name).map fun e => { e with record := .missing })).setMove
        name (some { move with phase := .recordRemoved }))
    | .recordRemoved =>
      if s.entries name = some Entry.empty then
        some ((s.setEntry name none).setMove name none)
      else some (s.setMove name none)
    | _ => none
  | none => none

/-! ### The collector -/

/-- What `remove_dir_all` finds in an entry. -/
def Entry.children (entry : Entry S) : List Child :=
  (match entry.record with
    | .missing => []
    | _ => [.record]) ++
  (match entry.payload with
    | none => []
    | some _ => [.payload])

/-- `read_dir` gives one more name: one of the names that were there when it was opened, or one that
has come since. -/
def gcNext (name : Name) (s : State S) (gc : Gc S) : Option (State S) :=
  match gc.phase with
  | .listing =>
    if name ∈ gc.pending ∨ (s.entries name).isSome then
      some (s.setGc (.running
        { gc with pending := gc.pending.filter (· ≠ name), phase := .opened name }))
    else none
  | _ => none

/-- Read the record of the listed entry; a young entry is passed over. -/
def gcRead (s : State S) (gc : Gc S) : Option (State S) :=
  match gc.phase with
  | .opened name =>
    match readQuarantineRecord (s.entries name) with
    | .error error => some (s.setGc (.finished (.error error)))
    | .ok record =>
      if gc.age ≤ gc.now - record.quarantinedAt then
        some (s.setGc (.running { gc with phase := .expired name record }))
      else some (s.setGc (.running { gc with phase := .listing }))
  | _ => none

/-- Under the snapshot mutation lock: `ensure_unreferenced`. -/
def gcCheck (s : State S) (gc : Gc S) : Option (State S) :=
  match gc.phase with
  | .expired name record =>
    match record.snapshotId with
    | none => some (s.setGc (.running { gc with phase := .unreferenced name record }))
    | some snapshot =>
      if s.referenced snapshot then
        some (s.setGc (.finished (.error (.snapshotReferenced snapshot))))
      else some (s.setGc (.running { gc with phase := .unreferenced name record }))
  | _ => none

/-- `make_writable`, then `remove_dir_all` lists the directory. -/
def gcMakeWritable (s : State S) (gc : Gc S) : Option (State S) :=
  match gc.phase with
  | .unreferenced name record =>
    match makeWritable (s.entries name) with
    | .error error => some (s.setGc (.finished (.error error)))
    | .ok () =>
      let children := ((s.entries name).map Entry.children).getD []
      some (s.setGc (.running { gc with phase := .removing name record children }))
  | _ => none

/-- `remove_dir_all` unlinks one node of the payload, in any order. -/
def gcUnlinkNode (index : Nat) (s : State S) (gc : Gc S) : Option (State S) :=
  match gc.phase with
  | .removing name _ left =>
    match s.entries name with
    | some entry =>
      if .payload ∈ left then
        some (s.setEntry name (some { entry with payload := entry.payload.map (·.eraseIdx index) }))
      else none
    | none => none
  | _ => none

/-- An entry without one of its children. -/
def Entry.unlink (entry : Entry S) : Child → Entry S
  | .record => { entry with record := .missing }
  | .payload => { entry with payload := none }

/-- `remove_dir_all` unlinks the record, or the payload once it is empty. -/
def gcUnlink (child : Child) (s : State S) (gc : Gc S) : Option (State S) :=
  match gc.phase with
  | .removing name record left =>
    if child ∈ left ∧ (child = .payload → ((s.entries name).bind Entry.payload).getD [] = []) then
      some ((s.setEntry name ((s.entries name).map fun entry => entry.unlink child)).setGc
        (.running { gc with phase := .removing name record (left.filter (· ≠ child)) }))
    else none
  | _ => none

/-- `remove_dir_all` removes the directory itself, which fails if something is in it again. -/
def gcRmdir [DecidableEq S] (s : State S) (gc : Gc S) : Option (State S) :=
  match gc.phase with
  | .removing name _ [] =>
    if s.entries name = some Entry.empty then
      some ((s.setEntry name none).setGc (.running { gc with phase := .removed name }))
    else some (s.setGc (.finished (.error .io)))
  | _ => none

/-- `sync_directory`, and the entry is counted. -/
def gcSync (s : State S) (gc : Gc S) : Option (State S) :=
  match gc.phase with
  | .removed _ => some (s.setGc (.running { gc with phase := .listing, removed := gc.removed + 1 }))
  | _ => none

/-- `read_dir` has given every name. -/
def gcEnd (s : State S) (gc : Gc S) : Option (State S) :=
  match gc.phase, gc.pending with
  | .listing, [] => some (s.setGc (.finished (.ok gc.removed)))
  | _, _ => none

/-- The process of the collector stops. -/
def gcStop (s : State S) (_ : Gc S) : Option (State S) := some (s.setGc .stopped)

/-- A step of the collector that is running. -/
def collect (s : State S) (f : State S → Gc S → Option (State S)) : Option (State S) :=
  match s.gc with
  | .running gc => f s gc
  | _ => none

/-! ### The system -/

/-- `create_dir` under a name that was never used, with the record that will go into it. -/
def create (s : State S) (name : Name) (reason : String) (snapshot : Option S)
    (source : List PayloadNode) (clock : Nat) : Option (State S) :=
  if validQuarantineReason reason ∧ s.issued name = none then
    some { s with
      names := s.names ++ [name]
      issued := Function.update s.issued name (some
        { schemaVersion := 1, quarantinedAt := clock, reason, snapshotId := snapshot })
      entries := Function.update s.entries name (some Entry.empty)
      moves := Function.update s.moves name (some { source, phase := .created }) }
  else none

/-- A collection starts when none is running. -/
def gcOpen (s : State S) (now age : Nat) : Option (State S) :=
  match s.gc with
  | .running _ => none
  | _ => some (s.setGc (.running
      { now, age, pending := s.names.filter (fun name => (s.entries name).isSome),
        phase := .listing, removed := 0 }))

/-- The state after an action; `none` when the party cannot take it. -/
def step [DecidableEq S] (s : State S) : Action S → Option (State S)
  | .create name reason snapshot source clock => create s name reason snapshot source clock
  | .fill name => fillStep s name
  | .renamePayload name => renamePayload s name
  | .renameFails name => renameFails s name
  | .withdraw name => withdraw s name
  | .returnMove name =>
    match s.moves name with
    | some { phase := .moved, .. } => some (s.setMove name none)
    | _ => none
  | .stopMove name => some (s.setMove name none)
  | .reference snapshot held =>
    some { s with referenced := Function.update s.referenced snapshot held }
  | .gcOpen now age => gcOpen s now age
  | .gcNext name => collect s (gcNext name)
  | .gcRead => collect s gcRead
  | .gcCheck => collect s gcCheck
  | .gcMakeWritable => collect s gcMakeWritable
  | .gcUnlinkNode index => collect s (gcUnlinkNode index)
  | .gcUnlink child => collect s (gcUnlink child)
  | .gcRmdir => collect s gcRmdir
  | .gcSync => collect s gcSync
  | .gcEnd => collect s gcEnd
  | .gcStop => collect s gcStop

/-! ## What collection is for -/

/-- The entry and record the collector is at work on, from reading the record to `rmdir`. -/
def GcPhase.atWork : GcPhase S → Option (Name × QuarantineRecord S)
  | .expired name record | .unreferenced name record | .removing name record _ =>
    some (name, record)
  | _ => none

/-- The entry and record the collector has found unreferenced and is deleting. -/
def GcPhase.deleting : GcPhase S → Option (Name × QuarantineRecord S)
  | .unreferenced name record | .removing name record _ => some (name, record)
  | _ => none

/-- The steps of a collection after its start. -/
def Action.collecting : Action S → Bool
  | .gcNext _ | .gcRead | .gcCheck | .gcMakeWritable | .gcUnlinkNode _ | .gcUnlink _ | .gcRmdir
  | .gcSync | .gcEnd | .gcStop => true
  | _ => false

/-- The start of a collection. -/
def Action.opens : Action S → Bool
  | .gcOpen _ _ => true
  | _ => false

/-- Collection over the runs whose steps satisfy `ok`: the collector touches no entry that is
younger than the age or whose snapshot is referenced, and when a call has returned, with a count or
with an error, every entry that was there when it started, is as old as the age and was unreferenced
throughout is gone. -/
structure CollectsExactly [DecidableEq S] (ok : State S → Action S → Prop) : Prop where
  selective : ∀ referenced as s action t name, Run step ok (.initial referenced) as s →
    ok s action → action.collecting → step s action = some t → t.entries name ≠ s.entries name →
    ∃ gc record, s.gc = .running gc ∧ s.issued name = some record ∧
      gc.age ≤ gc.now - record.quarantinedAt ∧ s.unreferenced record = true
  complete : ∀ referenced as s now age u bs t result, Run step ok (.initial referenced) as s →
    ok s (.gcOpen now age) → step s (.gcOpen now age) = some u → Run step ok u bs t →
    (∀ b ∈ bs, b.opens = false) → t.gc = .finished result →
    ∀ name record, (s.entries name).isSome → s.issued name = some record →
      age ≤ now - record.quarantinedAt →
      (∀ cs v, cs <+: bs → Run step ok u cs v → v.unreferenced record = true) →
      t.entries name = none

/-- The collector is running and its phase is `phase`. -/
def State.collectorAt (s : State S) (phase : GcPhase S) : Prop :=
  ∃ gc, s.gc = .running gc ∧ gc.phase = phase

/-- The collector is at work on the entry. -/
def State.atWorkOn (s : State S) (name : Name) : Prop :=
  ∃ gc record, s.gc = .running gc ∧ gc.phase.atWork = some (name, record)

/-- The steps that leave every entry collectable.
* A payload holds no link that `make_writable` refuses.
* No process stops while the entry it is filling, taking back or deleting has no readable record.
* The collector does not read an entry that is being filled or taken back.
* No move renames its payload into an entry, or takes it back, while the collector is at work on it.
* No old entry is referenced when the collector checks it, nor comes to be while it is deleted. -/
def Undisturbed (s : State S) : Action S → Prop
  | .create _ _ _ source _ => ∀ node ∈ source, node.foreign = false
  | .stopMove name => s.entries name = none ∨ s.readable name
  | .renamePayload name | .withdraw name => ¬ s.atWorkOn name
  | .reference snapshot held => held = true → ∀ gc name record, s.gc = .running gc →
    gc.phase.deleting = some (name, record) → record.snapshotId ≠ some snapshot
  | .gcRead => ∀ name, s.collectorAt (.opened name) → s.readable name
  | .gcCheck => ∀ name record, s.collectorAt (.expired name record) → s.unreferenced record = true
  | .gcStop => ∀ name record left, s.collectorAt (.removing name record left) → s.readable name
  | _ => True

end Quarantine

end Emelex

import Emelex.Hub.DownloadPlan
import Emelex.Lib.Machine
import Emelex.Models.SnapshotStamp

/-!
# Resumable downloads (`hub/mod.rs`)

A call of `download_with_callbacks` on a staging directory, as a machine: its file tasks interleave
one file-system call, request or callback at a time, and the process may die between any two of
them.  What the outside answers (responses, chunks, faults, how much a write takes) is the event
of a step.

* `Directory` — the entries of the staging directory; a write goes through a descriptor.
* `Phase`, `taskStep` — `download_file` with `reuse_completed_file` and `download_attempt`.
* `Call`, `step` — the scheduler of `download_with_callbacks`, cancellation and restarts.

Files are created by this code alone, with their owner and mode, so these are left out, as are
directory and file syncs, which leave the contents as they are.

Principal definitions: `taskStep`, `step`.
-/

set_option autoImplicit false

namespace Emelex

open Text Machine

namespace Hub

/-! ## The staging directory -/

abbrev Bytes := List UInt8

/-- The device and inode of a file. -/
abbrev FileIdentity := Nat

/-- A regular file: its modification and change times are one stamp. -/
structure Entry where
  identity : FileIdentity
  bytes : Bytes
  times : Nat
  deriving DecidableEq, Repr

/-- `FileSnapshot`. -/
structure FileSnapshot where
  identity : FileIdentity
  bytes : Nat
  times : Nat
  deriving DecidableEq, Repr

/-- `file_snapshot`. -/
def Entry.snapshot (e : Entry) : FileSnapshot := ⟨e.identity, e.bytes.length, e.times⟩

abbrev Directory := List (PathName × Entry)

namespace Directory

def find (d : Directory) (name : PathName) : Option Entry := List.lookup name d

/-- `O_CREAT | O_EXCL`. -/
def create (d : Directory) (name : PathName) (e : Entry) : Directory := (name, e) :: d

/-- Change the file behind a descriptor, under whatever name it stands. -/
def edit (d : Directory) (identity : FileIdentity) (f : Entry → Entry) : Directory :=
  d.map fun (name, e) => (name, if e.identity = identity then f e else e)

/-- `rename`. -/
def rename (d : Directory) (source destination : PathName) : Directory :=
  d.map fun (name, e) => (if name = source then destination else name, e)

end Directory

/-! ## One file -/

/-- `part_identity` and `attempt` of `download_file`. -/
structure Attempt where
  partIdentity : Option FileIdentity
  count : Nat
  deriving DecidableEq, Repr

/-- How far a file task has come: the operation it is about to do. -/
inductive Phase where
  /-- `reuse_completed_file`: inspect the destination. -/
  | inspectCompleted
  /-- `hash_file` on the completed file: open it. -/
  | openCompleted (identity : FileIdentity)
  /-- Hash the completed file and check it. -/
  | hashCompleted (snapshot : FileSnapshot)
  /-- The head of the loop: inspect the partial file. -/
  | attempt (a : Attempt)
  /-- Send the request for what is missing after `existing` bytes. -/
  | request (a : Attempt) (existing : Nat)
  /-- `open_partial`: open the partial file. -/
  | open_ (a : Attempt) (r : Response) (persisted : Nat)
  /-- `open_partial`: check what was opened. -/
  | checkOpened (a : Attempt) (r : Response) (persisted : Nat) (identity : FileIdentity)
  /-- Wait for a chunk; `rest` is what the body still holds. -/
  | body (a : Attempt) (append : Bool) (persisted : Nat) (rest : Bytes)
  /-- `write_all`: `data` is still to be written. -/
  | writing (a : Attempt) (append : Bool) (persisted : Nat) (data rest : Bytes)
  /-- `Retrying`, and the delay after it. -/
  | retrying (a : Attempt)
  /-- `hash_file` on the partial file: open it. -/
  | openPart (identity : Option FileIdentity)
  /-- Hash the partial file and check it. -/
  | hashPart (snapshot : FileSnapshot)
  /-- The first check of the publishing task. -/
  | validate (snapshot : FileSnapshot) (digest : List Char)
  /-- `rename_exclusive`. -/
  | publish (digest : List Char)
  /-- `sync_directory`. -/
  | sync (digest : List Char)
  | done (file : Snapshot.ModelFile)
  | failed (error : HubError)
  deriving DecidableEq

/-- What the outside contributes to a step. -/
inductive Event where
  | proceed
  /-- An I/O error, a refusing observer, a transport error or a timeout. -/
  | fault (error : HubError)
  | respond (r : Response)
  /-- The identity and times of a file that is created or truncated. -/
  | opened (identity : FileIdentity) (times : Nat)
  | chunk (count : Nat)
  | endOfBody
  | wrote (count : Nat) (times : Nat)
  deriving DecidableEq, Repr

/-- An attempt ends with an error: the loop of `download_file` retries a transient one. -/
def failAttempt (retries : Nat) (a : Attempt) (e : HubError) : Phase :=
  if e.transient ∧ a.count ≤ retries then .retrying a else .failed e

/-- `inspect_partial`. -/
def inspectPartial (d : Directory) (name : PathName) (expected : Option FileIdentity) :
    Except HubError (Nat × Option FileIdentity) :=
  match d.find name with
  | none => .ok (0, none)
  | some e =>
    if expected.any (· ≠ e.identity) then .error (.protocol "partial download identity changed")
    else .ok (e.bytes.length, some e.identity)

/-- The first half of `hash_file`. -/
def openForHash (d : Directory) (name : PathName) (expected : Option FileIdentity) :
    Except HubError FileSnapshot :=
  match d.find name with
  | none => .error (.io name)
  | some e =>
    if expected.any (· ≠ e.identity) then
      .error (.protocol "staged download identity changed before hashing")
    else .ok e.snapshot

/-- `validate_file_snapshot`. -/
def validateFileSnapshot (d : Directory) (name : PathName) (expected : FileSnapshot) :
    Except HubError Unit :=
  match d.find name with
  | none => .error (.io name)
  | some e =>
    if e.snapshot ≠ expected then .error (.protocol "verified download changed before publication")
    else .ok ()

section files

variable (sha256 : Bytes → List Char) (retries : Nat) (f : RemoteFile)

/-- `validate_staged_file_integrity`. -/
def validateStagedFileIntegrity (size : Nat) (digest : List Char) : Except HubError Unit :=
  if size ≠ f.size then .error (.size f.path f.size size)
  else
    match f.expectedSha256 with
    | none => .ok ()
    | some expected => if expected ≠ digest then .error (.hash f.path expected digest) else .ok ()

/-- The second half of `hash_file`: size and digest of a file that has not changed since it was
opened, checked against the plan. -/
def hashChecked (d : Directory) (name : PathName) (snapshot : FileSnapshot) :
    Except HubError (List Char) :=
  match d.find name with
  | none => .error (.io name)
  | some e => do
    let digest := sha256 e.bytes
    validateFileSnapshot d name snapshot
    validateStagedFileIntegrity f e.bytes.length digest
    return digest

/-- The record of a file. -/
def record (digest : List Char) : Snapshot.ModelFile :=
  ⟨String.ofList f.localPath, f.size, String.ofList digest⟩

/-- `reuse_completed_file` up to the `FileStarted` event. -/
def reuseCompleted (cancelled : Bool) (d : Directory) : Phase :=
  if cancelled then .failed .cancelled
  else
    match inspectPartial d f.localPath none with
    | .error e => .failed e
    | .ok (_, none) => .attempt ⟨none, 0⟩
    | .ok (size, some identity) =>
      if size ≠ f.size then .failed (.size f.path f.size size) else .openCompleted identity

/-- `download_attempt` up to the request. -/
def startAttempt (cancelled : Bool) (d : Directory) (a : Attempt) : Phase :=
  if cancelled then .failed .cancelled
  else
    let a := { a with count := a.count + 1 }
    match inspectPartial d f.partPath a.partIdentity with
    | .error e => failAttempt retries a e
    | .ok (existing, identity) =>
      let a := { a with partIdentity := identity }
      if f.size < existing then failAttempt retries a (.size f.path f.size existing)
      else if existing = f.size then .openPart a.partIdentity
      else .request a existing

/-- `download_attempt` from the response to the opening of the file. -/
def acceptResponse (cancelled : Bool) (a : Attempt) (existing : Nat) (r : Response) : Phase :=
  if r.isSuccess = false then failAttempt retries a (.http r.status)
  else
    let resumed : Bool := r.status = 206
    let checked :=
      if resumed then validateContentRange r existing f.size
      else if 0 < existing ∧ r.status ≠ 200 then
        .error (.protocol "Hub ignored range request with unexpected status")
      else .ok ()
    match checked with
    | .error e => failAttempt retries a e
    | .ok () =>
      if cancelled then failAttempt retries a .cancelled
      else .open_ a r (if 0 < existing ∧ resumed then existing else 0)

/-- `open_partial` up to its checks. -/
def openPartial (cancelled : Bool) (d : Directory) (a : Attempt) (r : Response) (persisted : Nat)
    (identity : FileIdentity) (times : Nat) : Option (Phase × Directory) :=
  if cancelled then some (failAttempt retries a .cancelled, d)
  else
    match a.partIdentity, d.find f.partPath with
    | none, some _ => some (failAttempt retries a (.io f.partPath), d)
    | none, none =>
      -- a new inode; a name with a slash in it has no directory to stand in
      if '/' ∈ f.partPath then some (failAttempt retries a (.io f.partPath), d)
      else if ∃ entry ∈ d, entry.2.identity = identity then none
      else some (.checkOpened a r persisted identity, d.create f.partPath ⟨identity, [], times⟩)
    | some _, none => some (failAttempt retries a (.io f.partPath), d)
    | some _, some e =>
      if 0 < persisted then some (.checkOpened a r persisted e.identity, d)
      else
        some (.checkOpened a r persisted e.identity,
          d.edit e.identity fun e => { e with bytes := [], times })

/-- The identity check of `open_partial`. -/
def checkOpened (a : Attempt) (r : Response) (persisted : Nat) (identity : FileIdentity) : Phase :=
  if a.partIdentity.any (· ≠ identity) then
    failAttempt retries a (.protocol "partial download identity changed while opening")
  else .body { a with partIdentity := some identity } (0 < persisted) persisted r.body

/-- A chunk arrives. -/
def receiveChunk (cancelled : Bool) (a : Attempt) (append : Bool) (persisted : Nat) (rest : Bytes)
    (count : Nat) : Phase :=
  if cancelled then failAttempt retries a .cancelled
  else
    let data := rest.take count
    if U64_LIMIT ≤ persisted + data.length then
      failAttempt retries a (.protocol "download byte count overflow")
    else if f.size < persisted + data.length then
      failAttempt retries a (.size f.path f.size (persisted + data.length))
    else .writing a append (persisted + data.length) data (rest.drop count)

/-- Write `data` at a position of a file. -/
def writeAt (bytes : Bytes) (position : Nat) (data : Bytes) : Bytes :=
  bytes.take position ++ data ++ bytes.drop (position + data.length)

/-- One write of `write_all`; when all is written, the `Progress` event. -/
def writeChunk (d : Directory) (a : Attempt) (append : Bool) (persisted : Nat) (data rest : Bytes)
    (count times : Nat) : Phase × Directory :=
  if data = [] then (.body a append persisted rest, d)
  else
    let written := data.take count
    let position := persisted - data.length
    let d' :=
      match a.partIdentity with
      | none => d
      | some identity =>
        d.edit identity fun e =>
          { e with
            bytes := if append then e.bytes ++ written else writeAt e.bytes position written
            times }
    (.writing a append persisted (data.drop count) rest, d')

/-- The body has ended. -/
def endBody (a : Attempt) (persisted : Nat) : Phase :=
  if persisted < f.size then failAttempt retries a (.size f.path f.size persisted)
  else .openPart a.partIdentity

/-- `rename_exclusive`. -/
def publishPart (cancelled : Bool) (d : Directory) (digest : List Char) : Phase × Directory :=
  if cancelled then (.failed .cancelled, d)
  else
    match d.find f.partPath, d.find f.localPath with
    | some _, none => (.sync digest, d.rename f.partPath f.localPath)
    | _, _ => (.failed (.io f.localPath), d)

/-- A step that fails or declares an error. -/
def checked (cancelled : Bool) {α : Type} (result : Except HubError α) (next : α → Phase) : Phase :=
  if cancelled then .failed .cancelled
  else
    match result with
    | .error e => .failed e
    | .ok x => next x

/-- A fault at the operation a task is about to do. -/
def faultStep (e : HubError) : Phase → Option Phase
  | .done _ | .failed _ => none
  | .attempt a | .request a _ | .open_ a _ _ | .checkOpened a _ _ _ | .body a _ _ _
  | .writing a _ _ _ _ => some (failAttempt retries a e)
  | _ => some (.failed e)

/-- One step of a file task. -/
def taskStep (cancelled : Bool) (d : Directory) : Phase → Event → Option (Phase × Directory)
  | phase, .fault e => (faultStep retries e phase).map (·, d)
  | .inspectCompleted, .proceed => some (reuseCompleted f cancelled d, d)
  | .openCompleted identity, .proceed =>
    some (checked cancelled (openForHash d f.localPath (some identity)) .hashCompleted, d)
  | .hashCompleted snapshot, .proceed =>
    some (checked cancelled (hashChecked sha256 f d f.localPath snapshot) fun digest =>
      .done (record f digest), d)
  | .attempt a, .proceed => some (startAttempt retries f cancelled d a, d)
  | .request a existing, .respond r => some (acceptResponse retries f cancelled a existing r, d)
  | .open_ a r persisted, .opened identity times =>
    openPartial retries f cancelled d a r persisted identity times
  | .checkOpened a r persisted identity, .proceed =>
    some (checkOpened retries a r persisted identity, d)
  | .body a append persisted rest, .chunk count =>
    some (receiveChunk retries f cancelled a append persisted rest count, d)
  | .body a _ persisted _, .endOfBody => some (endBody retries f a persisted, d)
  | .writing a append persisted data rest, .wrote count times =>
    some (writeChunk d a append persisted data rest count times)
  | .retrying a, .proceed => some (if cancelled then .failed .cancelled else .attempt a, d)
  | .openPart identity, .proceed =>
    some (checked cancelled (openForHash d f.partPath identity) .hashPart, d)
  | .hashPart snapshot, .proceed =>
    some (checked cancelled (hashChecked sha256 f d f.partPath snapshot) (.validate snapshot), d)
  | .validate snapshot digest, .proceed =>
    some (checked cancelled (validateFileSnapshot d f.partPath snapshot) fun _ =>
      .publish digest, d)
  | .publish digest, .proceed => some (publishPart f cancelled d digest)
  | .sync digest, .proceed => some (.done (record f digest), d)
  | _, _ => none

end files

/-! ## The call -/

/-- `DOWNLOAD_FILE_CONCURRENCY`. -/
def DOWNLOAD_FILE_CONCURRENCY : Nat := 4

/-- A running call: the tasks of `pending` by the index of their file. -/
structure Call where
  next : Nat
  tasks : Nat → Option Phase
  installed : Nat → Option Snapshot.ModelFile
  firstError : Option HubError
  /-- The operation's cancellation or that of its caller. -/
  cancelled : Bool

inductive Status where
  | idle
  | running (call : Call)
  | returned (result : Except HubError (List Snapshot.ModelFile))

structure State where
  staging : Directory
  status : Status

/-- An empty staging directory. -/
def State.initial : State := ⟨[], .idle⟩

inductive Action where
  /-- The checks before the transfer; the outcome of the I/O and of `TransferStarted`. -/
  | start (outcome : Except HubError Unit)
  /-- The process ends. -/
  | stop
  | cancel
  | task (index : Nat) (event : Event)
  /-- The scheduler takes up a finished task. -/
  | collect (index : Nat)
  /-- No task is left; the outcome of `TransferCompleted`. -/
  | finish (outcome : Except HubError Unit)

/-- The names that a plan allows in the staging directory. -/
def allowedNames (files : List RemoteFile) : List PathName :=
  files.flatMap fun f => [f.localPath, f.partPath]

/-- `validate_download_staging`. -/
def validateDownloadStaging (files : List RemoteFile) (d : Directory) : Except HubError Unit :=
  if ¬ (allowedNames files).Nodup then
    .error (.protocol "download plan has colliding staging paths")
  else if ∃ entry ∈ d, entry.1 ∉ allowedNames files then
    .error (.protocol "download staging entry does not match the plan")
  else if ∃ f ∈ files, (d.find f.localPath).isSome ∧ (d.find f.partPath).isSome then
    .error (.protocol "download staging contains both completed and partial state")
  else .ok ()

/-- The first tasks of a call. -/
def Call.initial (files : List RemoteFile) : Call :=
  let first := min DOWNLOAD_FILE_CONCURRENCY files.length
  { next := first
    tasks := fun i => if i < first then some .inspectCompleted else none
    installed := fun _ => none
    firstError := none
    cancelled := false }

section machine

variable (sha256 : Bytes → List Char) (retries : Nat) (plan : DownloadPlan)

/-- `download_with_callbacks` up to the scheduling. -/
def startCall (s : State) (outcome : Except HubError Unit) : State :=
  let started := do
    validateDownloadPlan plan
    validateDownloadStaging plan.files s.staging
    outcome
  match started with
  | .error e => { s with status := .returned (.error e) }
  | .ok () => { s with status := .running (.initial plan.files) }

/-- What the scheduler does with the result of a task. -/
def collectTask (c : Call) (index : Nat) : Option Call :=
  match c.tasks index with
  | some (.done file) =>
    let c := { c with tasks := Function.update c.tasks index none }
    if c.firstError.isSome then some c
    else
      let c := { c with installed := Function.update c.installed index (some file) }
      if c.next < plan.files.length then
        some { c with
          next := c.next + 1
          tasks := Function.update c.tasks c.next (some .inspectCompleted) }
      else some c
  | some (.failed e) =>
    let c := { c with tasks := Function.update c.tasks index none }
    if c.firstError.isSome then some c
    else some { c with firstError := some e, cancelled := true }
  | _ => none

/-- The result of the call once no task is pending. -/
def callResult (c : Call) (outcome : Except HubError Unit) :
    Except HubError (List Snapshot.ModelFile) :=
  match c.firstError with
  | some e => .error e
  | none =>
    match (List.range plan.files.length).mapM c.installed with
    | none => .error (.protocol "download scheduler omitted a planned file")
    | some files =>
      if c.cancelled then .error .cancelled
      else
        match outcome with
        | .error e => .error e
        | .ok () => .ok files

/-- One step of the system. -/
def step (s : State) : Action → Option State
  | .start outcome =>
    match s.status with
    | .running _ => none
    | _ => some (startCall plan s outcome)
  | .stop => some { s with status := .idle }
  | .cancel =>
    match s.status with
    | .running c => some { s with status := .running { c with cancelled := true } }
    | _ => none
  | .task index event =>
    match s.status with
    | .running c =>
      match c.tasks index, plan.files[index]? with
      | some phase, some f =>
        (taskStep sha256 retries f c.cancelled s.staging phase event).map fun r =>
          ⟨r.2, .running { c with tasks := Function.update c.tasks index (some r.1) }⟩
      | _, _ => none
    | _ => none
  | .collect index =>
    match s.status with
    | .running c => (collectTask plan c index).map fun c => { s with status := .running c }
    | _ => none
  | .finish outcome =>
    match s.status with
    | .running c =>
      if ∀ i < c.next, c.tasks i = none then
        some { s with status := .returned (callResult plan c outcome) }
      else none
    | _ => none

end machine

end Hub

end Emelex

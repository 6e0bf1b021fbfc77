import Emelex.Lib.Machine
import Emelex.Memory.Workers

/-!
# The store and the processes that use it

Any number of processes hold leases on Sessions and on jobs and call the operations of the store in
any order.

* `Action` — one call, with the identifiers it mints, what it reads of the workspace, and its clock.
* `call` — the result of a call and the state it leaves; `step` — the state alone.

A transaction reads the clock when it has the write lock, so the clock of the transactions never goes
back; the clock of a call that reads it before is any.  Identifiers are never minted twice.  A lease
that is dropped is released, or its job fails, by the same statements; a process that stops calls
nothing more.

Principal definitions: `Action`, `call`, `step`.
-/

set_option autoImplicit false

namespace Emelex

namespace Memory

/-- The tables, the leases that processes hold, by their tokens, the clock of the last transaction,
and the identifiers that have been minted. -/
structure State where
  tables : Tables
  leases : Uuid → Option SessionLease
  compactionLeases : Uuid → Option JobLease
  distillationLeases : Uuid → Option JobLease
  clock : Time
  issued : List Uuid

/-- An empty store. -/
def State.initial : State where
  tables := {
    sessions := .empty
    events := .empty
    compactions := .empty
    distillations := .empty
    knowledge := .empty
    versions := []
    results := [] }
  leases := fun _ => none
  compactionLeases := fun _ => none
  distillationLeases := fun _ => none
  clock := 0
  issued := []

/-- A call of one of the processes. -/
inductive Action where
  | startSession (id : Uuid) (workspace : WorkspaceBinding) (now : Time)
  | claimSession (session : Uuid) (workspace : WorkspaceBinding) (token : Uuid) (now : Time)
  | renewSession (token : Uuid) (actual : WorkspaceIdentity) (now : Time)
  | replaySession (token : Uuid) (actual : WorkspaceIdentity) (now : Time)
  | appendTurn (token : Uuid) (actual : WorkspaceIdentity)
      (events : List (Uuid × SessionEventInput)) (turnId : Uuid) (now : Time)
  | releaseSession (token : Uuid)
  | queueCompaction (session : Uuid) (throughSequence : Nat) (id : Uuid) (now : Time)
  | claimCompaction (token : Uuid) (now : Time)
  | renewCompaction (token : Uuid) (now : Time)
  | recordCompactionFailure (token : Uuid) (error : String)
      (disposition : MemoryJobFailureDisposition) (now : Time)
  | releaseCompaction (token : Uuid) (now : Time)
  | completeCompaction (token : Uuid) (summary : String) (eventId : Uuid) (now : Time)
  | recoverStaleCompactions (now : Time)
  | queueDistillation (session id : Uuid) (now : Time)
  | claimDistillation (token : Uuid) (now : Time)
  | renewDistillation (token : Uuid) (now : Time)
  | recordDistillationFailure (token : Uuid) (error : String)
      (disposition : MemoryJobFailureDisposition) (now : Time)
  | abandonDistillation (token : Uuid) (now : Time)
  | completeDistillation (token : Uuid) (candidates : List (Uuid × DistillationCandidateInput))
      (now : Time)
  | retryFailedJob (id : Uuid) (now : Time)
  | maintain (maxRows : Nat) (now : Time)
deriving DecidableEq, Repr

/-- The identifiers that a call mints. -/
def Action.mints : Action → List Uuid
  | .startSession id _ _ => [id]
  | .claimSession _ _ token _ => [token]
  | .appendTurn _ _ events turnId _ => turnId :: events.map Prod.fst
  | .queueCompaction _ _ id _ => [id]
  | .claimCompaction token _ => [token]
  | .completeCompaction _ _ eventId _ => [eventId]
  | .queueDistillation _ id _ => [id]
  | .claimDistillation token _ => [token]
  | .completeDistillation _ candidates _ => candidates.map Prod.fst
  | _ => []

/-- The clock of a call that reads it when it has the write lock. -/
def Action.time : Action → Option Time
  | .claimSession _ _ _ now | .appendTurn _ _ _ _ now | .queueCompaction _ _ _ now
  | .claimCompaction _ now | .recordCompactionFailure _ _ _ now | .completeCompaction _ _ _ now
  | .recoverStaleCompactions now | .queueDistillation _ _ now | .claimDistillation _ now
  | .recordDistillationFailure _ _ _ now | .completeDistillation _ _ now
  | .retryFailedJob _ now => some now
  | _ => none

/-- `start_session`. -/
def startSession (t : Tables) (id : Uuid) (workspace : WorkspaceBinding) (now : Time) : Tables :=
  { t with sessions := t.sessions.insert id {
      workspace := workspace.path
      workspaceIdentity := workspace.identity
      executionToken := none
      executionLeaseUntil := none
      updatedAt := now } }

namespace State

def setTables (s : State) (tables : Tables) : State := { s with tables }

def setLease (s : State) (token : Uuid) (lease : SessionLease) : State :=
  { s with leases := fun other => if other = token then some lease else s.leases other }

def setCompactionLease (s : State) (token : Uuid) (lease : JobLease) : State :=
  { s with compactionLeases := fun other =>
      if other = token then some lease else s.compactionLeases other }

def setDistillationLease (s : State) (token : Uuid) (lease : JobLease) : State :=
  { s with distillationLeases := fun other =>
      if other = token then some lease else s.distillationLeases other }

end State

/-- The result of a call and the state it leaves; `none` where the caller has no such lease. -/
def perform (encoding : Encoding) (s : State) : Action → Option (Except MemoryError Unit × State)
  | .startSession id workspace now =>
    some (.ok (), s.setTables (startSession s.tables id workspace now))
  | .claimSession session workspace token now =>
    match claimSession s.tables session workspace token now with
    | (.ok lease, t) => some (.ok (), (s.setTables t).setLease token lease)
    | (.error error, t) => some (.error error, s.setTables t)
  | .renewSession token actual now =>
    (s.leases token).map fun lease =>
      match renewSession s.tables lease actual now with
      | (.ok lease, t) => (.ok (), (s.setTables t).setLease token lease)
      | (.error error, t) => (.error error, s.setTables t)
  | .replaySession token actual now =>
    (s.leases token).map fun lease =>
      match replaySession encoding s.tables lease actual now with
      | (.ok (_, lease), t) => (.ok (), (s.setTables t).setLease token lease)
      | (.error error, t) => (.error error, s.setTables t)
  | .appendTurn token actual events turnId now =>
    (s.leases token).map fun lease =>
      let call := appendTurn encoding s.tables lease actual events turnId now
      (call.result.map fun _ => (), (s.setTables call.tables).setLease token call.lease)
  | .releaseSession token =>
    (s.leases token).map fun lease =>
      match releaseSession s.tables lease with
      | (.ok lease, t) => (.ok (), (s.setTables t).setLease token lease)
      | (.error error, t) => (.error error, s.setTables t)
  | .queueCompaction session throughSequence id now =>
    let (result, t) := queueCompaction encoding s.tables session throughSequence id now
    some (result.map fun _ => (), s.setTables t)
  | .claimCompaction token now =>
    match claimCompaction s.tables token now with
    | (.ok (some lease), t) => some (.ok (), (s.setTables t).setCompactionLease token lease)
    | (.ok none, t) => some (.ok (), s.setTables t)
    | (.error error, t) => some (.error error, s.setTables t)
  | .renewCompaction token now =>
    (s.compactionLeases token).map fun lease =>
      let call := renewCompaction s.tables lease now
      (call.result, (s.setTables call.tables).setCompactionLease token call.lease)
  | .recordCompactionFailure token error disposition now =>
    (s.compactionLeases token).map fun lease =>
      let call := recordCompactionFailure s.tables lease error disposition now
      (call.result.map fun _ => (), (s.setTables call.tables).setCompactionLease token call.lease)
  | .releaseCompaction token now =>
    (s.compactionLeases token).map fun lease =>
      let call := releaseCompaction s.tables lease now
      (call.result, (s.setTables call.tables).setCompactionLease token call.lease)
  | .completeCompaction token summary eventId now =>
    (s.compactionLeases token).map fun lease =>
      let call := completeCompaction encoding s.tables lease summary eventId now
      (call.result.map fun _ => (), (s.setTables call.tables).setCompactionLease token call.lease)
  | .recoverStaleCompactions now =>
    let (result, t) := recoverStaleCompactions s.tables now
    some (result, s.setTables t)
  | .queueDistillation session id now =>
    let (result, t) := queueDistillation encoding s.tables session id now
    some (result.map fun _ => (), s.setTables t)
  | .claimDistillation token now =>
    match claimDistillation s.tables token now with
    | (.ok (some lease), t) => some (.ok (), (s.setTables t).setDistillationLease token lease)
    | (.ok none, t) => some (.ok (), s.setTables t)
    | (.error error, t) => some (.error error, s.setTables t)
  | .renewDistillation token now =>
    (s.distillationLeases token).map fun lease =>
      let call := renewDistillation s.tables lease now
      (call.result, (s.setTables call.tables).setDistillationLease token call.lease)
  | .recordDistillationFailure token error disposition now =>
    (s.distillationLeases token).map fun lease =>
      let call := recordDistillationFailure s.tables lease error disposition now
      (call.result.map fun _ => (),
        (s.setTables call.tables).setDistillationLease token call.lease)
  | .abandonDistillation token now =>
    (s.distillationLeases token).map fun lease =>
      let call := abandonDistillation s.tables lease now
      (call.result, (s.setTables call.tables).setDistillationLease token call.lease)
  | .completeDistillation token candidates now =>
    (s.distillationLeases token).map fun lease =>
      let call := completeDistillation encoding s.tables lease candidates now
      (call.result, (s.setTables call.tables).setDistillationLease token call.lease)
  | .retryFailedJob id now =>
    let (result, t) := retryFailedJob s.tables id now
    some (result, s.setTables t)
  | .maintain maxRows now =>
    let (result, t) := maintain s.tables maxRows now
    some (result, s.setTables t)

/-- A call with new identifiers and a clock that does not go back. -/
def call (encoding : Encoding) (s : State) (action : Action) :
    Option (Except MemoryError Unit × State) :=
  if action.mints.Nodup ∧ (∀ id ∈ action.mints, id ∉ s.issued) ∧
      action.time.all (s.clock ≤ ·) then
    (perform encoding s action).map fun (result, s') => (result, { s' with
      clock := action.time.getD s.clock
      issued := action.mints ++ s.issued })
  else none

/-- The state after a call. -/
def step (encoding : Encoding) (s : State) (action : Action) : Option State :=
  (call encoding s action).map Prod.snd

/-- An encoding for small runs: every payload is one byte long. -/
def byteEncoding : Encoding where
  structurallyBounded _ := true
  jsonBytes _ := 1
  transcriptSha256 _ _ _ := ""

end Memory

end Emelex

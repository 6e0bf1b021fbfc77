import Emelex.Lib.Machine
import Emelex.Lib.Mutex
import Emelex.Lib.Table
import Emelex.Models.SnapshotStamp

/-!
# Models that Sessions are bound to (`memory.rs`, `models/mod.rs`)

A Session is bound to an installed model by the identity of its snapshot, in the database; the
snapshot is a directory.  The snapshot-mutation lock of the home is all that ties the two together:
`bind_session_model`, `remove`, `reuse_existing_locked`, the publications and `gc_quarantine` hold
it, and it is released when its guard is dropped, before the staging guard of a publication is.

* `Point` — where a call is, with the data it has; `Point.locked` where it holds the lock.
* `advance` — the next step of a call: one operation on the lock, the file system or the database.
* `step` — the system: calls, their processes that stop, deferred cleanups, and the Sessions.

A transaction that begins immediate excludes other writers, so that it is one step.  The moves into
quarantine and the collector are told in full in `Quarantine`; here a move is the rename of its
payload.  A directory is its manifest, if that can be read, and whether its files verify.  Of
manifests the traits are left out; the digest of a local snapshot is that of its files.

Principal definitions: `Point`, `advance`, `step`.
-/

set_option autoImplicit false

namespace Emelex

open Snapshot

namespace Binding

/-! ## Snapshots and where they are -/

structure HubModelId where
  nameSpace : Option String
  repoName : String
deriving DecidableEq, Repr

/-- `ModelRef`. -/
inductive ModelRef where
  | hub (id : HubModelId)
  | localModel (name : String)
deriving DecidableEq, Repr

/-- `ModelSnapshotId`. -/
inductive ModelSnapshotId where
  | hub (id : HubModelId) (revision : String)
  | localModel (name digest : String)
deriving DecidableEq, Repr

/-- `ModelSource`. -/
inductive ModelSource where
  | hub
  | localImport (originalPath : String)
  | localSymlink (originalPath : String)
deriving DecidableEq, Repr

/-- `ModelManifest`; its reference and its revision are those of the snapshot. -/
structure ModelManifest where
  snapshotId : ModelSnapshotId
  source : ModelSource
  files : List ModelFile
  verified : Bool
  installedAt : Nat
  license : Option String
deriving DecidableEq

def ModelManifest.reference (manifest : ModelManifest) : ModelRef :=
  match manifest.snapshotId with
  | .hub id _ => .hub id
  | .localModel name _ => .localModel name

def ModelManifest.resolvedRevision (manifest : ModelManifest) : Option String :=
  match manifest.snapshotId with
  | .hub _ revision => some revision
  | .localModel _ _ => none

/-- A path below the models of the home, by its components. -/
abbrev ModelPath := List String

/-- `hub_destination`. -/
def hubDestination (id : HubModelId) (revision : String) : ModelPath :=
  match id.nameSpace with
  | none => ["hub", "unnamespaced", id.repoName, revision]
  | some nameSpace => ["hub", "namespaced", nameSpace, id.repoName, revision]

/-- `local_destination`. -/
def localDestination (name digest : String) : ModelPath := ["local", name, digest]

/-- `snapshot_destination`. -/
def snapshotDestination : ModelSnapshotId → ModelPath
  | .hub id revision => hubDestination id revision
  | .localModel name digest => localDestination name digest

/-- A directory of the home, or of somewhere else. -/
inductive Location where
  | models (path : ModelPath)
  | temp (id : Nat)
  | elsewhere
deriving DecidableEq, Repr

/-- `InstalledModel`; it is only made for the directory that its snapshot has in some home. -/
structure InstalledModel where
  path : Location
  manifest : ModelManifest
  home : path = .models (snapshotDestination manifest.snapshotId) ∨ path = .elsewhere

/-- A directory: empty, or a model with its manifest, if that can be read, and whether its files
are as the manifest says. -/
inductive Node where
  | vacant
  | model (manifest : Option ModelManifest) (intact : Bool)
deriving DecidableEq

/-! ## Staging -/

/-- `StagingCleanup`; there is one quarantine. -/
inductive StagingCleanup where
  | quarantine
  | retainUntilMoved
  | quarantineAfterMove
  | retain
deriving DecidableEq, Repr

/-- `StagingGuard`. -/
structure StagingGuard where
  path : Location
  cleanup : StagingCleanup
  active : Bool
deriving DecidableEq, Repr

namespace StagingGuard

def commit (guard : StagingGuard) : StagingGuard := { guard with active := false }

def movedTo (guard : StagingGuard) (path : Location) : StagingGuard :=
  { guard with
    path
    cleanup := match guard.cleanup with
      | .quarantine | .retainUntilMoved => .quarantineAfterMove
      | other => other }

/-- `quarantine_now`: whether it may move its path, and the guard after it. -/
def quarantineNow (guard : StagingGuard) : Bool × StagingGuard :=
  match guard.cleanup with
  | .quarantine | .quarantineAfterMove => (true, { guard with cleanup := .retain, active := false })
  | .retainUntilMoved | .retain => (false, { guard with cleanup := .retain })

/-- `drop`: what is deferred to the cleanup worker. -/
def dropped (guard : StagingGuard) : Option Location :=
  if guard.active = true ∧ guard.cleanup = .quarantine then some guard.path else none

end StagingGuard

/-- An installation: what is published, and the directory that it is prepared in. -/
structure Publication where
  manifest : ModelManifest
  staging : Nat

def Publication.expected (publication : Publication) : ModelSnapshotId :=
  publication.manifest.snapshotId

/-- Downloads publish at `hub_destination`, imports at `local_destination`. -/
def Publication.destination (publication : Publication) : ModelPath :=
  match publication.expected with
  | .hub id revision => hubDestination id revision
  | .localModel name digest => localDestination name digest

/-- The guard of a new staging directory: downloads keep theirs. -/
def Publication.guard (publication : Publication) : StagingGuard :=
  match publication.manifest.source with
  | .hub => ⟨.temp publication.staging, .retainUntilMoved, true⟩
  | .localImport _ | .localSymlink _ => ⟨.temp publication.staging, .quarantine, true⟩

/-- A copy has its staging directory before it looks for an installed model. -/
def Publication.firstGuard (publication : Publication) : Option StagingGuard :=
  match publication.manifest.source with
  | .localImport _ => some publication.guard
  | .hub | .localSymlink _ => none

/-! ## Calls -/

abbrev Pid := Nat
abbrev SessionId := Nat

/-- Where `reuse_existing_locked` is called: on its own, or by a publication. -/
inductive Turn where
  | reuse
  | publish
deriving DecidableEq, Repr

/-- Where a call is: what it does next. -/
inductive Point where
  /-- `bind_session_model`: the lock; the manifest; the files; the transaction. -/
  | bindLock (session : SessionId) (installed : InstalledModel)
  | bindRevalidate (session : SessionId) (installed : InstalledModel)
  | bindVerify (session : SessionId) (installed : InstalledModel)
  | bindCommit (session : SessionId) (installed : InstalledModel)
  /-- `remove`: the lock; the manifest; the files; the references; the move. -/
  | removeLock (installed : InstalledModel)
  | removeRevalidate (installed : InstalledModel)
  | removeVerify (installed : InstalledModel)
  | removeCheck (installed : InstalledModel)
  | removeMove (installed : InstalledModel)
  /-- The first call of `reuse_existing_locked`; what is prepared if there is nothing to reuse. -/
  | reuseLock (publication : Publication) (guard : Option StagingGuard)
  | reuseDone (publication : Publication) (guard : Option StagingGuard)
  | prepare (publication : Publication) (guard : Option StagingGuard)
  | publishLock (publication : Publication) (guard : Option StagingGuard)
  /-- `reuse_existing_locked`: is there a directory; is it the model; may it be moved away; move. -/
  | inspect (publication : Publication) (guard : Option StagingGuard) (turn : Turn)
  | load (publication : Publication) (guard : Option StagingGuard) (turn : Turn)
  | checkOccupant (publication : Publication) (guard : Option StagingGuard) (turn : Turn)
      (occupant : Option ModelSnapshotId)
  | checkExpected (publication : Publication) (guard : Option StagingGuard) (turn : Turn)
      (occupant : Option ModelSnapshotId)
  | moveOccupant (publication : Publication) (guard : Option StagingGuard) (turn : Turn)
      (occupant : Option ModelSnapshotId)
  /-- The publication: the rename; is it the model; the move of what is not. -/
  | rename (publication : Publication) (guard : Option StagingGuard)
  | verify (publication : Publication) (guard : StagingGuard)
  | moveFailed (publication : Publication) (guard : StagingGuard)
  /-- The locals are dropped: the lock, then the staging guard; a download then looks after its
  transfer. -/
  | unlock (publication : Publication) (guard : Option StagingGuard)
  | drop (publication : Publication) (guard : Option StagingGuard)
  | finishTransfer (publication : Publication)
  /-- `gc_quarantine` at an old entry: the lock; the references; the removal. -/
  | gcLock (name : Nat)
  | gcCheck (name : Nat)
  | gcRemove (name : Nat)
  /-- The end of a call without a staging guard. -/
  | release

namespace Point

/-- Whether the call holds the lock. -/
def locked : Point → Bool
  | bindLock .. | removeLock .. | reuseLock .. | prepare .. | publishLock .. | drop ..
  | finishTransfer .. | gcLock .. => false
  | _ => true

/-- Where calls begin. -/
def isStart : Point → Bool
  | bindLock _ _ | removeLock _ | gcLock _ => true
  | reuseLock publication guard => guard = publication.firstGuard
  | _ => false

/-- The directory that is about to be moved away. -/
def moving : Point → Option Location
  | removeMove installed => some installed.path
  | moveOccupant publication _ _ _ => some (.models publication.destination)
  | moveFailed _ guard => some guard.path
  | finishTransfer publication => some (.temp publication.staging)
  | _ => none

/-- What follows `reuse_existing_locked` where there is nothing to reuse. -/
def afterReuse (publication : Publication) (guard : Option StagingGuard) : Turn → Point
  | .reuse => reuseDone publication guard
  | .publish => rename publication guard

end Point

/-! ## The system -/

/-- A row of `sessions`, and the manifest that was validated when it was bound. -/
structure Session where
  modelReference : Option ModelRef
  modelSnapshot : Option ModelSnapshotId
  executionLeaseUntil : Option Nat
  validated : Option ModelManifest

/-- An entry of the quarantine. -/
structure QuarantineEntry where
  snapshotId : Option ModelSnapshotId
  payload : Node

/-- The directories, the database and the queue of the cleanup worker. -/
structure Home where
  models : ModelPath → Option Node
  temp : Nat → Option Node
  quarantine : Nat → Option QuarantineEntry
  sessions : Table SessionId Session
  cleanups : List Location

/-- How an operation of the system goes: well; not at all; not even the manifest can be read; done
but followed by an error; the call panics; it is done over. -/
inductive Outcome where
  | ok
  | fails
  | unreadable
  | late
  | panics
  | again
deriving DecidableEq, Repr

namespace Home

/-- `is_snapshot_referenced`. -/
def referenced (h : Home) (snapshot : ModelSnapshotId) : Bool :=
  h.sessions.matching (fun _ session => session.modelSnapshot = some snapshot) ≠ 0

def node (h : Home) : Location → Option Node
  | .models path => h.models path
  | .temp id => h.temp id
  | .elsewhere => none

def clear (h : Home) : Location → Home
  | .models path => { h with models := Function.update h.models path none }
  | .temp id => { h with temp := Function.update h.temp id none }
  | .elsewhere => h

/-- The rename of `move_to_quarantine`, under a new name. -/
def moveToQuarantine (h : Home) (location : Location) (name : Nat)
    (snapshotId : Option ModelSnapshotId) : Home :=
  match h.node location with
  | none => h
  | some payload =>
    { h.clear location with
      quarantine := Function.update h.quarantine name (some ⟨snapshotId, payload⟩) }

/-- A move into quarantine, as far as it gets. -/
def tryMove (h : Home) (location : Location) (name : Nat) (snapshotId : Option ModelSnapshotId) :
    Outcome → Home
  | .ok | .late => h.moveToQuarantine location name snapshotId
  | _ => h

/-- `read_manifest`. -/
def readManifest (h : Home) (path : ModelPath) : Option ModelManifest :=
  match h.models path with
  | some (.model manifest _) => manifest
  | _ => none

/-- `load_installed_at`. -/
def loadInstalledAt (h : Home) (path : ModelPath) : Option ModelManifest :=
  match h.models path with
  | some (.model (some manifest) true) =>
    if manifest.verified = true ∧ path = snapshotDestination manifest.snapshotId then some manifest
    else none
  | _ => none

/-- `revalidate_installed_snapshot` up to the manifest. -/
def revalidated (h : Home) (installed : InstalledModel) : Bool :=
  match installed.path with
  | .models path =>
    h.readManifest path = some installed.manifest && installed.manifest.verified
  | _ => false

/-- `verify_installed_files`. -/
def intact (h : Home) (installed : InstalledModel) : Bool :=
  match h.node installed.path with
  | some (.model _ intact) => intact
  | _ => false

end Home

/-- The row that the transaction of `bind_session_model` commits. -/
def bindRow (session : Session) (installed : InstalledModel) (now : Nat) : Option Session :=
  let reference := installed.manifest.reference
  let snapshot := installed.manifest.snapshotId
  let freed := { session with executionLeaseUntil := none }
  let bound := { freed with
    modelReference := some reference
    modelSnapshot := some snapshot
    validated := some installed.manifest }
  if session.executionLeaseUntil.any (now < ·) then none
  else
    match session.modelReference, session.modelSnapshot with
    | some found, some current =>
      if found = reference ∧ current = snapshot then some freed else none
    | none, none => some bound
    | some found, none => if found = reference then some bound else none
    | none, some _ => none

/-- The transaction of `bind_session_model`. -/
def Home.bindSession (h : Home) (id : SessionId) (installed : InstalledModel) (now : Nat) : Home :=
  match (h.sessions.get id).bind fun session => bindRow session installed now with
  | none => h
  | some row => { h with sessions := h.sessions.updateWhere (fun k _ => k = id) fun _ => row }

/-- How a call goes on: at another point, waiting for the lock, giving it back, or not at all. -/
inductive Move where
  | goTo (point : Point)
  | acquire (point : Point)
  | release (point : Option Point)
  | stop

/-- What a call does at a point. -/
def next (h : Home) (outcome : Outcome) (name now : Nat) : Point → Home × Move
  | .bindLock session installed =>
    (h, if outcome = .ok then .acquire (.bindRevalidate session installed) else .stop)
  | .bindRevalidate session installed =>
    (h, .goTo (if outcome = .ok ∧ h.revalidated installed = true then
      .bindVerify session installed else .release))
  | .bindVerify session installed =>
    (h, .goTo (if outcome = .ok ∧ h.intact installed = true then
      .bindCommit session installed else .release))
  | .bindCommit session installed =>
    (if outcome = .ok then h.bindSession session installed now else h, .goTo .release)
  | .removeLock installed =>
    (h, if outcome = .ok then .acquire (.removeRevalidate installed) else .stop)
  | .removeRevalidate installed =>
    (h, .goTo (if outcome = .ok ∧ h.revalidated installed = true then
      .removeVerify installed else .release))
  | .removeVerify installed =>
    (h, .goTo (if outcome = .ok ∧ h.intact installed = true then
      .removeCheck installed else .release))
  | .removeCheck installed =>
    (h, .goTo (if outcome = .ok ∧ h.referenced installed.manifest.snapshotId = false then
      .removeMove installed else .release))
  | .removeMove installed =>
    (h.tryMove installed.path name (some installed.manifest.snapshotId) outcome, .goTo .release)
  | .reuseLock p guard =>
    (h, if outcome = .ok then .acquire (.inspect p guard .reuse) else .goTo (.drop p guard))
  | .reuseDone p guard => (h, .release (some (.prepare p guard)))
  | .prepare p guard =>
    match outcome with
    | .ok =>
      ({ h with
        temp := Function.update h.temp p.staging (some (.model (some p.manifest) true)) },
        .goTo (.publishLock p (some p.guard)))
    | .again => (h, .goTo (.reuseLock p guard))
    | _ => (h, .goTo (.drop p guard))
  | .publishLock p guard =>
    (h, if outcome = .ok then .acquire (.inspect p guard .publish) else .goTo (.drop p guard))
  | .inspect p guard turn =>
    (h, .goTo (
      if outcome = .ok then
        if (h.models p.destination).isSome then .load p guard turn
        else Point.afterReuse p guard turn
      else
        -- A publication looks whether there is something, and takes an error for nothing.
        match turn with
        | .reuse => .unlock p guard
        | .publish => .rename p guard))
  | .load p guard turn =>
    (h, .goTo (
      match (if outcome = .ok then h.loadInstalledAt p.destination else none) with
      | some found =>
        if found.reference = p.manifest.reference ∧
            found.resolvedRevision = p.manifest.resolvedRevision then .unlock p guard
        else .checkOccupant p guard turn (some found.snapshotId)
      | none =>
        .checkOccupant p guard turn (if outcome = .unreadable then none
          else (h.readManifest p.destination).map (·.snapshotId))))
  | .checkOccupant p guard turn occupant =>
    (h, .goTo (
      match occupant with
      | none => .checkExpected p guard turn none
      | some snapshot =>
        if outcome = .ok ∧ h.referenced snapshot = false then
          .checkExpected p guard turn (some snapshot)
        else .unlock p guard))
  | .checkExpected p guard turn occupant =>
    (h, .goTo (
      if occupant = some p.expected then .moveOccupant p guard turn occupant
      else if outcome = .ok ∧ h.referenced p.expected = false then
        .moveOccupant p guard turn occupant
      else .unlock p guard))
  | .moveOccupant p guard turn occupant =>
    (h.tryMove (.models p.destination) name (occupant.or (some p.expected)) outcome,
      .goTo (if outcome = .ok then Point.afterReuse p guard turn else .unlock p guard))
  | .rename p guard =>
    match outcome, h.temp p.staging, h.models p.destination, guard with
    | .ok, some node, none, some guard | .ok, some node, some .vacant, some guard =>
      ({ h with
        models := Function.update h.models p.destination (some node)
        temp := Function.update h.temp p.staging none },
        .goTo (.verify p (guard.movedTo (.models p.destination))))
    | _, _, _, _ => (h, .goTo (.unlock p guard))
  | .verify p guard =>
    (h, .goTo (
      match outcome with
      | .ok =>
        if h.loadInstalledAt p.destination = some p.manifest then .unlock p (some guard.commit)
        else .moveFailed p guard
      | .panics => .unlock p (some guard)
      | _ => .moveFailed p guard))
  | .moveFailed p guard =>
    let (moves, after) := guard.quarantineNow
    (if moves then h.tryMove guard.path name (some p.expected) outcome else h,
      .goTo (.unlock p (some after)))
  | .unlock p guard => (h, .release (some (.drop p guard)))
  | .drop p guard =>
    ({ h with cleanups := h.cleanups ++ (guard.bind StagingGuard.dropped).toList },
      if p.manifest.source = .hub then .goTo (.finishTransfer p) else .stop)
  | .finishTransfer p => (h.tryMove (.temp p.staging) name (some p.expected) outcome, .stop)
  | .gcLock entry => (h, if outcome = .ok then .acquire (.gcCheck entry) else .stop)
  | .gcCheck entry =>
    (h, .goTo (
      match h.quarantine entry with
      | none => .release
      | some found =>
        if outcome = .ok ∧ found.snapshotId.any h.referenced = false then .gcRemove entry
        else .release))
  | .gcRemove entry =>
    ({ h with quarantine := Function.update h.quarantine entry none }, .goTo .release)
  | .release => (h, .release none)

structure State where
  threads : Threads Pid Point
  home : Home

/-- The point that a call goes on at. -/
def Move.point : Move → Option Point
  | .goTo point | .acquire point => some point
  | .release point => point
  | .stop => none

/-- The threads after a move. -/
def Move.apply (threads : Threads Pid Point) (pid : Pid) : Move → Option (Threads Pid Point)
  | .goTo point => some (threads.goTo pid point)
  | .acquire point => threads.acquire pid point
  | .release point => some (threads.release pid point)
  | .stop => some (threads.stop pid)

/-- The next step of a call. -/
def advance (s : State) (pid : Pid) (outcome : Outcome) (name now : Nat) : Option State :=
  match s.threads.point pid with
  | none => none
  | some point =>
    let (home, move) := next s.home outcome name now point
    (move.apply s.threads pid).map fun threads => { threads, home }

inductive Action where
  /-- A call begins. -/
  | call (pid : Pid) (point : Point)
  | advance (pid : Pid) (outcome : Outcome) (name now : Nat)
  /-- A process stops within a call: nothing is dropped, and the kernel takes the lock back. -/
  | crash (pid : Pid)
  /-- The cleanup worker takes the next directory. -/
  | cleanup (name : Nat) (outcome : Outcome)
  | createSession (id : SessionId) (reference : Option ModelRef)
  | deleteSession (id : SessionId)
  | setLease (id : SessionId) (lease : Option Nat)
  /-- The files of a model are damaged, or restored. -/
  | setIntact (path : ModelPath) (intact : Bool)

def Node.setIntact (intact : Bool) : Node → Node
  | .vacant => .vacant
  | .model manifest _ => .model manifest intact

/-- One step of the system. -/
def step (s : State) : Action → Option State
  | .call pid point =>
    if (s.threads.point pid).isNone && point.isStart then
      some { s with threads := s.threads.goTo pid point }
    else none
  | .advance pid outcome name now => advance s pid outcome name now
  | .crash pid => some { s with threads := s.threads.stop pid }
  | .cleanup name outcome =>
    match s.home.cleanups with
    | [] => none
    | location :: rest =>
      let home := { s.home with cleanups := rest }
      some { s with home := home.tryMove location name none outcome }
  | .createSession id reference =>
    let session : Session := ⟨reference, none, none, none⟩
    some { s with home := { s.home with sessions := s.home.sessions.insert id session } }
  | .deleteSession id =>
    some { s with home := { s.home with
      sessions := s.home.sessions.deleteWhere fun k _ => k = id } }
  | .setLease id lease =>
    some { s with home := { s.home with
      sessions := s.home.sessions.updateWhere (fun k _ => k = id) fun session =>
        { session with executionLeaseUntil := lease } } }
  | .setIntact path intact =>
    some { s with home := { s.home with
      models := Function.update s.home.models path
        ((s.home.models path).map (·.setIntact intact)) } }

end Binding

end Emelex

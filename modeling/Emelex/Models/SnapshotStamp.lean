import Mathlib.Logic.Function.Basic
import Emelex.Lib.Machine

/-!
# The verification stamp of an installed snapshot

An installed snapshot is a directory with a manifest, the runtime files and a stamp that records the
metadata of these files when their contents were last hashed.  A check trusts the files whose
metadata still agree with the stamp and hashes them all when one does not; a caller that
revalidates then replaces the stamp.

* `checkStep` — `read_manifest` and `verify_installed_files`, one file-system step at a time.
* `refreshStep` — `refresh_verification_stamp`, likewise.
* `step` — any number of processes that load, verify, inspect, list, resolve, reuse, publish and
  remove one snapshot, changes of metadata from outside, and processes that stop.
* `HealthyAlong` — what installed snapshots owe their users; `Undisturbed` — the steps that keep it.

A linked snapshot has no stamp and is left out.

Principal definitions: `checkStep`, `refreshStep`, `step`, `HealthyAlong`, `Undisturbed`.
-/

set_option autoImplicit false

namespace Emelex

open Machine

namespace Snapshot

/-! ## Directories -/

/-- `ModelFile`: a runtime file in the manifest. -/
structure ModelFile where
  path : String
  size : Nat
  sha256 : String
deriving DecidableEq

/-- What `fstat` tells of a file besides its length. -/
structure Metadata where
  inode : Nat
  mtimeSeconds : Int
  mtimeNanoseconds : Int
  ctimeSeconds : Int
  ctimeNanoseconds : Int
deriving DecidableEq

/-- A file on the disk: its content by length and digest, its metadata, and whether it can be
opened. -/
structure LiveFile where
  path : String
  size : Nat
  sha256 : String
  metadata : Metadata
  readable : Bool
deriving DecidableEq

/-- `StampedFile`. -/
structure StampedFile where
  path : String
  size : Nat
  sha256 : String
  metadata : Metadata
deriving DecidableEq

/-- `VerificationStamp`. -/
structure VerificationStamp where
  schemaVersion : Nat
  manifestSha256 : Nat
  files : List StampedFile
deriving DecidableEq

/-- The stamp file: its inode, and its content once it is whole. -/
structure StampFile where
  inode : Nat
  content : Option VerificationStamp
deriving DecidableEq

/-- A snapshot directory: its inode, the digest of its manifest, its runtime files, its stamp, and
whether entries can be made and removed in it. -/
structure Directory where
  inode : Nat
  manifest : Nat
  files : List LiveFile
  stamp : Option StampFile
  writable : Bool
deriving DecidableEq

/-- The file under a path. -/
def Directory.find (directory : Directory) (path : String) : Option LiveFile :=
  directory.files.find? fun file => file.path = path

/-- `open_regular`. -/
def openRegular (directory : Option Directory) (path : String) : Option LiveFile :=
  ((directory.bind fun d => d.find path).filter (·.readable))

inductive ModelsError where
  | io
  | manifestChanged
  | runtimeInventory
  | invalidVerificationStamp
  | corruptFile
  | fileChanged
  | snapshotReferenced
deriving DecidableEq

/-- `InstalledVerification`. -/
inductive InstalledVerification where
  | stamped
  | rehashed
deriving DecidableEq

/-! ## Checking a snapshot -/

/-- Where a check is: at the manifest, at the inventory, at the stamp, at the manifest the stamp is
bound to, at the metadata of a stamped file, or hashing. -/
inductive Check where
  | manifest
  | inventory
  | stamp
  | manifestDigest (stamp : VerificationStamp)
  | metadata (rest : List StampedFile) (drift : Bool)
  | hash (rest : List ModelFile)
deriving DecidableEq

/-- A check goes on or ends. -/
inductive CheckStep where
  | next (check : Check)
  | verdict (result : Except ModelsError InstalledVerification)

/-- `verify_file_inventory`. -/
def verifyFileInventory (files : List ModelFile) (directory : Option Directory) :
    Except ModelsError Unit :=
  match directory with
  | none => .error .io
  | some d =>
    if (files.map (·.path)).Nodup ∧ (∀ file ∈ d.files, file.path ∈ files.map (·.path)) ∧
        ∀ file ∈ files, file.path ∈ d.files.map (·.path) then .ok ()
    else .error .runtimeInventory

/-- The stamp, if it can be read and parsed and is for as many files. -/
def readStamp (files : List ModelFile) (directory : Option Directory) : Option VerificationStamp :=
  ((directory.bind (·.stamp)).bind (·.content)).filter fun stamp =>
    stamp.schemaVersion = 1 ∧ stamp.files.length = files.length

/-- One turn of the loop of `verification_stamp_matches`: `none` is an invalid stamp, else whether
the metadata drifted. -/
def checkStamped (files : List ModelFile) (directory : Option Directory) (stamped : StampedFile) :
    Option Bool :=
  match files.find? fun file => file.path = stamped.path with
  | none => none
  | some file =>
    if stamped.size ≠ file.size ∨ stamped.sha256 ≠ file.sha256 then none
    else
      match openRegular directory stamped.path with
      | none => none
      | some live => some (live.size ≠ stamped.size ∨ live.metadata ≠ stamped.metadata)

/-- One file-system step of `load_installed_at` or `revalidate_installed_snapshot` up to the verdict
of `verify_installed_files`; `installed` is the manifest the caller expects. -/
def checkStep (files : List ModelFile) (installed : Option Nat) (directory : Option Directory) :
    Check → CheckStep
  | .manifest =>
    match directory with
    | none => .verdict (.error .io)
    | some d =>
      if installed.all (· = d.manifest) then .next .inventory
      else .verdict (.error .manifestChanged)
  | .inventory =>
    match verifyFileInventory files directory with
    | .error error => .verdict (.error error)
    | .ok () => .next .stamp
  | .stamp =>
    match readStamp files directory with
    | none => .verdict (.error .invalidVerificationStamp)
    | some stamp => .next (.manifestDigest stamp)
  | .manifestDigest stamp =>
    match directory with
    | none => .verdict (.error .io)
    | some d =>
      if stamp.manifestSha256 = d.manifest then .next (.metadata stamp.files false)
      else .verdict (.error .invalidVerificationStamp)
  | .metadata [] drift => if drift then .next (.hash files) else .verdict (.ok .stamped)
  | .metadata (stamped :: rest) drift =>
    match checkStamped files directory stamped with
    | none => .verdict (.error .invalidVerificationStamp)
    | some drifted => .next (.metadata rest (drift || drifted))
  | .hash [] => .verdict (.ok .rehashed)
  | .hash (file :: rest) =>
    match openRegular directory file.path with
    | none => .verdict (.error .io)
    | some live =>
      if live.size = file.size ∧ live.sha256 = file.sha256 then .next (.hash rest)
      else .verdict (.error .corruptFile)

/-! ## Replacing the stamp -/

/-- `DirectoryRenamePermissions`: the directory that was opened and the mode to restore. -/
structure DirectoryRenamePermissions where
  directory : Nat
  original : Bool
deriving DecidableEq

/-- `restore`: through the open directory, wherever it is now. -/
def DirectoryRenamePermissions.restore (permissions : DirectoryRenamePermissions) (d : Directory) :
    Directory :=
  if d.inode = permissions.directory then { d with writable := permissions.original } else d

/-- Where `refresh_verification_stamp` is. -/
inductive Refresh where
  | prepare
  | removeStamp (permissions : DirectoryRenamePermissions)
  | readManifest (permissions : DirectoryRenamePermissions)
  | record (permissions : DirectoryRenamePermissions) (digest : Nat) (done : List StampedFile)
      (rest : List ModelFile)
  | recording (permissions : DirectoryRenamePermissions) (digest : Nat) (done : List StampedFile)
      (file : ModelFile) (live : LiveFile) (rest : List ModelFile)
  | create (permissions : DirectoryRenamePermissions) (stamp : VerificationStamp)
  | write (permissions : DirectoryRenamePermissions) (inode : Nat) (stamp : VerificationStamp)
  | restore (permissions : DirectoryRenamePermissions) (result : Except ModelsError Unit)

/-- A refresh goes on, in a directory it may have changed, or ends. -/
inductive RefreshStep where
  | next (directory : Option Directory) (refresh : Refresh)
  | finished (directory : Option Directory) (result : Except ModelsError Unit)

/-- The file that was opened has other metadata now; a file that has left the directory has not
changed. -/
def changedSince (directory : Option Directory) (live : LiveFile) : Prop :=
  ∃ d now, directory = some d ∧ d.find live.path = some now ∧
    now.metadata.inode = live.metadata.inode ∧ now.metadata ≠ live.metadata

instance (directory : Option Directory) (live : LiveFile) :
    Decidable (changedSince directory live) :=
  match directory with
  | none => .isFalse (by simp [changedSince])
  | some d =>
    match h : d.find live.path with
    | none => .isFalse (by simp [changedSince, h])
    | some now =>
      decidable_of_iff (now.metadata.inode = live.metadata.inode ∧ now.metadata ≠ live.metadata)
        (by simp [changedSince, h])

/-- One file-system step of `refresh_verification_stamp`; `inode` is a fresh inode number. -/
def refreshStep (files : List ModelFile) (directory : Option Directory) (inode : Nat) :
    Refresh → RefreshStep
  | .prepare =>
    match directory with
    | none => .finished none (.error .io)
    | some d =>
      .next (some { d with writable := true })
        (.removeStamp { directory := d.inode, original := d.writable })
  | .removeStamp permissions =>
    match directory with
    | none => .next none (.readManifest permissions)
    | some d =>
      if d.stamp = none then .next directory (.readManifest permissions)
      else if d.writable then .next (some { d with stamp := none }) (.readManifest permissions)
      else .next directory (.restore permissions (.error .io))
  | .readManifest permissions =>
    match directory with
    | none => .next none (.restore permissions (.error .io))
    | some d => .next directory (.record permissions d.manifest [] files)
  | .record permissions digest done [] =>
    .next directory (.create permissions
      { schemaVersion := 1, manifestSha256 := digest, files := done })
  | .record permissions digest done (file :: rest) =>
    match openRegular directory file.path with
    | none => .next directory (.restore permissions (.error .io))
    | some live => .next directory (.recording permissions digest done file live rest)
  | .recording permissions digest done file live rest =>
    if changedSince directory live then .next directory (.restore permissions (.error .fileChanged))
    else if live.size = file.size ∧ live.sha256 = file.sha256 then
      .next directory (.record permissions digest (done ++ [{
        path := file.path, size := live.size, sha256 := live.sha256,
        metadata := live.metadata }]) rest)
    else .next directory (.restore permissions (.error .corruptFile))
  | .create permissions stamp =>
    match directory with
    | none => .next none (.restore permissions (.error .io))
    | some d =>
      if d.writable ∧ d.stamp = none then
        .next (some { d with stamp := some { inode, content := none } })
          (.write permissions inode stamp)
      else .next directory (.restore permissions (.error .io))
  | .write permissions own stamp =>
    match directory with
    | none => .next none (.restore permissions (.ok ()))
    | some d =>
      if d.stamp.any (·.inode = own) then
        .next (some { d with stamp := some { inode := own, content := some stamp } })
          (.restore permissions (.ok ()))
      else .next directory (.restore permissions (.ok ()))
  | .restore permissions result =>
    .finished (directory.map fun d => permissions.restore d) result

/-! ## The processes -/

/-- What a process is doing with the snapshot.  `load`, `load_policy`, `verify` and
`inspect_installed` revalidate without the snapshot mutation lock, the binding of a Session with it;
`inventory` and `resolve` only check; `remove`, `reuse_existing_locked` and publication hold the lock.
`published` is a publication that has put its directory in place. -/
inductive Intent where
  | inventory
  | revalidate (installed : Nat) (locked : Bool)
  | remove (installed : Nat)
  | reuse
  | publish (manifest : Nat) (files : List LiveFile)
  | published
deriving DecidableEq

/-- Whether the call holds the snapshot mutation lock. -/
def Intent.locked : Intent → Bool
  | .inventory => false
  | .revalidate _ locked => locked
  | _ => true

/-- The manifest a revalidation compares with. -/
def Intent.installed : Intent → Option Nat
  | .revalidate installed _ | .remove installed => some installed
  | _ => none

/-- Why a directory goes to quarantine. -/
inductive Reason where
  | removed
  | invalidExisting
  | failed
deriving DecidableEq

/-- How far a call has come. -/
inductive Phase where
  | idle
  | looking
  | checking (check : Check)
  | refreshing (refresh : Refresh)
  | leaving (reason : Reason)
  | settingMode
  | done (result : Except ModelsError Unit)

/-- No call is in flight. -/
def Phase.atRest : Phase → Bool
  | .idle | .done _ => true
  | _ => false

structure Process where
  intent : Intent
  phase : Phase

abbrev ProcessId := Nat

/-- The canonical destination of one snapshot and the processes that use it.  `referenced` is whether
a Session holds the snapshot; `nextInode` is the next fresh inode number. -/
structure State where
  visible : Option Directory
  processes : ProcessId → Process
  lock : Option ProcessId
  referenced : Bool
  quarantined : List Reason
  nextInode : Nat

/-- Nothing is installed and no call is in flight. -/
def State.initial (referenced : Bool) : State :=
  { visible := none
    processes := fun _ => { intent := .inventory, phase := .idle }
    lock := none
    referenced
    quarantined := []
    nextInode := 0 }

namespace State

def setProcess (s : State) (process : ProcessId) (p : Process) : State :=
  { s with processes := Function.update s.processes process p }

def setPhase (s : State) (process : ProcessId) (phase : Phase) : State :=
  s.setProcess process { (s.processes process) with phase }

def setVisible (s : State) (visible : Option Directory) : State := { s with visible }

/-- The lock is dropped with the call that holds it. -/
def unlock (s : State) (process : ProcessId) : State :=
  { s with lock := if s.lock = some process then none else s.lock }

/-- The call returns. -/
def finish (s : State) (process : ProcessId) (result : Except ModelsError Unit) : State :=
  (s.unlock process).setPhase process (.done result)

end State

/-- The stamp that `write_verification_stamp` makes in a staging directory. -/
def stampOf (manifest : Nat) (files : List ModelFile) (live : List LiveFile) : VerificationStamp :=
  { schemaVersion := 1
    manifestSha256 := manifest
    files := files.filterMap fun file =>
      (live.find? fun l => l.path = file.path).map fun l =>
        { path := file.path, size := l.size, sha256 := l.sha256, metadata := l.metadata } }

/-- The files on the disk have the names and contents of the manifest. -/
def contentsEqual (files : List ModelFile) (live : List LiveFile) : Bool :=
  decide (files.map (·.path)).Nodup && live.all (fun l => decide (l.path ∈ files.map (·.path))) &&
    files.all fun file => (live.find? fun l => l.path = file.path).any fun l =>
      l.size = file.size && l.sha256 = file.sha256

/-! ## Steps -/

/-- A call starts or takes its next file-system step, the metadata of a runtime file change from
outside, a Session takes or drops the snapshot, or a process stops. -/
inductive Action where
  | start (process : ProcessId) (intent : Intent)
  | advance (process : ProcessId)
  | drift (path : String) (metadata : Metadata) (readable : Bool)
  | reference (held : Bool)
  | stop (process : ProcessId)
deriving DecidableEq

/-- The intents a caller can have, and where they begin. -/
def Intent.begin : Intent → Option Phase
  | .inventory | .revalidate _ _ | .remove _ => some (.checking .manifest)
  | .reuse | .publish _ _ => some .looking
  | .published => none

/-- A staging directory has been verified before it is published. -/
def Intent.ready (files : List ModelFile) : Intent → Bool
  | .publish _ live => contentsEqual files live && live.all (·.readable)
  | _ => true

/-- A call starts; one that needs the lock waits until it is free. -/
def start (files : List ModelFile) (s : State) (process : ProcessId) (intent : Intent) :
    Option State :=
  match (s.processes process).phase.atRest, intent.begin with
  | true, some phase =>
    if intent.ready files then
      if intent.locked then
        if s.lock = none then
          some { s.setProcess process { intent, phase } with lock := some process }
        else none
      else some (s.setProcess process { intent, phase })
    else none
  | _, _ => none

/-- `symlink_metadata` on the destination; where there is nothing, publication renames its staging
directory, stamped before, into place. -/
def look (files : List ModelFile) (s : State) (process : ProcessId) (intent : Intent) : State :=
  match s.visible, intent with
  | some _, _ => s.setPhase process (.checking .manifest)
  | none, .publish manifest live =>
    { s.setProcess process { intent := .published, phase := .checking .manifest } with
      visible := some {
        inode := s.nextInode
        manifest
        files := live
        stamp := some { inode := s.nextInode, content := some (stampOf manifest files live) }
        writable := true }
      nextInode := s.nextInode + 1 }
  | none, _ => s.finish process (.ok ())

/-- What a call does with the verdict of its check. -/
def conclude (s : State) (process : ProcessId) (intent : Intent) :
    Except ModelsError InstalledVerification → State
  | .error error =>
    match intent with
    | .reuse | .publish _ _ => s.setPhase process (.leaving .invalidExisting)
    | .published => s.setPhase process (.leaving .failed)
    | _ => s.finish process (.error error)
  | .ok verification =>
    match intent, verification with
    | .revalidate _ _, .rehashed | .remove _, .rehashed => s.setPhase process (.refreshing .prepare)
    | .remove _, .stamped => s.setPhase process (.leaving .removed)
    | .published, _ => s.setPhase process .settingMode
    | _, _ => s.finish process (.ok ())

/-- `ensure_unreferenced`, then the rename into quarantine. -/
def leave (s : State) (process : ProcessId) (intent : Intent) (reason : Reason) : State :=
  if reason ≠ .failed ∧ s.referenced then s.finish process (.error .snapshotReferenced)
  else
    match s.visible with
    | none => s.finish process (.error .io)
    | some _ =>
      let moved := { s with visible := none, quarantined := reason :: s.quarantined }
      match intent with
      | .publish _ _ => moved.setPhase process .looking
      | _ => moved.finish process (.ok ())

/-- The next file-system step of a call in flight. -/
def advance (files : List ModelFile) (s : State) (process : ProcessId) : Option State :=
  let intent := (s.processes process).intent
  match (s.processes process).phase with
  | .idle | .done _ => none
  | .looking => some (look files s process intent)
  | .checking check =>
    match checkStep files intent.installed s.visible check with
    | .next check => some (s.setPhase process (.checking check))
    | .verdict result => some (conclude s process intent result)
  | .refreshing refresh =>
    match refreshStep files s.visible s.nextInode refresh with
    | .next directory refresh =>
      some { (s.setVisible directory).setPhase process (.refreshing refresh) with
        nextInode := s.nextInode + 1 }
    | .finished directory result =>
      let s := s.setVisible directory
      match intent, result with
      | .remove _, .ok () => some (s.setPhase process (.leaving .removed))
      | _, _ => some (s.finish process result)
  | .leaving reason => some (leave s process intent reason)
  | .settingMode =>
    some ((s.setVisible (s.visible.map fun d => { d with writable := false })).finish process
      (.ok ()))

/-- Touching, copying or changing the mode of a runtime file. -/
def drift (s : State) (path : String) (metadata : Metadata) (readable : Bool) : State :=
  s.setVisible (s.visible.map fun d => { d with
    files := d.files.map fun file =>
      if file.path = path then { file with metadata, readable } else file })

/-- The state after an action; `none` when the call is not there or waits for the lock. -/
def step (files : List ModelFile) (s : State) : Action → Option State
  | .start process intent => start files s process intent
  | .advance process => advance files s process
  | .drift path metadata readable => some (drift s path metadata readable)
  | .reference held => some { s with referenced := held }
  | .stop process => some ((s.unlock process).setPhase process .idle)

/-! ## What installed snapshots owe their users -/

/-- The call is replacing the stamp, in a directory whose mode it has changed. -/
def Phase.isRefreshing : Phase → Bool
  | .refreshing .prepare => false
  | .refreshing _ => true
  | _ => false

/-- The call has removed the stamp and has not written the new one. -/
def Phase.inWindow : Phase → Bool
  | .refreshing (.readManifest _) | .refreshing (.record _ _ _ _)
  | .refreshing (.recording _ _ _ _ _ _) | .refreshing (.create _ _)
  | .refreshing (.write _ _ _) => true
  | _ => false

/-- Over the runs whose steps satisfy `ok`, where file contents never change:
* a check that ends while the snapshot is there accepts it, unless the caller expects another
  manifest;
* no snapshot goes to quarantine as invalid;
* what is visible at the destination has the files of its manifest and a whole stamp, or a call in
  flight is replacing the stamp. -/
structure HealthyAlong (files : List ModelFile) (ok : State → Action → Prop) : Prop where
  accepted : ∀ referenced as s process check error,
    Run (step files) ok (.initial referenced) as s → ok s (.advance process) →
    (s.processes process).phase = .checking check →
    checkStep files (s.processes process).intent.installed s.visible check =
      .verdict (.error error) →
    error ≠ .manifestChanged → s.visible = none
  kept : ∀ referenced as s, Run (step files) ok (.initial referenced) as s →
    .invalidExisting ∉ s.quarantined
  complete : ∀ referenced as s d, Run (step files) ok (.initial referenced) as s →
    s.visible = some d → contentsEqual files d.files = true ∧
      ((d.stamp.bind (·.content)).isSome = true ∨
        ∃ process, (s.processes process).phase.isRefreshing = true)

/-- The steps that keep installed snapshots healthy.
* Changes of metadata leave the files readable.
* No process stops between removing a stamp and writing the new one.
* A stamp is read only while no process is between these two steps.
* A stamp is replaced by one process at a time, while no publication sets the mode of the directory,
  and no file changes while its entry of the new stamp is recorded.
* No directory is published while a check is between the stamp and the manifest it is bound to. -/
def Undisturbed (s : State) : Action → Prop
  | .drift _ _ readable => readable = true
  | .stop process => (s.processes process).phase.inWindow = false
  | .advance process =>
    match (s.processes process).phase with
    | .looking => s.visible = none →
      ∀ other stamp, (s.processes other).phase ≠ .checking (.manifestDigest stamp)
    | .checking .stamp => ∀ other, (s.processes other).phase.inWindow = false
    | .refreshing .prepare =>
      ∀ other, other ≠ process → (s.processes other).phase.isRefreshing = false
    | .refreshing (.recording _ _ _ _ live _) => ¬ changedSince s.visible live
    | .settingMode => ∀ other, (s.processes other).phase.isRefreshing = false
    | _ => True
  | _ => True

end Snapshot

end Emelex

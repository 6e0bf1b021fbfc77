import Mathlib.Logic.Function.Basic
import Emelex.Lib.Machine

/-!
# Replacing a workspace file

`atomic_replace` writes the new content to a sibling temporary file and swaps it with the target
(`RENAME_SWAP`), or installs it where no target was (`RENAME_EXCL`).  After a swap the temporary name
holds what the target was; if that is not the file the caller had opened, the call swaps back.

* `State` — a directory as a map from names to inodes, and any number of calls on one target.
* `step` — one system call of one of the calls; each may fail.
* `NoWriterLosesData` — what concurrent calls owe each other in a reachable state.
* `Settled` — the steps that keep it: a call swaps back only over its own file, and a call that has
  replaced the target has no later failure.

Principal definitions: `step`, `NoWriterLosesData`, `HoldsAlong`, `Settled`.
-/

set_option autoImplicit false

namespace Emelex

open Machine

namespace AtomicReplace

/-! ## The directory and the calls -/

/-- A call of `atomic_replace`. -/
abbrev CallId := Nat

/-- The file that was there at first, and the temporary file each call creates. -/
inductive Inode where
  | original
  | temp (call : CallId)
deriving DecidableEq

/-- The target, and the sibling name each call takes with `O_EXCL`. -/
inductive Name where
  | target
  | temp (call : CallId)
deriving DecidableEq

/-- `WorkspaceError`, with its operation or its reason. -/
inductive WorkspaceError where
  | io (operation : String)
  | path (reason : String)
deriving DecidableEq

/-- The call found another file than the one it had opened. -/
def WorkspaceError.changed : WorkspaceError :=
  .path "mutation target changed before atomic replacement"

/-- A swap back, or the directory sync after it, failed. -/
def WorkspaceError.rollback : WorkspaceError :=
  .io "roll back raced mutation target; original may remain under sibling temporary name"

/-- Why the call could not tell what it had replaced. -/
inductive InspectFault where
  | descriptor
  | entry
  | device
deriving DecidableEq

def InspectFault.error : InspectFault → WorkspaceError
  | .descriptor => .io "inspect expected mutation descriptor"
  | .entry => .io "inspect atomically replaced target"
  | .device => .path "atomically replaced target has an invalid device identity"

/-- How far a call has come. -/
inductive Phase where
  | idle
  | opened
  | created
  | written
  | swapped
  | matched
  | rollingBack (error : WorkspaceError)
  | rolledBack (error : WorkspaceError)
  | replaced
  | dropping (error : WorkspaceError)
  | returned (result : Except WorkspaceError Unit)

/-- `expected` is the file a call had opened.  The last three fields record the history: what the
swap of a call took from the target, the calls that put their file at the target (newest first), and
what each call unlinked. -/
structure State where
  dir : Name → Option Inode
  phase : CallId → Phase
  expected : CallId → Option Inode
  displaced : CallId → Option Inode
  installs : List CallId
  unlinked : List (CallId × Inode)

/-- What the target name holds at first. -/
def originalEntry (existing : Bool) : Option Inode := if existing then some .original else none

/-- A directory with or without a target, and no call started. -/
def State.initial (existing : Bool) : State :=
  { dir := fun
      | .target => originalEntry existing
      | .temp _ => none
    phase := fun _ => .idle
    expected := fun _ => none
    displaced := fun _ => none
    installs := []
    unlinked := [] }

namespace State

def setPhase (s : State) (call : CallId) (phase : Phase) : State :=
  { s with phase := Function.update s.phase call phase }

def setName (s : State) (name : Name) (inode : Option Inode) : State :=
  { s with dir := Function.update s.dir name inode }

/-- `RENAME_SWAP` of the temporary name and the target. -/
def swapEntries (s : State) (call : CallId) : State :=
  (s.setName .target (s.dir (.temp call))).setName (.temp call) (s.dir .target)

/-- `unlinkat` on the temporary name. -/
def unlinkTemp (s : State) (call : CallId) : State :=
  { s.setName (.temp call) none with
    unlinked := (s.dir (.temp call)).toList.map (call, ·) ++ s.unlinked }

section updates

variable (s : State) (call other : CallId) (phase : Phase) (name n : Name) (inode : Option Inode)

@[simp, grind =] theorem setPhase_phase :
    (s.setPhase call phase).phase other = if other = call then phase else s.phase other := by
  simp [setPhase, Function.update_apply]

@[simp, grind =] theorem setPhase_dir : (s.setPhase call phase).dir n = s.dir n := rfl
@[simp, grind =] theorem setPhase_expected :
    (s.setPhase call phase).expected other = s.expected other := rfl
@[simp, grind =] theorem setPhase_displaced :
    (s.setPhase call phase).displaced other = s.displaced other := rfl
@[simp, grind =] theorem setPhase_installs : (s.setPhase call phase).installs = s.installs := rfl
@[simp, grind =] theorem setPhase_unlinked : (s.setPhase call phase).unlinked = s.unlinked := rfl

@[simp, grind =] theorem setName_dir :
    (s.setName name inode).dir n = if n = name then inode else s.dir n := by
  simp [setName, Function.update_apply]

@[simp, grind =] theorem setName_phase : (s.setName name inode).phase other = s.phase other := rfl
@[simp, grind =] theorem setName_expected :
    (s.setName name inode).expected other = s.expected other := rfl
@[simp, grind =] theorem setName_displaced :
    (s.setName name inode).displaced other = s.displaced other := rfl
@[simp, grind =] theorem setName_installs : (s.setName name inode).installs = s.installs := rfl
@[simp, grind =] theorem setName_unlinked : (s.setName name inode).unlinked = s.unlinked := rfl

end updates

end State

/-! ## Steps -/

/-- One system call of one call of `atomic_replace`; `ok` is whether it succeeds. -/
inductive Action where
  | openTarget (call : CallId)
  | createTemp (call : CallId) (ok : Bool)
  | writeTemp (call : CallId) (ok : Bool)
  | swap (call : CallId) (ok : Bool)
  | inspect (call : CallId) (fault : Option InspectFault)
  | unlinkReplaced (call : CallId) (ok : Bool)
  | rollBack (call : CallId) (ok : Bool)
  | syncRollback (call : CallId) (ok : Bool)
  | install (call : CallId) (ok : Bool)
  | syncParent (call : CallId) (ok : Bool)
  | dropTemp (call : CallId) (ok : Bool)
deriving DecidableEq

/-- `open_mutation_existing`. -/
def openTarget (s : State) (call : CallId) : Option State :=
  match s.phase call with
  | .idle => some { s.setPhase call .opened with
      expected := Function.update s.expected call (s.dir .target) }
  | _ => none

/-- `create_sibling_temp`: `open` with `O_EXCL`. -/
def createTemp (s : State) (call : CallId) (ok : Bool) : Option State :=
  match s.phase call with
  | .opened =>
    if ok ∧ s.dir (.temp call) = none then
      some ((s.setName (.temp call) (some (.temp call))).setPhase call .created)
    else some (s.setPhase call (.returned (.error (.io "create sibling temporary file"))))
  | _ => none

/-- `write_all` and `sync_all` on the temporary file. -/
def writeTemp (s : State) (call : CallId) (ok : Bool) : Option State :=
  match s.phase call with
  | .created =>
    if ok then some (s.setPhase call .written)
    else some (s.setPhase call (.dropping (.io "write and sync temporary file")))
  | _ => none

/-- The swap of `replace_existing_with_swap`. -/
def swap (s : State) (call : CallId) (ok : Bool) : Option State :=
  match s.phase call, s.expected call with
  | .written, some _ =>
    if ok ∧ (s.dir .target).isSome ∧ (s.dir (.temp call)).isSome then
      some { (s.swapEntries call).setPhase call .swapped with
        displaced := Function.update s.displaced call (s.dir .target)
        installs := call :: s.installs }
    else some (s.setPhase call (.dropping (.io "atomically swap mutation target")))
  | _, _ => none

/-- `fstat` on the expected file, `fstatat` on the temporary name, and their comparison. -/
def inspect (s : State) (call : CallId) (fault : Option InspectFault) : Option State :=
  match s.phase call with
  | .swapped =>
    match fault with
    | some fault => some (s.setPhase call (.rollingBack fault.error))
    | none =>
      if s.expected call = s.dir (.temp call) then some (s.setPhase call .matched)
      else some (s.setPhase call (.rollingBack .changed))
  | _ => none

/-- The unlink that ends `replace_existing_with_swap`. -/
def unlinkReplaced (s : State) (call : CallId) (ok : Bool) : Option State :=
  match s.phase call with
  | .matched =>
    if ok then some ((s.unlinkTemp call).setPhase call .replaced)
    else some (s.setPhase call (.dropping (.io "remove replaced file after atomic swap")))
  | _ => none

/-- The swap of `rollback_swap`; when it fails the temporary name is kept. -/
def rollBack (s : State) (call : CallId) (ok : Bool) : Option State :=
  match s.phase call with
  | .rollingBack error =>
    if ok ∧ (s.dir .target).isSome ∧ (s.dir (.temp call)).isSome then
      some ((s.swapEntries call).setPhase call (.rolledBack error))
    else some (s.setPhase call (.returned (.error .rollback)))
  | _ => none

/-- The directory sync of `rollback_swap`; when it fails the temporary name is kept. -/
def syncRollback (s : State) (call : CallId) (ok : Bool) : Option State :=
  match s.phase call with
  | .rolledBack error =>
    if ok then some (s.setPhase call (.dropping error))
    else some (s.setPhase call (.returned (.error .rollback)))
  | _ => none

/-- `install_new_exclusively`. -/
def install (s : State) (call : CallId) (ok : Bool) : Option State :=
  match s.phase call, s.expected call with
  | .written, none =>
    if ok ∧ s.dir .target = none ∧ (s.dir (.temp call)).isSome then
      some { ((s.setName .target (s.dir (.temp call))).setName (.temp call) none).setPhase call
          .replaced with
        displaced := Function.update s.displaced call (s.dir .target)
        installs := call :: s.installs }
    else some (s.setPhase call
      (.dropping (.io "atomically install new file without clobbering")))
  | _, _ => none

/-- The directory sync that ends `atomic_replace`. -/
def syncParent (s : State) (call : CallId) (ok : Bool) : Option State :=
  match s.phase call with
  | .replaced =>
    if ok then some (s.setPhase call (.returned (.ok ())))
    else some (s.setPhase call (.returned (.error (.io "sync mutation parent directory"))))
  | _ => none

/-- `PendingTemp::drop`; an error of the unlink is ignored. -/
def dropTemp (s : State) (call : CallId) (ok : Bool) : Option State :=
  match s.phase call with
  | .dropping error =>
    if ok then some ((s.unlinkTemp call).setPhase call (.returned (.error error)))
    else some (s.setPhase call (.returned (.error error)))
  | _ => none

/-- The state after an action; `none` when the call is not there. -/
def step (s : State) : Action → Option State
  | .openTarget call => openTarget s call
  | .createTemp call ok => createTemp s call ok
  | .writeTemp call ok => writeTemp s call ok
  | .swap call ok => swap s call ok
  | .inspect call fault => inspect s call fault
  | .unlinkReplaced call ok => unlinkReplaced s call ok
  | .rollBack call ok => rollBack s call ok
  | .syncRollback call ok => syncRollback s call ok
  | .install call ok => install s call ok
  | .syncParent call ok => syncParent s call ok
  | .dropTemp call ok => dropTemp s call ok

/-! ## What concurrent calls owe each other -/

/-- The call has put its file at the target and has not taken it back. -/
def Phase.inForce : Phase → Bool
  | .swapped | .matched | .rollingBack _ | .replaced | .returned (.ok ()) => true
  | _ => false

def Phase.returnedOk : Phase → Bool
  | .returned (.ok ()) => true
  | _ => false

/-- The call has not started or has returned. -/
def Phase.atRest : Phase → Bool
  | .idle | .returned _ => true
  | _ => false

namespace State

/-- The newest of the installs that satisfy `p`, or what the target was at first. -/
def newest (s : State) (existing : Bool) (p : Phase → Bool) : Option Inode :=
  match s.installs.find? fun call => p (s.phase call) with
  | some call => some (.temp call)
  | none => originalEntry existing

end State

/-- No writer loses data, over a directory that had the target at first or not.
* A call that has returned `Ok` over an expected file took exactly that file from the target.
* When a call has returned that the target changed, the target holds the newest install that is in
  force, and that of the call is not.
* When no call is in flight, the target holds the content of the call that returned `Ok` and was the
  last of these to install its file, or the original.
* A call unlinks only its own temporary file, or the expected file, which it took from the target. -/
structure NoWriterLosesData (existing : Bool) (s : State) : Prop where
  replaced : ∀ call inode, s.phase call = .returned (.ok ()) → s.expected call = some inode →
    s.displaced call = some inode
  changed : ∀ call, s.phase call = .returned (.error .changed) →
    s.dir .target = s.newest existing Phase.inForce ∧ s.dir .target ≠ some (.temp call)
  final : (∀ call, (s.phase call).atRest = true) →
    s.dir .target = s.newest existing Phase.returnedOk
  unlinked : ∀ call inode, (call, inode) ∈ s.unlinked →
    inode = .temp call ∨ s.expected call = some inode ∧ s.displaced call = some inode

/-- The property in every state of every run whose steps satisfy `ok`. -/
def HoldsAlong (ok : State → Action → Prop) : Prop :=
  ∀ existing as s, Run step ok (.initial existing) as s → NoWriterLosesData existing s

/-- The steps that lose no data: a call swaps back only while the target holds its own file, and
succeeds; the unlink of a replaced file and the sync after it succeed. -/
def Settled (s : State) : Action → Prop
  | .rollBack call ok => s.dir .target = some (.temp call) ∧ ok = true
  | .unlinkReplaced _ ok | .syncParent _ ok => ok = true
  | _ => True

end AtomicReplace

end Emelex

import Emelex.Lib.Checks
import Emelex.Lib.Machine
import Emelex.Lib.Table
import Emelex.Memory.Schema
import Mathlib.Logic.Function.Basic
import Mathlib.Order.Defs.LinearOrder

/-!
# Assets and their collection (`memory/assets.rs`)

A file is named by the digest of its content; the catalog has a row for it, and events, active turns
and pending batches link to the row. Any number of processes store, link, read and collect assets; a
transaction is one step, and what a collection does between two transactions is in its phase.

* `storeAsset`, `readAsset`, `addLink` — the transactions of publication and use.
* `gcStart`, `gcRemoveRow`, `gcRemoveFile`, `gcRemoveOrphan` — the transactions of a collection.
* `step` — one of them, by one of the processes.

The digest is a parameter. A process that stops, or that can begin no further transaction, takes
no step any more.
-/

set_option autoImplicit false

namespace Emelex

namespace Memory

namespace Assets

def MAX_ASSET_BYTES : Nat := 128 * 2 ^ 20
def MAX_GC_CATALOG_ROWS : Nat := 256
def NANOSECONDS : Nat := 1000000000

inductive AssetKind where
  | image
  | audio
  | video
  | other
deriving DecidableEq, Repr

structure AssetRef (D : Type) where
  sha256 : D
  bytes : Nat
  kind : AssetKind
deriving DecidableEq, Repr

/-- A row of `assets`. -/
structure AssetRow where
  bytes : Nat
  createdAt : Time
  verifiedAt : Time
deriving DecidableEq, Repr

/-- A file of the directory; `mtime` is when its content was written. -/
structure AssetFile where
  content : List UInt8
  mtime : Time
deriving DecidableEq, Repr

/-- What links to an asset: `session_assets`, `active_agent_turn_assets`, `pending_tool_assets`. -/
inductive Owner where
  | event (id : Uuid) (ordinal : Nat)
  | activeTurn (session : Uuid) (ordinal : Nat)
  | pendingBatch (session : Uuid)
deriving DecidableEq, Repr

/-- `CatalogCandidate`. -/
structure CatalogCandidate (D : Type) where
  sha256 : D
  row : AssetRow
deriving DecidableEq, Repr

/-- Where a collection is between two transactions. -/
inductive Phase (D : Type) where
  /-- The rows that are still to be removed. -/
  | catalog (candidates : List (CatalogCandidate D))
  /-- The row of the candidate is removed, its file is not. -/
  | rowRemoved (candidate : CatalogCandidate D) (rest : List (CatalogCandidate D))
  /-- The walk over the directory. -/
  | orphans
  /-- `Err`. -/
  | failed
deriving DecidableEq, Repr

structure Collector (D : Type) where
  cutoff : Int
  phase : Phase D
deriving DecidableEq, Repr

/-- The catalog, the directory and the collections at work. The references that have been returned
and the cutoffs of all collections are kept beside them. -/
structure State (D : Type) where
  assets : Table D AssetRow
  files : D → Option AssetFile
  links : List (Owner × D)
  collectors : Nat → Option (Collector D)
  returned : List (AssetRef D × Time)
  cutoffs : List Int

def State.initial {D : Type} : State D where
  assets := .empty
  files := fun _ => none
  links := []
  collectors := fun _ => none
  returned := []
  cutoffs := []

section operations

variable {D : Type} [LinearOrder D] (sha : List UInt8 → D)

def State.setFile (s : State D) (name : D) (file : Option AssetFile) : State D :=
  { s with files := Function.update s.files name file }

def State.setPhase (s : State D) (id : Nat) (cutoff : Int) (phase : Phase D) : State D :=
  { s with collectors := Function.update s.collectors id (some { cutoff, phase }) }

/-! ## Publication and use -/

/-- `validate_asset_metadata` and `verify_digest`. -/
def verified (file : AssetFile) (name : D) (bytes : Nat) : Prop :=
  file.content.length ≤ MAX_ASSET_BYTES ∧ file.content.length = bytes ∧ sha file.content = name

instance (file : AssetFile) (name : D) (bytes : Nat) :
    Decidable (verified sha file name bytes) := by
  unfold verified
  infer_instance

/-- `publish_or_verify`: the file is linked where there is none of its name. -/
def publish (s : State D) (content : List UInt8) (written : Time) : State D :=
  match s.files (sha content) with
  | some _ => s
  | none => s.setFile (sha content) (some { content, mtime := written })

/-- `store_asset`. -/
def storeAsset (s : State D) (kind : AssetKind) (content : List UInt8) (written now : Time) :
    Except MemoryError (AssetRef D) × State D :=
  if MAX_ASSET_BYTES < content.length then
    (.error (.invalid s!"asset exceeds {MAX_ASSET_BYTES} byte limit"), s)
  else
    let reference : AssetRef D := { sha256 := sha content, bytes := content.length, kind }
    let s := publish sha s content written
    match s.files reference.sha256 with
    | none => (.error (.corrupt "published asset disappeared"), s)
    | some file =>
      if verified sha file reference.sha256 reference.bytes then
        match s.assets.get reference.sha256 with
        | none =>
          (.ok reference, { s with
            assets := s.assets.insert reference.sha256
              { bytes := reference.bytes, createdAt := now, verifiedAt := now }
            returned := (reference, now) :: s.returned })
        | some row =>
          if row.bytes = reference.bytes then
            (.ok reference, { s with
              assets := s.assets.updateWhere (fun name _ => name = reference.sha256)
                fun row => { row with verifiedAt := now }
              returned := (reference, now) :: s.returned })
          else (.error (.corrupt "asset catalog byte count conflicts with verified content"), s)
      else (.error (.corrupt "asset metadata byte count differs from its catalog"), s)

/-- `read_asset`. -/
def readAsset (s : State D) (reference : AssetRef D) (now : Time) :
    Except MemoryError (List UInt8) × State D :=
  match s.assets.get reference.sha256 with
  | none => (.error (.invalid "asset is not present in the durable catalog"), s)
  | some row =>
    if row.bytes = reference.bytes then
      match s.files reference.sha256 with
      | none => (.error (.corrupt "cataloged asset is missing"), s)
      | some file =>
        if verified sha file reference.sha256 reference.bytes then
          (.ok file.content, { s with
            assets := s.assets.updateWhere (fun name _ => name = reference.sha256)
              fun row => { row with verifiedAt := now } })
        else (.error (.corrupt "asset metadata byte count differs from its catalog"), s)
    else (.error (.corrupt "asset reference byte count does not match its catalog row"), s)

/-- A link to a row; the foreign key requires that it exists. -/
def addLink (s : State D) (owner : Owner) (name : D) : Option (State D) :=
  if (s.assets.get name).isSome then some { s with links := (owner, name) :: s.links } else none

/-- The links of an owner go with it. -/
def removeLinks (s : State D) (owner : Owner) : State D :=
  { s with links := s.links.filter fun link => link.1 ≠ owner }

/-! ## Collection -/

/-- Old enough, and nothing links to it. -/
def collectable (s : State D) (cutoff : Int) (name : D) (row : AssetRow) : Prop :=
  (row.createdAt : Int) ≤ cutoff ∧ ∀ link ∈ s.links, link.2 ≠ name

instance (s : State D) (cutoff : Int) (name : D) (row : AssetRow) :
    Decidable (collectable s cutoff name row) := by
  unfold collectable
  infer_instance

/-- `gc_catalog_candidates`. -/
def gcCatalogCandidates (s : State D) (cutoff : Int) : List (CatalogCandidate D) :=
  ((s.assets.select (fun name row => decide (collectable s cutoff name row)) fun a b =>
    decide (a.2.createdAt < b.2.createdAt ∨ a.2.createdAt = b.2.createdAt ∧ a.1 ≤ b.1)).take
      MAX_GC_CATALOG_ROWS).map fun (sha256, row) => { sha256, row }

/-- `gc_assets`, to its first transaction that removes. -/
def gcStart (s : State D) (id : Nat) (grace now : Time) : Option (State D) :=
  if grace = 0 ∨ (s.collectors id).isSome then none
  else
    let cutoff : Int := now - grace
    some { s.setPhase id cutoff (.catalog (gcCatalogCandidates s cutoff)) with
      cutoffs := cutoff :: s.cutoffs }

/-- The row of the candidate is still the one that was listed, and is still to go. -/
def removesRow (s : State D) (cutoff : Int) (candidate : CatalogCandidate D) : Prop :=
  ∃ row, s.assets.get candidate.sha256 = some row ∧ row.bytes = candidate.row.bytes ∧
    row.createdAt = candidate.row.createdAt ∧ collectable s cutoff candidate.sha256 row

instance (s : State D) (cutoff : Int) (candidate : CatalogCandidate D) :
    Decidable (removesRow s cutoff candidate) :=
  match h : s.assets.get candidate.sha256 with
  | none => .isFalse fun ⟨_, hrow, _⟩ => by rw [h] at hrow; cases hrow
  | some row =>
    decidable_of_iff (row.bytes = candidate.row.bytes ∧ row.createdAt = candidate.row.createdAt ∧
        collectable s cutoff candidate.sha256 row)
      ⟨fun hrow => ⟨row, h, hrow⟩, fun ⟨_, hrow, hrest⟩ => by
        rw [h] at hrow
        cases hrow
        exact hrest⟩

/-- The first transaction of `remove_cataloged_asset`. -/
def gcRemoveRow (s : State D) (id : Nat) : Option (State D) :=
  match s.collectors id with
  | some { cutoff, phase := .catalog (candidate :: rest) } =>
    if removesRow s cutoff candidate then
      some ({ s with assets := s.assets.deleteWhere fun name _ => name = candidate.sha256 }.setPhase
        id cutoff (.rowRemoved candidate rest))
    else some (s.setPhase id cutoff (.catalog rest))
  | some { cutoff, phase := .catalog [] } => some (s.setPhase id cutoff .orphans)
  | _ => none

/-- `restore_catalog_row`. -/
def restoreCatalogRow (s : State D) (candidate : CatalogCandidate D) : State D :=
  { s with assets := s.assets.insert candidate.sha256 candidate.row }

/-- The second transaction of `remove_cataloged_asset`; with a fault the file cannot be opened,
inspected or unlinked. -/
def gcRemoveFile (s : State D) (id : Nat) (fault : Bool) : Option (State D) :=
  match s.collectors id with
  | some { cutoff, phase := .rowRemoved candidate rest } =>
    if (s.assets.get candidate.sha256).isSome then some (s.setPhase id cutoff (.catalog rest))
    else if fault then some ((restoreCatalogRow s candidate).setPhase id cutoff .failed)
    else match s.files candidate.sha256 with
      | none => some (s.setPhase id cutoff (.catalog rest))
      | some file =>
        if verified sha file candidate.sha256 candidate.row.bytes then
          some ((s.setFile candidate.sha256 none).setPhase id cutoff (.catalog rest))
        else some ((restoreCatalogRow s candidate).setPhase id cutoff .failed)
  | _ => none

/-- A transaction of `remove_orphan_assets`, for a file of the directory. -/
def gcRemoveOrphan (s : State D) (id : Nat) (name : D) (fault : Bool) : Option (State D) :=
  match s.collectors id with
  | some { cutoff, phase := .orphans } =>
    if (s.assets.get name).isSome then some s
    else match s.files name with
      | none => some s
      | some file =>
        if fault then some (s.setPhase id cutoff .failed)
        else if cutoff / NANOSECONDS < (file.mtime / NANOSECONDS : Nat) then some s
        else if verified sha file name file.content.length then some (s.setFile name none)
        else some (s.setPhase id cutoff .failed)
  | _ => none

/-- The collection is over, or its process has stopped. -/
def gcEnd (s : State D) (id : Nat) : State D :=
  { s with collectors := Function.update s.collectors id none }

/-! ## Steps -/

/-- A transaction of one of the processes, or a file that is published before its transaction is
broken off. -/
inductive Action (D : Type) where
  | store (kind : AssetKind) (content : List UInt8) (written now : Time)
  | storeInterrupted (content : List UInt8) (written : Time)
  | link (owner : Owner) (name : D)
  | unlink (owner : Owner)
  | read (reference : AssetRef D) (now : Time)
  | gcStart (id : Nat) (grace now : Time)
  | gcRemoveRow (id : Nat)
  | gcRemoveFile (id : Nat) (fault : Bool)
  | gcRemoveOrphan (id : Nat) (name : D) (fault : Bool)
  | gcEnd (id : Nat)
deriving DecidableEq, Repr

def step (s : State D) : Action D → Option (State D)
  | .store kind content written now => some (storeAsset sha s kind content written now).2
  | .storeInterrupted content written =>
    some (if MAX_ASSET_BYTES < content.length then s else publish sha s content written)
  | .link owner name => addLink s owner name
  | .unlink owner => some (removeLinks s owner)
  | .read reference now => some (readAsset sha s reference now).2
  | .gcStart id grace now => Assets.gcStart s id grace now
  | .gcRemoveRow id => Assets.gcRemoveRow s id
  | .gcRemoveFile id fault => Assets.gcRemoveFile sha s id fault
  | .gcRemoveOrphan id name fault => Assets.gcRemoveOrphan sha s id name fault
  | .gcEnd id => some (Assets.gcEnd s id)

end operations

end Assets

end Memory

end Emelex

import Emelex.Lib.Machine
import Emelex.Memory.Workers

/-!
# Knowledge and its versions (`memory.rs`, `memory/lifecycle.rs`)

Each entry has a key in a workspace, numbered versions, one of which is active, and a pin. A user
writes, activates, pins and deletes; distillation writes and deletes; maintenance ages entries out
and prunes old versions. Every call is one transaction.

* `remember`, `activateKnowledge`, `setKnowledgePinned`, `deleteKnowledge` — the calls of a user.
* `applyCandidates`, `completeDistillation` — those of a worker.
* `tombstoneIdle`, `removeTombstoned`, `pruneVersions` — the phases of `maintain` for Knowledge.
* `step` — one call by one of the processes.

What the store says of a source Session, of the claim on a job and of its Session is an argument.
The rows of tombstones and of results are left out, and the workspace is its identity and its path.
-/

set_option autoImplicit false

namespace Emelex

namespace Memory

namespace Knowledge

def MAX_MAINTENANCE_ROWS : Nat := 10000
def MAX_VERSIONS_PER_KEY : Nat := 1000

/-- A row of `knowledge`; `tombstoned` is set where `tombstoned_at` is. -/
structure Row where
  workspace : String
  workspaceIdentity : WorkspaceIdentity
  key : String
  activeVersion : Nat
  pinned : Bool
  tombstonedAt : Option Time
  createdAt : Time
  updatedAt : Time
deriving DecidableEq, Repr

/-- Where a distilled version comes from. -/
structure Provenance where
  session : Uuid
  throughSequence : Nat
  sha256 : String
  job : Uuid
  candidateIndex : Nat
deriving DecidableEq, Repr

/-- A row of `knowledge_versions`. -/
structure Version where
  content : String
  confidence : Rat
  sourceSession : Option Uuid
  provenance : Option Provenance
  createdAt : Time
deriving DecidableEq, Repr

/-- The two tables; a version is under its entry and its number. -/
structure Shelf where
  knowledge : Table Uuid Row
  versions : Table (Uuid × Nat) Version

/-- `DistillationCandidateInput`. -/
inductive Candidate where
  | upsert (key content : String) (confidence : Rat) (pinned : Bool)
  | tombstone (key : String) (confidence : Rat)
deriving DecidableEq, Repr

/-- The job of a `DistillationLease` and the row of its Session. -/
structure Distillation where
  job : Uuid
  session : Uuid
  throughSequence : Nat
  sha256 : String
  workspace : WorkspaceBinding
deriving DecidableEq, Repr

/-- `RetentionPolicy`, with the cutoffs that it gives now. -/
structure Retention where
  knowledgeCutoff : Int
  tombstoneCutoff : Int
  versionsPerKey : Nat
deriving DecidableEq, Repr

namespace Shelf

def empty : Shelf := ⟨.empty, .empty⟩

/-- The numbers of the versions of an entry. -/
def numbers (shelf : Shelf) (id : Uuid) : List Nat :=
  (shelf.versions.entries.filter fun e => e.1.1 = id).map fun e => e.1.2

/-- `COALESCE(MAX(version), 0) + 1`. -/
def nextVersion (shelf : Shelf) (id : Uuid) : Nat := (shelf.numbers id).foldl max 0 + 1

/-- The entry of a workspace under a key. -/
def find (shelf : Shelf) (workspace : WorkspaceIdentity) (key : String) : Option (Uuid × Row) :=
  shelf.knowledge.entries.find? fun e => e.2.workspaceIdentity = workspace && e.2.key = key

/-- The new version of an entry, and the row that names it. -/
def write (shelf : Shelf) (existing : Bool) (id : Uuid) (row : Row) (content : Version) :
    Shelf where
  knowledge :=
    if existing then
      shelf.knowledge.updateWhere (fun id' _ => id' = id) fun old =>
        { old with
          workspace := row.workspace, activeVersion := row.activeVersion, pinned := row.pinned
          tombstonedAt := none, updatedAt := row.updatedAt }
    else shelf.knowledge.insert id row
  versions := shelf.versions.insert (id, row.activeVersion) content

end Shelf

/-! ## Calls of a user -/

/-- The Session that a version names is one of the workspace. -/
def validateSource (workspace : WorkspaceIdentity) :
    Option (Uuid × Option WorkspaceIdentity) → Except MemoryError Unit
  | none => .ok ()
  | some (session, found) => do
    let identity ← required (.notFound "session" session) found
    ensure (identity = workspace)
      (.invalid "Knowledge source session belongs to another workspace")

/-- `remember`; `newId` is the identifier of an entry that is not there yet. -/
def remember (shelf : Shelf) (workspace : WorkspaceBinding) (key content : String)
    (source : Option (Uuid × Option WorkspaceIdentity)) (newId : Uuid) (now : Time) :
    Except MemoryError Shelf := do
  validateRequired key MAX_KNOWLEDGE_KEY_BYTES "Knowledge key"
  validateRequired content MAX_KNOWLEDGE_BYTES "Knowledge content"
  validateSource workspace.identity source
  let existing := shelf.find workspace.identity key
  let id := (existing.map Prod.fst).getD newId
  let version := if existing.isSome then shelf.nextVersion id else 1
  ensure (version ≤ U32_MAX) (.corrupt "Knowledge version overflow")
  return shelf.write existing.isSome id {
      workspace := workspace.path, workspaceIdentity := workspace.identity, key
      activeVersion := version, pinned := existing.any (·.2.pinned), tombstonedAt := none
      createdAt := (existing.map (·.2.createdAt)).getD now, updatedAt := now } {
    content, confidence := 1, sourceSession := source.map Prod.fst, provenance := none
    createdAt := now }

/-- The rows that a statement on one entry of a workspace matches. -/
def ofWorkspace (id : Uuid) (workspace : WorkspaceIdentity) (id' : Uuid) (row : Row) : Bool :=
  id' = id && row.workspaceIdentity = workspace

/-- `activate_knowledge`. -/
def activateKnowledge (shelf : Shelf) (workspace : WorkspaceIdentity) (id : Uuid) (version : Nat)
    (now : Time) : Except MemoryError Shelf := do
  ensure (version ≠ 0) (.invalid "Knowledge version must be positive")
  ensure ((shelf.versions.get (id, version)).isSome = true ∧
      (shelf.knowledge.get id).any (ofWorkspace id workspace id) = true)
    (.invalid s!"Knowledge {id} has no version {version}")
  let knowledge := shelf.knowledge.updateWhere (ofWorkspace id workspace) fun row =>
    { row with activeVersion := version, tombstonedAt := none, updatedAt := now }
  return { shelf with knowledge }

/-- `set_knowledge_pinned`. -/
def setKnowledgePinned (shelf : Shelf) (workspace : WorkspaceIdentity) (id : Uuid) (pinned : Bool)
    (now : Time) : Except MemoryError Shelf := do
  ensure (shelf.knowledge.matching (ofWorkspace id workspace) ≠ 0) (.notFound "Knowledge" id)
  let knowledge := shelf.knowledge.updateWhere (ofWorkspace id workspace) fun row =>
    { row with pinned, updatedAt := now }
  return { shelf with knowledge }

/-- `delete_knowledge`. -/
def deleteKnowledge (shelf : Shelf) (workspace : WorkspaceIdentity) (id : Uuid) (now : Time) :
    Except MemoryError Shelf := do
  ensure (shelf.knowledge.matching (ofWorkspace id workspace) ≠ 0) (.notFound "Knowledge" id)
  let knowledge := shelf.knowledge.updateWhere
    (fun id' row => ofWorkspace id workspace id' row && row.tombstonedAt.isNone) fun row =>
      { row with tombstonedAt := some now, pinned := false, updatedAt := now }
  return { shelf with knowledge }

/-! ## Distillation -/

def Candidate.key : Candidate → String
  | .upsert key _ _ _ | .tombstone key _ => key

def Candidate.confidence : Candidate → Rat
  | .upsert _ _ confidence _ | .tombstone _ confidence => confidence

/-- The loop of `validate_candidates`. -/
def validateEach : List String → List Candidate → Except MemoryError Unit
  | _, [] => .ok ()
  | keys, candidate :: candidates => do
    match candidate with
    | .upsert _ content _ _ => validateRequired content MAX_KNOWLEDGE_BYTES "Knowledge content"
    | .tombstone _ _ => .ok ()
    let key := candidate.key
    validateRequired key MAX_KNOWLEDGE_KEY_BYTES "Knowledge key"
    ensure (0 ≤ candidate.confidence ∧ candidate.confidence ≤ 1)
      (.invalid s!"Knowledge candidate {key} confidence must be finite and in 0.0..=1.0")
    ensure (key ∉ keys) (.invalid s!"distillation contains duplicate Knowledge key {key}")
    validateEach (key :: keys) candidates

/-- `validate_candidates`. -/
def validateCandidates (candidates : List Candidate) : Except MemoryError Unit := do
  ensure (candidates.length ≤ MAX_DISTILLATION_CANDIDATES)
    (.invalid s!"distillation exceeds {MAX_DISTILLATION_CANDIDATES} candidate limit")
  validateEach [] candidates

/-- `apply_distilled_version`. -/
def applyDistilledVersion (shelf : Shelf) (lease : Distillation) (candidateIndex : Nat)
    (key content : String) (confidence : Rat) (pinned : Bool) (newId : Uuid) (now : Time) :
    Except MemoryError Shelf := do
  let existing := shelf.find lease.workspace.identity key
  let id := (existing.map Prod.fst).getD newId
  let effectivePinned := existing.any (·.2.pinned) || pinned
  let version := shelf.nextVersion id
  ensure (version ≤ U32_MAX) (.corrupt "Knowledge version overflow")
  return shelf.write existing.isSome id {
      workspace := lease.workspace.path, workspaceIdentity := lease.workspace.identity, key
      activeVersion := version, pinned := effectivePinned, tombstonedAt := none
      createdAt := (existing.map (·.2.createdAt)).getD now, updatedAt := now } {
    content, confidence, sourceSession := some lease.session
    provenance := some {
      session := lease.session, throughSequence := lease.throughSequence, sha256 := lease.sha256
      job := lease.job, candidateIndex }
    createdAt := now }

/-- One turn of the loop of `complete_distillation`. -/
def applyCandidate (shelf : Shelf) (lease : Distillation) (candidateIndex : Nat) (newId : Uuid)
    (now : Time) : Candidate → Except MemoryError Shelf
  | .upsert key content confidence pinned =>
    applyDistilledVersion shelf lease candidateIndex key content confidence pinned newId now
  | .tombstone key _ =>
    match (shelf.find lease.workspace.identity key).filter (!·.2.pinned) with
    | none => .ok shelf
    | some (id, _) => .ok { shelf with
        knowledge := shelf.knowledge.updateWhere (fun id' _ => id' = id) fun row =>
          { row with tombstonedAt := some now, updatedAt := now } }

/-- The loop of `complete_distillation`; each candidate comes with a new identifier. -/
def applyCandidates (lease : Distillation) (now : Time) :
    Nat → List (Uuid × Candidate) → Shelf → Except MemoryError Shelf
  | _, [], shelf => .ok shelf
  | index, (newId, candidate) :: candidates, shelf => do
    let shelf ← applyCandidate shelf lease index newId now candidate
    applyCandidates lease now (index + 1) candidates shelf

/-- `complete_distillation`; `authority` is what the claim and the Session say before the loop, and
`changed` the rows of the job that are completed after it. -/
def completeDistillation (shelf : Shelf) (authority : Except MemoryError Distillation)
    (candidates : List (Uuid × Candidate)) (changed : Nat) (now : Time) :
    Except MemoryError Shelf := do
  validateCandidates (candidates.map Prod.snd)
  let lease ← authority
  let shelf ← applyCandidates lease now 0 candidates shelf
  ensure (changed = 1) (.staleDistillationLease lease.job)
  return shelf

/-! ## Maintenance -/

/-- `ORDER BY … ASC, id ASC`. -/
def oldest (time : Row → Time) (a b : Uuid × Row) : Bool :=
  decide (time a.2 < time b.2 ∨ time a.2 = time b.2 ∧ a.1 ≤ b.1)

/-- The entries that were not touched for long, in the order in which they go. -/
def idleEntries (shelf : Shelf) (retention : Retention) (maxRows : Nat) : List Uuid :=
  ((shelf.knowledge.select (fun _ row => !row.pinned && row.tombstonedAt.isNone &&
    decide ((row.updatedAt : Int) ≤ retention.knowledgeCutoff))
      (oldest (·.updatedAt))).take maxRows).map Prod.fst

/-- The first phase. -/
def tombstoneIdle (shelf : Shelf) (retention : Retention) (maxRows : Nat) (now : Time) : Shelf :=
  let idle := idleEntries shelf retention maxRows
  let knowledge := shelf.knowledge.updateWhere (fun id _ => id ∈ idle) fun row =>
    { row with tombstonedAt := some now, updatedAt := now }
  { shelf with knowledge }

/-- The entries that were tombstoned long ago, in the order in which they go. -/
def expiredEntries (shelf : Shelf) (retention : Retention) (maxRows : Nat) : List Uuid :=
  ((shelf.knowledge.select (fun _ row => !row.pinned &&
    row.tombstonedAt.any fun time : Time => decide ((time : Int) ≤ retention.tombstoneCutoff))
      (oldest (·.tombstonedAt.getD 0))).take maxRows).map Prod.fst

/-- The second phase: the versions of an entry go with it. -/
def removeTombstoned (shelf : Shelf) (retention : Retention) (maxRows : Nat) : Shelf :=
  let expired := expiredEntries shelf retention maxRows
  { knowledge := shelf.knowledge.deleteWhere fun id _ => id ∈ expired
    versions := shelf.versions.deleteWhere fun number _ => number.1 ∈ expired }

/-- `ROW_NUMBER() OVER (PARTITION BY knowledge_id ORDER BY version DESC)`. -/
def retainedRank (shelf : Shelf) (number : Uuid × Nat) : Nat :=
  (shelf.numbers number.1).countP (number.2 ≤ ·)

/-- A version that may go: it is not the active one, and enough higher ones are kept. -/
def prunable (shelf : Shelf) (retention : Retention) (number : Uuid × Nat) : Bool :=
  (shelf.versions.get number).isSome && (shelf.knowledge.get number.1).any fun row =>
    !row.pinned && decide (number.2 ≠ row.activeVersion) &&
      decide (retention.versionsPerKey < retainedRank shelf number)

/-- The third phase; the limit may leave any of the versions that may go. -/
def pruneVersions (shelf : Shelf) (pruned : List (Uuid × Nat)) : Shelf :=
  { shelf with versions := shelf.versions.deleteWhere fun number _ => number ∈ pruned }

/-- The phases of `maintain` for Knowledge. -/
def maintain (shelf : Shelf) (retention : Retention) (maxRows : Nat) (pruned : List (Uuid × Nat))
    (now : Time) : Except MemoryError Shelf := do
  ensure (1 ≤ maxRows ∧ maxRows ≤ MAX_MAINTENANCE_ROWS)
    (.invalid s!"maintenance row limit must be in 1..={MAX_MAINTENANCE_ROWS}")
  ensure (retention.versionsPerKey ≠ 0 ∧ retention.versionsPerKey ≤ MAX_VERSIONS_PER_KEY)
    (.invalid "Knowledge versions per key must be in 1..=1000")
  let shelf := removeTombstoned (tombstoneIdle shelf retention maxRows now) retention maxRows
  -- the statement names no order, so that the engine chooses which of the rows it deletes
  let chosen := pruned.filter fun number => prunable shelf retention number
  return pruneVersions shelf (chosen.take maxRows)

/-! ## Steps -/

/-- The tables, the identifiers that have been minted, and the numbers that have been in use. -/
structure State where
  shelf : Shelf
  issued : List Uuid
  used : List (Uuid × Nat)

def State.initial : State := ⟨.empty, [], []⟩

/-- A call of one of the processes. -/
inductive Action where
  | remember (workspace : WorkspaceBinding) (key content : String)
      (source : Option (Uuid × Option WorkspaceIdentity)) (newId : Uuid) (now : Time)
  | activate (workspace : WorkspaceIdentity) (id : Uuid) (version : Nat) (now : Time)
  | setPinned (workspace : WorkspaceIdentity) (id : Uuid) (pinned : Bool) (now : Time)
  | delete (workspace : WorkspaceIdentity) (id : Uuid) (now : Time)
  | completeDistillation (authority : Except MemoryError Distillation)
      (candidates : List (Uuid × Candidate)) (changed : Nat) (now : Time)
  | maintain (retention : Retention) (maxRows : Nat) (pruned : List (Uuid × Nat)) (now : Time)

/-- The identifiers that a call mints. -/
def Action.mints : Action → List Uuid
  | .remember _ _ _ _ newId _ => [newId]
  | .completeDistillation _ candidates _ _ => candidates.map Prod.fst
  | _ => []

/-- What a call leaves where it commits. -/
def Action.perform (shelf : Shelf) : Action → Except MemoryError Shelf
  | .remember workspace key content source newId now =>
    Knowledge.remember shelf workspace key content source newId now
  | .activate workspace id version now => activateKnowledge shelf workspace id version now
  | .setPinned workspace id pinned now => setKnowledgePinned shelf workspace id pinned now
  | .delete workspace id now => deleteKnowledge shelf workspace id now
  | .completeDistillation authority candidates changed now =>
    Knowledge.completeDistillation shelf authority candidates changed now
  | .maintain retention maxRows pruned now =>
    Knowledge.maintain shelf retention maxRows pruned now

/-- A call with new identifiers; an error leaves the tables as they are. -/
def step (s : State) (action : Action) : Option State :=
  if action.mints.Nodup ∧ ∀ id ∈ action.mints, id ∉ s.issued then
    let shelf := (action.perform s.shelf).toOption.getD s.shelf
    some {
      shelf
      issued := action.mints ++ s.issued
      used := shelf.versions.entries.map Prod.fst ++ s.used }
  else none

end Knowledge

end Memory

end Emelex

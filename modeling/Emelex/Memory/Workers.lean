import Emelex.Memory.Sessions

/-!
# Background jobs of a Session (`memory.rs`, `memory/lifecycle.rs`)

The operations of the two job queues: compaction replaces a prefix of a transcript by a summary,
distillation turns one into Knowledge.  Each is the statement of `Queue` on its own table, with what
else the operation reads and writes.

* `queueCompaction`, `claimCompaction`, …, `completeCompaction`.
* `queueDistillation`, `claimDistillation`, …, `completeDistillation`.
* `retryFailedJob`, `maintain` — on both tables.

The confidence of a Knowledge candidate is left out, and of `maintain` all but the recovery of
expired claims.

Principal definitions: `completeCompaction`, `completeDistillation`, `retryFailedJob`.
-/

set_option autoImplicit false

namespace Emelex

namespace Memory

/-- `CompactionLease` or `DistillationLease`. -/
structure JobLease where
  job : Job
  token : Uuid
  leaseUntil : Time
  released : Bool
deriving DecidableEq, Repr

/-- What a call of a worker leaves: its result, the lease, and the tables. -/
structure WorkerCall (α : Type) where
  result : Except MemoryError α
  lease : JobLease
  tables : Tables

/-- The lease is spent where the transaction commits. -/
def settle {α : Type} (lease : JobLease) : Except MemoryError α × Tables → WorkerCall α
  | (.ok a, tables) => { result := .ok a, lease := { lease with released := true }, tables }
  | (.error error, tables) => { result := .error error, lease, tables }

/-- A Session has a live execution lease. -/
def sessionLive (t : Tables) (session : Uuid) (now : Time) : Bool :=
  (t.sessions.get session).any fun row =>
    row.executionToken.isSome && row.executionLeaseUntil.any (now < ·)

/-- The refusal to complete a job whose Session is being executed. -/
def ensureIdle (t : Tables) (session : Uuid) (now : Time) : Except MemoryError SessionRow := do
  let row ← required (.notFound "session" session) (t.sessions.get session)
  let claim ← parseSessionClaim row.executionToken row.executionLeaseUntil
  ensureNotBusy session now claim
  return row

/-- The order in which jobs are claimed. -/
def oldestFirst {ρ : Type} (a b : Uuid × JobRow ρ) : Bool :=
  a.2.createdAt < b.2.createdAt || (a.2.createdAt = b.2.createdAt && a.1 ≤ b.1)

/-! ## Compaction -/

/-- The highest sequence of a summary of the Session. -/
def priorSummarySequence (t : Tables) (session : Uuid) : Nat :=
  ((t.compactions.rows.entries.filter fun e =>
      e.2.sessionId = session && e.2.state = .completed).filterMap fun e =>
    (e.2.finished.bind t.events.get).map (·.sequence)).foldl max 0

/-- The job of a Session with a boundary. -/
def compactionAt (t : Tables) (session : Uuid) (throughSequence : Nat) :
    Option (Uuid × JobRow Uuid) :=
  t.compactions.rows.first
    (fun _ row => row.sessionId = session && row.throughSequence = throughSequence) oldestFirst

/-- An active job of the Session has the same boundary. -/
def ensureSameBoundary (session : Uuid) (throughSequence : Nat) :
    Option (Uuid × JobRow Uuid) → Except MemoryError Unit
  | some (_, active) =>
    let boundary := active.throughSequence
    ensure (boundary = throughSequence)
      (.invalid s!"session {session} already has active compaction through sequence {boundary}")
  | none => .ok ()

/-- The job that a Session has with a boundary after an `INSERT … ON CONFLICT DO NOTHING`. -/
def insertCompaction (t : Tables) (id session : Uuid) (throughSequence : Nat)
    (source : TranscriptProvenance) (now : Time) : Tables :=
  match compactionAt t session throughSequence with
  | some _ => t
  | none => { t with compactions := t.compactions.queue id session throughSequence source now }

/-- The transaction of `queue_compaction`. -/
def writeCompaction (encoding : Encoding) (t : Tables) (session : Uuid) (throughSequence : Nat)
    (id : Uuid) (now : Time) : Except MemoryError ((Uuid × JobRow Uuid) × Tables) := do
  ensure (throughSequence ≠ 0) (.invalid "compaction sequence must be positive")
  ensure (throughSequence ≤ I64_MAX) (.invalid "compaction sequence is too large")
  ensureSameBoundary session throughSequence (t.compactions.rows.first
    (fun _ row => row.sessionId = session && (row.state = .pending || row.state = .running))
    oldestFirst)
  let boundary ← required
    (.invalid s!"session {session} has no event at sequence {throughSequence}")
    (sessionEvents t session fun _ event => event.sequence = throughSequence).head?
  ensure (boundary.2.turnSize ≠ 0 ∧ boundary.2.turnIndex + 1 = boundary.2.turnSize)
    (.invalid s!"compaction sequence {throughSequence} splits an atomic turn")
  let prior := priorSummarySequence t session
  ensure (prior ≤ throughSequence)
    (.invalid (s!"compaction through sequence {throughSequence} must include " ++
      s!"prior summary event sequence {prior}"))
  let source ← transcriptProvenance encoding t session throughSequence
  let t := insertCompaction t id session throughSequence source now
  let raw ← required (.corrupt "compaction row is missing") (compactionAt t session throughSequence)
  return (raw, t)

/-- `queue_compaction`; the job is read back after the commit. -/
def queueCompaction (encoding : Encoding) (t : Tables) (session : Uuid) (throughSequence : Nat)
    (id : Uuid) (now : Time) : Except MemoryError Job × Tables :=
  match transaction t (writeCompaction encoding t session throughSequence id now) with
  | (.error error, tables) => (.error error, tables)
  | (.ok (jobId, row), tables) => (CompactionJob.tryFrom jobId row, tables)

/-- The lease on a job that was claimed, read after the commit. -/
def claimedLease {ρ : Type} (tryFrom : Uuid → JobRow ρ → Except MemoryError Job) (token : Uuid)
    (now : Time) : Except MemoryError (Option (Uuid × JobRow ρ × Time)) × Tables →
      Except MemoryError (Option JobLease) × Tables
  | (.error error, tables) => (.error error, tables)
  | (.ok none, tables) => (.ok none, tables)
  | (.ok (some (id, row, leaseUntil)), tables) =>
    ((tryFrom id row).map fun job => some {
      job := { job with state := .running, retryAfter := none, updatedAt := now }
      token
      leaseUntil
      released := false }, tables)

/-- The transaction of `claim_compaction`. -/
def writeCompactionClaim (t : Tables) (token : Uuid) (now : Time) :
    Except MemoryError (Option (Uuid × JobRow Uuid × Time) × Tables) := do
  let compactions ← Queue.recoverExpired now .staleCompactionLease MAX_STALE_JOB_RECOVERIES
    t.compactions
  match compactions.rows.first
    (fun _ row => row.due now && !sessionLive t row.sessionId now) oldestFirst with
  | none => return (none, { t with compactions })
  | some (id, row) =>
    let leaseUntil := now + COMPACTION_LEASE
    let (compactions, changed) := compactions.claim id token leaseUntil now
    ensure (changed = 1) (.corrupt "compaction claim lost inside immediate transaction")
    return (some (id, row, leaseUntil), { t with compactions })

/-- `claim_compaction`. -/
def claimCompaction (t : Tables) (token : Uuid) (now : Time) :
    Except MemoryError (Option JobLease) × Tables :=
  claimedLease CompactionJob.tryFrom token now (transaction t (writeCompactionClaim t token now))

/-- `recover_stale_compactions`; each round recovers one row, so as many rounds as rows are enough. -/
def recoverStaleCompactions (t : Tables) (now : Time) : Except MemoryError Unit × Tables :=
  transaction t do
    let compactions ← Queue.recoverExpired now .staleCompactionLease
      t.compactions.rows.entries.length t.compactions
    return ((), { t with compactions })

/-- `renew_compaction`. -/
def renewCompaction (t : Tables) (lease : JobLease) (now : Time) : WorkerCall Unit :=
  let leaseUntil := now + COMPACTION_LEASE
  let (compactions, changed) := t.compactions.renew lease.job.id lease.token leaseUntil now
  let tables := { t with compactions }
  if changed = 1 then
    { result := .ok (), lease := { lease with leaseUntil, job := { lease.job with updatedAt := now } },
      tables }
  else
    let message := s!"compaction claim {lease.job.id} is stale or belongs to another worker"
    { result := .error (.invalid message), lease, tables }

/-- `record_compaction_failure`. -/
def recordCompactionFailure (t : Tables) (lease : JobLease) (error : String)
    (disposition : MemoryJobFailureDisposition) (now : Time) :
    WorkerCall MemoryJobFailureOutcome :=
  settle lease (transaction t do
    validateRequired error MAX_JOB_FAILURE_BYTES "compaction failure"
    let row ← required (.staleCompactionLease lease.job.id)
      ((t.compactions.rows.get lease.job.id).filter (·.held lease.token))
    let (outcome, compactions) ← t.compactions.transitionFailure lease.job.id lease.token
      row.failureCount error disposition now (.staleCompactionLease lease.job.id)
    return (outcome, { t with compactions }))

/-- `release_compaction`. -/
def releaseCompaction (t : Tables) (lease : JobLease) (now : Time) : WorkerCall Unit :=
  let (compactions, changed) := t.compactions.release lease.job.id lease.token now
  let tables := { t with compactions }
  if changed = 1 then { result := .ok (), lease := { lease with released := true }, tables }
  else { result := .error (.staleCompactionLease lease.job.id), lease, tables }

/-- `validate_compaction_lease`. -/
def validateCompactionLease (encoding : Encoding) (t : Tables) (lease : JobLease) (now : Time) :
    Except MemoryError (JobRow Uuid) := do
  let row ← required (.notFound "compaction job" lease.job.id)
    (t.compactions.rows.get lease.job.id)
  ensure (row.held lease.token = true ∧ row.leaseUntil.any (now < ·))
    (.staleCompactionLease lease.job.id)
  ensure (row.source = lease.job.source) (.staleCompactionLease lease.job.id)
  let current ← transcriptProvenance encoding t row.sessionId row.throughSequence
  ensure (current = row.source) (.corrupt s!"compaction source changed for job {lease.job.id}")
  return row

/-- The transaction of `complete_compaction`; gives the sequence of the summary event. -/
def writeSummary (encoding : Encoding) (t : Tables) (lease : JobLease) (summary : String)
    (eventId : Uuid) (now : Time) : Except MemoryError (Nat × Tables) := do
  let payload := Payload.compaction lease.job.id lease.job.throughSequence lease.job.source summary
  let _ ← boundedJsonString encoding payload MAX_EVENT_BYTES "compaction summary"
  let row ← validateCompactionLease encoding t lease now
  let _ ← ensureIdle t row.sessionId now
  let sequence := lastEventSequence t row.sessionId + 1
  ensure (sequence ≤ I64_MAX) (.corrupt "session event sequence exceeds SQLite range")
  let events := t.events.insert eventId {
    sessionId := row.sessionId
    sequence
    turnId := eventId
    turnIndex := 0
    turnSize := 1
    kind := .summary
    payload
    createdAt := now }
  let (compactions, changed) := t.compactions.complete lease.job.id lease.token eventId now
  ensure (changed = 1) (.invalid s!"compaction claim {lease.job.id} was lost before completion")
  let (t, _) := updateSession { t with events, compactions } row.sessionId (fun _ => true)
    fun row => { row with updatedAt := now }
  return (sequence, t)

/-- `complete_compaction`; the summary event has the identifier `eventId`, which is also the
identifier of its turn. -/
def completeCompaction (encoding : Encoding) (t : Tables) (lease : JobLease) (summary : String)
    (eventId : Uuid) (now : Time) : WorkerCall Nat :=
  settle lease (transaction t (writeSummary encoding t lease summary eventId now))

/-! ## Distillation -/

/-- The transaction of `queue_distillation`: a job that is there already, or a new one. -/
def writeDistillation (encoding : Encoding) (t : Tables) (session id : Uuid) (now : Time) :
    Except MemoryError (Option ((Uuid × JobRow Time) ⊕ Uuid) × Tables) := do
  let _ ← required (.notFound "session" session) (t.sessions.get session)
  let through := lastEventSequence t session
  if through = 0 then return (none, t)
  else
    let source ← transcriptProvenance encoding t session through
    match t.distillations.rows.first
      (fun _ row => row.sessionId = session && row.source.sha256 = source.sha256) oldestFirst with
    | some raw => return (some (.inl raw), t)
    | none =>
      return (some (.inr id),
        { t with distillations := t.distillations.queue id session through source now })

/-- `queue_distillation`; a job that was there already is read after the commit. -/
def queueDistillation (encoding : Encoding) (t : Tables) (session id : Uuid) (now : Time) :
    Except MemoryError (Option Uuid) × Tables :=
  match transaction t (writeDistillation encoding t session id now) with
  | (.error error, tables) => (.error error, tables)
  | (.ok none, tables) => (.ok none, tables)
  | (.ok (some (.inl (existing, row))), tables) =>
    ((DistillationJob.tryFrom existing row).map fun job => some job.id, tables)
  | (.ok (some (.inr id)), tables) => (.ok (some id), tables)

/-- The transaction of `claim_distillation`. -/
def writeDistillationClaim (t : Tables) (token : Uuid) (now : Time) :
    Except MemoryError (Option (Uuid × JobRow Time × Time) × Tables) := do
  let distillations ← Queue.recoverExpired now .staleDistillationLease MAX_STALE_JOB_RECOVERIES
    t.distillations
  match distillations.rows.first
    (fun _ row => row.due now && (t.sessions.get row.sessionId).any fun session =>
      session.executionToken.isNone || session.executionLeaseUntil.any (· ≤ now))
    oldestFirst with
  | none => return (none, { t with distillations })
  | some (id, row) =>
    let leaseUntil ← deadlineAfter now DISTILLATION_LEASE "distillation lease"
    let (distillations, changed) := distillations.claim id token leaseUntil now
    ensure (changed = 1) (.corrupt "distillation claim lost inside immediate transaction")
    return (some (id, row, leaseUntil), { t with distillations })

/-- `claim_distillation`. -/
def claimDistillation (t : Tables) (token : Uuid) (now : Time) :
    Except MemoryError (Option JobLease) × Tables :=
  claimedLease DistillationJob.tryFrom token now
    (transaction t (writeDistillationClaim t token now))

/-- `renew_distillation`. -/
def renewDistillation (t : Tables) (lease : JobLease) (now : Time) : WorkerCall Unit :=
  match deadlineAfter now DISTILLATION_LEASE "distillation lease" with
  | .error error => { result := .error error, lease, tables := t }
  | .ok leaseUntil =>
    let (distillations, changed) := t.distillations.renew lease.job.id lease.token leaseUntil now
    let tables := { t with distillations }
    if changed = 1 then
      { result := .ok (),
        lease := { lease with leaseUntil, job := { lease.job with updatedAt := now } }, tables }
    else { result := .error (.staleDistillationLease lease.job.id), lease, tables }

/-- `record_distillation_failure`. -/
def recordDistillationFailure (t : Tables) (lease : JobLease) (error : String)
    (disposition : MemoryJobFailureDisposition) (now : Time) :
    WorkerCall MemoryJobFailureOutcome :=
  settle lease (transaction t do
    validateRequired error MAX_JOB_FAILURE_BYTES "distillation failure"
    let row ← required (.staleDistillationLease lease.job.id)
      ((t.distillations.rows.get lease.job.id).filter (·.held lease.token))
    let (outcome, distillations) ← t.distillations.transitionFailure lease.job.id lease.token
      row.failureCount error disposition now (.staleDistillationLease lease.job.id)
    return (outcome, { t with distillations }))

/-- `abandon_distillation`. -/
def abandonDistillation (t : Tables) (lease : JobLease) (now : Time) : WorkerCall Unit :=
  let (distillations, changed) := t.distillations.release lease.job.id lease.token now
  let tables := { t with distillations }
  if changed = 1 then { result := .ok (), lease := { lease with released := true }, tables }
  else { result := .error (.staleDistillationLease lease.job.id), lease, tables }

/-- `validate_distillation_lease`. -/
def validateDistillationLease (encoding : Encoding) (t : Tables) (lease : JobLease) (now : Time) :
    Except MemoryError Unit := do
  let row ← required (.notFound "distillation job" lease.job.id)
    (t.distillations.rows.get lease.job.id)
  ensure (row.held lease.token = true ∧ row.leaseUntil.any (now < ·))
    (.staleDistillationLease lease.job.id)
  let job ← DistillationJob.tryFrom lease.job.id row
  ensure (job.source = lease.job.source ∧ job.throughSequence = lease.job.throughSequence)
    (.staleDistillationLease lease.job.id)
  let current ← transcriptProvenance encoding t job.sessionId job.throughSequence
  ensure (current = job.source) (.staleDistillationLease lease.job.id)

/-! ### Knowledge -/

def MAX_DISTILLATION_CANDIDATES : Nat := 128
def MAX_KNOWLEDGE_BYTES : Nat := 1048576
def MAX_KNOWLEDGE_KEY_BYTES : Nat := 256

/-- `DistillationCandidateInput`; the confidence is left out. -/
inductive DistillationCandidateInput where
  | upsert (key content : String) (pinned : Bool)
  | tombstone (key : String)
deriving DecidableEq, Repr

def DistillationCandidateInput.key : DistillationCandidateInput → String
  | .upsert key _ _ | .tombstone key => key

/-- The content of an upsert is within its bounds. -/
def DistillationCandidateInput.validateContent :
    DistillationCandidateInput → Except MemoryError Unit
  | .upsert _ content _ => validateRequired content MAX_KNOWLEDGE_BYTES "Knowledge content"
  | .tombstone _ => .ok ()

/-- `validate_candidates`. -/
def validateCandidates (candidates : List DistillationCandidateInput) :
    Except MemoryError Unit := do
  ensure (candidates.length ≤ MAX_DISTILLATION_CANDIDATES)
    (.invalid s!"distillation exceeds {MAX_DISTILLATION_CANDIDATES} candidate limit")
  validateEach [] candidates
where
  /-- The loop over the candidates. -/
  validateEach : List String → List DistillationCandidateInput → Except MemoryError Unit
    | _, [] => .ok ()
    | keys, candidate :: candidates => do
      candidate.validateContent
      validateRequired candidate.key MAX_KNOWLEDGE_KEY_BYTES "Knowledge key"
      ensure (candidate.key ∉ keys)
        (.invalid s!"distillation contains duplicate Knowledge key {candidate.key}")
      validateEach (candidate.key :: keys) candidates

/-- The Knowledge of a workspace under a key. -/
def findKnowledge (t : Tables) (workspace : WorkspaceIdentity) (key : String) :
    Option (Uuid × KnowledgeRow) :=
  t.knowledge.entries.find? fun e => e.2.workspaceIdentity = workspace && e.2.key = key

/-- `apply_distilled_version`; `newId` is the identifier of Knowledge that is not there yet. -/
def applyDistilledVersion (t : Tables) (jobId : Uuid) (workspace : WorkspaceIdentity)
    (candidateIndex : Nat) (key content : String) (pinned : Bool) (newId : Uuid) (now : Time) :
    Except MemoryError Tables := do
  let existing := findKnowledge t workspace key
  let id := (existing.map Prod.fst).getD newId
  let effectivePinned := (existing.any (·.2.pinned)) || pinned
  let version := ((t.versions.filter (·.knowledgeId = id)).map (·.version)).foldl max 0 + 1
  ensure (version ≤ U32_MAX) (.corrupt "Knowledge version overflow")
  let knowledge := match existing with
    | some _ => t.knowledge.updateWhere (fun id' _ => id' = id) fun row => { row with
        activeVersion := version, pinned := row.pinned || effectivePinned,
        tombstonedAt := none, updatedAt := now }
    | none => t.knowledge.insert id {
        workspaceIdentity := workspace, key, activeVersion := version, pinned := effectivePinned,
        tombstonedAt := none, updatedAt := now }
  return { t with
    knowledge
    versions := t.versions ++ [{
      knowledgeId := id, version, content, distillationJobId := jobId, candidateIndex }]
    results := t.results ++ [{
      jobId, candidateIndex, knowledgeId := id, knowledgeVersion := version }] }

/-- One turn of the loop of `complete_distillation`. -/
def applyCandidate (t : Tables) (jobId : Uuid) (workspace : WorkspaceIdentity)
    (candidateIndex : Nat) (newId : Uuid) (now : Time) :
    DistillationCandidateInput → Except MemoryError Tables
  | .upsert key content pinned =>
    applyDistilledVersion t jobId workspace candidateIndex key content pinned newId now
  | .tombstone key =>
    match (findKnowledge t workspace key).filter (!·.2.pinned) with
    | none => .ok t
    | some (id, row) => .ok { t with
        knowledge := t.knowledge.updateWhere (fun id' _ => id' = id) fun row =>
          { row with tombstonedAt := some now, updatedAt := now }
        results := t.results ++ [{
          jobId, candidateIndex, knowledgeId := id, knowledgeVersion := row.activeVersion }] }

/-- The loop of `complete_distillation`; each candidate comes with a new identifier. -/
def applyCandidates (jobId : Uuid) (workspace : WorkspaceIdentity) (now : Time) :
    Nat → List (Uuid × DistillationCandidateInput) → Tables → Except MemoryError Tables
  | _, [], t => .ok t
  | index, (newId, candidate) :: candidates, t => do
    let t ← applyCandidate t jobId workspace index newId now candidate
    applyCandidates jobId workspace now (index + 1) candidates t

/-- The transaction of `complete_distillation`. -/
def writeCandidates (encoding : Encoding) (t : Tables) (lease : JobLease)
    (candidates : List (Uuid × DistillationCandidateInput)) (now : Time) :
    Except MemoryError (Unit × Tables) := do
  validateCandidates (candidates.map Prod.snd)
  validateDistillationLease encoding t lease now
  let session ← ensureIdle t lease.job.sessionId now
  let t ← applyCandidates lease.job.id session.workspaceIdentity now 0 candidates t
  let (distillations, changed) := t.distillations.complete lease.job.id lease.token now now
  ensure (changed = 1) (.staleDistillationLease lease.job.id)
  return ((), { t with distillations })

/-- `complete_distillation`. -/
def completeDistillation (encoding : Encoding) (t : Tables) (lease : JobLease)
    (candidates : List (Uuid × DistillationCandidateInput)) (now : Time) : WorkerCall Unit :=
  settle lease (transaction t (writeCandidates encoding t lease candidates now))

/-! ## Both queues -/

/-- `retry_failed_job`. -/
def retryFailedJob (t : Tables) (id : Uuid) (now : Time) : Except MemoryError Unit × Tables :=
  transaction t do
    let (compactions, inCompactions) := t.compactions.retryFailed id now
    let (distillations, inDistillations) := t.distillations.retryFailed id now
    ensure (inCompactions + inDistillations ≠ 0) (.notFound "failed memory job" id)
    ensure (inCompactions + inDistillations = 1)
      (.corrupt s!"worker job ID {id} exists in multiple queues")
    return ((), { t with compactions, distillations })

/-- The recovery phases of `maintain`: expired claims on Sessions are cleared and those on jobs are
recorded as failed attempts, at most `maxRows` of each. -/
def maintain (t : Tables) (maxRows : Nat) (now : Time) : Except MemoryError Unit × Tables :=
  transaction t do
    let expired := (t.sessions.select
      (fun _ row => row.executionToken.isSome && row.executionLeaseUntil.any (· ≤ now))
      fun a b => a.2.executionLeaseUntil.getD 0 < b.2.executionLeaseUntil.getD 0 ||
        (a.2.executionLeaseUntil.getD 0 = b.2.executionLeaseUntil.getD 0 && a.1 ≤ b.1)).take maxRows
    let sessions := t.sessions.updateWhere (fun id _ => id ∈ expired.map Prod.fst)
      fun row => { row with executionToken := none, executionLeaseUntil := none }
    let compactions ← Queue.recoverExpired now .staleCompactionLease maxRows t.compactions
    let distillations ← Queue.recoverExpired now .staleDistillationLease maxRows t.distillations
    return ((), { t with sessions, compactions, distillations })

end Memory

end Emelex

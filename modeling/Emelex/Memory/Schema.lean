import Mathlib.Algebra.Order.Ring.Nat
import Emelex.Lib.Table
import Emelex.Lib.Text

/-!
# The durable store (`memory.rs`)

The rows of the tables that Sessions and their background jobs use, the errors of their operations,
and transactions.

* `SessionRow`, `SessionEvent`, `JobRow` — the tables; `JobRow` is a row of `compaction_jobs` or of
  `distillation_jobs`, which have the same columns but for the one that completion sets.
* `JobRow.check` — the `CHECK` of these two tables; `CompactionJob.tryFrom`,
  `DistillationJob.tryFrom` — what their readers accept.
* `transaction` — an error rolls every statement back.

Principal definitions: `JobRow`, `JobRow.check`, `transaction`.
-/

set_option autoImplicit false

namespace Emelex

namespace Memory

/-! ## Identities and errors -/

abbrev Uuid := Nat

/-- A point in time in nanoseconds; the stored texts are ordered as the times are. -/
abbrev Time := Nat

/-- `WorkspaceIdentity`: device and inode of the workspace directory. -/
structure WorkspaceIdentity where
  device : Nat
  inode : Nat
deriving DecidableEq, Repr

/-- `MemoryError`. -/
inductive MemoryError where
  | invalid (message : String)
  | notFound (entity : String) (id : Uuid)
  | sessionBusy (sessionId : Uuid) (leaseUntil : Time)
  | staleSessionLease (sessionId : Uuid)
  | replayRequired (sessionId : Uuid)
  | staleCompactionLease (jobId : Uuid)
  | staleDistillationLease (jobId : Uuid)
  | workspaceMismatch (sessionId : Uuid) (expected actual : WorkspaceIdentity)
  | staleReplay (sessionId : Uuid) (expectedSequence actualSequence : Nat)
  | corrupt (message : String)
deriving DecidableEq, Repr

/-- Go on where the condition holds. -/
def ensure (condition : Prop) [Decidable condition] (error : MemoryError) :
    Except MemoryError Unit :=
  if condition then .ok () else .error error

/-- The value, or an error where there is none. -/
def required {α : Type} (error : MemoryError) : Option α → Except MemoryError α
  | some a => .ok a
  | none => .error error

@[simp, grind =]
theorem ensure_eq_ok {condition : Prop} [Decidable condition] {error : MemoryError} {u : Unit} :
    ensure condition error = .ok u ↔ condition := by
  unfold ensure
  split <;> simp_all

@[simp, grind =]
theorem required_eq_ok {α : Type} {error : MemoryError} {a : α} {o : Option α} :
    required error o = .ok a ↔ o = some a := by
  cases o <;> simp [required]

@[simp]
theorem bind_eq_ok {α β : Type} {x : Except MemoryError α} {f : α → Except MemoryError β} {b : β} :
    x >>= f = .ok b ↔ ∃ a, x = .ok a ∧ f a = .ok b := by
  cases x with
  | error e => simp [bind, Except.bind]
  | ok a => simp [bind, Except.bind]

/-- A transaction commits, or an error rolls all its statements back. -/
def transaction {τ α : Type} (tables : τ) (body : Except MemoryError (α × τ)) :
    Except MemoryError α × τ :=
  match body with
  | .ok (a, tables) => (.ok a, tables)
  | .error error => (.error error, tables)

theorem transaction_ok {τ α : Type} {tables tables' : τ} {body : Except MemoryError (α × τ)} {a : α}
    (h : transaction tables body = (.ok a, tables')) : body = .ok (a, tables') := by
  unfold transaction at h
  split at h <;> cases h
  rfl

theorem transaction_error {τ α : Type} {tables tables' : τ} {body : Except MemoryError (α × τ)}
    {error : MemoryError} (h : transaction tables body = (.error error, tables')) :
    tables' = tables := by
  unfold transaction at h
  split at h <;> cases h
  rfl

/-! ## Limits -/

def SECOND : Nat := 1000000000

def SESSION_LEASE : Nat := 300 * SECOND
def COMPACTION_LEASE : Nat := 300 * SECOND
def DISTILLATION_LEASE : Nat := 300 * SECOND
def JOB_RETRY_BASE : Nat := 30 * SECOND
def JOB_RETRY_MAX : Nat := 300 * SECOND
def MAX_JOB_FAILURES : Nat := 3
def MAX_JOB_FAILURE_BYTES : Nat := 4096
def MAX_STALE_JOB_RECOVERIES : Nat := 128
def MAX_EVENT_BYTES : Nat := 4194304
def MAX_TURN_EVENTS : Nat := 4096
def MAX_TURN_BYTES : Nat := 16777216
def MAX_REPLAY_EVENTS : Nat := 100000
def MAX_REPLAY_BYTES : Nat := 67108864
def I64_MAX : Nat := 9223372036854775807
def U32_MAX : Nat := 4294967295

/-- The last time that `DateTime<Utc>` can hold. -/
def MAX_UTC : Time := 8210266876799999999999

/-- `deadline_after`. -/
def deadlineAfter (now : Time) (duration : Nat) (name : String) : Except MemoryError Time :=
  if duration + now ≤ MAX_UTC then .ok (now + duration)
  else .error (.invalid s!"{name} deadline overflow")

theorem deadlineAfter_eq_ok {now deadline : Time} {duration : Nat} {name : String}
    (h : deadlineAfter now duration name = .ok deadline) : deadline = now + duration := by
  unfold deadlineAfter at h
  split at h <;> cases h
  rfl

/-- What `MAX` selects. -/
theorem le_foldl_max {numbers : List Nat} {n start : Nat} (h : n ∈ numbers ∨ n ≤ start) :
    n ≤ numbers.foldl max start := by
  induction numbers generalizing start with
  | nil => simpa using h
  | cons first rest ih =>
    rw [List.foldl_cons]
    refine ih ?_
    rcases h with hmem | hle
    · rcases List.mem_cons.1 hmem with rfl | hmem
      · exact .inr (Nat.le_max_right _ _)
      · exact .inl hmem
    · exact .inr (hle.trans (Nat.le_max_left _ _))

/-- `validate_required`. -/
def validateRequired (value : String) (limit : Nat) (name : String) : Except MemoryError Unit := do
  ensure (Text.trim value.toList ≠ []) (.invalid s!"{name} must not be empty")
  ensure (value.utf8ByteSize ≤ limit) (.invalid s!"{name} exceeds {limit} byte limit")

/-! ## Sessions and their events -/

/-- A row of `sessions`: the workspace it is bound to and the claim on its execution. -/
structure SessionRow where
  workspace : String
  workspaceIdentity : WorkspaceIdentity
  executionToken : Option Uuid
  executionLeaseUntil : Option Time
  updatedAt : Time
deriving DecidableEq, Repr

/-- The `CHECK` of `sessions`. -/
def SessionRow.check (row : SessionRow) : Bool :=
  row.executionToken.isSome = row.executionLeaseUntil.isSome

/-- `SessionEventKind`. -/
inductive SessionEventKind where
  | system
  | userMessage
  | assistantMessage
  | toolCall
  | toolResult
  | approval
  | audit
  | summary
  | error
deriving DecidableEq, Repr

/-- `TranscriptProvenance`: what a job was made from. -/
structure TranscriptProvenance where
  eventCount : Nat
  firstEventId : Uuid
  lastEventId : Uuid
  sha256 : String
deriving DecidableEq, Repr

/-- The body of an event: any JSON value, or the one that `prepare_compaction_summary` builds. -/
inductive Payload where
  | value (json : String)
  | compaction (jobId : Uuid) (throughSequence : Nat) (source : TranscriptProvenance)
      (summary : String)
deriving DecidableEq, Repr

/-- A row of `session_events` under its `id`. -/
structure SessionEvent where
  sessionId : Uuid
  sequence : Nat
  turnId : Uuid
  turnIndex : Nat
  turnSize : Nat
  kind : SessionEventKind
  payload : Payload
  createdAt : Time
deriving DecidableEq, Repr

/-! ## Jobs -/

inductive JobState where
  | pending
  | running
  | completed
  | failed
deriving DecidableEq, Repr

/-- A row of `compaction_jobs` or of `distillation_jobs` under its `id`.  `finished` is the column
that completion sets: `summary_event_id` or `completed_at`. -/
structure JobRow (ρ : Type) where
  sessionId : Uuid
  throughSequence : Nat
  source : TranscriptProvenance
  state : JobState
  claimToken : Option Uuid
  leaseUntil : Option Time
  failureCount : Nat
  retryAfter : Option Time
  lastError : Option String
  failedAt : Option Time
  finished : Option ρ
  createdAt : Time
  updatedAt : Time
deriving DecidableEq, Repr

namespace JobRow

variable {ρ : Type}

/-- The failures and the diagnostic agree. -/
def validHistory (row : JobRow ρ) : Bool :=
  (row.failureCount = 0 && row.lastError.isNone) || (0 < row.failureCount && row.lastError.isSome)

/-- The `CHECK`s of the table. -/
def check (row : JobRow ρ) : Bool :=
  0 < row.throughSequence && row.source.eventCount = row.throughSequence &&
  row.lastError.all (·.length ≤ 4096) &&
  match row.state with
  | .pending => row.claimToken.isNone && row.leaseUntil.isNone && row.finished.isNone &&
      row.failedAt.isNone &&
      ((row.failureCount = 0 && row.retryAfter.isNone && row.lastError.isNone) ||
        (0 < row.failureCount && row.lastError.isSome))
  | .running => row.claimToken.isSome && row.leaseUntil.isSome && row.finished.isNone &&
      row.retryAfter.isNone && row.failedAt.isNone && row.validHistory
  | .completed => row.claimToken.isNone && row.leaseUntil.isNone && row.finished.isSome &&
      row.retryAfter.isNone && row.lastError.isNone && row.failedAt.isNone
  | .failed => row.claimToken.isNone && row.leaseUntil.isNone && row.finished.isNone &&
      row.retryAfter.isNone && row.lastError.isSome && row.failedAt.isSome && 0 < row.failureCount

/-- What the readers ask of the columns in each state. -/
def consistent (row : JobRow ρ) : Bool :=
  let hasClaim := row.claimToken.isSome && row.leaseUntil.isSome
  let hasFailure := row.lastError.isSome && row.failedAt.isSome
  match row.state with
  | .pending => !hasClaim && row.finished.isNone && row.failedAt.isNone && row.validHistory &&
      (row.retryAfter.isNone || 0 < row.failureCount)
  | .running => hasClaim && row.finished.isNone && row.retryAfter.isNone &&
      row.failedAt.isNone && row.validHistory
  | .completed => !hasClaim && row.finished.isSome && row.retryAfter.isNone &&
      row.lastError.isNone && row.failedAt.isNone
  | .failed => !hasClaim && row.finished.isNone && row.retryAfter.isNone && hasFailure &&
      0 < row.failureCount

end JobRow

/-- `CompactionJob` or `DistillationJob`. -/
structure Job where
  id : Uuid
  sessionId : Uuid
  throughSequence : Nat
  source : TranscriptProvenance
  state : JobState
  failures : Nat
  retryAfter : Option Time
  lastError : Option String
  failedAt : Option Time
  createdAt : Time
  updatedAt : Time
deriving DecidableEq, Repr

section readers

variable {ρ : Type}

def JobRow.job (id : Uuid) (row : JobRow ρ) : Job where
  id
  sessionId := row.sessionId
  throughSequence := row.throughSequence
  source := row.source
  state := row.state
  failures := row.failureCount
  retryAfter := row.retryAfter
  lastError := row.lastError
  failedAt := row.failedAt
  createdAt := row.createdAt
  updatedAt := row.updatedAt

/-- `CompactionJob::try_from`; `ρ` is the type of `summary_event_id`. -/
def CompactionJob.tryFrom (id : Uuid) (row : JobRow ρ) : Except MemoryError Job := do
  ensure (row.failureCount ≤ U32_MAX) (.corrupt s!"compaction {id} has an invalid failure count")
  ensure (row.consistent = true) (.corrupt "compaction state has inconsistent claim metadata")
  ensure (row.source.eventCount = row.throughSequence)
    (.corrupt s!"compaction {id} source count does not match its boundary")
  return row.job id

/-- `DistillationJob::try_from`; `ρ` is the type of `completed_at`. -/
def DistillationJob.tryFrom (id : Uuid) (row : JobRow ρ) : Except MemoryError Job := do
  ensure (row.source.eventCount = row.throughSequence)
    (.corrupt s!"distillation {id} source count does not match its boundary")
  ensure (row.failureCount ≤ U32_MAX) (.corrupt s!"distillation {id} has an invalid failure count")
  ensure (row.consistent = true) (.corrupt "distillation state has inconsistent claim metadata")
  return row.job id

variable {row : JobRow ρ}

theorem JobRow.consistent_of_check (h : row.check = true) : row.consistent = true := by
  obtain ⟨sessionId, throughSequence, source, state, claimToken, leaseUntil, failureCount,
    retryAfter, lastError, failedAt, finished, createdAt, updatedAt⟩ := row
  cases state <;> simp only [JobRow.check, JobRow.consistent, JobRow.validHistory] at h ⊢ <;> grind

theorem JobRow.eventCount_of_check (h : row.check = true) :
    row.source.eventCount = row.throughSequence := by
  simp only [JobRow.check, Bool.and_eq_true, decide_eq_true_eq] at h
  exact h.1.1.2

/-- A row that satisfies the `CHECK`s is accepted by its reader. -/
theorem CompactionJob.tryFrom_of_check (h : row.check = true)
    (hcount : row.failureCount ≤ U32_MAX) (id : Uuid) :
    CompactionJob.tryFrom id row = .ok (row.job id) := by
  simp [CompactionJob.tryFrom, ensure, hcount, JobRow.consistent_of_check h,
    JobRow.eventCount_of_check h]

theorem DistillationJob.tryFrom_of_check (h : row.check = true)
    (hcount : row.failureCount ≤ U32_MAX) (id : Uuid) :
    DistillationJob.tryFrom id row = .ok (row.job id) := by
  simp [DistillationJob.tryFrom, ensure, hcount, JobRow.consistent_of_check h,
    JobRow.eventCount_of_check h]

end readers

end Memory

end Emelex

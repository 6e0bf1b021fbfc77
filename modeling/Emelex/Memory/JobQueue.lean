import Emelex.Memory.Schema

/-!
# The durable job queues (`memory.rs`, `memory/lifecycle.rs`)

`compaction_jobs` and `distillation_jobs` are worked on in the same way: a job is claimed under a
token with a deadline; the claim ends by completion, by a counted failure or by an uncounted
release; an explicit retry reopens a job that has failed for good.

* `Queue` — the rows of one table and what has happened to them.
* `claim`, `renew`, `fail`, `release`, `complete`, `retryFailed`, `recoverOneExpired` — the statements
  of the transitions; each gives the number of rows it has changed.
* `Queue.Valid` — what every statement keeps: the `CHECK`s of the table, the failure counter, and one
  ending for each claim.

Principal results: `Queue.Valid` is kept by each statement (`Valid.claim`, …, `Valid.recover`),
`stale_token_changes_nothing`.
-/

set_option autoImplicit false

namespace Emelex

namespace Memory

/-! ## Failures -/

/-- `MemoryJobFailureDisposition`. -/
inductive MemoryJobFailureDisposition where
  | retry
  | permanent
deriving DecidableEq, Repr

/-- `MemoryJobFailureOutcome`. -/
inductive MemoryJobFailureOutcome where
  | retryScheduled (failures : Nat) (retryAfter : Time)
  | failed (failures : Nat) (failedAt : Time)
deriving DecidableEq, Repr

/-- `JobFailureTransition`. -/
structure JobFailureTransition where
  failures : Nat
  state : JobState
  retryAfter : Option Time
  failedAt : Option Time
  outcome : MemoryJobFailureOutcome
deriving DecidableEq, Repr

/-- `job_failure_transition`. -/
def jobFailureTransition (currentFailures : Nat) (disposition : MemoryJobFailureDisposition)
    (now : Time) : Except MemoryError JobFailureTransition := do
  ensure (currentFailures ≤ U32_MAX) (.corrupt "worker job has a negative failure count")
  let failures := currentFailures + 1
  ensure (failures ≤ U32_MAX) (.corrupt "worker job failure count overflow")
  if disposition = .permanent ∨ MAX_JOB_FAILURES ≤ failures then
    return {
      failures
      state := .failed
      retryAfter := none
      failedAt := some now
      outcome := .failed failures now }
  else
    let exponent := min (failures - 1) 31
    let delay := min (JOB_RETRY_BASE * 2 ^ exponent) JOB_RETRY_MAX
    let retryAfter ← deadlineAfter now delay "worker retry backoff"
    return {
      failures
      state := .pending
      retryAfter := some retryAfter
      failedAt := none
      outcome := .retryScheduled failures retryAfter }

/-- A failure is one more; it is the last where it is permanent or the third. -/
theorem jobFailureTransition_ok {currentFailures : Nat} {disposition : MemoryJobFailureDisposition}
    {now : Time} {transition : JobFailureTransition}
    (h : jobFailureTransition currentFailures disposition now = .ok transition) :
    transition.failures = currentFailures + 1 ∧
    ((transition.state = .failed ∧ transition.retryAfter = none ∧ transition.failedAt = some now ∧
        (disposition = .permanent ∨ MAX_JOB_FAILURES ≤ currentFailures + 1)) ∨
      (transition.state = .pending ∧ transition.failedAt = none ∧ disposition ≠ .permanent ∧
        currentFailures + 1 < MAX_JOB_FAILURES)) := by
  unfold jobFailureTransition at h
  simp only [bind_eq_ok, ensure_eq_ok] at h
  obtain ⟨_, _, _, _, h⟩ := h
  split at h
  · rename_i hlast
    cases h
    exact ⟨rfl, .inl ⟨rfl, rfl, rfl, hlast⟩⟩
  · rename_i hlast
    obtain ⟨retryAfter, _, h⟩ := bind_eq_ok.1 h
    cases h
    rw [not_or, Nat.not_le] at hlast
    exact ⟨rfl, .inr ⟨rfl, rfl, hlast⟩⟩

/-! ## Queues -/

/-- How a claim ends. -/
inductive Ending where
  | completed
  | failed (disposition : MemoryJobFailureDisposition)
  | released
deriving DecidableEq, Repr

/-- What happens to a job. -/
inductive JobEvent where
  | queued (job : Uuid)
  | claimed (job token : Uuid)
  | ended (job token : Uuid) (ending : Ending)
  | retried (job : Uuid)
deriving DecidableEq, Repr

/-- The rows of a job table, and what has happened to them, latest first; no statement reads the
history. -/
structure Queue (ρ : Type) where
  rows : Table Uuid (JobRow ρ)
  history : List JobEvent

namespace Queue

variable {ρ : Type}

def empty : Queue ρ := { rows := .empty, history := [] }

/-- One `UPDATE … WHERE id = …` and the number of rows it changes. -/
def execute (q : Queue ρ) (job : Uuid) (p : JobRow ρ → Bool) (f : JobRow ρ → JobRow ρ)
    (event : Option JobEvent) : Queue ρ × Nat :=
  let condition := fun id row => decide (id = job) && p row
  let changed := q.rows.matching condition
  ({ rows := q.rows.updateWhere condition f
     history := if changed = 0 then q.history else event.toList ++ q.history }, changed)

end Queue

section statements

variable {ρ : Type}

/-- The job runs under the token. -/
def JobRow.held (token : Uuid) (row : JobRow ρ) : Bool :=
  row.state = .running && row.claimToken = some token

/-- The job is pending and its retry deadline has come. -/
def JobRow.due (now : Time) (row : JobRow ρ) : Bool :=
  row.state = .pending && row.retryAfter.all (· ≤ now)

/-- The claim on the job has expired. -/
def JobRow.expired (now : Time) (row : JobRow ρ) : Bool :=
  row.state = .running && row.leaseUntil.any (· ≤ now)

namespace Queue

/-- A new job. -/
def queue (q : Queue ρ) (job : Uuid) (sessionId : Uuid) (throughSequence : Nat)
    (source : TranscriptProvenance) (now : Time) : Queue ρ where
  rows := q.rows.insert job {
    sessionId
    throughSequence
    source
    state := .pending
    claimToken := none
    leaseUntil := none
    failureCount := 0
    retryAfter := none
    lastError := none
    failedAt := none
    finished := none
    createdAt := now
    updatedAt := now }
  history := .queued job :: q.history

/-- The `UPDATE` of a claim. -/
def claim (q : Queue ρ) (job token : Uuid) (leaseUntil now : Time) : Queue ρ × Nat :=
  q.execute job (·.due now)
    (fun row => { row with
      state := .running, claimToken := some token, leaseUntil := some leaseUntil,
      retryAfter := none, updatedAt := now })
    (some (.claimed job token))

/-- The `UPDATE` of a renewal. -/
def renew (q : Queue ρ) (job token : Uuid) (leaseUntil now : Time) : Queue ρ × Nat :=
  q.execute job (·.held token)
    (fun row => { row with leaseUntil := some leaseUntil, updatedAt := now }) none

/-- The `UPDATE` of a failure. -/
def fail (q : Queue ρ) (job token : Uuid) (transition : JobFailureTransition) (error : String)
    (disposition : MemoryJobFailureDisposition) (now : Time) : Queue ρ × Nat :=
  q.execute job (·.held token)
    (fun row => { row with
      state := transition.state, claimToken := none, leaseUntil := none,
      failureCount := transition.failures, retryAfter := transition.retryAfter,
      lastError := some error, failedAt := transition.failedAt, updatedAt := now })
    (some (.ended job token (.failed disposition)))

/-- The `UPDATE` of a release. -/
def release (q : Queue ρ) (job token : Uuid) (now : Time) : Queue ρ × Nat :=
  q.execute job (·.held token)
    (fun row => { row with
      state := .pending, claimToken := none, leaseUntil := none, retryAfter := none,
      updatedAt := now })
    (some (.ended job token .released))

/-- The `UPDATE` of a completion. -/
def complete (q : Queue ρ) (job token : Uuid) (result : ρ) (now : Time) : Queue ρ × Nat :=
  q.execute job (·.held token)
    (fun row => { row with
      state := .completed, claimToken := none, leaseUntil := none, retryAfter := none,
      lastError := none, failedAt := none, finished := some result, updatedAt := now })
    (some (.ended job token .completed))

/-- The `UPDATE` of an explicit retry. -/
def retryFailed (q : Queue ρ) (job : Uuid) (now : Time) : Queue ρ × Nat :=
  q.execute job (fun row => row.state = .failed)
    (fun row => { row with
      state := .pending, failureCount := 0, retryAfter := none, lastError := none,
      failedAt := none, updatedAt := now })
    (some (.retried job))

/-- A failure under a claim; `stale` is the error of a claim that is lost. -/
def transitionFailure (q : Queue ρ) (job token : Uuid) (currentFailures : Nat) (error : String)
    (disposition : MemoryJobFailureDisposition) (now : Time) (stale : MemoryError) :
    Except MemoryError (MemoryJobFailureOutcome × Queue ρ) := do
  let transition ← jobFailureTransition currentFailures disposition now
  let (q, changed) := q.fail job token transition error disposition now
  ensure (changed = 1) stale
  return (transition.outcome, q)

/-- The claim that expired first is recorded as a failed attempt; `none` where none has expired. -/
def recoverOneExpired (q : Queue ρ) (now : Time) (stale : Uuid → MemoryError) :
    Except MemoryError (Option (Queue ρ)) :=
  match q.rows.first (fun _ row => row.expired now)
    (fun a b => a.2.leaseUntil.getD 0 < b.2.leaseUntil.getD 0 ||
      (a.2.leaseUntil.getD 0 = b.2.leaseUntil.getD 0 && a.1 ≤ b.1)) with
  | none => .ok none
  | some (job, row) => do
    let token ← required (.corrupt "expired claim token is invalid") row.claimToken
    let (_, q) ← q.transitionFailure job token row.failureCount
      "worker lease expired before completion" .retry now (stale job)
    return some q

/-- At most so many expired claims are recorded. -/
def recoverExpired (now : Time) (stale : Uuid → MemoryError) :
    Nat → Queue ρ → Except MemoryError (Queue ρ)
  | 0, q => .ok q
  | n + 1, q => do
    match ← q.recoverOneExpired now stale with
    | none => return q
    | some q => recoverExpired now stale n q

end Queue

end statements

/-! ## What every statement keeps -/

/-- The counted failures of a job since its creation or its last explicit retry. -/
def failuresSinceRetry (job : Uuid) : List JobEvent → Nat
  | [] => 0
  | .queued other :: history | .retried other :: history =>
    if other = job then 0 else failuresSinceRetry job history
  | .ended other _ (.failed _) :: history =>
    (if other = job then 1 else 0) + failuresSinceRetry job history
  | _ :: history => failuresSinceRetry job history

/-- The last counted failure of a job since its creation or its last explicit retry. -/
def lastFailure (job : Uuid) : List JobEvent → Option MemoryJobFailureDisposition
  | [] => none
  | .queued other :: history | .retried other :: history =>
    if other = job then none else lastFailure job history
  | .ended other _ (.failed disposition) :: history =>
    if other = job then some disposition else lastFailure job history
  | _ :: history => lastFailure job history

/-- How many claims were made under a token. -/
def claims (token : Uuid) : List JobEvent → Nat
  | [] => 0
  | .claimed _ other :: history => (if other = token then 1 else 0) + claims token history
  | _ :: history => claims token history

/-- How often a claim under the token ended. -/
def endings (token : Uuid) : List JobEvent → Nat
  | [] => 0
  | .ended _ other _ :: history => (if other = token then 1 else 0) + endings token history
  | _ :: history => endings token history

/-- How often a job was completed. -/
def completions (job : Uuid) : List JobEvent → Nat
  | [] => 0
  | .ended other _ .completed :: history =>
    (if other = job then 1 else 0) + completions job history
  | _ :: history => completions job history

namespace JobRow

variable {ρ : Type} {row : JobRow ρ} {now : Time} {token : Uuid}

/-! ### The `CHECK`s -/

theorem check_claim (h : row.check = true) (hdue : row.due now = true) (token : Uuid)
    (leaseUntil : Time) :
    JobRow.check { row with
      state := .running, claimToken := some token, leaseUntil := some leaseUntil,
      retryAfter := none, updatedAt := now } = true := by
  simp only [check, due, validHistory] at h hdue ⊢
  grind

theorem claimToken_of_check (h : row.check = true) (hstate : row.state ≠ .running) :
    row.claimToken = none := by
  cases hs : row.state <;> simp_all [check]

theorem check_renew (h : row.check = true) (hheld : row.held token = true) (leaseUntil : Time) :
    JobRow.check { row with leaseUntil := some leaseUntil, updatedAt := now } = true := by
  obtain ⟨hstate, _⟩ : row.state = .running ∧ row.claimToken = some token := by
    simpa [held] using hheld
  simp only [check, hstate, validHistory] at h ⊢
  grind

theorem check_release (h : row.check = true) (hheld : row.held token = true) :
    JobRow.check { row with
      state := .pending, claimToken := none, leaseUntil := none, retryAfter := none,
      updatedAt := now } = true := by
  simp only [check, held, validHistory] at h hheld ⊢
  grind

theorem check_complete (h : row.check = true) (result : ρ) :
    JobRow.check { row with
      state := .completed, claimToken := none, leaseUntil := none, retryAfter := none,
      lastError := none, failedAt := none, finished := some result, updatedAt := now } = true := by
  simp only [check] at h ⊢
  grind

theorem check_retryFailed (h : row.check = true) (hfailed : row.state = .failed) :
    JobRow.check { row with
      state := .pending, failureCount := 0, retryAfter := none, lastError := none,
      failedAt := none, updatedAt := now } = true := by
  simp only [check, hfailed] at h ⊢
  grind

theorem check_fail {transition : JobFailureTransition} {error : String}
    {disposition : MemoryJobFailureDisposition} (h : row.check = true)
    (hheld : row.held token = true) (herror : error.length ≤ 4096)
    (ht : jobFailureTransition row.failureCount disposition now = .ok transition) :
    JobRow.check { row with
      state := transition.state, claimToken := none, leaseUntil := none,
      failureCount := transition.failures, retryAfter := transition.retryAfter,
      lastError := some error, failedAt := transition.failedAt, updatedAt := now } = true := by
  obtain ⟨hcount, hstate⟩ := jobFailureTransition_ok ht
  simp only [check, held, validHistory] at h hheld ⊢
  grind

end JobRow

namespace Queue

variable {ρ : Type}

/-- What holds of a job table in every run.
* Every row satisfies the `CHECK`s; its counter is the number of counted failures since it was made
  or retried, at most three, and it has failed for good just where the last of them was permanent or
  the third.
* A job runs under one token; the claims under a token are one at most, and each has ended once or
  its token is still stored.
* A job has been completed once, or not at all. -/
structure Valid (q : Queue ρ) : Prop where
  check : ∀ job row, q.rows.get job = some row → row.check = true
  counted : ∀ job row, q.rows.get job = some row →
    row.failureCount = failuresSinceRetry job q.history ∧ row.failureCount ≤ MAX_JOB_FAILURES
  failed : ∀ job row, q.rows.get job = some row →
    (row.state = .failed ↔ lastFailure job q.history = some .permanent ∨
      failuresSinceRetry job q.history = MAX_JOB_FAILURES)
  held : ∀ job row token, q.rows.get job = some row → row.claimToken = some token →
    claims token q.history = 1 ∧ endings token q.history = 0
  apart : ∀ job other row row' token, q.rows.get job = some row → q.rows.get other = some row' →
    row.claimToken = some token → row'.claimToken = some token → job = other
  ended : ∀ token, (∀ job row, q.rows.get job = some row → row.claimToken ≠ some token) →
    endings token q.history = claims token q.history
  once : ∀ token, claims token q.history ≤ 1
  completed : ∀ job row, q.rows.get job = some row →
    completions job q.history = if row.state = .completed then 1 else 0
  absent : ∀ job, q.rows.get job = none → completions job q.history = 0

variable {q q' : Queue ρ}

theorem valid_empty : (empty : Queue ρ).Valid := by
  constructor <;> simp [empty, claims, endings, completions]

/-- A statement on one job changes its row where the row satisfies the condition, and nothing
elsewhere. -/
theorem execute_cases {job : Uuid} {p : JobRow ρ → Bool} {f : JobRow ρ → JobRow ρ}
    {event : Option JobEvent} {n : Nat} (h : q.execute job p f event = (q', n)) :
    (n = 0 ∧ q' = q ∧ ∀ row, q.rows.get job = some row → p row = false) ∨
    (n = 1 ∧ q'.history = event.toList ++ q.history ∧
      ∃ row, q.rows.get job = some row ∧ p row = true ∧
        ∀ other, q'.rows.get other = if other = job then some (f row) else q.rows.get other) := by
  have hcount := q.rows.matching_key job p
  simp only [execute] at h
  cases hrow : (q.rows.get job).any p with
  | false =>
    rw [hrow] at hcount
    simp only [Bool.false_eq_true, if_false] at hcount
    rw [Table.updateWhere_eq_self hcount, hcount] at h
    cases h
    refine .inl ⟨rfl, rfl, fun row hget => ?_⟩
    simpa [hget] using hrow
  | true =>
    rw [hrow] at hcount
    simp only [if_true] at hcount
    rw [hcount] at h
    cases h
    obtain ⟨row, hget, hp⟩ := (Option.any_eq_true _ _).1 hrow
    refine .inr ⟨rfl, rfl, row, hget, hp, fun other => ?_⟩
    rw [Table.get_updateWhere]
    split
    · rename_i hother
      simp [hother, hget, hp]
    · rename_i hother
      simp [hother]

/-- What holds of every row and of the new one holds of every row after. -/
theorem forall_rows {job : Uuid} {new : JobRow ρ} {P : JobRow ρ → Prop}
    (hrows : ∀ other, q'.rows.get other = if other = job then some new else q.rows.get other)
    (h : ∀ job row, q.rows.get job = some row → P row) (hnew : P new) :
    ∀ job row, q'.rows.get job = some row → P row := by
  intro other row hrow
  rw [hrows] at hrow
  split at hrow
  · cases hrow
    exact hnew
  · exact h other row hrow

namespace Valid

/-- A new job is pending, with no failure counted. -/
theorem queue {job sessionId : Uuid} {throughSequence : Nat} {source : TranscriptProvenance}
    {now : Time} (h : q.Valid) (hfree : q.rows.get job = none) (hpositive : 0 < throughSequence)
    (hcount : source.eventCount = throughSequence) :
    (q.queue job sessionId throughSequence source now).Valid := by
  obtain ⟨hcheck, hcounted, hfailed, hheld, hapart, hended, honce, hcompleted, habsent⟩ := h
  have hnone := habsent job hfree
  have hrows := fun other => q.rows.get_insert job other {
    sessionId, throughSequence, source, state := .pending, claimToken := none, leaseUntil := none,
    failureCount := 0, retryAfter := none, lastError := none, failedAt := none, finished := none,
    createdAt := now, updatedAt := now } hfree
  constructor
  · refine forall_rows hrows hcheck ?_
    simp [JobRow.check, hpositive, hcount]
  · grind [Queue.queue, failuresSinceRetry]
  · grind [Queue.queue, failuresSinceRetry, lastFailure, MAX_JOB_FAILURES]
  · grind [Queue.queue, claims, endings]
  · grind [Queue.queue, claims, endings]
  · grind [Queue.queue, claims, endings]
  · grind [Queue.queue, claims]
  · grind [Queue.queue, completions]
  · grind [Queue.queue, completions]

/-- A claim under a new token. -/
theorem claim {job token : Uuid} {leaseUntil now : Time} {n : Nat} (h : q.Valid)
    (hfresh : claims token q.history = 0) (hs : q.claim job token leaseUntil now = (q', n)) :
    q'.Valid := by
  obtain ⟨_, rfl, _⟩ | ⟨_, hhistory, row, hget, hdue, hrows⟩ := execute_cases hs
  · exact h
  · obtain ⟨hcheck, hcounted, hfailed, hheld, hapart, hended, honce, hcompleted, habsent⟩ := h
    simp only [Option.toList_some, List.singleton_append] at hhistory
    constructor
    · exact forall_rows hrows hcheck
        (JobRow.check_claim (hcheck job row hget) hdue token leaseUntil)
    · grind [failuresSinceRetry]
    · grind [failuresSinceRetry, lastFailure, JobRow.due]
    · grind [claims, endings]
    · grind [claims, endings]
    · have hnone := JobRow.claimToken_of_check (hcheck job row hget) (by grind [JobRow.due])
      grind [claims, endings]
    · grind [claims]
    · grind [completions, JobRow.due]
    · grind [completions]

theorem renew {job token : Uuid} {leaseUntil now : Time} {n : Nat} (h : q.Valid)
    (hs : q.renew job token leaseUntil now = (q', n)) : q'.Valid := by
  obtain ⟨_, rfl, _⟩ | ⟨_, hhistory, row, hget, hheldRow, hrows⟩ := execute_cases hs
  · exact h
  · obtain ⟨hcheck, hcounted, hfailed, hheld, hapart, hended, honce, hcompleted, habsent⟩ := h
    simp only [Option.toList_none, List.nil_append] at hhistory
    constructor
    · exact forall_rows hrows hcheck
        (JobRow.check_renew (hcheck job row hget) hheldRow leaseUntil)
    all_goals grind

theorem fail {job token : Uuid} {row : JobRow ρ} {transition : JobFailureTransition}
    {error : String} {disposition : MemoryJobFailureDisposition} {now : Time} {n : Nat} (h : q.Valid)
    (hrow : q.rows.get job = some row) (herror : error.length ≤ 4096)
    (ht : jobFailureTransition row.failureCount disposition now = .ok transition)
    (hs : q.fail job token transition error disposition now = (q', n)) : q'.Valid := by
  obtain ⟨_, rfl, _⟩ | ⟨_, hhistory, row', hget, hheldRow, hrows⟩ := execute_cases hs
  · exact h
  · rw [hget] at hrow
    cases hrow
    obtain ⟨hcheck, hcounted, hfailed, hheld, hapart, hended, honce, hcompleted, habsent⟩ := h
    obtain ⟨hfailures, hstate⟩ := jobFailureTransition_ok ht
    simp only [Option.toList_some, List.singleton_append] at hhistory
    constructor
    · exact forall_rows hrows hcheck (JobRow.check_fail (hcheck job row hget) hheldRow herror ht)
    · grind [failuresSinceRetry, MAX_JOB_FAILURES, JobRow.held]
    · grind [failuresSinceRetry, lastFailure, MAX_JOB_FAILURES, JobRow.held]
    · grind [claims, endings, JobRow.held]
    · grind [claims, endings, JobRow.held]
    · grind [claims, endings, JobRow.held]
    · grind [claims]
    · grind [completions, JobRow.held]
    · grind [completions]

theorem release {job token : Uuid} {now : Time} {n : Nat} (h : q.Valid)
    (hs : q.release job token now = (q', n)) : q'.Valid := by
  obtain ⟨_, rfl, _⟩ | ⟨_, hhistory, row, hget, hheldRow, hrows⟩ := execute_cases hs
  · exact h
  · obtain ⟨hcheck, hcounted, hfailed, hheld, hapart, hended, honce, hcompleted, habsent⟩ := h
    simp only [Option.toList_some, List.singleton_append] at hhistory
    constructor
    · exact forall_rows hrows hcheck (JobRow.check_release (hcheck job row hget) hheldRow)
    · grind [failuresSinceRetry]
    · grind [failuresSinceRetry, lastFailure, JobRow.held]
    · grind [claims, endings, JobRow.held]
    · grind [claims, endings, JobRow.held]
    · grind [claims, endings, JobRow.held]
    · grind [claims]
    · grind [completions, JobRow.held]
    · grind [completions]

theorem complete {job token : Uuid} {result : ρ} {now : Time} {n : Nat} (h : q.Valid)
    (hs : q.complete job token result now = (q', n)) : q'.Valid := by
  obtain ⟨_, rfl, _⟩ | ⟨_, hhistory, row, hget, hheldRow, hrows⟩ := execute_cases hs
  · exact h
  · obtain ⟨hcheck, hcounted, hfailed, hheld, hapart, hended, honce, hcompleted, habsent⟩ := h
    simp only [Option.toList_some, List.singleton_append] at hhistory
    constructor
    · exact forall_rows hrows hcheck (JobRow.check_complete (hcheck job row hget) result)
    · grind [failuresSinceRetry]
    · grind [failuresSinceRetry, lastFailure, JobRow.held]
    · grind [claims, endings, JobRow.held]
    · grind [claims, endings, JobRow.held]
    · grind [claims, endings, JobRow.held]
    · grind [claims]
    · grind [completions, JobRow.held]
    · grind [completions]

theorem retryFailed {job : Uuid} {now : Time} {n : Nat} (h : q.Valid)
    (hs : q.retryFailed job now = (q', n)) : q'.Valid := by
  obtain ⟨_, rfl, _⟩ | ⟨_, hhistory, row, hget, hfailedRow, hrows⟩ := execute_cases hs
  · exact h
  · obtain ⟨hcheck, hcounted, hfailed, hheld, hapart, hended, honce, hcompleted, habsent⟩ := h
    simp only [Option.toList_some, List.singleton_append] at hhistory
    simp only [decide_eq_true_eq] at hfailedRow
    constructor
    · exact forall_rows hrows hcheck (JobRow.check_retryFailed (hcheck job row hget) hfailedRow)
    · grind [failuresSinceRetry]
    · grind [failuresSinceRetry, lastFailure, MAX_JOB_FAILURES]
    · grind [claims, endings]
    · grind [claims, endings]
    · have hnone := JobRow.claimToken_of_check (hcheck job row hget) (by grind)
      grind [claims, endings]
    · grind [claims]
    · grind [completions]
    · grind [completions]

/-- A failure under a claim. -/
theorem transitionFailure {job token : Uuid} {row : JobRow ρ} {error : String}
    {disposition : MemoryJobFailureDisposition} {now : Time} {stale : MemoryError}
    {outcome : MemoryJobFailureOutcome} (h : q.Valid) (hrow : q.rows.get job = some row)
    (herror : error.length ≤ 4096)
    (hs : q.transitionFailure job token row.failureCount error disposition now stale =
      .ok (outcome, q')) : q'.Valid := by
  unfold Queue.transitionFailure at hs
  simp only [bind_eq_ok] at hs
  obtain ⟨transition, ht, _, _, hs⟩ := hs
  cases hs
  exact h.fail hrow herror ht rfl

/-- An expired claim is recorded as a failed attempt. -/
theorem recoverOneExpired {now : Time} {stale : Uuid → MemoryError} (h : q.Valid)
    (hs : q.recoverOneExpired now stale = .ok (some q')) : q'.Valid := by
  unfold Queue.recoverOneExpired at hs
  split at hs
  · cases hs
  · rename_i job row hfirst
    simp only [bind_eq_ok, required_eq_ok] at hs
    obtain ⟨token, htoken, ⟨outcome, q₁⟩, hq, hs⟩ := hs
    cases hs
    exact h.transitionFailure (Table.first_eq_some hfirst).1 (by decide) hq

theorem recoverExpired {now : Time} {stale : Uuid → MemoryError} {n : Nat} (h : q.Valid)
    (hs : Queue.recoverExpired now stale n q = .ok q') : q'.Valid := by
  induction n generalizing q with
  | zero =>
    cases hs
    exact h
  | succ n ih =>
    simp only [Queue.recoverExpired, bind_eq_ok] at hs
    obtain ⟨found, hfound, hs⟩ := hs
    cases found with
    | none =>
      cases hs
      exact h
    | some q₁ => exact ih (h.recoverOneExpired hfound) hs

end Valid

/-- A call under the token of a claim that has ended changes nothing. -/
theorem stale_token_changes_nothing {token : Uuid} (h : q.Valid)
    (hended : 0 < endings token q.history) (job : Uuid) (f : JobRow ρ → JobRow ρ)
    (event : Option JobEvent) : q.execute job (·.held token) f event = (q, 0) := by
  obtain ⟨hn, hq, _⟩ | ⟨_, _, row, hget, hheld, _⟩ := execute_cases (rfl : _ = q.execute job _ f event)
  · exact Prod.ext hq hn
  · have htoken : row.claimToken = some token := by
      simp only [JobRow.held, Bool.and_eq_true, decide_eq_true_eq] at hheld
      exact hheld.2
    have := (h.held job row token hget htoken).2
    omega

end Queue

end Memory

end Emelex

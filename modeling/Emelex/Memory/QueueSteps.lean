import Emelex.Memory.JobQueue

/-!
# What the statements of a queue leave of its jobs

A claim and its end change the state of a job and its diagnostics; what the job is about stays, and
a completed job is left alone.

* `Quiet` — the table before and after: no job is made, completed or reopened.
* `Moved` — what is true of all statements but `queue`, `complete` and `retryFailed`: they are
  quiet, keep the table valid, and claim under new tokens only.

* `Grown` — what is true of every statement.

Principal results: `Moved.claim`, `Moved.renew`, `Moved.release`, `Moved.transitionFailure`,
`Moved.recoverExpired`; `Grown.of_moved`, `Grown.queue`, `Grown.complete`, `Grown.retryFailed`.
-/

set_option autoImplicit false

namespace Emelex

namespace Memory

variable {ρ : Type}

/-- The job is in the queue or being worked on. -/
def JobRow.active (row : JobRow ρ) : Bool :=
  row.state = .pending || row.state = .running

/-- The same job, whatever its state. -/
structure JobRow.Same (row row' : JobRow ρ) : Prop where
  sessionId : row'.sessionId = row.sessionId
  throughSequence : row'.throughSequence = row.throughSequence
  source : row'.source = row.source
  finished : row'.finished = row.finished

/-- The jobs that were completed, latest first. -/
def completedJobs : List JobEvent → List Uuid
  | [] => []
  | .ended job _ .completed :: history => job :: completedJobs history
  | _ :: history => completedJobs history

theorem completedJobs_append {event : Option JobEvent} {history : List JobEvent}
    (h : ∀ job token, event ≠ some (.ended job token .completed)) :
    completedJobs (event.toList ++ history) = completedJobs history := by
  cases event with
  | none => rfl
  | some event =>
    simp only [Option.toList_some, List.singleton_append]
    cases event with
    | ended job token ending =>
      cases ending with
      | completed => exact absurd rfl (h job token)
      | failed _ | released => rfl
    | queued _ | claimed _ _ | retried _ => rfl

/-- A statement that claims nothing under a token leaves the claims under it. -/
theorem claims_append {event : Option JobEvent} {history : List JobEvent} {token : Uuid}
    (h : ∀ job, event ≠ some (.claimed job token)) :
    claims token (event.toList ++ history) = claims token history := by
  cases event with
  | none => rfl
  | some event =>
    simp only [Option.toList_some, List.singleton_append]
    cases event with
    | claimed job other =>
      have hother : other ≠ token := fun heq => h job (heq ▸ rfl)
      simp [claims, hother]
    | queued _ | ended _ _ _ | retried _ => rfl

namespace Queue

variable {q q' q'' : Queue ρ} {job token : Uuid} {now leaseUntil : Time} {n : Nat}

/-- The rows of a job table before and after statements that make, complete and reopen no job. -/
structure Quiet (q q' : Queue ρ) : Prop where
  back : ∀ job row', q'.rows.get job = some row' → ∃ row, q.rows.get job = some row ∧
    row.Same row' ∧ (row'.active = true → row.active = true) ∧
    (row'.state = .completed → row.state = .completed)
  forth : ∀ job row, q.rows.get job = some row → ∃ row', q'.rows.get job = some row'
  completed : ∀ job row, q.rows.get job = some row → row.state = .completed →
    q'.rows.get job = some row
  order : completedJobs q'.history = completedJobs q.history

theorem Quiet.refl (q : Queue ρ) : q.Quiet q where
  back _ row hrow := ⟨row, hrow, ⟨rfl, rfl, rfl, rfl⟩, id, id⟩
  forth _ row hrow := ⟨row, hrow⟩
  completed _ _ hrow _ := hrow
  order := rfl

theorem Quiet.trans (h : q.Quiet q') (h' : q'.Quiet q'') : q.Quiet q'' := by
  constructor
  · intro job row'' hrow''
    obtain ⟨row', hrow', hsame', hactive', hcompleted'⟩ := h'.back job row'' hrow''
    obtain ⟨row, hrow, hsame, hactive, hcompleted⟩ := h.back job row' hrow'
    refine ⟨row, hrow, ?_, fun ha => hactive (hactive' ha), fun hc => hcompleted (hcompleted' hc)⟩
    exact ⟨hsame'.sessionId.trans hsame.sessionId,
      hsame'.throughSequence.trans hsame.throughSequence, hsame'.source.trans hsame.source,
      hsame'.finished.trans hsame.finished⟩
  · intro job row hrow
    obtain ⟨row', hrow'⟩ := h.forth job row hrow
    exact h'.forth job row' hrow'
  · exact fun job row hrow hc => h'.completed job row (h.completed job row hrow hc) hc
  · exact h'.order.trans h.order

/-- A statement on an active job that does not complete it is quiet. -/
theorem quiet_execute {p : JobRow ρ → Bool} {f : JobRow ρ → JobRow ρ} {event : Option JobEvent}
    (h : q.execute job p f event = (q', n))
    (hp : ∀ row, p row = true → row.active = true) (hsame : ∀ row : JobRow ρ, row.Same (f row))
    (hf : ∀ row, p row = true → (f row).state ≠ .completed)
    (hevent : ∀ job token, event ≠ some (.ended job token .completed)) : q.Quiet q' := by
  obtain ⟨_, rfl, _⟩ | ⟨_, hhistory, row, hget, hrow, hrows⟩ := execute_cases h
  · exact Quiet.refl q'
  · have hactive := hp row hrow
    have hnot : row.state ≠ .completed := by
      intro hc
      simp [JobRow.active, hc] at hactive
    constructor
    · intro other row' hrow'
      rw [hrows] at hrow'
      split at hrow'
      · rename_i hother
        cases hrow'
        exact ⟨row, hother ▸ hget, hsame row, fun _ => hactive, fun hc => absurd hc (hf row hrow)⟩
      · exact ⟨row', hrow', ⟨rfl, rfl, rfl, rfl⟩, id, id⟩
    · intro other row' hrow'
      rw [hrows]
      split
      · exact ⟨_, rfl⟩
      · exact ⟨row', hrow'⟩
    · intro other row' hrow' hc
      rw [hrows]
      split
      · rename_i hother
        subst hother
        rw [hget] at hrow'
        cases hrow'
        exact absurd hc hnot
      · exact hrow'
    · rw [hhistory]
      exact completedJobs_append hevent

theorem claims_execute {p : JobRow ρ → Bool} {f : JobRow ρ → JobRow ρ} {event : Option JobEvent}
    (h : q.execute job p f event = (q', n)) {other : Uuid}
    (hevent : ∀ job, event ≠ some (.claimed job other)) :
    claims other q'.history = claims other q.history := by
  obtain ⟨_, rfl, _⟩ | ⟨_, hhistory, _⟩ := execute_cases h
  · rfl
  · rw [hhistory]
    exact claims_append hevent

/-- What a worker leaves of a queue when it claims a job under one of the tokens, holds it or gives
it up. -/
structure Moved (tokens : List Uuid) (q q' : Queue ρ) : Prop where
  quiet : q.Quiet q'
  valid : q.Valid → (∀ token ∈ tokens, claims token q.history = 0) → q'.Valid
  claims : ∀ token, token ∉ tokens → claims token q'.history = claims token q.history

namespace Moved

theorem refl (q : Queue ρ) : Moved [] q q :=
  ⟨.refl q, fun h _ => h, fun _ _ => rfl⟩

/-- What claims nothing keeps a table valid whatever tokens are new. -/
theorem weaken (h : Moved [] q q') (tokens : List Uuid) : Moved tokens q q' where
  quiet := h.quiet
  valid hvalid _ := h.valid hvalid (by simp)
  claims token _ := h.claims token (by simp)

theorem trans {tokens : List Uuid} (h : Moved [] q q') (h' : Moved tokens q' q'') :
    Moved tokens q q'' where
  quiet := h.quiet.trans h'.quiet
  valid hvalid hfresh := h'.valid (h.valid hvalid (by simp)) fun token htoken => by
    rw [h.claims token (by simp)]
    exact hfresh token htoken
  claims token htoken := (h'.claims token htoken).trans (h.claims token (by simp))

theorem claim (h : q.claim job token leaseUntil now = (q', n)) : Moved [token] q q' where
  quiet := quiet_execute h (by simp +contextual [JobRow.due, JobRow.active])
    (fun _ => ⟨rfl, rfl, rfl, rfl⟩) (by simp) (by simp)
  valid hvalid hfresh := hvalid.claim (hfresh token (by simp)) h
  claims other hother := claims_execute h (by simpa [eq_comm] using hother)

theorem active_of_held {row : JobRow ρ} (h : row.held token = true) : row.active = true := by
  simp only [JobRow.held, Bool.and_eq_true, decide_eq_true_eq] at h
  simp [JobRow.active, h.1]

theorem renew (h : q.renew job token leaseUntil now = (q', n)) : Moved [] q q' where
  quiet := quiet_execute h (fun _ => active_of_held) (fun _ => ⟨rfl, rfl, rfl, rfl⟩)
    (by simp +contextual [JobRow.held]) (by simp)
  valid hvalid _ := hvalid.renew h
  claims _ _ := claims_execute h (by simp)

theorem release (h : q.release job token now = (q', n)) : Moved [] q q' where
  quiet := quiet_execute h (fun _ => active_of_held) (fun _ => ⟨rfl, rfl, rfl, rfl⟩) (by simp)
    (by simp)
  valid hvalid _ := hvalid.release h
  claims _ _ := claims_execute h (by simp)

theorem transitionFailure {row : JobRow ρ} {error : String}
    {disposition : MemoryJobFailureDisposition} {stale : MemoryError}
    {outcome : MemoryJobFailureOutcome} (hrow : q.rows.get job = some row)
    (herror : error.length ≤ 4096)
    (h : q.transitionFailure job token row.failureCount error disposition now stale =
      .ok (outcome, q')) : Moved [] q q' := by
  have hvalid := fun hvalid : q.Valid => hvalid.transitionFailure hrow herror h
  simp only [Queue.transitionFailure, bind_eq_ok] at h
  obtain ⟨transition, ht, _, _, h⟩ := h
  cases h
  have hstate : transition.state ≠ .completed := by
    obtain ⟨_, ⟨hs, _⟩ | ⟨hs, _⟩⟩ := jobFailureTransition_ok ht <;> simp [hs]
  exact {
    quiet := quiet_execute rfl (fun _ => active_of_held) (fun _ => ⟨rfl, rfl, rfl, rfl⟩)
      (fun _ _ => hstate) (by simp)
    valid := fun h _ => hvalid h
    claims := fun _ _ => claims_execute rfl (by simp) }

theorem recoverOneExpired {stale : Uuid → MemoryError}
    (h : q.recoverOneExpired now stale = .ok (some q')) : Moved [] q q' := by
  unfold Queue.recoverOneExpired at h
  split at h
  · cases h
  · rename_i job row hfirst
    simp only [bind_eq_ok, required_eq_ok] at h
    obtain ⟨_, _, ⟨_, q₁⟩, hq, h⟩ := h
    cases h
    exact transitionFailure (Table.first_eq_some hfirst).1 (by decide) hq

theorem recoverExpired {stale : Uuid → MemoryError} {rounds : Nat}
    (h : Queue.recoverExpired now stale rounds q = .ok q') : Moved [] q q' := by
  induction rounds generalizing q with
  | zero =>
    cases h
    exact refl q'
  | succ rounds ih =>
    simp only [Queue.recoverExpired, bind_eq_ok] at h
    obtain ⟨found, hfound, h⟩ := h
    cases found with
    | none =>
      cases h
      exact refl q'
    | some q₁ => exact (recoverOneExpired hfound).trans (ih h)

end Moved

/-! ## All statements -/

/-- A table before and after any statement: jobs are made under new identifiers and claimed under new
tokens, what they are made from stays, and a completed job is left alone. -/
structure Grown (mints : List Uuid) (q q' : Queue ρ) : Prop where
  keys : ∀ job row', q'.rows.get job = some row' → job ∈ mints ∨ ∃ row, q.rows.get job = some row
  claims : ∀ token, token ∉ mints → claims token q'.history = claims token q.history
  kept : ∀ job row, q.rows.get job = some row → ∃ row', q'.rows.get job = some row' ∧
    row'.sessionId = row.sessionId ∧ row'.throughSequence = row.throughSequence ∧
    row'.source = row.source
  completed : ∀ job row, q.rows.get job = some row → row.state = .completed →
    q'.rows.get job = some row

namespace Grown

variable {mints : List Uuid}

theorem refl (q : Queue ρ) : Grown mints q q where
  keys _ row hrow := .inr ⟨row, hrow⟩
  claims _ _ := rfl
  kept _ row hrow := ⟨row, hrow, rfl, rfl, rfl⟩
  completed _ _ hrow _ := hrow

theorem of_moved {tokens : List Uuid} (h : Moved tokens q q') (hsub : tokens ⊆ mints) :
    Grown mints q q' where
  keys job row' hrow' := by
    obtain ⟨row, hrow, _⟩ := h.quiet.back job row' hrow'
    exact .inr ⟨row, hrow⟩
  claims token htoken := h.claims token fun hmem => htoken (hsub hmem)
  kept job row hrow := by
    obtain ⟨row', hrow'⟩ := h.quiet.forth job row hrow
    obtain ⟨row₁, hrow₁, hsame, _⟩ := h.quiet.back job row' hrow'
    rw [hrow] at hrow₁
    cases hrow₁
    exact ⟨row', hrow', hsame.sessionId, hsame.throughSequence, hsame.source⟩
  completed := h.quiet.completed

theorem queue {sessionId : Uuid} {throughSequence : Nat} {source : TranscriptProvenance}
    (hfree : q.rows.get job = none) (hjob : job ∈ mints) :
    Grown mints q (q.queue job sessionId throughSequence source now) := by
  have hget := fun other => q.rows.get_insert job other {
    sessionId, throughSequence, source, state := .pending, claimToken := none, leaseUntil := none,
    failureCount := 0, retryAfter := none, lastError := none, failedAt := none, finished := none,
    createdAt := now, updatedAt := now } hfree
  have hold : ∀ other row, q.rows.get other = some row →
      (q.queue job sessionId throughSequence source now).rows.get other = some row := by
    intro other row hrow
    refine (hget other).trans ?_
    rw [if_neg (by rintro rfl; rw [hfree] at hrow; cases hrow)]
    exact hrow
  exact {
    keys := Table.forall_get hget (fun _ row hrow => .inr ⟨row, hrow⟩) (.inl hjob)
    claims := fun _ _ => rfl
    kept := fun other row hrow => ⟨row, hold other row hrow, rfl, rfl, rfl⟩
    completed := fun other row hrow _ => hold other row hrow }

theorem execute {p : JobRow ρ → Bool} {f : JobRow ρ → JobRow ρ} {event : Option JobEvent}
    (h : q.execute job p f event = (q', n))
    (hp : ∀ row, p row = true → row.state ≠ .completed)
    (hf : ∀ row : JobRow ρ, (f row).sessionId = row.sessionId ∧
      (f row).throughSequence = row.throughSequence ∧ (f row).source = row.source)
    (hevent : ∀ job token, event ≠ some (.claimed job token)) : Grown mints q q' := by
  have hclaims := fun token => claims_execute h (fun job => hevent job token)
  obtain ⟨_, rfl, _⟩ | ⟨_, _, row, hrow, hprow, hget⟩ := execute_cases h
  · exact refl q'
  · constructor
    · exact Table.forall_get hget (fun _ row hrow => .inr ⟨row, hrow⟩) (.inr ⟨row, hrow⟩)
    · exact fun token _ => hclaims token
    · intro other row' hrow'
      rw [hget]
      split
      · rename_i hother
        subst hother
        rw [hrow] at hrow'
        cases hrow'
        exact ⟨_, rfl, hf row⟩
      · exact ⟨row', hrow', rfl, rfl, rfl⟩
    · intro other row' hrow' hcompleted
      rw [hget, if_neg]
      · exact hrow'
      · rintro rfl
        rw [hrow] at hrow'
        cases hrow'
        exact hp row hprow hcompleted

theorem complete {finished : ρ} (h : q.complete job token finished now = (q', n)) :
    Grown mints q q' :=
  execute h (by simp +contextual [JobRow.held]) (fun _ => ⟨rfl, rfl, rfl⟩) (by simp)

theorem retryFailed (h : q.retryFailed job now = (q', n)) : Grown mints q q' :=
  execute h (by simp +contextual) (fun _ => ⟨rfl, rfl, rfl⟩) (by simp)

end Grown

end Queue

end Memory

end Emelex

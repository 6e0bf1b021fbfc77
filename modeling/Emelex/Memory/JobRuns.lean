import Emelex.Memory.Transcripts

/-!
# The job queues over whole runs

Any number of workers claim, renew, complete and give up jobs, expired claims are recorded and failed
jobs retried, in any order.

* `summariesOf`, `resultsOf` — what the completion of a job has left.
* `Finished` — a compaction has one summary just where it is completed, and a distillation has results
  only where it is.
* `carriesCompaction`, `carriesDistillation` — the token that a call of a worker carries.

Principal result: `worker_queues_are_durable`.
-/

set_option autoImplicit false

namespace Emelex

namespace Memory

variable {encoding : Encoding} {s s' : State} {action : Action}
  {result : Except MemoryError Unit} {t t' : Tables}

/-! ## What a completion leaves -/

/-- The job of a summary. -/
def Payload.jobId : Payload → Option Uuid
  | .compaction jobId _ _ _ => some jobId
  | .value _ => none

/-- An event is the summary of a job. -/
def SessionEvent.summarizes (event : SessionEvent) (job : Uuid) : Bool :=
  event.kind = .summary && event.payload.jobId = some job

/-- The summaries of a compaction. -/
def summariesOf (t : Tables) (job : Uuid) : List (Uuid × SessionEvent) :=
  t.events.entries.filter fun e => e.2.summarizes job

/-- The results of a distillation. -/
def resultsOf (t : Tables) (job : Uuid) : List DistillationResult :=
  t.results.filter (·.jobId = job)

/-- A compaction has the one summary that its row names, or none; the results of a distillation are
of distinct candidates, and there are none before it is completed. -/
structure Finished (t : Tables) : Prop where
  summaries : ∀ job, (summariesOf t job).map Prod.fst =
    ((t.compactions.rows.get job).bind (·.finished)).toList
  distinct : ∀ job, ((resultsOf t job).map (·.candidateIndex)).Nodup
  results : ∀ job, resultsOf t job ≠ [] →
    ∃ row, t.distillations.rows.get job = some row ∧ row.state = .completed

/-- A job that is held is not finished. -/
theorem finished_of_held {ρ : Type} {row : JobRow ρ} {token : Uuid} (hcheck : row.check = true)
    (hheld : row.held token = true) : row.finished = none ∧ row.state ≠ .completed := by
  obtain ⟨hstate, _⟩ : row.state = .running ∧ row.claimToken = some token := by
    simpa [JobRow.held] using hheld
  simp only [JobRow.check, hstate, Bool.and_eq_true, Option.isNone_iff_eq_none] at hcheck
  exact ⟨hcheck.2.1.1.1.2, by simp [hstate]⟩

/-- Quiet statements leave the summaries that the rows name. -/
theorem Queue.Quiet.finished {ρ : Type} {q q' : Queue ρ} (h : q.Quiet q') (job : Uuid) :
    (q'.rows.get job).bind (·.finished) = (q.rows.get job).bind (·.finished) := by
  cases hrow' : q'.rows.get job with
  | some row' =>
    obtain ⟨row, hrow, hsame, _⟩ := h.back job row' hrow'
    simp [hrow, hsame.finished]
  | none =>
    cases hrow : q.rows.get job with
    | none => rfl
    | some row =>
      obtain ⟨row', hsome⟩ := h.forth job row hrow
      rw [hrow'] at hsome
      cases hsome

/-- A statement that changes one row and not what it names leaves what the rows name. -/
theorem finished_of_get {ρ : Type} {q q' : Queue ρ} {job : Uuid} {row new : JobRow ρ}
    (hrow : q.rows.get job = some row) (hsame : new.finished = row.finished)
    (hget : ∀ other, q'.rows.get other = if other = job then some new else q.rows.get other)
    (other : Uuid) :
    (q'.rows.get other).bind (·.finished) = (q.rows.get other).bind (·.finished) := by
  rw [hget]
  split
  · rename_i hother
    rw [hother, hrow]
    exact hsame
  · rfl

/-- Events of which none is a summary leave the summaries. -/
theorem summariesOf_append {turn : List (Uuid × SessionEvent)}
    (h : t'.events.entries = t.events.entries ++ turn) {job : Uuid}
    (hturn : ∀ e ∈ turn, e.2.summarizes job = false) : summariesOf t' job = summariesOf t job := by
  have hnone : turn.filter (fun e => e.2.summarizes job) = [] :=
    List.filter_eq_nil_iff.2 fun e he => by simp [hturn e he]
  unfold summariesOf
  rw [h, List.filter_append, hnone, List.append_nil]

/-- A new job names no summary. -/
theorem finished_queue {ρ : Type} {q : Queue ρ} {job sessionId : Uuid} {throughSequence : Nat}
    {source : TranscriptProvenance} {now : Time} (hfree : q.rows.get job = none) (other : Uuid) :
    ((q.queue job sessionId throughSequence source now).rows.get other).bind (·.finished) =
      (q.rows.get other).bind (·.finished) := by
  refine (congrArg (Option.bind · (·.finished)) (Table.get_insert q.rows job other _ hfree)).trans ?_
  split
  · rename_i hother
    rw [hother, hfree]
    rfl
  · rfl

/-- Statements that keep the summaries and what the rows name keep a state finished. -/
theorem Finished.of_same (h : Finished t) (hsummaries : ∀ job, summariesOf t' job = summariesOf t job)
    (hnamed : ∀ job, (t'.compactions.rows.get job).bind (·.finished) =
      (t.compactions.rows.get job).bind (·.finished))
    (hresults : t'.results = t.results)
    (hcompleted : ∀ job row, t.distillations.rows.get job = some row → row.state = .completed →
      t'.distillations.rows.get job = some row) : Finished t' where
  summaries job := by rw [hsummaries, hnamed, h.summaries]
  distinct job := by
    unfold resultsOf
    rw [hresults]
    exact h.distinct job
  results job hne := by
    unfold resultsOf at hne
    rw [hresults] at hne
    obtain ⟨row, hrow, hstate⟩ := h.results job hne
    exact ⟨row, hcompleted job row hrow hstate, hstate⟩

/-- The row of a statement on one job. -/
theorem execute_row {ρ : Type} {q q' : Queue ρ} {job : Uuid} {p : JobRow ρ → Bool}
    {f : JobRow ρ → JobRow ρ} {event : Option JobEvent}
    (h : q.execute job p f event = (q', 1)) : ∃ row, q.rows.get job = some row ∧ p row = true ∧
      ∀ other, q'.rows.get other = if other = job then some (f row) else q.rows.get other := by
  obtain ⟨hn, _⟩ | ⟨_, _, hrow⟩ := Queue.execute_cases h
  · cases hn
  · exact hrow

theorem Effect.finished (hs : Consistent s) (hnew : ∀ id ∈ action.mints, id ∉ s.issued)
    (h : Effect encoding s action t') (hf : Finished s.tables) : Finished t' := by
  have hkept := (h.grown hs hnew).2.completed
  cases h with
  | none | started | claimed | renewed | released | queuedDistillation | distillations
  | retriedDistillation =>
    exact hf.of_same (fun _ => rfl) (fun _ => rfl) rfl hkept
  | appended _ happended =>
    have hframe := happended.frame
    refine hf.of_same (fun job => summariesOf_append happended.events fun e he => ?_)
      (fun job => by rw [hframe]) (by rw [hframe]) hkept
    obtain ⟨_, input, hinput, hkind⟩ := turnRows_sessionId he
    simp [SessionEvent.summarizes, hkind, happended.notSummary input hinput]
  | compactions hmoved => exact hf.of_same (fun _ => rfl) hmoved.quiet.finished rfl hkept
  | @queuedCompaction session id throughSequence now source hcompactable =>
    exact hf.of_same (fun _ => rfl) (finished_queue (get_eq_none_of_not_issued
      hs.issued.compactions (hnew id (List.mem_singleton_self id)))) rfl hkept
  | maintained _ hcompactions _ =>
    exact hf.of_same (fun _ => rfl) hcompactions.quiet.finished rfl hkept
  | retriedCompaction hretried =>
    obtain ⟨row, hrow, _, hget⟩ := execute_row hretried
    exact hf.of_same (fun _ => rfl) (finished_of_get hrow (by rfl) hget) rfl hkept
  | @summarized token eventId summary now lease row session t' hlease hsummarized =>
    obtain ⟨row', hrow', hheld, hget⟩ := execute_row hsummarized.complete
    have hnone := (finished_of_held (hs.compactions.check _ _ hrow') hheld).1
    have hsummaries : ∀ job, summariesOf t' job = summariesOf s.tables job ++
        if job = lease.job.id then
          [(eventId, summaryRow s.tables row.sessionId eventId lease.job summary now)] else [] := by
      intro job
      unfold summariesOf
      rw [hsummarized.events, List.filter_append]
      congr 1
      split
      · rename_i hjob
        simp [SessionEvent.summarizes, summaryRow, Payload.jobId, hjob]
      · rename_i hjob
        simp [SessionEvent.summarizes, summaryRow, Payload.jobId, Ne.symm hjob]
    have hresults : t'.results = s.tables.results := by rw [hsummarized.frame]
    refine {
      summaries := fun job => ?_
      distinct := fun job => by simpa only [resultsOf, hresults] using hf.distinct job
      results := fun job hne => ?_ }
    · rw [hsummaries, hget, List.map_append, hf.summaries]
      split
      · rename_i hjob
        rw [hjob, hrow', Option.bind_some, hnone]
        rfl
      · rw [List.map_nil, List.append_nil]
    · obtain ⟨row, hrow, hstate⟩ := hf.results job (by simpa only [resultsOf, hresults] using hne)
      exact ⟨row, hkept job row hrow hstate, hstate⟩
  | @distilled token candidates now lease added t' hlease hdistilled =>
    obtain ⟨row, hrow, hheld, hget⟩ := execute_row hdistilled.complete
    have hnone := (finished_of_held (hs.distillations.check _ _ hrow) hheld).2
    have hnothing : resultsOf s.tables lease.job.id = [] := by
      by_contra hne
      obtain ⟨row', hrow', hcompleted⟩ := hf.results lease.job.id hne
      rw [hrow] at hrow'
      cases hrow'
      exact hnone hcompleted
    have hresults : ∀ job, resultsOf t' job =
        if job = lease.job.id then added else resultsOf s.tables job := by
      intro job
      unfold resultsOf at hnothing ⊢
      rw [hdistilled.frame, List.filter_append]
      split
      · rename_i hjob
        rw [hjob, hnothing, List.nil_append, List.filter_eq_self]
        exact fun result hresult => decide_eq_true (hdistilled.results.job result hresult)
      · rename_i hjob
        have hother : added.filter (fun result => decide (result.jobId = job)) = [] :=
          List.filter_eq_nil_iff.2 fun result hresult => by
            simpa [hdistilled.results.job result hresult] using Ne.symm hjob
        rw [hother, List.append_nil]
    refine {
      summaries := fun job => by
        rw [hdistilled.frame]
        exact hf.summaries job
      distinct := fun job => ?_
      results := fun job hne => ?_ }
    · rw [hresults]
      split
      · exact hdistilled.results.distinct
      · exact hf.distinct job
    · rw [hresults] at hne
      split at hne
      · rename_i hjob
        exact ⟨_, (hget job).trans (if_pos hjob), rfl⟩
      · obtain ⟨row, hrow, hstate⟩ := hf.results job hne
        exact ⟨row, hkept job row hrow hstate, hstate⟩

/-! ## Calls under a claim that has ended -/

/-- The token that a call of a compaction worker carries. -/
def Action.carriesCompaction : Action → Option Uuid
  | .renewCompaction token _ | .recordCompactionFailure token _ _ _ | .releaseCompaction token _
  | .completeCompaction token _ _ _ => some token
  | _ => none

/-- The token that a call of a distillation worker carries. -/
def Action.carriesDistillation : Action → Option Uuid
  | .renewDistillation token _ | .recordDistillationFailure token _ _ _
  | .abandonDistillation token _ | .completeDistillation token _ _ => some token
  | _ => none

/-- No row is held under the token of a claim that has ended. -/
theorem not_held {ρ : Type} {q : Queue ρ} (h : q.Valid) {token : Uuid}
    (hended : 0 < endings token q.history) {job : Uuid} {row : JobRow ρ}
    (hrow : q.rows.get job = some row) : row.held token = false := by
  by_contra hheld
  simp only [Bool.not_eq_false, JobRow.held, Bool.and_eq_true, decide_eq_true_eq] at hheld
  have := (h.held job row token hrow hheld.2).2
  omega

/-- A transaction that finds no such row changes nothing. -/
theorem settle_tables_of_error {α : Type} {lease : JobLease}
    {body : Except MemoryError (α × Tables)} (h : ∀ a t', body ≠ .ok (a, t')) :
    (settle lease (transaction t body)).tables = t := by
  obtain ⟨_, htables⟩ | ⟨_, hfalse⟩ := (settle_worked (t := t) h).tables
  · exact htables
  · exact hfalse.elim

section ended

variable {lease : JobLease} {now : Time}

theorem renewCompaction_ended (hvalid : t.compactions.Valid)
    (hended : 0 < endings lease.token t.compactions.history) :
    (renewCompaction t lease now).tables = t := by
  have hq := Queue.stale_token_changes_nothing hvalid hended lease.job.id
    (fun row => { row with leaseUntil := some (now + COMPACTION_LEASE), updatedAt := now }) none
  simp only [renewCompaction, Queue.renew, hq]
  rfl

theorem releaseCompaction_ended (hvalid : t.compactions.Valid)
    (hended : 0 < endings lease.token t.compactions.history) :
    (releaseCompaction t lease now).tables = t := by
  have hq := Queue.stale_token_changes_nothing hvalid hended lease.job.id
    (fun row => { row with
      state := .pending, claimToken := none, leaseUntil := none, retryAfter := none,
      updatedAt := now }) (some (.ended lease.job.id lease.token .released))
  simp only [releaseCompaction, Queue.release, hq]
  rfl

theorem recordCompactionFailure_ended {error : String} {disposition : MemoryJobFailureDisposition}
    (hvalid : t.compactions.Valid) (hended : 0 < endings lease.token t.compactions.history) :
    (recordCompactionFailure t lease error disposition now).tables = t := by
  refine settle_tables_of_error fun outcome t' hbody => ?_
  simp only [bind_eq_ok, required_eq_ok, Option.filter_eq_some_iff] at hbody
  obtain ⟨_, _, row, ⟨hrow, hheld⟩, _⟩ := hbody
  rw [not_held hvalid hended hrow] at hheld
  cases hheld

theorem completeCompaction_ended {summary : String} {eventId : Uuid}
    (hvalid : t.compactions.Valid) (hended : 0 < endings lease.token t.compactions.history) :
    (completeCompaction encoding t lease summary eventId now).tables = t := by
  refine settle_tables_of_error fun sequence t' hbody => ?_
  simp only [writeSummary, validateCompactionLease, bind_eq_ok, ensure_eq_ok, required_eq_ok]
    at hbody
  obtain ⟨_, _, _, ⟨row, hrow, _, ⟨hheld, _⟩, _⟩, _⟩ := hbody
  rw [not_held hvalid hended hrow] at hheld
  cases hheld

theorem renewDistillation_ended (hvalid : t.distillations.Valid)
    (hended : 0 < endings lease.token t.distillations.history) :
    (renewDistillation t lease now).tables = t := by
  cases hd : deadlineAfter now DISTILLATION_LEASE "distillation lease" with
  | error error => simp only [renewDistillation, hd]
  | ok leaseUntil =>
    have hq := Queue.stale_token_changes_nothing hvalid hended lease.job.id
      (fun row => { row with leaseUntil := some leaseUntil, updatedAt := now }) none
    simp only [renewDistillation, hd, Queue.renew, hq]
    rfl

theorem abandonDistillation_ended (hvalid : t.distillations.Valid)
    (hended : 0 < endings lease.token t.distillations.history) :
    (abandonDistillation t lease now).tables = t := by
  have hq := Queue.stale_token_changes_nothing hvalid hended lease.job.id
    (fun row => { row with
      state := .pending, claimToken := none, leaseUntil := none, retryAfter := none,
      updatedAt := now }) (some (.ended lease.job.id lease.token .released))
  simp only [abandonDistillation, Queue.release, hq]
  rfl

theorem recordDistillationFailure_ended {error : String}
    {disposition : MemoryJobFailureDisposition} (hvalid : t.distillations.Valid)
    (hended : 0 < endings lease.token t.distillations.history) :
    (recordDistillationFailure t lease error disposition now).tables = t := by
  refine settle_tables_of_error fun outcome t' hbody => ?_
  simp only [bind_eq_ok, required_eq_ok, Option.filter_eq_some_iff] at hbody
  obtain ⟨_, _, row, ⟨hrow, hheld⟩, _⟩ := hbody
  rw [not_held hvalid hended hrow] at hheld
  cases hheld

theorem completeDistillation_ended {candidates : List (Uuid × DistillationCandidateInput)}
    (hvalid : t.distillations.Valid)
    (hended : 0 < endings lease.token t.distillations.history) :
    (completeDistillation encoding t lease candidates now).tables = t := by
  refine settle_tables_of_error fun _ t' hbody => ?_
  simp only [writeCandidates, validateDistillationLease, bind_eq_ok, ensure_eq_ok,
    required_eq_ok] at hbody
  obtain ⟨_, _, _, ⟨row, hrow, _, ⟨hheld, _⟩, _⟩, _⟩ := hbody
  rw [not_held hvalid hended hrow] at hheld
  cases hheld

end ended

/-- A call under the token of a claim that has ended. -/
def Action.stale (action : Action) (s : State) : Prop :=
  (∃ token, action.carriesCompaction = some token ∧
    0 < endings token s.tables.compactions.history) ∨
  ∃ token, action.carriesDistillation = some token ∧
    0 < endings token s.tables.distillations.history

/-- **A call under the token of a claim that has ended changes no table.** -/
theorem tables_of_stale (hs : Consistent s) (h : call encoding s action = some (result, s'))
    (hstale : action.stale s) : s'.tables = s.tables := by
  unfold call at h
  split at h
  · obtain ⟨⟨result, s₁⟩, hperform, heq⟩ := Option.map_eq_some_iff.1 h
    cases heq
    obtain ⟨token, hcarries, hended⟩ | ⟨token, hcarries, hended⟩ := hstale
    · cases action <;> cases hcarries
      all_goals
        simp only [perform, Option.map_eq_some_iff] at hperform
        obtain ⟨lease, hlease, hperform⟩ := hperform
        cases hperform
        obtain rfl := (hs.compactionLeases _ _ hlease).1
      · exact renewCompaction_ended hs.compactions hended
      · exact recordCompactionFailure_ended hs.compactions hended
      · exact releaseCompaction_ended hs.compactions hended
      · exact completeCompaction_ended hs.compactions hended
    · cases action <;> cases hcarries
      all_goals
        simp only [perform, Option.map_eq_some_iff] at hperform
        obtain ⟨lease, hlease, hperform⟩ := hperform
        cases hperform
        obtain rfl := (hs.distillationLeases _ _ hlease).1
      · exact renewDistillation_ended hs.distillations hended
      · exact recordDistillationFailure_ended hs.distillations hended
      · exact abandonDistillation_ended hs.distillations hended
      · exact completeDistillation_ended hs.distillations hended
  · cases h

/-! ## Whole runs -/

/-- A claim has ended once, or its job runs under its token. -/
theorem claim_ends_once {ρ : Type} {q : Queue ρ} (h : q.Valid) {token : Uuid}
    (hclaimed : claims token q.history = 1) :
    endings token q.history = 1 ∨ endings token q.history = 0 ∧ ∃ job row,
      q.rows.get job = some row ∧ row.state = .running ∧ row.claimToken = some token := by
  by_cases hstored : ∃ job row, q.rows.get job = some row ∧ row.claimToken = some token
  · obtain ⟨job, row, hrow, htoken⟩ := hstored
    refine .inr ⟨(h.held job row token hrow htoken).2, job, row, hrow, ?_, htoken⟩
    by_contra hstate
    have hnone := JobRow.claimToken_of_check (h.check job row hrow) hstate
    rw [htoken] at hnone
    cases hnone
  · refine .inl ((h.ended token fun job row hrow htoken => ?_).trans hclaimed)
    exact hstored ⟨job, row, hrow, htoken⟩

/-- The results of a completed distillation stay. -/
theorem Effect.resultsOf_of_completed (h : Effect encoding s action t')
    {job : Uuid} {row : JobRow Time} (hrow : s.tables.distillations.rows.get job = some row)
    (hcompleted : row.state = .completed) : resultsOf t' job = resultsOf s.tables job := by
  cases h with
  | none | started | claimed | renewed | released | queuedDistillation | distillations
  | retriedDistillation | compactions | queuedCompaction | retriedCompaction | maintained => rfl
  | appended _ happended =>
    rw [happended.frame]
    rfl
  | summarized _ hsummarized =>
    rw [hsummarized.frame]
    rfl
  | @distilled token candidates now lease added t' hlease hdistilled =>
    obtain ⟨row', hrow', hheld, _⟩ := execute_row hdistilled.complete
    have hother : lease.job.id ≠ job := by
      rintro rfl
      rw [hrow] at hrow'
      cases hrow'
      simp [JobRow.held, hcompleted] at hheld
    have hnone : added.filter (fun result => decide (result.jobId = job)) = [] :=
      List.filter_eq_nil_iff.2 fun result hresult => by
        simpa [hdistilled.results.job result hresult] using hother
    rw [hdistilled.frame]
    unfold resultsOf
    rw [List.filter_append, hnone, List.append_nil]

/-- What a call leaves of the queues: nothing changes under the token of a claim that has ended, and
completed jobs, their summaries and their results stay. -/
structure Lasting (s : State) (action : Action) (s' : State) : Prop where
  stale : action.stale s → s'.tables = s.tables
  compactions : ∀ job row, s.tables.compactions.rows.get job = some row →
    row.state = .completed → s'.tables.compactions.rows.get job = some row
  distillations : ∀ job row, s.tables.distillations.rows.get job = some row →
    row.state = .completed → s'.tables.distillations.rows.get job = some row ∧
      resultsOf s'.tables job = resultsOf s.tables job

theorem lasting_of_call (hs : Consistent s) (h : call encoding s action = some (result, s')) :
    Lasting s action s' := by
  have hcalled := call_cases hs h
  refine ⟨tables_of_stale hs h, fun job row hrow hcompleted => ?_,
    fun job row hrow hcompleted => ⟨?_, ?_⟩⟩
  · exact hcalled.tables (P := fun t => t.compactions.rows.get job = some row) hrow
      fun t' heffect => (heffect.grown hs hcalled.new).1.completed job row hrow hcompleted
  · exact hcalled.tables (P := fun t => t.distillations.rows.get job = some row) hrow
      fun t' heffect => (heffect.grown hs hcalled.new).2.completed job row hrow hcompleted
  · exact hcalled.tables (P := fun t => resultsOf t job = resultsOf s.tables job) rfl
      fun t' heffect => heffect.resultsOf_of_completed hrow hcompleted

theorem finished_of_run {ok : State → Action → Prop} {actions : List Action}
    (h : Machine.Run (step encoding) ok State.initial actions s) : Finished s.tables := by
  have hinitial : Finished State.initial.tables := by
    constructor <;> simp [State.initial, Queue.empty, summariesOf, resultsOf, Table.empty, Table.get]
  refine (h.invariant (I := fun s => Consistent s ∧ Finished s.tables) ?_
    ⟨consistent_initial, hinitial⟩).2
  intro s action s' hs _ hstep
  obtain ⟨_, hcall⟩ := step_eq_some hstep
  have hcalled := call_cases hs.1 hcall
  exact ⟨hs.1.call hcall, hcalled.tables hs.2 fun t' heffect =>
    heffect.finished hs.1 hcalled.new hs.2⟩

/-- **The job queues are durable.**  In every state that any number of workers reach, both queues are
valid, a claim has ended once or its job runs under its token, a completed job has one summary or one
set of results, every row is accepted by its reader, and every call leaves what has been completed
and changes nothing under the token of a claim that has ended. -/
theorem worker_queues_are_durable {actions : List Action}
    (h : Machine.Run (step encoding) Machine.anyStep State.initial actions s) :
    (s.tables.compactions.Valid ∧ s.tables.distillations.Valid ∧ Finished s.tables) ∧
    (∀ token, claims token s.tables.compactions.history = 1 →
      endings token s.tables.compactions.history = 1 ∨
      endings token s.tables.compactions.history = 0 ∧ ∃ job row,
        s.tables.compactions.rows.get job = some row ∧ row.state = .running ∧
          row.claimToken = some token) ∧
    (∀ token, claims token s.tables.distillations.history = 1 →
      endings token s.tables.distillations.history = 1 ∨
      endings token s.tables.distillations.history = 0 ∧ ∃ job row,
        s.tables.distillations.rows.get job = some row ∧ row.state = .running ∧
          row.claimToken = some token) ∧
    (∀ job row, s.tables.compactions.rows.get job = some row →
      CompactionJob.tryFrom job row = .ok (row.job job)) ∧
    (∀ job row, s.tables.distillations.rows.get job = some row →
      DistillationJob.tryFrom job row = .ok (row.job job)) ∧
    ∀ action result s', call encoding s action = some (result, s') → Lasting s action s' := by
  have hs := Consistent.of_run h
  exact ⟨⟨hs.compactions, hs.distillations, finished_of_run h⟩,
    fun _ => claim_ends_once hs.compactions, fun _ => claim_ends_once hs.distillations,
    fun _ _ hrow => (tryFrom_of_valid hs.compactions hrow).1,
    fun _ _ hrow => (tryFrom_of_valid hs.distillations hrow).2,
    fun _ _ _ hcall => lasting_of_call hs hcall⟩

/-- A turn is compacted: the job fails once, is claimed again and completed. -/
def oneCompaction : List Action :=
  [.startSession 1 ⟨"/work", ⟨0, 0⟩⟩ 0, .claimSession 1 ⟨"/work", ⟨0, 0⟩⟩ 2 0,
    .appendTurn 2 ⟨0, 0⟩ [(4, ⟨.userMessage, "1"⟩)] 3 0, .releaseSession 2,
    .queueCompaction 1 1 5 0, .claimCompaction 6 0, .recordCompactionFailure 6 "busy" .retry 0,
    .claimCompaction 7 JOB_RETRY_BASE, .completeCompaction 7 "summary" 8 JOB_RETRY_BASE]

theorem one_compaction_is_durable : ∃ s,
    Machine.run (step byteEncoding) State.initial oneCompaction = some s ∧
    completions 5 s.tables.compactions.history = 1 ∧ (summariesOf s.tables 5).length = 1 ∧
    s.tables.compactions.Valid := by
  obtain ⟨s, hs, hresult⟩ : ∃ s,
      Machine.run (step byteEncoding) State.initial oneCompaction = some s ∧
      (completions 5 s.tables.compactions.history, (summariesOf s.tables 5).length) = (1, 1) :=
    Option.map_eq_some_iff.1 (show (Machine.run (step byteEncoding) State.initial oneCompaction).map
      (fun s => (completions 5 s.tables.compactions.history, (summariesOf s.tables 5).length)) =
        some (1, 1) by decide +kernel)
  obtain ⟨hcompletions, hsummaries⟩ := Prod.mk.inj hresult
  exact ⟨s, hs, hcompletions, hsummaries,
    (worker_queues_are_durable (Machine.run_eq_some_iff.1 hs)).1.1⟩

end Memory

end Emelex

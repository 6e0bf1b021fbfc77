import Emelex.Memory.QueueSteps
import Emelex.Memory.SessionSteps

/-!
# What the operations of the background workers do

One lemma for each operation: what it leaves, and what it has checked where it makes, completes or
reopens a job.  The errors that an operation could give after its commit are excluded by the validity
of the queue.

Principal results: `queueCompaction_cases`, `completeCompaction_cases`, `queueDistillation_cases`,
`completeDistillation_cases`, `retryFailedJob_cases`, `maintain_cases`.
-/

set_option autoImplicit false

namespace Emelex

namespace Memory

open Queue (Moved)

variable {encoding : Encoding} {t t' : Tables} {lease : JobLease} {token : Uuid} {now : Time}

/-! ## Errors -/

/-- A text has no more characters than bytes. -/
theorem length_le_utf8ByteSize (text : String) : text.length ≤ text.utf8ByteSize := by
  induction text using String.push_induction with
  | empty => rfl
  | push text c ih =>
    rw [String.length_push, String.utf8ByteSize_push]
    have := Char.utf8Size_pos c
    omega

/-- The diagnostic of a failure is within the limit of its column. -/
theorem validateRequired_length {value name : String} {limit : Nat} {u : Unit}
    (h : validateRequired value limit name = .ok u) : value.length ≤ limit := by
  simp only [validateRequired, bind_eq_ok, ensure_eq_ok] at h
  obtain ⟨_, _, hbytes⟩ := h
  exact (length_le_utf8ByteSize value).trans hbytes

/-- The lease of a worker on the same job, under the same token. -/
structure JobLease.Same (lease lease' : JobLease) : Prop where
  token : lease'.token = lease.token
  id : lease'.job.id = lease.job.id
  sessionId : lease'.job.sessionId = lease.job.sessionId
  throughSequence : lease'.job.throughSequence = lease.job.throughSequence
  source : lease'.job.source = lease.job.source

theorem settle_same {α : Type} (lease : JobLease) (result : Except MemoryError α × Tables) :
    lease.Same (settle lease result).lease := by
  obtain ⟨result, tables⟩ := result
  cases result <;> exact ⟨rfl, rfl, rfl, rfl, rfl⟩

/-- A provenance has as many events as its boundary says, and its boundary is positive. -/
theorem transcriptProvenance_ok {session : Uuid} {throughSequence : Nat}
    {source : TranscriptProvenance}
    (h : transcriptProvenance encoding t session throughSequence = .ok source) :
    0 < throughSequence ∧ source.eventCount = throughSequence := by
  simp only [transcriptProvenance, bind_eq_ok, ensure_eq_ok, required_eq_ok] at h
  obtain ⟨_, hpos, _, _, _, _, _, _, _, _, _, _, h⟩ := h
  cases h
  exact ⟨hpos, rfl⟩

/-! ## Making a job -/

/-- A row of a valid table is accepted by its reader. -/
theorem tryFrom_of_valid {ρ : Type} {q : Queue ρ} (hvalid : q.Valid) {job : Uuid} {row : JobRow ρ}
    (hrow : q.rows.get job = some row) :
    CompactionJob.tryFrom job row = .ok (row.job job) ∧
      DistillationJob.tryFrom job row = .ok (row.job job) := by
  have hcheck := hvalid.check job row hrow
  have hcount : row.failureCount ≤ U32_MAX := (hvalid.counted job row hrow).2.trans (by decide)
  exact ⟨CompactionJob.tryFrom_of_check hcheck hcount job,
    DistillationJob.tryFrom_of_check hcheck hcount job⟩

/-- What `queue_compaction` has checked where it makes a job. -/
structure Compactable (encoding : Encoding) (t : Tables) (session : Uuid) (throughSequence : Nat)
    (source : TranscriptProvenance) : Prop where
  idle : ∀ job row, t.compactions.rows.get job = some row → row.sessionId = session →
    row.active = false
  absent : ∀ job row, t.compactions.rows.get job = some row → row.sessionId = session →
    row.throughSequence ≠ throughSequence
  boundary : ∃ e ∈ t.events.entries, e.2.sessionId = session ∧ e.2.sequence = throughSequence ∧
    e.2.turnSize ≠ 0 ∧ e.2.turnIndex + 1 = e.2.turnSize
  prior : priorSummarySequence t session ≤ throughSequence
  source : transcriptProvenance encoding t session throughSequence = .ok source

/-- `queue_compaction` leaves the tables or adds a pending job. -/
theorem queueCompaction_cases {session id : Uuid} {throughSequence : Nat}
    {result : Except MemoryError Job} (hvalid : t.compactions.Valid)
    (hfree : t.compactions.rows.get id = none)
    (h : queueCompaction encoding t session throughSequence id now = (result, t')) :
    t' = t ∨ (∃ job, result = .ok job) ∧ ∃ source,
      Compactable encoding t session throughSequence source ∧
      t' = { t with
        compactions := t.compactions.queue id session throughSequence source now } := by
  unfold queueCompaction at h
  split at h
  · rename_i error tables hcall
    cases h
    exact .inl (transaction_error hcall)
  · rename_i jobId row tables hcall
    cases h
    have hbody := transaction_ok hcall
    simp only [writeCompaction, bind_eq_ok, ensure_eq_ok, required_eq_ok] at hbody
    obtain ⟨_, hne, _, _, _, hactive, boundary, hboundary, _, hwhole, _, hprior, source, hsource,
      raw, hraw, hpure⟩ := hbody
    cases hpure
    cases hat : compactionAt t session throughSequence with
    | some existing => exact .inl (by simp [insertCompaction, hat])
    | none =>
      refine .inr ⟨?_, source, ?_, by simp [insertCompaction, hat]⟩
      · simp only [insertCompaction, hat] at hraw
        have hsourceOk := transcriptProvenance_ok hsource
        have hvalid' : (t.compactions.queue id session throughSequence source now).Valid :=
          hvalid.queue hfree hsourceOk.1 hsourceOk.2
        exact ⟨_, (tryFrom_of_valid hvalid' (Table.first_eq_some hraw).1).1⟩
      · have hmem := Table.mem_select.1 (List.mem_of_mem_head? hboundary)
        simp only [Bool.and_eq_true, decide_eq_true_eq] at hmem
        exact {
          idle := by
            intro job row hrow hsession
            cases hfirst : t.compactions.rows.first (fun _ row => row.sessionId = session &&
                (row.state = .pending || row.state = .running)) oldestFirst with
            | none =>
              have hnone := Table.first_eq_none hfirst hrow
              simpa [hsession, JobRow.active] using hnone
            | some active =>
              rw [hfirst] at hactive
              simp only [ensureSameBoundary, ensure_eq_ok] at hactive
              obtain ⟨hget, hp⟩ := Table.first_eq_some hfirst
              have hnone := Table.first_eq_none hat hget
              simp only [Bool.and_eq_true, decide_eq_true_eq] at hp
              simp [hp.1, hactive] at hnone
          absent := by
            intro job row hrow hsession hthrough
            have hnone := Table.first_eq_none hat hrow
            simp [hsession, hthrough] at hnone
          boundary := ⟨boundary, hmem.1, hmem.2.1, hmem.2.2, hwhole⟩
          prior := hprior
          source := hsource }

/-- The transaction of `queue_distillation` finds a job or makes one. -/
theorem writeDistillation_ok {session id : Uuid} {found : Option ((Uuid × JobRow Time) ⊕ Uuid)}
    (h : writeDistillation encoding t session id now = .ok (found, t')) :
    (t' = t ∧ ∀ new, found ≠ some (.inr new)) ∨ (found = some (.inr id) ∧ ∃ source,
      transcriptProvenance encoding t session (lastEventSequence t session) = .ok source ∧
      t' = { t with distillations :=
        t.distillations.queue id session (lastEventSequence t session) source now }) := by
  simp only [writeDistillation, bind_eq_ok, required_eq_ok] at h
  obtain ⟨_, _, h⟩ := h
  split at h
  · cases h
    exact .inl ⟨rfl, by simp⟩
  · obtain ⟨source, hsource, h⟩ := bind_eq_ok.1 h
    split at h
    · cases h
      exact .inl ⟨rfl, by simp⟩
    · cases h
      exact .inr ⟨rfl, source, hsource, rfl⟩

/-- `queue_distillation` leaves the tables or adds a pending job. -/
theorem queueDistillation_cases {session id : Uuid} {result : Except MemoryError (Option Uuid)}
    (h : queueDistillation encoding t session id now = (result, t')) :
    t' = t ∨ (∃ job, result = .ok job) ∧ ∃ source,
      transcriptProvenance encoding t session (lastEventSequence t session) = .ok source ∧
      t' = { t with distillations :=
        t.distillations.queue id session (lastEventSequence t session) source now } := by
  unfold queueDistillation at h
  split at h
  · rename_i hcall
    cases h
    exact .inl (transaction_error hcall)
  · rename_i hcall
    cases h
    obtain ⟨rfl, _⟩ | ⟨hfound, _⟩ := writeDistillation_ok (transaction_ok hcall)
    · exact .inl rfl
    · cases hfound
  · rename_i hcall
    cases h
    obtain ⟨rfl, _⟩ | ⟨hfound, _⟩ := writeDistillation_ok (transaction_ok hcall)
    · exact .inl rfl
    · cases hfound
  · rename_i hcall
    cases h
    obtain ⟨rfl, _⟩ | ⟨_, hmade⟩ := writeDistillation_ok (transaction_ok hcall)
    · exact .inl rfl
    · exact .inr ⟨⟨_, rfl⟩, hmade⟩

/-! ## Claiming, holding and giving up -/

/-- The job that a lease is on is the one of the row. -/
structure JobRow.Describes {ρ : Type} (row : JobRow ρ) (job : Job) : Prop where
  sessionId : row.sessionId = job.sessionId
  throughSequence : row.throughSequence = job.throughSequence
  source : row.source = job.source

/-- What a claim gives: a lease under its own token on a job of the queue, or none. -/
def Granted {ρ : Type} (q : Queue ρ) (token : Uuid)
    (result : Except MemoryError (Option JobLease)) : Prop :=
  ∃ granted, result = .ok granted ∧ ∀ lease, granted = some lease → lease.token = token ∧
    ∃ row, q.rows.get lease.job.id = some row ∧ row.Describes lease.job

/-- The statement of a claim, and the lease that is read from the row before it. -/
theorem claim_cases {ρ : Type} {q q' : Queue ρ} {tryFrom : Uuid → JobRow ρ → Except MemoryError Job}
    {job : Uuid} {row : JobRow ρ} {leaseUntil : Time}
    (hrow : q.rows.get job = some row) (hread : tryFrom job row = .ok (row.job job))
    (h : q.claim job token leaseUntil now = (q', 1)) :
    Granted q' token (claimedLease tryFrom token now (.ok (some (job, row, leaseUntil)), t)).1 := by
  obtain ⟨hn, _⟩ | ⟨_, _, row', hrow', _, hget⟩ := Queue.execute_cases h
  · cases hn
  · rw [hrow] at hrow'
    cases hrow'
    simp only [claimedLease, hread, Except.map]
    refine ⟨_, rfl, fun lease hlease => ?_⟩
    cases hlease
    exact ⟨rfl, _, (hget job).trans (if_pos rfl), ⟨rfl, rfl, rfl⟩⟩

/-- `claim_compaction` fails and changes nothing, or records expired claims and gives a lease where
a job is due. -/
theorem claimCompaction_cases {result : Except MemoryError (Option JobLease)}
    (hvalid : t.compactions.Valid) (h : claimCompaction t token now = (result, t')) :
    ((∃ error, result = .error error) ∧ t' = t) ∨ ∃ q', t' = { t with compactions := q' } ∧
      Moved [token] t.compactions q' ∧ Granted q' token result := by
  unfold claimCompaction at h
  cases hcall : transaction t (writeCompactionClaim t token now) with
  | mk written tables =>
    rw [hcall] at h
    cases written with
    | error error =>
      cases h
      exact .inl ⟨⟨error, rfl⟩, transaction_error hcall⟩
    | ok claimed =>
      have hbody := transaction_ok hcall
      simp only [writeCompactionClaim, bind_eq_ok] at hbody
      obtain ⟨recovered, hrecovered, hbody⟩ := hbody
      have hmoved := Moved.recoverExpired hrecovered
      split at hbody
      · cases hbody
        cases h
        exact .inr ⟨recovered, rfl, hmoved.weaken [token], none, rfl, by simp⟩
      · rename_i job row hfirst
        simp only [bind_eq_ok, ensure_eq_ok] at hbody
        obtain ⟨_, hchanged, hpure⟩ := hbody
        cases hpure
        obtain ⟨hrow, hp⟩ := Table.first_eq_some hfirst
        simp only [Bool.and_eq_true] at hp
        have hclaim : recovered.claim job token (now + COMPACTION_LEASE) now = (_, 1) :=
          Prod.ext rfl hchanged
        have hgranted := claim_cases (t := t) hrow
          (tryFrom_of_valid (hmoved.valid hvalid (by simp)) hrow).1 hclaim
        cases h
        exact .inr ⟨_, rfl, hmoved.trans (.claim hclaim), hgranted⟩

/-- `claim_distillation` likewise. -/
theorem claimDistillation_cases {result : Except MemoryError (Option JobLease)}
    (hvalid : t.distillations.Valid) (h : claimDistillation t token now = (result, t')) :
    ((∃ error, result = .error error) ∧ t' = t) ∨ ∃ q', t' = { t with distillations := q' } ∧
      Moved [token] t.distillations q' ∧ Granted q' token result := by
  unfold claimDistillation at h
  cases hcall : transaction t (writeDistillationClaim t token now) with
  | mk written tables =>
    rw [hcall] at h
    cases written with
    | error error =>
      cases h
      exact .inl ⟨⟨error, rfl⟩, transaction_error hcall⟩
    | ok claimed =>
      have hbody := transaction_ok hcall
      simp only [writeDistillationClaim, bind_eq_ok] at hbody
      obtain ⟨recovered, hrecovered, hbody⟩ := hbody
      have hmoved := Moved.recoverExpired hrecovered
      split at hbody
      · cases hbody
        cases h
        exact .inr ⟨recovered, rfl, hmoved.weaken [token], none, rfl, by simp⟩
      · rename_i job row hfirst
        simp only [bind_eq_ok, ensure_eq_ok] at hbody
        obtain ⟨leaseUntil, _, _, hchanged, hpure⟩ := hbody
        cases hpure
        obtain ⟨hrow, hp⟩ := Table.first_eq_some hfirst
        simp only [Bool.and_eq_true] at hp
        have hclaim : recovered.claim job token leaseUntil now = (_, 1) :=
          Prod.ext rfl hchanged
        have hgranted := claim_cases (t := t) hrow
          (tryFrom_of_valid (hmoved.valid hvalid (by simp)) hrow).2 hclaim
        cases h
        exact .inr ⟨_, rfl, hmoved.trans (.claim hclaim), hgranted⟩

/-- `recover_stale_compactions` records expired claims. -/
theorem recoverStaleCompactions_cases {result : Except MemoryError Unit}
    (h : recoverStaleCompactions t now = (result, t')) :
    ((∃ error, result = .error error) ∧ t' = t) ∨ (∃ u, result = .ok u) ∧
      ∃ q', t' = { t with compactions := q' } ∧ Moved [] t.compactions q' := by
  cases result with
  | error error => exact .inl ⟨⟨error, rfl⟩, transaction_error h⟩
  | ok u =>
    have hbody := transaction_ok h
    simp only [bind_eq_ok] at hbody
    obtain ⟨q', hrecovered, hpure⟩ := hbody
    cases hpure
    exact .inr ⟨⟨_, rfl⟩, q', rfl, Moved.recoverExpired hrecovered⟩

/-- A statement under a claim changes its one row, or none where the claim is lost. -/
theorem execute_of_ne {ρ : Type} {q q' : Queue ρ} {job : Uuid} {p : JobRow ρ → Bool}
    {f : JobRow ρ → JobRow ρ} {event : Option JobEvent} {n : Nat}
    (h : q.execute job p f event = (q', n)) (hn : n ≠ 1) : q' = q := by
  obtain ⟨_, hq, _⟩ | ⟨hn', _⟩ := Queue.execute_cases h
  · exact hq
  · exact absurd hn' hn

/-- What a call under a claim leaves where it does not complete the job: an error and nothing
changed, or a queue in which the claim is held on or given up. -/
structure Worked {α : Type} (t : Tables) (lease : JobLease) (call : WorkerCall α)
    (changed : Tables → Prop) : Prop where
  lease : lease.Same call.lease
  tables : ((∃ error, call.result = .error error) ∧ call.tables = t) ∨
    (∃ a, call.result = .ok a) ∧ changed call.tables

/-- Only the compactions have changed. -/
def CompactionsMoved (t t' : Tables) : Prop :=
  ∃ q', t' = { t with compactions := q' } ∧ Moved [] t.compactions q'

/-- Only the distillations have changed. -/
def DistillationsMoved (t t' : Tables) : Prop :=
  ∃ q', t' = { t with distillations := q' } ∧ Moved [] t.distillations q'

theorem renewCompaction_worked (t : Tables) (lease : JobLease) (now : Time) :
    Worked t lease (renewCompaction t lease now) (CompactionsMoved t) := by
  obtain ⟨q', n, hq⟩ : ∃ q' n, t.compactions.renew lease.job.id lease.token
    (now + COMPACTION_LEASE) now = (q', n) := ⟨_, _, rfl⟩
  simp only [renewCompaction, hq]
  split
  · exact ⟨⟨rfl, rfl, rfl, rfl, rfl⟩, .inr ⟨⟨_, rfl⟩, q', rfl, .renew hq⟩⟩
  · rename_i hn
    exact ⟨⟨rfl, rfl, rfl, rfl, rfl⟩, .inl ⟨⟨_, rfl⟩, by rw [execute_of_ne hq hn]⟩⟩

theorem releaseCompaction_worked (t : Tables) (lease : JobLease) (now : Time) :
    Worked t lease (releaseCompaction t lease now) (CompactionsMoved t) := by
  unfold releaseCompaction
  cases hq : t.compactions.release lease.job.id lease.token now with
  | mk q' n =>
    simp only
    split
    · exact ⟨⟨rfl, rfl, rfl, rfl, rfl⟩, .inr ⟨⟨_, rfl⟩, q', rfl, .release hq⟩⟩
    · rename_i hn
      exact ⟨⟨rfl, rfl, rfl, rfl, rfl⟩, .inl ⟨⟨_, rfl⟩, by rw [execute_of_ne hq hn]⟩⟩

theorem renewDistillation_worked (t : Tables) (lease : JobLease) (now : Time) :
    Worked t lease (renewDistillation t lease now) (DistillationsMoved t) := by
  cases hd : deadlineAfter now DISTILLATION_LEASE "distillation lease" with
  | error error =>
    simp only [renewDistillation, hd]
    exact ⟨⟨rfl, rfl, rfl, rfl, rfl⟩, .inl ⟨⟨_, rfl⟩, rfl⟩⟩
  | ok leaseUntil =>
    obtain ⟨q', n, hq⟩ : ∃ q' n, t.distillations.renew lease.job.id lease.token leaseUntil now =
      (q', n) := ⟨_, _, rfl⟩
    simp only [renewDistillation, hd, hq]
    split
    · exact ⟨⟨rfl, rfl, rfl, rfl, rfl⟩, .inr ⟨⟨_, rfl⟩, q', rfl, .renew hq⟩⟩
    · rename_i hn
      exact ⟨⟨rfl, rfl, rfl, rfl, rfl⟩, .inl ⟨⟨_, rfl⟩, by rw [execute_of_ne hq hn]⟩⟩

theorem abandonDistillation_worked (t : Tables) (lease : JobLease) (now : Time) :
    Worked t lease (abandonDistillation t lease now) (DistillationsMoved t) := by
  unfold abandonDistillation
  cases hq : t.distillations.release lease.job.id lease.token now with
  | mk q' n =>
    simp only
    split
    · exact ⟨⟨rfl, rfl, rfl, rfl, rfl⟩, .inr ⟨⟨_, rfl⟩, q', rfl, .release hq⟩⟩
    · rename_i hn
      exact ⟨⟨rfl, rfl, rfl, rfl, rfl⟩, .inl ⟨⟨_, rfl⟩, by rw [execute_of_ne hq hn]⟩⟩

/-- A transaction under a claim, and the lease that it spends. -/
theorem settle_worked {α : Type} {body : Except MemoryError (α × Tables)} {changed : Tables → Prop}
    (h : ∀ a t', body = .ok (a, t') → changed t') :
    Worked t lease (settle lease (transaction t body)) changed := by
  cases hcall : transaction t body with
  | mk result tables =>
    cases result with
    | error error =>
      exact ⟨⟨rfl, rfl, rfl, rfl, rfl⟩, .inl ⟨⟨_, rfl⟩, transaction_error hcall⟩⟩
    | ok a => exact ⟨⟨rfl, rfl, rfl, rfl, rfl⟩, .inr ⟨⟨_, rfl⟩, h a tables (transaction_ok hcall)⟩⟩

theorem recordCompactionFailure_worked (t : Tables) (lease : JobLease) (error : String)
    (disposition : MemoryJobFailureDisposition) (now : Time) :
    Worked t lease (recordCompactionFailure t lease error disposition now)
      (CompactionsMoved t) := by
  refine settle_worked fun outcome t' h => ?_
  simp only [bind_eq_ok, required_eq_ok, Option.filter_eq_some_iff] at h
  obtain ⟨_, herror, row, ⟨hrow, _⟩, ⟨_, q'⟩, hq, hpure⟩ := h
  cases hpure
  exact ⟨q', rfl, .transitionFailure hrow (validateRequired_length herror) hq⟩

theorem recordDistillationFailure_worked (t : Tables) (lease : JobLease) (error : String)
    (disposition : MemoryJobFailureDisposition) (now : Time) :
    Worked t lease (recordDistillationFailure t lease error disposition now)
      (DistillationsMoved t) := by
  refine settle_worked fun outcome t' h => ?_
  simp only [bind_eq_ok, required_eq_ok, Option.filter_eq_some_iff] at h
  obtain ⟨_, herror, row, ⟨hrow, _⟩, ⟨_, q'⟩, hq, hpure⟩ := h
  cases hpure
  exact ⟨q', rfl, .transitionFailure hrow (validateRequired_length herror) hq⟩

/-! ## Completing a compaction -/

/-- A Session that can be changed by a worker has no claim whose deadline is ahead. -/
theorem ensureIdle_ok {session : Uuid} {row : SessionRow} (h : ensureIdle t session now = .ok row) :
    t.sessions.get session = some row ∧ row.executionLeaseUntil.all (· ≤ now) := by
  simp only [ensureIdle, bind_eq_ok, required_eq_ok] at h
  obtain ⟨_, hrow, claim, hclaim, _, hbusy, hpure⟩ := h
  cases hpure
  obtain ⟨_, hdeadline⟩ := parseSessionClaim_ok hclaim
  refine ⟨hrow, ?_⟩
  cases claim with
  | none => simp [hdeadline]
  | some claim =>
    simp only [ensureNotBusy, ensure_eq_ok] at hbusy
    simpa [hdeadline] using hbusy

/-- The summary event that completes a compaction. -/
def summaryRow (t : Tables) (session eventId : Uuid) (job : Job) (summary : String) (now : Time) :
    SessionEvent where
  sessionId := session
  sequence := lastEventSequence t session + 1
  turnId := eventId
  turnIndex := 0
  turnSize := 1
  kind := .summary
  payload := .compaction job.id job.throughSequence job.source summary
  createdAt := now

/-- What a completed compaction has checked and what it leaves: the job is held under the lease, its
Session is idle, the transcript is still the one it was made from, and the summary is the next event
of the Session. -/
structure Summarized (encoding : Encoding) (t : Tables) (lease : JobLease) (summary : String)
    (eventId : Uuid) (now : Time) (row : JobRow Uuid) (session : SessionRow) (t' : Tables) :
    Prop where
  stored : t.compactions.rows.get lease.job.id = some row
  held : row.held lease.token = true
  live : row.leaseUntil.any (now < ·) = true
  source : row.source = lease.job.source
  current : transcriptProvenance encoding t row.sessionId row.throughSequence = .ok row.source
  bound : t.sessions.get row.sessionId = some session
  idle : session.executionLeaseUntil.all (· ≤ now) = true
  frame : t' = { t with
    sessions := t'.sessions, events := t'.events, compactions := t'.compactions }
  complete : t.compactions.complete lease.job.id lease.token eventId now = (t'.compactions, 1)
  events : t'.events.entries = t.events.entries ++
    [(eventId, summaryRow t row.sessionId eventId lease.job summary now)]
  sessions : ∀ other, t'.sessions.get other =
    if other = row.sessionId then some { session with updatedAt := now } else t.sessions.get other

/-- What a completion leaves of the queue. -/
theorem complete_cases {ρ : Type} {q q' : Queue ρ} {job : Uuid} {finished : ρ}
    (h : q.complete job token finished now = (q', 1)) :
    q'.history = .ended job token .completed :: q.history ∧
    ∃ row, q.rows.get job = some row ∧ row.held token = true ∧ ∀ other, q'.rows.get other =
      if other = job then some { row with
        state := .completed, claimToken := none, leaseUntil := none, retryAfter := none,
        lastError := none, failedAt := none, finished := some finished, updatedAt := now }
      else q.rows.get other := by
  obtain ⟨hn, _⟩ | ⟨_, hhistory, row, hrow, hheld, hget⟩ := Queue.execute_cases h
  · cases hn
  · exact ⟨hhistory, row, hrow, hheld, hget⟩

theorem writeSummary_ok {summary : String} {eventId : Uuid} {sequence : Nat}
    (hfree : t.events.get eventId = none)
    (h : writeSummary encoding t lease summary eventId now = .ok (sequence, t')) :
    ∃ row session, Summarized encoding t lease summary eventId now row session t' := by
  simp only [writeSummary, validateCompactionLease, bind_eq_ok, ensure_eq_ok, required_eq_ok] at h
  obtain ⟨_, _, row, ⟨row', hrow, _, ⟨hheld, hlive⟩, _, hsource, current, hcurrent, _, rfl, hpure⟩,
    session, hidle, _, _, _, hchanged, h⟩ := h
  cases hpure
  obtain ⟨hsession, hidle⟩ := ensureIdle_ok hidle
  obtain ⟨⟨q', n⟩, hq⟩ : ∃ r, t.compactions.complete lease.job.id lease.token eventId now = r :=
    ⟨_, rfl⟩
  obtain ⟨⟨t₁, m⟩, hupdate⟩ : ∃ r, updateSession { t with
      events := t.events.insert eventId (summaryRow t row.sessionId eventId lease.job summary now)
      compactions := q' } row.sessionId (fun _ => true) (fun row => { row with updatedAt := now }) =
        r := ⟨_, rfl⟩
  simp only [hq] at hchanged h
  simp only [summaryRow] at hupdate
  rw [hupdate] at h
  subst hchanged
  cases h
  obtain ⟨_, _, hnone⟩ | ⟨_, sessions, session', rfl, hsession', _, hget⟩ :=
    updateSession_cases hupdate
  · exact absurd (hnone session hsession) (by simp)
  · rw [hsession] at hsession'
    cases hsession'
    exact ⟨row, session, {
      stored := hrow
      held := hheld
      live := hlive
      source := hsource
      current := hcurrent
      bound := hsession
      idle := hidle
      frame := rfl
      complete := hq
      events := Table.entries_insert _ hfree
      sessions := hget }⟩

/-- `complete_compaction` fails and changes nothing, or completes the job. -/
theorem completeCompaction_worked {summary : String} {eventId : Uuid}
    (hfree : t.events.get eventId = none) :
    Worked t lease (completeCompaction encoding t lease summary eventId now) fun t' =>
      ∃ row session, Summarized encoding t lease summary eventId now row session t' :=
  settle_worked fun _ _ h => writeSummary_ok hfree h

/-! ## Completing a distillation -/

/-- The results that candidates from an index on leave for a job: one at most for each. -/
structure ResultsFrom (jobId : Uuid) (index : Nat) (added : List DistillationResult) : Prop where
  job : ∀ result ∈ added, result.jobId = jobId
  from_index : ∀ result ∈ added, index ≤ result.candidateIndex
  distinct : (added.map (·.candidateIndex)).Nodup

/-- One candidate changes Knowledge and leaves at most one result. -/
theorem applyCandidate_ok {jobId newId : Uuid} {workspace : WorkspaceIdentity} {index : Nat}
    {candidate : DistillationCandidateInput}
    (h : applyCandidate t jobId workspace index newId now candidate = .ok t') :
    ∃ knowledge versions added, t' = { t with
        knowledge := knowledge, versions := versions, results := t.results ++ added } ∧
      (added = [] ∨ ∃ result : DistillationResult, added = [result] ∧ result.jobId = jobId ∧
        result.candidateIndex = index) := by
  cases candidate with
  | upsert key content pinned =>
    simp only [applyCandidate, applyDistilledVersion, bind_eq_ok] at h
    obtain ⟨_, _, h⟩ := h
    cases h
    exact ⟨_, _, _, rfl, .inr ⟨_, rfl, rfl, rfl⟩⟩
  | tombstone key =>
    simp only [applyCandidate] at h
    split at h
    · cases h
      exact ⟨_, _, [], by rw [List.append_nil], .inl rfl⟩
    · cases h
      exact ⟨_, _, _, rfl, .inr ⟨_, rfl, rfl, rfl⟩⟩

/-- The loop over the candidates changes Knowledge and leaves their results. -/
theorem applyCandidates_ok {jobId : Uuid} {workspace : WorkspaceIdentity} {index : Nat}
    {candidates : List (Uuid × DistillationCandidateInput)}
    (h : applyCandidates jobId workspace now index candidates t = .ok t') :
    ∃ knowledge versions added, t' = { t with
        knowledge := knowledge, versions := versions, results := t.results ++ added } ∧
      ResultsFrom jobId index added := by
  induction candidates generalizing index t with
  | nil =>
    cases h
    exact ⟨_, _, [], by rw [List.append_nil], by simp, by simp, by simp⟩
  | cons candidate candidates ih =>
    obtain ⟨newId, candidate⟩ := candidate
    simp only [applyCandidates, bind_eq_ok] at h
    obtain ⟨t₁, happlied, hrest⟩ := h
    obtain ⟨_, _, first, rfl, hfirst⟩ := applyCandidate_ok happlied
    obtain ⟨knowledge, versions, added, rfl, hjob, hfrom, hdistinct⟩ := ih hrest
    refine ⟨knowledge, versions, first ++ added, by simp only [List.append_assoc], ?_⟩
    rcases hfirst with rfl | ⟨result, rfl, hresult, hindex⟩
    · exact ⟨hjob, fun result hmem => (Nat.le_succ _).trans (hfrom result hmem), hdistinct⟩
    · constructor
      · simpa [hresult] using hjob
      · simp only [List.cons_append, List.nil_append, List.mem_cons, forall_eq_or_imp]
        exact ⟨hindex.ge, fun result hmem => (Nat.le_succ _).trans (hfrom result hmem)⟩
      · simp only [List.cons_append, List.nil_append, List.map_cons, List.nodup_cons]
        refine ⟨fun hmem => ?_, hdistinct⟩
        obtain ⟨other, hother, heq⟩ := List.mem_map.1 hmem
        have := hfrom other hother
        omega

/-- What a completed distillation has checked and what it leaves. -/
structure Distilled (t : Tables) (lease : JobLease) (now : Time) (added : List DistillationResult)
    (t' : Tables) : Prop where
  frame : t' = { t with
    distillations := t'.distillations, knowledge := t'.knowledge, versions := t'.versions
    results := t.results ++ added }
  results : ResultsFrom lease.job.id 0 added
  complete : t.distillations.complete lease.job.id lease.token now now = (t'.distillations, 1)

theorem writeCandidates_ok {candidates : List (Uuid × DistillationCandidateInput)} {u : Unit}
    (h : writeCandidates encoding t lease candidates now = .ok (u, t')) :
    ∃ added, Distilled t lease now added t' := by
  simp only [writeCandidates, bind_eq_ok, ensure_eq_ok] at h
  obtain ⟨_, _, _, _, session, _, t₁, happlied, _, hchanged, hpure⟩ := h
  obtain ⟨knowledge, versions, added, rfl, hadded⟩ := applyCandidates_ok happlied
  cases hpure
  exact ⟨added, rfl, hadded, Prod.ext rfl hchanged⟩

/-- `complete_distillation` fails and changes nothing, or completes the job. -/
theorem completeDistillation_worked (candidates : List (Uuid × DistillationCandidateInput)) :
    Worked t lease (completeDistillation encoding t lease candidates now) fun t' =>
      ∃ added, Distilled t lease now added t' :=
  settle_worked fun _ _ h => writeCandidates_ok h

/-! ## Both queues -/

/-- `retry_failed_job` reopens one failed job of one of the queues. -/
theorem retryFailedJob_cases {id : Uuid} {result : Except MemoryError Unit}
    (h : retryFailedJob t id now = (result, t')) :
    ((∃ error, result = .error error) ∧ t' = t) ∨ (∃ u, result = .ok u) ∧
      ((∃ q', t.compactions.retryFailed id now = (q', 1) ∧ t' = { t with compactions := q' }) ∨
        ∃ q', t.distillations.retryFailed id now = (q', 1) ∧
          t' = { t with distillations := q' }) := by
  cases result with
  | error error => exact .inl ⟨⟨error, rfl⟩, transaction_error h⟩
  | ok u =>
    have hbody := transaction_ok h
    obtain ⟨⟨q, n⟩, hq⟩ : ∃ r, t.compactions.retryFailed id now = r := ⟨_, rfl⟩
    obtain ⟨⟨q', n'⟩, hq'⟩ : ∃ r, t.distillations.retryFailed id now = r := ⟨_, rfl⟩
    simp only [hq, hq', bind_eq_ok, ensure_eq_ok] at hbody
    obtain ⟨_, _, _, hone, hpure⟩ := hbody
    cases hpure
    refine .inr ⟨⟨_, rfl⟩, ?_⟩
    obtain ⟨rfl, rfl, _⟩ | ⟨rfl, _⟩ := Queue.execute_cases hq
    · exact .inr ⟨q', by rw [hq', ← hone, Nat.zero_add], rfl⟩
    · obtain ⟨_, rfl, _⟩ | ⟨rfl, _⟩ := Queue.execute_cases hq'
      · exact .inl ⟨q, hq, rfl⟩
      · cases hone

/-- `maintain` clears claims of Sessions that have expired and records those of jobs. -/
theorem maintain_cases {maxRows : Nat} {result : Except MemoryError Unit}
    (h : maintain t maxRows now = (result, t')) :
    ((∃ error, result = .error error) ∧ t' = t) ∨ (∃ u, result = .ok u) ∧
      ∃ sessions compactions distillations,
        t' = { t with
          sessions := sessions, compactions := compactions, distillations := distillations } ∧
        (∀ id row', sessions.get id = some row' → ∃ row, t.sessions.get id = some row ∧
          (row' = row ∨ row.executionLeaseUntil.any (· ≤ now) = true ∧
            row' = { row with executionToken := none, executionLeaseUntil := none })) ∧
        Moved [] t.compactions compactions ∧ Moved [] t.distillations distillations := by
  cases result with
  | error error => exact .inl ⟨⟨error, rfl⟩, transaction_error h⟩
  | ok u =>
    have hbody := transaction_ok h
    simp only [bind_eq_ok] at hbody
    obtain ⟨compactions, hcompactions, distillations, hdistillations, hpure⟩ := hbody
    cases hpure
    refine .inr ⟨⟨_, rfl⟩, _, compactions, distillations, rfl, ?_, .recoverExpired hcompactions,
      .recoverExpired hdistillations⟩
    intro id row' hrow'
    rw [Table.get_updateWhere] at hrow'
    obtain ⟨row, hrow, rfl⟩ := Option.map_eq_some_iff.1 hrow'
    refine ⟨row, hrow, ?_⟩
    split
    · rename_i hexpired
      simp only [decide_eq_true_eq] at hexpired
      obtain ⟨⟨_, row₁⟩, hmem, rfl⟩ := List.mem_map.1 hexpired
      have hselected := Table.mem_select.1 (List.mem_of_mem_take hmem)
      have hrow₁ := Table.get_eq_some.2 hselected.1
      rw [hrow] at hrow₁
      cases hrow₁
      simp only [Bool.and_eq_true] at hselected
      exact .inr ⟨hselected.2.2, rfl⟩
    · exact .inl rfl

end Memory

end Emelex

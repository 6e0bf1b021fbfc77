import Emelex.Memory.Store
import Emelex.Memory.WorkerSteps

/-!
# What a call of the store can do

* `Effect` — how a call that succeeds changes the tables, with what it has checked.
* `Issued` — the identifiers in use have been minted, so those that a call mints are new.
* `Leases` — a lease is under its token, and a worker's lease is on a job of its queue.
* `Consistent` — these, and the validity of both queues, in every state of every run.

Principal results: `call_cases`, `Consistent.of_run`.
-/

set_option autoImplicit false

namespace Emelex

namespace Memory

open Queue (Moved)

variable {encoding : Encoding} {s s' : State} {action : Action}
  {result : Except MemoryError Unit}

/-- How a call that succeeds changes the tables. -/
inductive Effect (encoding : Encoding) (s : State) : Action → Tables → Prop
  | none {action : Action} : Effect encoding s action s.tables
  | started {id : Uuid} {workspace : WorkspaceBinding} {now : Time} :
    Effect encoding s (.startSession id workspace now) (startSession s.tables id workspace now)
  | claimed {session token : Uuid} {workspace : WorkspaceBinding} {now : Time}
    {sessions : Table Uuid SessionRow} {row : SessionRow}
    (hrow : s.tables.sessions.get session = some row)
    (hfree : row.executionToken = Option.none ∧ row.executionLeaseUntil = Option.none ∨
      ∃ stored deadline, row.executionToken = some stored ∧
        row.executionLeaseUntil = some deadline ∧ deadline ≤ now)
    (hget : ∀ other, sessions.get other = if other = session then some { row with
        executionToken := some token, executionLeaseUntil := some (now + SESSION_LEASE),
        workspace := workspace.path, updatedAt := max row.updatedAt now }
      else s.tables.sessions.get other) :
    Effect encoding s (.claimSession session workspace token now) { s.tables with sessions }
  | renewed {token : Uuid} {actual : WorkspaceIdentity} {now : Time} {lease : SessionLease}
    {sessions : Table Uuid SessionRow} {row : SessionRow} (hlease : s.leases token = some lease)
    (hrow : s.tables.sessions.get lease.session.id = some row)
    (htoken : row.executionToken = some lease.token)
    (hget : ∀ other, sessions.get other = if other = lease.session.id then
        some { row with executionLeaseUntil := some (now + SESSION_LEASE) }
      else s.tables.sessions.get other) :
    Effect encoding s (.renewSession token actual now) { s.tables with sessions }
  | released {token : Uuid} {lease : SessionLease} {sessions : Table Uuid SessionRow}
    {row : SessionRow} (hlease : s.leases token = some lease)
    (hrow : s.tables.sessions.get lease.session.id = some row)
    (htoken : row.executionToken = some lease.token)
    (hget : ∀ other, sessions.get other = if other = lease.session.id then
        some { row with executionToken := Option.none, executionLeaseUntil := Option.none }
      else s.tables.sessions.get other) :
    Effect encoding s (.releaseSession token) { s.tables with sessions }
  | appended {token turnId : Uuid} {actual : WorkspaceIdentity}
    {events : List (Uuid × SessionEventInput)} {now deadline : Time} {lease : SessionLease}
    {call : LeaseCall Nat} {row : SessionRow} (hlease : s.leases token = some lease)
    (happended : Appended s.tables lease events turnId now call row deadline) :
    Effect encoding s (.appendTurn token actual events turnId now) call.tables
  | compactions {action : Action} {q' : Queue Uuid}
    (hmoved : Moved action.mints s.tables.compactions q') :
    Effect encoding s action { s.tables with compactions := q' }
  | distillations {action : Action} {q' : Queue Time}
    (hmoved : Moved action.mints s.tables.distillations q') :
    Effect encoding s action { s.tables with distillations := q' }
  | queuedCompaction {session id : Uuid} {throughSequence : Nat} {now : Time}
    {source : TranscriptProvenance}
    (hcompactable : Compactable encoding s.tables session throughSequence source) :
    Effect encoding s (.queueCompaction session throughSequence id now) { s.tables with
      compactions := s.tables.compactions.queue id session throughSequence source now }
  | queuedDistillation {session id : Uuid} {now : Time} {source : TranscriptProvenance}
    (hsource : transcriptProvenance encoding s.tables session
      (lastEventSequence s.tables session) = .ok source) :
    Effect encoding s (.queueDistillation session id now) { s.tables with
      distillations := s.tables.distillations.queue id session
        (lastEventSequence s.tables session) source now }
  | summarized {token eventId : Uuid} {summary : String} {now : Time} {lease : JobLease}
    {row : JobRow Uuid} {session : SessionRow} {t' : Tables}
    (hlease : s.compactionLeases token = some lease)
    (hsummarized : Summarized encoding s.tables lease summary eventId now row session t') :
    Effect encoding s (.completeCompaction token summary eventId now) t'
  | distilled {token : Uuid} {candidates : List (Uuid × DistillationCandidateInput)} {now : Time}
    {lease : JobLease} {added : List DistillationResult} {t' : Tables}
    (hlease : s.distillationLeases token = some lease)
    (hdistilled : Distilled s.tables lease now added t') :
    Effect encoding s (.completeDistillation token candidates now) t'
  | retriedCompaction {id : Uuid} {now : Time} {q' : Queue Uuid}
    (hretried : s.tables.compactions.retryFailed id now = (q', 1)) :
    Effect encoding s (.retryFailedJob id now) { s.tables with compactions := q' }
  | retriedDistillation {id : Uuid} {now : Time} {q' : Queue Time}
    (hretried : s.tables.distillations.retryFailed id now = (q', 1)) :
    Effect encoding s (.retryFailedJob id now) { s.tables with distillations := q' }
  | maintained {maxRows : Nat} {now : Time} {sessions : Table Uuid SessionRow}
    {compactions : Queue Uuid} {distillations : Queue Time}
    (hsessions : ∀ id row', sessions.get id = some row' →
      ∃ row, s.tables.sessions.get id = some row ∧
        (row' = row ∨ row.executionLeaseUntil.any (· ≤ now) = true ∧
          row' = { row with
            executionToken := Option.none, executionLeaseUntil := Option.none }))
    (hcompactions : Moved [] s.tables.compactions compactions)
    (hdistillations : Moved [] s.tables.distillations distillations) :
    Effect encoding s (.maintain maxRows now) { s.tables with
      sessions := sessions, compactions := compactions, distillations := distillations }

/-- The identifiers in use have been minted. -/
structure Issued (s : State) : Prop where
  sessions : ∀ id row, s.tables.sessions.get id = some row → id ∈ s.issued
  events : ∀ id event, s.tables.events.get id = some event → id ∈ s.issued
  turns : ∀ id event, s.tables.events.get id = some event → event.turnId ∈ s.issued
  compactions : ∀ id row, s.tables.compactions.rows.get id = some row → id ∈ s.issued
  distillations : ∀ id row, s.tables.distillations.rows.get id = some row → id ∈ s.issued
  compactionClaims : ∀ token, token ∉ s.issued → claims token s.tables.compactions.history = 0
  distillationClaims : ∀ token, token ∉ s.issued → claims token s.tables.distillations.history = 0

/-- What has not been minted is no key. -/
theorem get_eq_none_of_not_issued {ρ : Type} {table : Table Uuid ρ} {issued : List Uuid}
    (h : ∀ id row, table.get id = some row → id ∈ issued) {id : Uuid} (hid : id ∉ issued) :
    table.get id = none := by
  rw [Option.eq_none_iff_forall_ne_some]
  exact fun row hrow => hid (h id row hrow)

/-- The result and the tables after a call. -/
def Outcome (encoding : Encoding) (s : State) (action : Action)
    (result : Except MemoryError Unit) (t' : Tables) : Prop :=
  ((∃ error, result = .error error) ∧ t' = s.tables) ∨
    result = .ok () ∧ Effect encoding s action t'

/-- A call of a worker and its outcome. -/
theorem Worked.outcome {α : Type} {lease : JobLease} {call : WorkerCall α}
    {changed : Tables → Prop} (h : Worked s.tables lease call changed)
    (heffect : ∀ t', changed t' → Effect encoding s action t') :
    Outcome encoding s action (call.result.map fun _ => ()) call.tables := by
  obtain ⟨⟨error, herror⟩, htables⟩ | ⟨⟨a, ha⟩, hchanged⟩ := h.tables
  · exact .inl ⟨⟨error, by rw [herror]; rfl⟩, htables⟩
  · exact .inr ⟨by rw [ha]; rfl, heffect _ hchanged⟩

theorem CompactionsMoved.effect {t' : Tables} (hmints : action.mints = [])
    (h : CompactionsMoved s.tables t') : Effect encoding s action t' := by
  obtain ⟨q', rfl, hmoved⟩ := h
  exact .compactions (hmints ▸ hmoved)

theorem DistillationsMoved.effect {t' : Tables} (hmints : action.mints = [])
    (h : DistillationsMoved s.tables t') : Effect encoding s action t' := by
  obtain ⟨q', rfl, hmoved⟩ := h
  exact .distillations (hmints ▸ hmoved)

theorem map_unit (result : Except MemoryError Unit) : result.map (fun _ => ()) = result := by
  cases result <;> rfl

/-- A call that leaves the tables, whatever its result. -/
theorem outcome_same {α : Type} (result : Except MemoryError α) :
    Outcome encoding s action (result.map fun _ => ()) s.tables := by
  cases result with
  | error error => exact .inl ⟨⟨error, rfl⟩, rfl⟩
  | ok _ => exact .inr ⟨rfl, .none⟩

/-- A call fails and leaves the tables, or succeeds with its effect. -/
theorem perform_outcome (hcompactions : s.tables.compactions.Valid)
    (hdistillations : s.tables.distillations.Valid) (hissued : Issued s)
    (hnodup : action.mints.Nodup) (hnew : ∀ id ∈ action.mints, id ∉ s.issued)
    (h : perform encoding s action = some (result, s')) :
    Outcome encoding s action result s'.tables := by
  cases action with
  | startSession id workspace now =>
    cases h
    exact .inr ⟨rfl, .started⟩
  | claimSession session workspace token now =>
    simp only [perform] at h
    split at h
    · rename_i lease t' hcall
      cases h
      obtain ⟨sessions, row, rfl, hrow, hfree, hget, _⟩ := claimSession_ok hcall
      exact .inr ⟨rfl, .claimed hrow hfree hget⟩
    · rename_i error t' hcall
      cases h
      exact .inl ⟨⟨error, rfl⟩, transaction_error hcall⟩
  | renewSession token actual now =>
    simp only [perform, Option.map_eq_some_iff] at h
    obtain ⟨lease, hlease, h⟩ := h
    split at h
    · rename_i renewed t' hcall
      cases h
      obtain ⟨_, _, herror⟩ | ⟨sessions, row, rfl, hrow, htoken, hget, _⟩ := renewSession_cases hcall
      · cases herror
      · exact .inr ⟨rfl, .renewed hlease hrow htoken hget⟩
    · rename_i error t' hcall
      cases h
      obtain ⟨rfl, _⟩ | ⟨_, _, _, _, _, _, hok⟩ := renewSession_cases hcall
      · exact .inl ⟨⟨error, rfl⟩, rfl⟩
      · cases hok
  | replaySession token actual now =>
    simp only [perform, Option.map_eq_some_iff] at h
    obtain ⟨lease, hlease, h⟩ := h
    split at h
    · rename_i hcall
      cases h
      obtain rfl := replaySession_tables hcall
      exact .inr ⟨rfl, .none⟩
    · rename_i error t' hcall
      cases h
      obtain rfl := replaySession_tables hcall
      exact .inl ⟨⟨error, rfl⟩, rfl⟩
  | appendTurn token actual events turnId now =>
    simp only [perform, Option.map_eq_some_iff] at h
    obtain ⟨lease, hlease, h⟩ := h
    cases h
    have hfree : ∀ id ∈ events.map Prod.fst, s.tables.events.get id = none := fun id hid =>
      get_eq_none_of_not_issued hissued.events (hnew id (List.mem_cons_of_mem _ hid))
    obtain ⟨⟨error, herror⟩, htables, _⟩ | ⟨row, deadline, happended⟩ :=
      appendTurn_cases (List.nodup_cons.1 hnodup).2 hfree (rfl :
        appendTurn encoding s.tables lease actual events turnId now = _)
    · exact .inl ⟨⟨error, by rw [herror]; rfl⟩, htables⟩
    · exact .inr ⟨by rw [happended.result]; rfl, .appended hlease happended⟩
  | releaseSession token =>
    simp only [perform, Option.map_eq_some_iff] at h
    obtain ⟨lease, hlease, h⟩ := h
    split at h
    · rename_i released t' hcall
      cases h
      obtain ⟨rfl, _⟩ | ⟨sessions, row, rfl, hrow, htoken, hget, _⟩ := releaseSession_cases hcall
      · exact .inr ⟨rfl, .none⟩
      · exact .inr ⟨rfl, .released hlease hrow htoken hget⟩
    · rename_i error t' hcall
      cases h
      obtain ⟨rfl, _⟩ | ⟨_, _, _, _, _, _, hok⟩ := releaseSession_cases hcall
      · exact .inl ⟨⟨error, rfl⟩, rfl⟩
      · cases hok
  | queueCompaction session throughSequence id now =>
    obtain ⟨⟨r, t'⟩, hcall⟩ : ∃ p, queueCompaction encoding s.tables session throughSequence id
      now = p := ⟨_, rfl⟩
    simp only [perform, hcall] at h
    cases h
    have hfree := get_eq_none_of_not_issued hissued.compactions
      (hnew id (List.mem_singleton_self id))
    obtain rfl | ⟨⟨job, rfl⟩, source, hcompactable, rfl⟩ :=
      queueCompaction_cases hcompactions hfree hcall
    · exact outcome_same r
    · exact .inr ⟨rfl, .queuedCompaction hcompactable⟩
  | claimCompaction token now =>
    obtain ⟨⟨r, t'⟩, hcall⟩ : ∃ p, claimCompaction s.tables token now = p := ⟨_, rfl⟩
    simp only [perform, hcall] at h
    obtain ⟨⟨error, rfl⟩, rfl⟩ | ⟨q', rfl, hmoved, granted, rfl, _⟩ :=
      claimCompaction_cases hcompactions hcall
    · cases h
      exact .inl ⟨⟨error, rfl⟩, rfl⟩
    · cases granted <;> cases h <;> exact .inr ⟨rfl, .compactions hmoved⟩
  | renewCompaction token now =>
    simp only [perform, Option.map_eq_some_iff] at h
    obtain ⟨lease, hlease, h⟩ := h
    cases h
    rw [← map_unit (renewCompaction s.tables lease now).result]
    exact (renewCompaction_worked s.tables lease now).outcome fun _ h => h.effect rfl
  | recordCompactionFailure token error disposition now =>
    simp only [perform, Option.map_eq_some_iff] at h
    obtain ⟨lease, hlease, h⟩ := h
    cases h
    exact (recordCompactionFailure_worked s.tables lease error disposition now).outcome
      fun _ h => h.effect rfl
  | releaseCompaction token now =>
    simp only [perform, Option.map_eq_some_iff] at h
    obtain ⟨lease, hlease, h⟩ := h
    cases h
    rw [← map_unit (releaseCompaction s.tables lease now).result]
    exact (releaseCompaction_worked s.tables lease now).outcome fun _ h => h.effect rfl
  | completeCompaction token summary eventId now =>
    simp only [perform, Option.map_eq_some_iff] at h
    obtain ⟨lease, hlease, h⟩ := h
    cases h
    have hfree := get_eq_none_of_not_issued hissued.events
      (hnew eventId (List.mem_singleton_self eventId))
    refine (completeCompaction_worked hfree).outcome fun t' h => ?_
    obtain ⟨row, session, hsummarized⟩ := h
    exact .summarized hlease hsummarized
  | recoverStaleCompactions now =>
    obtain ⟨⟨r, t'⟩, hcall⟩ : ∃ p, recoverStaleCompactions s.tables now = p := ⟨_, rfl⟩
    simp only [perform, hcall] at h
    cases h
    obtain ⟨⟨error, rfl⟩, rfl⟩ | ⟨⟨_, rfl⟩, q', rfl, hmoved⟩ := recoverStaleCompactions_cases hcall
    · exact .inl ⟨⟨error, rfl⟩, rfl⟩
    · exact .inr ⟨rfl, .compactions hmoved⟩
  | queueDistillation session id now =>
    obtain ⟨⟨r, t'⟩, hcall⟩ : ∃ p, queueDistillation encoding s.tables session id now = p :=
      ⟨_, rfl⟩
    simp only [perform, hcall] at h
    cases h
    obtain rfl | ⟨⟨job, rfl⟩, source, hsource, rfl⟩ := queueDistillation_cases hcall
    · exact outcome_same r
    · exact .inr ⟨rfl, .queuedDistillation hsource⟩
  | claimDistillation token now =>
    obtain ⟨⟨r, t'⟩, hcall⟩ : ∃ p, claimDistillation s.tables token now = p := ⟨_, rfl⟩
    simp only [perform, hcall] at h
    obtain ⟨⟨error, rfl⟩, rfl⟩ | ⟨q', rfl, hmoved, granted, rfl, _⟩ :=
      claimDistillation_cases hdistillations hcall
    · cases h
      exact .inl ⟨⟨error, rfl⟩, rfl⟩
    · cases granted <;> cases h <;> exact .inr ⟨rfl, .distillations hmoved⟩
  | renewDistillation token now =>
    simp only [perform, Option.map_eq_some_iff] at h
    obtain ⟨lease, hlease, h⟩ := h
    cases h
    rw [← map_unit (renewDistillation s.tables lease now).result]
    exact (renewDistillation_worked s.tables lease now).outcome fun _ h => h.effect rfl
  | recordDistillationFailure token error disposition now =>
    simp only [perform, Option.map_eq_some_iff] at h
    obtain ⟨lease, hlease, h⟩ := h
    cases h
    exact (recordDistillationFailure_worked s.tables lease error disposition now).outcome
      fun _ h => h.effect rfl
  | abandonDistillation token now =>
    simp only [perform, Option.map_eq_some_iff] at h
    obtain ⟨lease, hlease, h⟩ := h
    cases h
    rw [← map_unit (abandonDistillation s.tables lease now).result]
    exact (abandonDistillation_worked s.tables lease now).outcome fun _ h => h.effect rfl
  | completeDistillation token candidates now =>
    simp only [perform, Option.map_eq_some_iff] at h
    obtain ⟨lease, hlease, h⟩ := h
    cases h
    rw [← map_unit (completeDistillation encoding s.tables lease candidates now).result]
    refine (completeDistillation_worked candidates).outcome fun t' h => ?_
    obtain ⟨added, hdistilled⟩ := h
    exact .distilled hlease hdistilled
  | retryFailedJob id now =>
    obtain ⟨⟨r, t'⟩, hcall⟩ : ∃ p, retryFailedJob s.tables id now = p := ⟨_, rfl⟩
    simp only [perform, hcall] at h
    cases h
    obtain ⟨⟨error, rfl⟩, rfl⟩ | ⟨⟨_, rfl⟩, ⟨q', hretried, rfl⟩ | ⟨q', hretried, rfl⟩⟩ :=
      retryFailedJob_cases hcall
    · exact .inl ⟨⟨error, rfl⟩, rfl⟩
    · exact .inr ⟨rfl, .retriedCompaction hretried⟩
    · exact .inr ⟨rfl, .retriedDistillation hretried⟩
  | maintain maxRows now =>
    obtain ⟨⟨r, t'⟩, hcall⟩ : ∃ p, maintain s.tables maxRows now = p := ⟨_, rfl⟩
    simp only [perform, hcall] at h
    cases h
    obtain ⟨⟨error, rfl⟩, rfl⟩ | ⟨⟨_, rfl⟩, sessions, q, q', rfl, hsessions, hq, hq'⟩ :=
      maintain_cases hcall
    · exact .inl ⟨⟨error, rfl⟩, rfl⟩
    · exact .inr ⟨rfl, .maintained hsessions hq hq'⟩

/-! ## Leases -/

/-- The leases before and after a call: at most one is new or has changed, and it is still under its
token and on its Session or job. -/
inductive LeaseEffect (s s' : State) : Prop
  | kept (hs' : s' = s.setTables s'.tables)
  | session {token : Uuid} {lease' : SessionLease}
    (hlease : lease'.token = token ∨ ∃ lease, s.leases token = some lease ∧
      lease'.token = lease.token ∧ lease'.session.id = lease.session.id)
    (hs' : s' = (s.setTables s'.tables).setLease token lease')
  | compaction {token : Uuid} {lease' : JobLease}
    (hlease : (lease'.token = token ∧
        ∃ row, s'.tables.compactions.rows.get lease'.job.id = some row ∧
          row.Describes lease'.job) ∨
      ∃ lease, s.compactionLeases token = some lease ∧ lease.Same lease')
    (hs' : s' = (s.setTables s'.tables).setCompactionLease token lease')
  | distillation {token : Uuid} {lease' : JobLease}
    (hlease : (lease'.token = token ∧
        ∃ row, s'.tables.distillations.rows.get lease'.job.id = some row ∧
          row.Describes lease'.job) ∨
      ∃ lease, s.distillationLeases token = some lease ∧ lease.Same lease')
    (hs' : s' = (s.setTables s'.tables).setDistillationLease token lease')

/-- What a call does to the leases. -/
theorem perform_leases (hcompactions : s.tables.compactions.Valid)
    (hdistillations : s.tables.distillations.Valid) (hissued : Issued s)
    (hnodup : action.mints.Nodup) (hnew : ∀ id ∈ action.mints, id ∉ s.issued)
    (h : perform encoding s action = some (result, s')) : LeaseEffect s s' := by
  cases action with
  | startSession id workspace now =>
    cases h
    exact .kept rfl
  | claimSession session workspace token now =>
    simp only [perform] at h
    split at h
    · rename_i hcall
      cases h
      obtain ⟨_, _, _, _, _, _, htoken, _⟩ := claimSession_ok hcall
      exact .session (.inl htoken) rfl
    · cases h
      exact .kept rfl
  | renewSession token actual now =>
    simp only [perform, Option.map_eq_some_iff] at h
    obtain ⟨lease, hlease, h⟩ := h
    split at h
    · rename_i hcall
      cases h
      obtain ⟨_, _, herror⟩ | ⟨_, _, _, _, _, _, hok⟩ := renewSession_cases hcall
      · cases herror
      · cases hok
        refine .session ?_ rfl
        exact .inr ⟨lease, hlease, rfl, rfl⟩
    · cases h
      exact .kept rfl
  | replaySession token actual now =>
    simp only [perform, Option.map_eq_some_iff] at h
    obtain ⟨lease, hlease, h⟩ := h
    split at h
    · rename_i hcall
      cases h
      have hbody := transaction_ok hcall
      simp only [bind_eq_ok] at hbody
      obtain ⟨_, _, _, _, _, _, hpure⟩ := hbody
      cases hpure
      refine .session ?_ rfl
      exact .inr ⟨lease, hlease, rfl, rfl⟩
    · cases h
      exact .kept rfl
  | appendTurn token actual events turnId now =>
    simp only [perform, Option.map_eq_some_iff] at h
    obtain ⟨lease, hlease, h⟩ := h
    cases h
    have hfree : ∀ id ∈ events.map Prod.fst, s.tables.events.get id = none := fun id hid =>
      get_eq_none_of_not_issued hissued.events (hnew id (List.mem_cons_of_mem _ hid))
    refine .session (.inr ⟨lease, hlease, ?_⟩) rfl
    obtain ⟨_, _, hsame | ⟨_, hsame⟩⟩ | ⟨row, deadline, happended⟩ :=
      appendTurn_cases (List.nodup_cons.1 hnodup).2 hfree (rfl :
        appendTurn encoding s.tables lease actual events turnId now = _)
    · rw [hsame]
      exact ⟨rfl, rfl⟩
    · rw [hsame]
      exact ⟨rfl, rfl⟩
    · rw [happended.leaseAfter]
      exact ⟨rfl, rfl⟩
  | releaseSession token =>
    simp only [perform, Option.map_eq_some_iff] at h
    obtain ⟨lease, hlease, h⟩ := h
    split at h
    · rename_i hcall
      cases h
      obtain ⟨_, hsame⟩ | ⟨_, _, _, _, _, _, hok⟩ := releaseSession_cases hcall
      · obtain hok | ⟨_, herror⟩ := hsame
        · cases hok
          refine .session ?_ rfl
          exact .inr ⟨lease, hlease, rfl, rfl⟩
        · cases herror
      · cases hok
        refine .session ?_ rfl
        exact .inr ⟨lease, hlease, rfl, rfl⟩
    · cases h
      exact .kept rfl
  | queueCompaction session throughSequence id now =>
    cases h
    exact .kept rfl
  | claimCompaction token now =>
    obtain ⟨⟨r, t'⟩, hcall⟩ : ∃ p, claimCompaction s.tables token now = p := ⟨_, rfl⟩
    simp only [perform, hcall] at h
    obtain ⟨⟨error, rfl⟩, rfl⟩ | ⟨q', rfl, hmoved, granted, rfl, hgranted⟩ :=
      claimCompaction_cases hcompactions hcall
    · cases h
      exact .kept rfl
    · cases granted with
      | none =>
        cases h
        exact .kept rfl
      | some lease =>
        cases h
        exact .compaction (.inl (hgranted lease rfl)) rfl
  | renewCompaction token now =>
    simp only [perform, Option.map_eq_some_iff] at h
    obtain ⟨lease, hlease, h⟩ := h
    cases h
    exact .compaction (.inr ⟨lease, hlease, (renewCompaction_worked s.tables lease now).lease⟩) rfl
  | recordCompactionFailure token error disposition now =>
    simp only [perform, Option.map_eq_some_iff] at h
    obtain ⟨lease, hlease, h⟩ := h
    cases h
    exact .compaction (.inr ⟨lease, hlease,
      (recordCompactionFailure_worked s.tables lease error disposition now).lease⟩) rfl
  | releaseCompaction token now =>
    simp only [perform, Option.map_eq_some_iff] at h
    obtain ⟨lease, hlease, h⟩ := h
    cases h
    exact .compaction (.inr ⟨lease, hlease, (releaseCompaction_worked s.tables lease now).lease⟩)
      rfl
  | completeCompaction token summary eventId now =>
    simp only [perform, Option.map_eq_some_iff] at h
    obtain ⟨lease, hlease, h⟩ := h
    cases h
    exact .compaction (.inr ⟨lease, hlease, settle_same _ _⟩) rfl
  | recoverStaleCompactions now =>
    cases h
    exact .kept rfl
  | queueDistillation session id now =>
    cases h
    exact .kept rfl
  | claimDistillation token now =>
    obtain ⟨⟨r, t'⟩, hcall⟩ : ∃ p, claimDistillation s.tables token now = p := ⟨_, rfl⟩
    simp only [perform, hcall] at h
    obtain ⟨⟨error, rfl⟩, rfl⟩ | ⟨q', rfl, hmoved, granted, rfl, hgranted⟩ :=
      claimDistillation_cases hdistillations hcall
    · cases h
      exact .kept rfl
    · cases granted with
      | none =>
        cases h
        exact .kept rfl
      | some lease =>
        cases h
        exact .distillation (.inl (hgranted lease rfl)) rfl
  | renewDistillation token now =>
    simp only [perform, Option.map_eq_some_iff] at h
    obtain ⟨lease, hlease, h⟩ := h
    cases h
    exact .distillation (.inr ⟨lease, hlease, (renewDistillation_worked s.tables lease now).lease⟩)
      rfl
  | recordDistillationFailure token error disposition now =>
    simp only [perform, Option.map_eq_some_iff] at h
    obtain ⟨lease, hlease, h⟩ := h
    cases h
    exact .distillation (.inr ⟨lease, hlease,
      (recordDistillationFailure_worked s.tables lease error disposition now).lease⟩) rfl
  | abandonDistillation token now =>
    simp only [perform, Option.map_eq_some_iff] at h
    obtain ⟨lease, hlease, h⟩ := h
    cases h
    exact .distillation (.inr ⟨lease, hlease,
      (abandonDistillation_worked s.tables lease now).lease⟩) rfl
  | completeDistillation token candidates now =>
    simp only [perform, Option.map_eq_some_iff] at h
    obtain ⟨lease, hlease, h⟩ := h
    cases h
    exact .distillation (.inr ⟨lease, hlease, settle_same _ _⟩) rfl
  | retryFailedJob id now =>
    cases h
    exact .kept rfl
  | maintain maxRows now =>
    cases h
    exact .kept rfl

/-! ## What every call keeps -/

/-- The tables and the leases of a state fit together. -/
structure Consistent (s : State) : Prop where
  issued : Issued s
  compactions : s.tables.compactions.Valid
  distillations : s.tables.distillations.Valid
  sessions : ∀ id row, s.tables.sessions.get id = some row → row.check = true
  leases : ∀ token lease, s.leases token = some lease → lease.token = token
  compactionLeases : ∀ token lease, s.compactionLeases token = some lease → lease.token = token ∧
    ∃ row, s.tables.compactions.rows.get lease.job.id = some row ∧ row.Describes lease.job
  distillationLeases : ∀ token lease, s.distillationLeases token = some lease →
    lease.token = token ∧
      ∃ row, s.tables.distillations.rows.get lease.job.id = some row ∧ row.Describes lease.job

theorem consistent_initial : Consistent State.initial := by
  have hissued : Issued State.initial := by
    constructor <;> simp [State.initial, Queue.empty, claims]
  constructor
  · exact hissued
  · exact Queue.valid_empty
  · exact Queue.valid_empty
  all_goals simp [State.initial]

section effects

variable {t' : Tables}

/-- Both queues stay valid. -/
theorem Effect.valid (hs : Consistent s) (hnew : ∀ id ∈ action.mints, id ∉ s.issued)
    (h : Effect encoding s action t') : t'.compactions.Valid ∧ t'.distillations.Valid := by
  have hc := hs.compactions
  have hd := hs.distillations
  cases h with
  | none | started | claimed | renewed | released => exact ⟨hc, hd⟩
  | appended _ happended =>
    rw [happended.frame]
    exact ⟨hc, hd⟩
  | compactions hmoved =>
    exact ⟨hmoved.valid hc fun token htoken => hs.issued.compactionClaims token (hnew token htoken),
      hd⟩
  | distillations hmoved =>
    exact ⟨hc, hmoved.valid hd fun token htoken =>
      hs.issued.distillationClaims token (hnew token htoken)⟩
  | @queuedCompaction session id throughSequence now source hcompactable =>
    obtain ⟨hpos, hcount⟩ := transcriptProvenance_ok hcompactable.source
    have hfree := get_eq_none_of_not_issued hs.issued.compactions
      (hnew id (List.mem_singleton_self id))
    exact ⟨hc.queue hfree hpos hcount, hd⟩
  | @queuedDistillation session id now source hsource =>
    obtain ⟨hpos, hcount⟩ := transcriptProvenance_ok hsource
    have hfree := get_eq_none_of_not_issued hs.issued.distillations
      (hnew id (List.mem_singleton_self id))
    exact ⟨hc, hd.queue hfree hpos hcount⟩
  | summarized _ hsummarized =>
    refine ⟨hc.complete hsummarized.complete, ?_⟩
    rw [hsummarized.frame]
    exact hd
  | distilled _ hdistilled =>
    refine ⟨?_, hd.complete hdistilled.complete⟩
    rw [hdistilled.frame]
    exact hc
  | retriedCompaction hretried => exact ⟨hc.retryFailed hretried, hd⟩
  | retriedDistillation hretried => exact ⟨hc, hd.retryFailed hretried⟩
  | maintained _ hcompactions hdistillations =>
    exact ⟨hcompactions.valid hc (by simp), hdistillations.valid hd (by simp)⟩

/-- The claims of Sessions stay whole, a token and a deadline or neither; a new Session has a new
identifier. -/
theorem Effect.sessions (hs : Consistent s) (hnew : ∀ id ∈ action.mints, id ∉ s.issued)
    (h : Effect encoding s action t') : ∀ id row, t'.sessions.get id = some row →
      row.check = true ∧ (id ∈ action.mints ∨ id ∈ s.issued) := by
  have hold : ∀ id row, s.tables.sessions.get id = some row →
      row.check = true ∧ (id ∈ action.mints ∨ id ∈ s.issued) := fun id row hrow =>
    ⟨hs.sessions id row hrow, .inr (hs.issued.sessions id row hrow)⟩
  cases h with
  | none | compactions | distillations | queuedCompaction | queuedDistillation
  | retriedCompaction | retriedDistillation => exact hold
  | @started id workspace now =>
    have hfree := get_eq_none_of_not_issued hs.issued.sessions
      (hnew id (List.mem_singleton_self id))
    exact Table.forall_get (fun other => Table.get_insert _ id other _ hfree) hold
      ⟨rfl, .inl (List.mem_singleton_self id)⟩
  | claimed hrow _ hget => exact Table.forall_get hget hold ⟨rfl, (hold _ _ hrow).2⟩
  | renewed _ hrow htoken hget =>
    exact Table.forall_get hget hold ⟨by simp [SessionRow.check, htoken], (hold _ _ hrow).2⟩
  | released _ hrow htoken hget => exact Table.forall_get hget hold ⟨rfl, (hold _ _ hrow).2⟩
  | appended _ happended =>
    exact Table.forall_get happended.sessions hold
      ⟨by simp [SessionRow.check, happended.token], (hold _ _ happended.stored).2⟩
  | summarized _ hsummarized =>
    have hkept := hold _ _ hsummarized.bound
    exact Table.forall_get hsummarized.sessions hold ⟨hkept.1, hkept.2⟩
  | distilled _ hdistilled =>
    rw [hdistilled.frame]
    exact hold
  | maintained hsessions _ _ =>
    intro id row' hrow'
    obtain ⟨row, hrow, rfl | ⟨_, rfl⟩⟩ := hsessions id row' hrow'
    · exact hold id row' hrow
    · exact ⟨rfl, (hold id row hrow).2⟩

/-- A new event and its turn have new identifiers. -/
theorem Effect.events (hs : Consistent s) (h : Effect encoding s action t') :
    ∀ id event, t'.events.get id = some event →
      (id ∈ action.mints ∨ id ∈ s.issued) ∧
        (event.turnId ∈ action.mints ∨ event.turnId ∈ s.issued) := by
  have hold : ∀ id event, s.tables.events.get id = some event →
      (id ∈ action.mints ∨ id ∈ s.issued) ∧
        (event.turnId ∈ action.mints ∨ event.turnId ∈ s.issued) := fun id event hevent =>
    ⟨.inr (hs.issued.events id event hevent), .inr (hs.issued.turns id event hevent)⟩
  cases h with
  | none | started | claimed | renewed | released | compactions | distillations
  | queuedCompaction | queuedDistillation | retriedCompaction | retriedDistillation
  | maintained => exact hold
  | @appended token turnId actual events now deadline lease call row _ happended =>
    intro id event hevent
    rw [Table.get_eq_some, happended.events, List.mem_append] at hevent
    rcases hevent with hevent | hevent
    · exact hold id event (Table.get_eq_some.2 hevent)
    · obtain ⟨⟨⟨id', input⟩, offset⟩, hmem, heq⟩ := List.mem_map.1 hevent
      cases heq
      have hid : id' ∈ events.map Prod.fst :=
        List.mem_map.2 ⟨(id', input), List.fst_mem_of_mem_zipIdx hmem, rfl⟩
      exact ⟨.inl (List.mem_cons_of_mem _ hid), .inl List.mem_cons_self⟩
  | @summarized token eventId summary now lease row session t' _ hsummarized =>
    intro id event hevent
    rw [Table.get_eq_some, hsummarized.events, List.mem_append, List.mem_singleton] at hevent
    rcases hevent with hevent | heq
    · exact hold id event (Table.get_eq_some.2 hevent)
    · cases heq
      exact ⟨.inl List.mem_cons_self, .inl List.mem_cons_self⟩
  | distilled _ hdistilled =>
    rw [hdistilled.frame]
    exact hold

/-- What a call does to the jobs. -/
theorem Effect.grown (hs : Consistent s) (hnew : ∀ id ∈ action.mints, id ∉ s.issued)
    (h : Effect encoding s action t') :
    Queue.Grown action.mints s.tables.compactions t'.compactions ∧
      Queue.Grown action.mints s.tables.distillations t'.distillations := by
  cases h with
  | none | started | claimed | renewed | released => exact ⟨.refl _, .refl _⟩
  | appended _ happended =>
    rw [happended.frame]
    exact ⟨.refl _, .refl _⟩
  | compactions hmoved => exact ⟨.of_moved hmoved (List.Subset.refl _), .refl _⟩
  | distillations hmoved => exact ⟨.refl _, .of_moved hmoved (List.Subset.refl _)⟩
  | @queuedCompaction session id throughSequence now source hcompactable =>
    have hmem := List.mem_singleton_self id
    exact ⟨.queue (get_eq_none_of_not_issued hs.issued.compactions (hnew id hmem)) hmem, .refl _⟩
  | @queuedDistillation session id now source hsource =>
    have hmem := List.mem_singleton_self id
    exact ⟨.refl _,
      .queue (get_eq_none_of_not_issued hs.issued.distillations (hnew id hmem)) hmem⟩
  | summarized _ hsummarized =>
    refine ⟨.complete hsummarized.complete, ?_⟩
    rw [hsummarized.frame]
    exact .refl _
  | distilled _ hdistilled =>
    refine ⟨?_, .complete hdistilled.complete⟩
    rw [hdistilled.frame]
    exact .refl _
  | retriedCompaction hretried => exact ⟨.retryFailed hretried, .refl _⟩
  | retriedDistillation hretried => exact ⟨.refl _, .retryFailed hretried⟩
  | maintained _ hcompactions hdistillations =>
    exact ⟨.of_moved hcompactions (List.nil_subset _), .of_moved hdistillations (List.nil_subset _)⟩

end effects

/-- The job of a lease is described by its row for as long as the row is there. -/
theorem Queue.Grown.describes {ρ : Type} {q q' : Queue ρ} {mints : List Uuid}
    (h : q.Grown mints q') {id : Uuid} {job : Job}
    (hdescribes : ∃ row, q.rows.get id = some row ∧ row.Describes job) :
    ∃ row, q'.rows.get id = some row ∧ row.Describes job := by
  obtain ⟨row, hrow, hjob⟩ := hdescribes
  obtain ⟨row', hrow', hsession, hthrough, hsource⟩ := h.kept id row hrow
  exact ⟨row', hrow', hsession.trans hjob.sessionId, hthrough.trans hjob.throughSequence,
    hsource.trans hjob.source⟩

/-- A lease on the same job is as good. -/
theorem JobLease.Same.describes {ρ : Type} {q : Queue ρ} {lease lease' : JobLease}
    (h : lease.Same lease')
    (hdescribes : ∃ row, q.rows.get lease.job.id = some row ∧ row.Describes lease.job) :
    ∃ row, q.rows.get lease'.job.id = some row ∧ row.Describes lease'.job := by
  obtain ⟨row, hrow, hjob⟩ := hdescribes
  exact ⟨row, h.id ▸ hrow, hjob.sessionId.trans h.sessionId.symm,
    hjob.throughSequence.trans h.throughSequence.symm, hjob.source.trans h.source.symm⟩

/-- What is known of a call: the identifiers that it mints are new, its clock does not go back, and
what it does to the tables and the leases. -/
structure Called (encoding : Encoding) (s : State) (action : Action)
    (result : Except MemoryError Unit) (s' : State) : Prop where
  nodup : action.mints.Nodup
  new : ∀ id ∈ action.mints, id ∉ s.issued
  time : action.time.all (s.clock ≤ ·) = true
  issued : s'.issued = action.mints ++ s.issued
  outcome : Outcome encoding s action result s'.tables
  leases : ∃ s₁, LeaseEffect s s₁ ∧ s' = { s₁ with
    clock := action.time.getD s.clock, issued := action.mints ++ s.issued }

/-- **What a call of the store can do.** -/
theorem call_cases (hs : Consistent s) (h : call encoding s action = some (result, s')) :
    Called encoding s action result s' := by
  unfold call at h
  split at h
  · rename_i hguard
    obtain ⟨hnodup, hnew, htime⟩ := hguard
    obtain ⟨⟨result', s₁⟩, hperform, heq⟩ := Option.map_eq_some_iff.1 h
    cases heq
    have houtcome := perform_outcome hs.compactions hs.distillations hs.issued hnodup hnew hperform
    exact {
      nodup := hnodup
      new := hnew
      time := htime
      issued := rfl
      outcome := houtcome
      leases := ⟨s₁,
        perform_leases hs.compactions hs.distillations hs.issued hnodup hnew hperform, rfl⟩ }
  · cases h

/-- What holds of the lease that a call leaves under a token holds of every lease after. -/
theorem Called.compactionLeases (h : Called encoding s action result s')
    (hold : ∀ token lease, s.compactionLeases token = some lease → lease.token = token ∧
      ∃ row, s'.tables.compactions.rows.get lease.job.id = some row ∧ row.Describes lease.job) :
    ∀ token lease, s'.compactionLeases token = some lease → lease.token = token ∧
      ∃ row, s'.tables.compactions.rows.get lease.job.id = some row ∧ row.Describes lease.job := by
  obtain ⟨s₁, hleases, rfl⟩ := h.leases
  cases hleases with
  | kept hs' | session _ hs' | distillation _ hs' =>
    intro token lease hlease
    rw [hs'] at hlease
    exact hold token lease hlease
  | @compaction token lease' hlease' hs' =>
    intro other lease hlease
    rw [hs'] at hlease
    simp only [State.setCompactionLease] at hlease
    split at hlease
    · rename_i hother
      cases hlease
      obtain ⟨htoken, hrow⟩ | ⟨lease₀, hlease₀, hsame⟩ := hlease'
      · exact ⟨htoken.trans hother.symm, hrow⟩
      · obtain ⟨htoken, hrow⟩ := hold token lease₀ hlease₀
        exact ⟨hsame.token.trans (htoken.trans hother.symm), hsame.describes hrow⟩
    · exact hold other lease hlease

theorem Called.distillationLeases (h : Called encoding s action result s')
    (hold : ∀ token lease, s.distillationLeases token = some lease → lease.token = token ∧
      ∃ row, s'.tables.distillations.rows.get lease.job.id = some row ∧ row.Describes lease.job) :
    ∀ token lease, s'.distillationLeases token = some lease → lease.token = token ∧
      ∃ row, s'.tables.distillations.rows.get lease.job.id = some row ∧
        row.Describes lease.job := by
  obtain ⟨s₁, hleases, rfl⟩ := h.leases
  cases hleases with
  | kept hs' | session _ hs' | compaction _ hs' =>
    intro token lease hlease
    rw [hs'] at hlease
    exact hold token lease hlease
  | @distillation token lease' hlease' hs' =>
    intro other lease hlease
    rw [hs'] at hlease
    simp only [State.setDistillationLease] at hlease
    split at hlease
    · rename_i hother
      cases hlease
      obtain ⟨htoken, hrow⟩ | ⟨lease₀, hlease₀, hsame⟩ := hlease'
      · exact ⟨htoken.trans hother.symm, hrow⟩
      · obtain ⟨htoken, hrow⟩ := hold token lease₀ hlease₀
        exact ⟨hsame.token.trans (htoken.trans hother.symm), hsame.describes hrow⟩
    · exact hold other lease hlease

theorem Called.sessionLeases (h : Called encoding s action result s')
    (hold : ∀ token lease, s.leases token = some lease → lease.token = token) :
    ∀ token lease, s'.leases token = some lease → lease.token = token := by
  obtain ⟨s₁, hleases, rfl⟩ := h.leases
  cases hleases with
  | kept hs' | distillation _ hs' | compaction _ hs' =>
    intro token lease hlease
    rw [hs'] at hlease
    exact hold token lease hlease
  | @session token lease' hlease' hs' =>
    intro other lease hlease
    rw [hs'] at hlease
    simp only [State.setLease] at hlease
    split at hlease
    · rename_i hother
      cases hlease
      obtain htoken | ⟨lease₀, hlease₀, htoken, _⟩ := hlease'
      · exact htoken.trans hother.symm
      · exact htoken.trans ((hold token lease₀ hlease₀).trans hother.symm)
    · exact hold other lease hlease

/-- A call that fails leaves the tables; so what the effects keep, every call keeps. -/
theorem Called.tables (h : Called encoding s action result s') {P : Tables → Prop}
    (hold : P s.tables) (heffect : ∀ t', Effect encoding s action t' → P t') : P s'.tables := by
  obtain ⟨_, htables⟩ | ⟨_, heff⟩ := h.outcome
  · rw [htables]
    exact hold
  · exact heffect _ heff

/-- Every call keeps a state consistent. -/
theorem Consistent.call (hs : Consistent s) (h : call encoding s action = some (result, s')) :
    Consistent s' := by
  have hcalled := call_cases hs h
  have hvalid := hcalled.tables (P := fun t => t.compactions.Valid ∧ t.distillations.Valid)
    ⟨hs.compactions, hs.distillations⟩ fun t' heffect => heffect.valid hs hcalled.new
  have hsessions := hcalled.tables (P := fun t => ∀ id row, t.sessions.get id = some row →
      row.check = true ∧ (id ∈ action.mints ∨ id ∈ s.issued))
    (fun id row hrow => ⟨hs.sessions id row hrow, .inr (hs.issued.sessions id row hrow)⟩)
    fun t' heffect => heffect.sessions hs hcalled.new
  have hevents := hcalled.tables (P := fun t => ∀ id event, t.events.get id = some event →
      (id ∈ action.mints ∨ id ∈ s.issued) ∧
        (event.turnId ∈ action.mints ∨ event.turnId ∈ s.issued))
    (fun id event hevent => ⟨.inr (hs.issued.events id event hevent),
      .inr (hs.issued.turns id event hevent)⟩)
    fun t' heffect => heffect.events hs
  have hgrown := hcalled.tables (P := fun t =>
      Queue.Grown action.mints s.tables.compactions t.compactions ∧
        Queue.Grown action.mints s.tables.distillations t.distillations)
    ⟨.refl _, .refl _⟩ fun t' heffect => heffect.grown hs hcalled.new
  have hmem : ∀ id, id ∈ s'.issued ↔ id ∈ action.mints ∨ id ∈ s.issued := fun id => by
    rw [hcalled.issued, List.mem_append]
  have hclaims : ∀ token, token ∉ s'.issued → token ∉ action.mints ∧ token ∉ s.issued :=
    fun token htoken => not_or.1 fun hor => htoken ((hmem token).2 hor)
  exact {
    issued := {
      sessions := fun id row hrow => (hmem id).2 (hsessions id row hrow).2
      events := fun id event hevent => (hmem id).2 (hevents id event hevent).1
      turns := fun id event hevent => (hmem _).2 (hevents id event hevent).2
      compactions := fun id row hrow => (hmem id).2 <|
        (hgrown.1.keys id row hrow).imp_right fun ⟨row, hrow⟩ => hs.issued.compactions id row hrow
      distillations := fun id row hrow => (hmem id).2 <|
        (hgrown.2.keys id row hrow).imp_right fun ⟨row, hrow⟩ =>
          hs.issued.distillations id row hrow
      compactionClaims := fun token htoken =>
        (hgrown.1.claims token (hclaims token htoken).1).trans
          (hs.issued.compactionClaims token (hclaims token htoken).2)
      distillationClaims := fun token htoken =>
        (hgrown.2.claims token (hclaims token htoken).1).trans
          (hs.issued.distillationClaims token (hclaims token htoken).2) }
    compactions := hvalid.1
    distillations := hvalid.2
    sessions := fun id row hrow => (hsessions id row hrow).1
    leases := hcalled.sessionLeases hs.leases
    compactionLeases := hcalled.compactionLeases fun token lease hlease => by
      obtain ⟨htoken, hrow⟩ := hs.compactionLeases token lease hlease
      exact ⟨htoken, hgrown.1.describes hrow⟩
    distillationLeases := hcalled.distillationLeases fun token lease hlease => by
      obtain ⟨htoken, hrow⟩ := hs.distillationLeases token lease hlease
      exact ⟨htoken, hgrown.2.describes hrow⟩ }

/-- The state after a step is the one that a call leaves. -/
theorem step_eq_some (h : step encoding s action = some s') :
    ∃ result, call encoding s action = some (result, s') := by
  obtain ⟨⟨result, s₁⟩, hcall, rfl⟩ := Option.map_eq_some_iff.1 h
  exact ⟨result, hcall⟩

/-- Every state of every run is consistent. -/
theorem Consistent.of_run {ok : State → Action → Prop} {actions : List Action}
    (h : Machine.Run (step encoding) ok State.initial actions s) : Consistent s :=
  h.invariant (fun _ _ _ hs _ hstep => by
    obtain ⟨_, hcall⟩ := step_eq_some hstep
    exact hs.call hcall) consistent_initial

end Memory

end Emelex

import Emelex.Memory.JobRuns

/-!
# The order of the compactions of a Session

A compaction replaces the events up to its boundary by a summary, which is the next event of the
transcript.  `queue_compaction` makes a job only where the Session has no active one and the boundary
covers every summary there is; `retry_failed_job` looks at neither.

* `CompletedAs` — a completed compaction with its summary event.
* `Compacted` — one active compaction, boundaries at ends of turns, and boundaries that cover the
  summaries made before.
* `Reopens` — a retry that finds the Session as `queue_compaction` asks.

Principal results: `Effect.compacted`, `compacted_of_run`.
-/

set_option autoImplicit false

namespace Emelex

namespace Memory

variable {encoding : Encoding} {s s' : State} {action : Action} {t t' : Tables}

/-- A completed compaction with its summary. -/
structure CompletedAs (t : Tables) (job : Uuid) (row : JobRow Uuid) (summary : Uuid × SessionEvent) :
    Prop where
  stored : t.compactions.rows.get job = some row
  state : row.state = .completed
  finished : row.finished = some summary.1
  event : t.events.get summary.1 = some summary.2

/-- The summary of a job. -/
structure SummaryOf (job : Uuid) (row : JobRow Uuid) (event : SessionEvent) : Prop where
  sessionId : event.sessionId = row.sessionId
  kind : event.kind = .summary
  payload : ∃ text, event.payload = .compaction job row.throughSequence row.source text
  turn : event.turnSize = 1 ∧ event.turnIndex = 0
  after : row.throughSequence < event.sequence

/-- The boundary of a compaction covers the summary of another one of its Session. -/
def Covers (t : Tables) (later earlier : Uuid) : Prop :=
  ∀ row row' summary, t.compactions.rows.get later = some row →
    CompletedAs t earlier row' summary → row'.sessionId = row.sessionId →
    summary.2.sequence ≤ row.throughSequence

/-- What holds of the compactions of every Session.
* At most one of them is active.
* Every boundary is the end of a turn, and the events up to it are the source.
* The summaries are those of the completed compactions.
* The boundary of an active compaction covers every summary, that of a completed one the summaries
  that were made before. -/
structure Compacted (encoding : Encoding) (t : Tables) : Prop where
  single : ∀ job other row row', t.compactions.rows.get job = some row →
    t.compactions.rows.get other = some row' → row.sessionId = row'.sessionId →
    row.active = true → row'.active = true → job = other
  whole : ∀ job row, t.compactions.rows.get job = some row → ∃ e ∈ transcript t row.sessionId,
    e.2.sequence = row.throughSequence ∧ e.2.turnIndex + 1 = e.2.turnSize
  source : ∀ job row, t.compactions.rows.get job = some row →
    transcriptProvenance encoding t row.sessionId row.throughSequence = .ok row.source
  summary : ∀ job row, t.compactions.rows.get job = some row → row.state = .completed →
    ∃ summary, CompletedAs t job row summary ∧ SummaryOf job row summary.2
  job : ∀ id event, t.events.get id = some event → event.kind = .summary →
    ∃ job row, CompletedAs t job row (id, event)
  later : ∀ job row other row' summary, t.compactions.rows.get job = some row →
    row.active = true → CompletedAs t other row' summary → row'.sessionId = row.sessionId →
    summary.2.sequence ≤ row.throughSequence
  order : (completedJobs t.compactions.history).Pairwise (Covers t)

/-! ## Completed jobs -/

theorem mem_completedJobs {job : Uuid} {history : List JobEvent} :
    job ∈ completedJobs history ↔ 0 < completions job history := by
  induction history with
  | nil => simp [completedJobs, completions]
  | cons event history ih =>
    cases event with
    | ended other token ending =>
      cases ending with
      | completed =>
        simp only [completedJobs, completions, List.mem_cons, ih]
        by_cases hother : other = job
        · simp only [hother, true_or, if_true, true_iff]
          omega
        · simp [hother, Ne.symm hother]
      | failed _ | released => simpa only [completedJobs, completions] using ih
    | queued _ | claimed _ _ | retried _ => simpa only [completedJobs, completions] using ih

/-- The jobs that were completed are the rows that say so. -/
theorem Queue.Valid.mem_completedJobs_iff {ρ : Type} {q : Queue ρ} (h : q.Valid) {job : Uuid} :
    job ∈ completedJobs q.history ↔
      ∃ row, q.rows.get job = some row ∧ row.state = .completed := by
  rw [mem_completedJobs]
  cases hrow : q.rows.get job with
  | none => simp [h.absent job hrow]
  | some row =>
    rw [h.completed job row hrow]
    by_cases hstate : row.state = .completed <;> simp [hstate]

/-- The highest summary of a Session is at least every one. -/
theorem CompletedAs.le_prior {job : Uuid} {row : JobRow Uuid} {summary : Uuid × SessionEvent}
    (h : CompletedAs t job row summary) :
    summary.2.sequence ≤ priorSummarySequence t row.sessionId := by
  refine le_foldl_max (.inl (List.mem_filterMap.2 ⟨(job, row), ?_, ?_⟩))
  · exact List.mem_filter.2 ⟨Table.get_eq_some.1 h.stored, by simp [h.state]⟩
  · simp [h.finished, h.event]

/-! ## Transcripts that grow -/

/-- The events after some more were inserted. -/
structure Inserted (t t' : Tables) (added : List (Uuid × SessionEvent)) : Prop where
  entries : t'.events.entries = t.events.entries ++ added
  before : ∀ session, Transcript (transcript t session)
  after : ∀ session, Transcript (transcript t' session)

namespace Inserted

variable {added : List (Uuid × SessionEvent)}

theorem refl (h : ∀ session, Transcript (transcript t session))
    (hsame : t'.events = t.events) : Inserted t t' [] where
  entries := by rw [hsame, List.append_nil]
  before := h
  after session := by
    have htranscript : transcript t' session = transcript t session := by
      unfold transcript
      rw [hsame]
    rw [htranscript]
    exact h session

theorem get (h : Inserted t t' added) {id : Uuid} {event : SessionEvent}
    (hget : t.events.get id = some event) : t'.events.get id = some event := by
  rw [Table.get_eq_some] at hget ⊢
  rw [h.entries]
  exact List.mem_append_left _ hget

theorem transcript (h : Inserted t t' added) (session : Uuid) : Memory.transcript t' session =
    Memory.transcript t session ++ added.filter fun e => e.2.sessionId = session := by
  unfold Memory.transcript
  rw [h.entries, List.filter_append]

/-- A boundary stays the end of a turn. -/
theorem whole (h : Inserted t t' added) {session through : Nat}
    (hwhole : ∃ e ∈ Memory.transcript t session,
      e.2.sequence = through ∧ e.2.turnIndex + 1 = e.2.turnSize) :
    ∃ e ∈ Memory.transcript t' session,
      e.2.sequence = through ∧ e.2.turnIndex + 1 = e.2.turnSize := by
  obtain ⟨e, he, hsequence, hend⟩ := hwhole
  exact ⟨e, by rw [h.transcript]; exact List.mem_append_left _ he, hsequence, hend⟩

/-- The source of a boundary stays what it is. -/
theorem source (h : Inserted t t' added) {session through : Nat}
    (hthrough : ∃ e ∈ Memory.transcript t session, e.2.sequence = through) :
    transcriptProvenance encoding t' session through =
      transcriptProvenance encoding t session through := by
  obtain ⟨e, he, rfl⟩ := hthrough
  have hrows : (sessionEvents t' session fun _ event => event.sequence ≤ e.2.sequence) =
      sessionEvents t session fun _ event => event.sequence ≤ e.2.sequence := by
    have hpairwise := (h.after session).pairwise
    rw [h.transcript, List.pairwise_append] at hpairwise
    have hnone : (added.filter fun e' => e'.2.sessionId = session).filter
        (fun e' => e'.2.sequence ≤ e.2.sequence) = [] :=
      List.filter_eq_nil_iff.2 fun e' he' => by simpa using hpairwise.2.2 e he e' he'
    rw [sessionEvents_eq (h.after session), sessionEvents_eq (h.before session), h.transcript,
      List.filter_append, hnone, List.append_nil]
  unfold transcriptProvenance
  rw [hrows]

end Inserted

/-! ## What a call keeps -/

/-- A completion stays what it is. -/
theorem CompletedAs.kept {job : Uuid} {row : JobRow Uuid} {summary : Uuid × SessionEvent}
    {added : List (Uuid × SessionEvent)} (h : CompletedAs t job row summary)
    (hinserted : Inserted t t' added)
    (hrow : t'.compactions.rows.get job = some row) : CompletedAs t' job row summary :=
  ⟨hrow, h.state, h.finished, hinserted.get h.event⟩

/-- A completion that was there already. -/
theorem Compacted.back {job : Uuid} {row : JobRow Uuid} {summary : Uuid × SessionEvent}
    {added : List (Uuid × SessionEvent)} (h : Compacted encoding t)
    (hinserted : Inserted t t' added) (hcompleted : CompletedAs t' job row summary)
    (hrow : t.compactions.rows.get job = some row) : CompletedAs t job row summary := by
  obtain ⟨summary', hcompleted', -⟩ := h.summary job row hrow hcompleted.state
  have hid : summary'.1 = summary.1 := by
    have := hcompleted'.finished.symm.trans hcompleted.finished
    exact Option.some.inj this
  have hevent : summary'.2 = summary.2 := by
    have hget := hinserted.get hcompleted'.event
    rw [hid, hcompleted.event] at hget
    exact (Option.some.inj hget).symm
  rwa [← Prod.ext hid hevent]

/-- Statements that make, complete and reopen no job, and events that are no summaries. -/
theorem Compacted.quiet {added : List (Uuid × SessionEvent)} (h : Compacted encoding t)
    (hinserted : Inserted t t' added) (hadded : ∀ e ∈ added, e.2.kind ≠ .summary)
    (hquiet : t.compactions.Quiet t'.compactions) : Compacted encoding t' := by
  have hback : ∀ job row summary, CompletedAs t' job row summary →
      CompletedAs t job row summary := by
    intro job row summary hcompleted
    obtain ⟨row₀, hrow₀, -, -, hstate⟩ := hquiet.back job row hcompleted.stored
    have hkept := hquiet.completed job row₀ hrow₀ (hstate hcompleted.state)
    rw [hcompleted.stored] at hkept
    exact h.back hinserted hcompleted (Option.some.inj hkept ▸ hrow₀)
  have hforth : ∀ job row summary, CompletedAs t job row summary →
      CompletedAs t' job row summary := fun job row summary hcompleted =>
    hcompleted.kept hinserted (hquiet.completed job row hcompleted.stored hcompleted.state)
  constructor
  · intro job other row row' hrow hrow' hsession hactive hactive'
    obtain ⟨row₀, hrow₀, hsame, hactive₀, -⟩ := hquiet.back job row hrow
    obtain ⟨row₀', hrow₀', hsame', hactive₀', -⟩ := hquiet.back other row' hrow'
    exact h.single job other row₀ row₀' hrow₀ hrow₀'
      (hsame.sessionId.symm.trans (hsession.trans hsame'.sessionId)) (hactive₀ hactive)
      (hactive₀' hactive')
  · intro job row hrow
    obtain ⟨row₀, hrow₀, hsame, -⟩ := hquiet.back job row hrow
    rw [hsame.sessionId, hsame.throughSequence]
    exact hinserted.whole (h.whole job row₀ hrow₀)
  · intro job row hrow
    obtain ⟨row₀, hrow₀, hsame, -⟩ := hquiet.back job row hrow
    obtain ⟨e, he, hsequence, -⟩ := h.whole job row₀ hrow₀
    rw [hsame.sessionId, hsame.throughSequence, hsame.source,
      hinserted.source ⟨e, he, hsequence⟩]
    exact h.source job row₀ hrow₀
  · intro job row hrow hstate
    obtain ⟨row₀, hrow₀, -, -, hcompleted⟩ := hquiet.back job row hrow
    have hkept := hquiet.completed job row₀ hrow₀ (hcompleted hstate)
    rw [hrow] at hkept
    cases hkept
    obtain ⟨summary, hsummary, hof⟩ := h.summary job row hrow₀ hstate
    exact ⟨summary, hforth _ _ _ hsummary, hof⟩
  · intro id event hevent hkind
    rw [Table.get_eq_some, hinserted.entries, List.mem_append] at hevent
    rcases hevent with hold | hnew
    · obtain ⟨job, row, hcompleted⟩ := h.job id event (Table.get_eq_some.2 hold) hkind
      exact ⟨job, row, hforth _ _ _ hcompleted⟩
    · exact absurd hkind (hadded _ hnew)
  · intro job row other row' summary hrow hactive hcompleted hsession
    obtain ⟨row₀, hrow₀, hsame, hactive₀, -⟩ := hquiet.back job row hrow
    rw [hsame.throughSequence]
    exact h.later job row₀ other row' summary hrow₀ (hactive₀ hactive) (hback _ _ _ hcompleted)
      (hsession.trans hsame.sessionId)
  · rw [hquiet.order]
    refine h.order.imp fun hpair row row' summary hrow hcompleted hsession => ?_
    obtain ⟨row₀, hrow₀, hsame, -⟩ := hquiet.back _ row hrow
    rw [hsame.throughSequence]
    exact hpair row₀ row' summary hrow₀ (hback _ _ _ hcompleted)
      (hsession.trans hsame.sessionId)

/-- A job becomes active where the Session is as `queue_compaction` asks. -/
theorem Compacted.activated {q' : Queue Uuid} {job : Uuid} {new : JobRow Uuid}
    (h : Compacted encoding t) (hvalid : t.compactions.Valid)
    (htranscripts : ∀ session, Transcript (transcript t session))
    (hget : ∀ other, q'.rows.get other = if other = job then some new else
      t.compactions.rows.get other)
    (horder : completedJobs q'.history = completedJobs t.compactions.history)
    (hactive : new.active = true)
    (hnot : ∀ row, t.compactions.rows.get job = some row → row.state ≠ .completed)
    (hidle : ∀ other row, t.compactions.rows.get other = some row → other ≠ job →
      row.sessionId = new.sessionId → row.active = false)
    (hwhole : ∃ e ∈ transcript t new.sessionId,
      e.2.sequence = new.throughSequence ∧ e.2.turnIndex + 1 = e.2.turnSize)
    (hsource : transcriptProvenance encoding t new.sessionId new.throughSequence = .ok new.source)
    (hprior : priorSummarySequence t new.sessionId ≤ new.throughSequence) :
    Compacted encoding { t with compactions := q' } := by
  have hinserted : Inserted t { t with compactions := q' } [] := .refl htranscripts rfl
  have hnew : new.state ≠ .completed := by
    intro hstate
    simp [JobRow.active, hstate] at hactive
  have hother : ∀ other row, q'.rows.get other = some row → row.state = .completed →
      t.compactions.rows.get other = some row := by
    intro other row hrow hstate
    rw [hget] at hrow
    split at hrow
    · cases hrow
      exact absurd hstate hnew
    · exact hrow
  have hback : ∀ other row summary, CompletedAs { t with compactions := q' } other row summary →
      CompletedAs t other row summary := fun other row summary hcompleted =>
    h.back hinserted hcompleted (hother other row hcompleted.stored hcompleted.state)
  have hforth : ∀ other row summary, CompletedAs t other row summary →
      CompletedAs { t with compactions := q' } other row summary := by
    intro other row summary hcompleted
    refine hcompleted.kept hinserted ((hget other).trans ?_)
    rw [if_neg]
    · exact hcompleted.stored
    · rintro rfl
      exact hnot row hcompleted.stored hcompleted.state
  constructor
  · intro first second row row' hrow hrow' hsession ha ha'
    rw [hget] at hrow hrow'
    split at hrow
    · rename_i hfirst
      cases hrow
      split at hrow'
      · rename_i hsecond
        exact hfirst.trans hsecond.symm
      · rename_i hsecond
        rw [hidle second row' hrow' hsecond hsession.symm] at ha'
        cases ha'
    · rename_i hfirst
      split at hrow'
      · cases hrow'
        rw [hidle first row hrow hfirst hsession] at ha
        cases ha
      · exact h.single first second row row' hrow hrow' hsession ha ha'
  · exact Table.forall_get hget h.whole hwhole
  · exact Table.forall_get hget h.source hsource
  · intro other row hrow hstate
    obtain ⟨summary, hcompleted, hof⟩ := h.summary other row (hother other row hrow hstate) hstate
    exact ⟨summary, hforth _ _ _ hcompleted, hof⟩
  · intro id event hevent hkind
    obtain ⟨other, row, hcompleted⟩ := h.job id event hevent hkind
    exact ⟨other, row, hforth _ _ _ hcompleted⟩
  · intro first row other row' summary hrow ha hcompleted hsession
    have hcompleted := hback _ _ _ hcompleted
    rw [hget] at hrow
    split at hrow
    · cases hrow
      exact (hcompleted.le_prior.trans_eq (by rw [hsession])).trans hprior
    · exact h.later first row other row' summary hrow ha hcompleted hsession
  · show (completedJobs q'.history).Pairwise _
    rw [horder]
    refine h.order.imp_of_mem fun hmem _ hpair row row' summary hrow hcompleted hsession => ?_
    obtain ⟨row₀, hrow₀, hstate₀⟩ := hvalid.mem_completedJobs_iff.1 hmem
    have hsame : row₀ = row := by
      rw [hget, if_neg (by
        rintro rfl
        exact hnot row₀ hrow₀ hstate₀), hrow₀] at hrow
      exact Option.some.inj hrow
    exact hpair row row' summary (hsame ▸ hrow₀) (hback _ _ _ hcompleted) hsession

/-- A completed job is the only one of its Session that was active, and its boundary covers every
summary before its own. -/
theorem Compacted.summarized {lease : JobLease} {text : String} {eventId : Uuid} {now : Time}
    {row : JobRow Uuid} {session : SessionRow} (h : Compacted encoding t)
    (hvalid : t.compactions.Valid)
    (hinserted : Inserted t t'
      [(eventId, summaryRow t row.sessionId eventId lease.job text now)])
    (hdescribes : row.Describes lease.job)
    (hsummarized : Summarized encoding t lease text eventId now row session t') :
    Compacted encoding t' := by
  obtain ⟨hhistory, row₁, hrow₁, -, hget⟩ := complete_cases hsummarized.complete
  obtain rfl : row₁ = row := Option.some.inj (hrow₁.symm.trans hsummarized.stored)
  have hstate : row₁.state = .running := by
    have hheld := hsummarized.held
    simp only [JobRow.held, Bool.and_eq_true, decide_eq_true_eq] at hheld
    exact hheld.1
  have hactive : row₁.active = true := by simp [JobRow.active, hstate]
  have hevent : t'.events.get eventId =
      some (summaryRow t row₁.sessionId eventId lease.job text now) := by
    rw [Table.get_eq_some, hsummarized.events]
    exact List.mem_append_right _ (List.mem_singleton_self _)
  -- a completed job of the new tables is an old one, or the one that is completed now
  have hback : ∀ job row summary, CompletedAs t' job row summary →
      CompletedAs t job row summary ∨ job = lease.job.id ∧
        row.sessionId = row₁.sessionId ∧ row.throughSequence = row₁.throughSequence ∧
        summary = (eventId, summaryRow t row₁.sessionId eventId lease.job text now) := by
    intro job row summary hcompleted
    have hstored := hcompleted.stored
    rw [hget] at hstored
    split at hstored
    · rename_i hjob
      cases hstored
      have hid : eventId = summary.1 := Option.some.inj hcompleted.finished
      have hsame := hcompleted.event
      rw [← hid, hevent] at hsame
      exact .inr ⟨hjob, rfl, rfl, Prod.ext hid.symm (Option.some.inj hsame).symm⟩
    · exact .inl (h.back hinserted hcompleted hstored)
  have hforth : ∀ job row summary, CompletedAs t job row summary →
      CompletedAs t' job row summary := by
    intro job row summary hcompleted
    refine hcompleted.kept hinserted ((hget job).trans ?_)
    rw [if_neg]
    · exact hcompleted.stored
    · rintro rfl
      have hrow := hsummarized.stored.symm.trans hcompleted.stored
      cases hrow
      rw [hcompleted.state] at hstate
      cases hstate
  have hrows : ∀ job row, t'.compactions.rows.get job = some row →
      ∃ row₀, t.compactions.rows.get job = some row₀ ∧ row.sessionId = row₀.sessionId ∧
        row.throughSequence = row₀.throughSequence ∧ row.source = row₀.source ∧
        (row.active = true → job ≠ lease.job.id ∧ row = row₀) := by
    intro job row hrow
    rw [hget] at hrow
    split at hrow
    · rename_i hjob
      cases hrow
      exact ⟨row₁, hjob ▸ hsummarized.stored, rfl, rfl, rfl, fun ha => by
        simp [JobRow.active] at ha⟩
    · rename_i hjob
      exact ⟨row, hrow, rfl, rfl, rfl, fun _ => ⟨hjob, rfl⟩⟩
  have hof : SummaryOf lease.job.id row₁ (summaryRow t row₁.sessionId eventId lease.job text now) := by
    refine ⟨rfl, rfl, ⟨text, ?_⟩, ⟨rfl, rfl⟩, ?_⟩
    · rw [hdescribes.throughSequence, hdescribes.source]
      rfl
    · obtain ⟨e, he, hsequence, -⟩ := h.whole _ _ hsummarized.stored
      rw [← hsequence]
      exact Nat.lt_succ_of_le (le_foldl_max (.inl (List.mem_map_of_mem he)))
  constructor
  · intro job other row row' hrow hrow' hsession ha ha'
    obtain ⟨row₀, hrow₀, -, -, -, hsame⟩ := hrows job row hrow
    obtain ⟨row₀', hrow₀', -, -, -, hsame'⟩ := hrows other row' hrow'
    obtain ⟨-, rfl⟩ := hsame ha
    obtain ⟨-, rfl⟩ := hsame' ha'
    exact h.single job other row row' hrow₀ hrow₀' hsession ha ha'
  · intro job row hrow
    obtain ⟨row₀, hrow₀, hsession, hthrough, -⟩ := hrows job row hrow
    rw [hsession, hthrough]
    exact hinserted.whole (h.whole job row₀ hrow₀)
  · intro job row hrow
    obtain ⟨row₀, hrow₀, hsession, hthrough, hsource, -⟩ := hrows job row hrow
    obtain ⟨e, he, hsequence, -⟩ := h.whole job row₀ hrow₀
    rw [hsession, hthrough, hsource, hinserted.source ⟨e, he, hsequence⟩]
    exact h.source job row₀ hrow₀
  · intro job row hrow hcompleted
    rw [hget] at hrow
    split at hrow
    · rename_i hjob
      subst hjob
      cases hrow
      exact ⟨(eventId, _), ⟨(hget _).trans (if_pos rfl), rfl, rfl, hevent⟩,
        ⟨hof.sessionId, hof.kind, hof.payload, hof.turn, hof.after⟩⟩
    · obtain ⟨summary, hsummary, hsummaryOf⟩ := h.summary job row hrow hcompleted
      exact ⟨summary, hforth _ _ _ hsummary, hsummaryOf⟩
  · intro id event hstored hkind
    rw [Table.get_eq_some, hsummarized.events, List.mem_append, List.mem_singleton] at hstored
    rcases hstored with hold | hnew
    · obtain ⟨job, row, hcompleted⟩ := h.job id event (Table.get_eq_some.2 hold) hkind
      exact ⟨job, row, hforth _ _ _ hcompleted⟩
    · cases hnew
      exact ⟨lease.job.id, _, (hget _).trans (if_pos rfl), rfl, rfl, hevent⟩
  · intro job row other row' summary hrow ha hcompleted hsession
    obtain ⟨row₀, hrow₀, -, -, -, hsame⟩ := hrows job row hrow
    obtain ⟨hjob, rfl⟩ := hsame ha
    rcases hback _ _ _ hcompleted with hold | ⟨-, hsession', -⟩
    · exact h.later job row other row' summary hrow₀ ha hold hsession
    · -- another active job of the Session
      exact absurd (h.single job lease.job.id row row₁ hrow₀ hsummarized.stored
        (hsession.symm.trans hsession') ha hactive) hjob
  · rw [hhistory]
    have hdone : ∀ job ∈ completedJobs t.compactions.history, job ≠ lease.job.id := by
      rintro job hmem rfl
      obtain ⟨row, hrow, hcompleted⟩ := hvalid.mem_completedJobs_iff.1 hmem
      have := hsummarized.stored.symm.trans hrow
      cases this
      rw [hcompleted] at hstate
      cases hstate
    refine List.Pairwise.cons (fun job hmem row row' summary hrow hcompleted hsession => ?_)
      (h.order.imp_of_mem fun hlater hearlier hpair row row' summary hrow hcompleted hsession => ?_)
    · obtain ⟨row₀, hrow₀, hsession₀, hthrough, -⟩ := hrows _ row hrow
      rcases hback _ _ _ hcompleted with hold | ⟨hjob, -⟩
      · cases hsummarized.stored.symm.trans hrow₀
        rw [hthrough]
        exact h.later _ _ job row' summary hrow₀ hactive hold (hsession.trans hsession₀)
      · exact absurd hjob (hdone job hmem)
    · obtain ⟨row₀, hrow₀, hsession₀, hthrough, -⟩ := hrows _ row hrow
      rcases hback _ _ _ hcompleted with hold | ⟨hjob, -⟩
      · rw [hthrough]
        exact hpair row₀ row' summary hrow₀ hold (hsession.trans hsession₀)
      · exact absurd hjob (hdone _ hearlier)

/-- The retry of a compaction finds no other active one of its Session and no summary after its
boundary. -/
def Reopens (s : State) : Action → Prop
  | .retryFailedJob id _ => ∀ row, s.tables.compactions.rows.get id = some row →
      row.state = .failed →
      (∀ other row', s.tables.compactions.rows.get other = some row' →
        row'.sessionId = row.sessionId → row'.active = false) ∧
      priorSummarySequence s.tables row.sessionId ≤ row.throughSequence
  | _ => True

theorem Effect.compacted (hs : Consistent s) (hts : Transcribed s)
    (htranscribed : ∀ session, Transcript (transcript t' session))
    (hnew : ∀ id ∈ action.mints, id ∉ s.issued) (hreopens : Reopens s action)
    (h : Effect encoding s action t') (hc : Compacted encoding s.tables) :
    Compacted encoding t' := by
  have hsame : t'.events = s.tables.events → Inserted s.tables t' [] := .refl hts
  cases h with
  | none | started | claimed | renewed | released | queuedDistillation | distillations
  | retriedDistillation => exact hc.quiet (hsame rfl) (by simp) (.refl _)
  | compactions hmoved => exact hc.quiet (hsame rfl) (by simp) hmoved.quiet
  | maintained _ hcompactions _ => exact hc.quiet (hsame rfl) (by simp) hcompactions.quiet
  | distilled _ hdistilled =>
    have hframe := hdistilled.frame
    refine hc.quiet (hsame (by rw [hframe])) (by simp) ?_
    rw [hframe]
    exact .refl _
  | appended _ happended =>
    have hframe := happended.frame
    refine hc.quiet ⟨happended.events, hts, htranscribed⟩ (fun e he => ?_) ?_
    · obtain ⟨_, input, hinput, hkind⟩ := turnRows_sessionId he
      rw [hkind]
      exact happended.notSummary input hinput
    · rw [hframe]
      exact .refl _
  | @queuedCompaction session id throughSequence now source hcompactable =>
    have hfree := get_eq_none_of_not_issued hs.issued.compactions
      (hnew id (List.mem_singleton_self id))
    obtain ⟨e, he, hsession, hsequence, -, hend⟩ := hcompactable.boundary
    refine hc.activated hs.compactions hts (fun other => Table.get_insert _ _ _ _ hfree) rfl rfl
      ?_ ?_ ⟨e, List.mem_filter.2 ⟨he, decide_eq_true hsession⟩, hsequence, hend⟩
      hcompactable.source hcompactable.prior
    · intro row hrow
      rw [hfree] at hrow
      cases hrow
    · exact fun other row hrow _ hsession => hcompactable.idle other row hrow hsession
  | @retriedCompaction id now q' hretried =>
    obtain ⟨row, hrow, hfailed, hget⟩ := execute_row hretried
    have hstate : row.state = .failed := by simpa using hfailed
    obtain ⟨hidle, hprior⟩ := hreopens row hrow hstate
    have horder : completedJobs q'.history = completedJobs s.tables.compactions.history := by
      obtain ⟨hn, -⟩ | ⟨-, hhistory, -⟩ := Queue.execute_cases hretried
      · cases hn
      · rw [hhistory]
        exact completedJobs_append (by simp)
    refine hc.activated hs.compactions hts hget horder rfl ?_ ?_ (hc.whole id row hrow)
      (hc.source id row hrow) hprior
    · intro row' hrow'
      cases hrow.symm.trans hrow'
      simp [hstate]
    · exact fun other row' hrow' _ hsession => hidle other row' hrow' hsession
  | @summarized token eventId summary now lease row session t' hlease hsummarized =>
    obtain ⟨row', hrow', hdescribes⟩ := (hs.compactionLeases token lease hlease).2
    cases hsummarized.stored.symm.trans hrow'
    exact hc.summarized hs.compactions ⟨hsummarized.events, hts, htranscribed⟩ hdescribes
      hsummarized

/-- What holds in every state of a run. -/
structure Compacting (encoding : Encoding) (s : State) : Prop where
  consistent : Consistent s
  transcribed : Transcribed s
  compacted : Compacted encoding s.tables

theorem compacting_initial : Compacting encoding State.initial := by
  refine ⟨consistent_initial, fun _ => .nil, ?_⟩
  constructor <;> simp [State.initial, Queue.empty, completedJobs]

theorem Compacting.call {result : Except MemoryError Unit} (hs : Compacting encoding s)
    (hreopens : Reopens s action) (h : call encoding s action = some (result, s')) :
    Compacting encoding s' := by
  have hcalled := call_cases hs.consistent h
  have htranscribed := hs.transcribed.call hs.consistent h
  refine ⟨hs.consistent.call h, htranscribed, ?_⟩
  rcases hcalled.outcome with ⟨-, hsame⟩ | ⟨-, heffect⟩
  · rw [hsame]
    exact hs.compacted
  · exact heffect.compacted hs.consistent hs.transcribed htranscribed hcalled.new hreopens
      hs.compacted

/-- What holds of the compactions in every run whose retries find their Session so. -/
theorem compacting_of_run {actions : List Action}
    (h : Machine.Run (step encoding) Reopens State.initial actions s) : Compacting encoding s :=
  h.invariant (fun _ _ _ hs hreopens hstep => by
    obtain ⟨_, hcall⟩ := step_eq_some hstep
    exact hs.call hreopens hcall) compacting_initial

end Memory

end Emelex

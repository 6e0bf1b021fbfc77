import Emelex.Memory.TurnWeights

/-!
# What the queue of compactions accepts

* `Boundary` — a number at which a turn of a Session ends.

Principal results: `transcriptProvenance_boundary` (the events up to the end of a turn have a
provenance), `queueCompaction_accepts`, `queueCompaction_rejects`.
-/

set_option autoImplicit false

namespace Emelex

namespace Memory

variable {encoding : Encoding} {s : State} {t : Tables} {session through : Nat}

/-! ## Provenance of whole turns -/

/-- The state after some events of a turn. -/
def ProvenanceTurn.after (turnId : Uuid) (size seen : Nat) : ProvenanceTurn :=
  if seen = 0 ∨ seen = size then { id := none, size := 0, nextIndex := 0 }
  else { id := some turnId, size, nextIndex := seen }

theorem ProvenanceTurn.after_zero (turnId : Uuid) (size : Nat) :
    ProvenanceTurn.after turnId size 0 = { id := none, size := 0, nextIndex := 0 } :=
  if_pos (.inl rfl)

theorem ProvenanceTurn.after_all (turnId : Uuid) (size : Nat) :
    ProvenanceTurn.after turnId size size = { id := none, size := 0, nextIndex := 0 } :=
  if_pos (.inr rfl)

/-- The next event of a turn is valid. -/
theorem ProvenanceTurn.validate_next {turnId : Uuid} {size seen : Nat} {event : SessionEvent}
    (hlt : seen < size) (hid : event.turnId = turnId) (hsize : event.turnSize = size)
    (hindex : event.turnIndex = seen) :
    (ProvenanceTurn.after turnId size seen).validate session event =
      .ok (.after turnId size (seen + 1)) := by
  subst hid hsize hindex
  have hpos : 0 < event.turnSize := by omega
  simp only [ProvenanceTurn.validate, bind_eq_ok, ensure_eq_ok]
  by_cases hfirst : event.turnIndex = 0
  · refine ⟨(), fun _ => by rw [hfirst, after_zero], (), ?_⟩
    simp only [hfirst, if_true]
    refine ⟨⟨hpos, trivial, trivial, trivial⟩, ?_⟩
    by_cases hlast : 0 + 1 = event.turnSize
    · rw [if_pos hlast, ← hlast, after_all]
      rfl
    · rw [if_neg hlast, after, if_neg (by omega)]
      rfl
  · have hafter : after event.turnId event.turnSize event.turnIndex =
        { id := some event.turnId, size := event.turnSize, nextIndex := event.turnIndex } :=
      if_neg (by omega)
    refine ⟨(), fun h => absurd h hfirst, (), ?_⟩
    simp only [hfirst, if_false, hafter]
    refine ⟨⟨hpos, trivial, trivial, trivial⟩, ?_⟩
    by_cases hlast : event.turnIndex + 1 = event.turnSize
    · rw [if_pos hlast, hlast, after_all]
      rfl
    · rw [if_neg hlast, after, if_neg (by omega)]
      rfl

/-- More events of a turn. -/
theorem provenanceTurns_part (session : Uuid) {turnId : Uuid} {turn : List Event}
    (hturn : IsTurn turnId turn) (rest : List Event) {rows before : List Event}
    (hsplit : turn = before ++ rows) {expected : Nat}
    (hsequences : rows.map (·.2.sequence) = List.range' expected rows.length) :
    provenanceTurns session expected (.after turnId turn.length before.length) (rows ++ rest) =
      provenanceTurns session (expected + rows.length) (.after turnId turn.length turn.length)
        rest := by
  induction rows generalizing before expected with
  | nil =>
    rw [List.append_nil] at hsplit
    rw [← hsplit]
    rfl
  | cons row rows ih =>
    have hget : turn[before.length]? = some row := by
      rw [hsplit, List.getElem?_append_right (Nat.le_refl _), Nat.sub_self]
      rfl
    obtain ⟨hid, hsize, hindex⟩ := hturn.get hget
    have hlt : before.length < turn.length := (List.getElem?_eq_some_iff.1 hget).1
    rw [List.map_cons, List.length_cons, List.range'_succ, List.cons.injEq] at hsequences
    obtain ⟨hsequence, hsequences⟩ := hsequences
    have hsplit' : turn = (before ++ [row]) ++ rows := by
      rw [hsplit, List.append_assoc, List.singleton_append]
    have hrest := ih hsplit' hsequences
    rw [List.length_append, List.length_singleton] at hrest
    rw [List.cons_append, provenanceTurns, ensure, if_pos hsequence]
    show (ProvenanceTurn.validate _ _ _ >>= fun _ => _) = _
    rw [ProvenanceTurn.validate_next hlt hid hsize hindex]
    refine hrest.trans ?_
    rw [List.length_cons, Nat.add_assoc, Nat.add_comm 1]

/-- Whole turns. -/
theorem provenanceTurns_whole {turns : List Turn} (hwhole : ∀ turn ∈ turns, IsTurn turn.1 turn.2)
    {expected : Nat} (hsequences : (eventsOf turns).map (·.2.sequence) =
      List.range' expected (eventsOf turns).length) :
    provenanceTurns session expected { id := none, size := 0, nextIndex := 0 } (eventsOf turns) =
      .ok (expected + (eventsOf turns).length, { id := none, size := 0, nextIndex := 0 }) := by
  induction turns generalizing expected with
  | nil => rfl
  | cons turn turns ih =>
    rw [eventsOf_cons, List.map_append, List.length_append, ← List.range'_append_1] at hsequences
    obtain ⟨hturnSequences, hrest⟩ := List.append_inj hsequences (by simp)
    have hpart := provenanceTurns_part session (hwhole turn List.mem_cons_self)
      (eventsOf turns) (List.nil_append _).symm hturnSequences
    rw [ProvenanceTurn.after_all, List.length_nil, ProvenanceTurn.after_zero] at hpart
    rw [eventsOf_cons, hpart, ih (fun other hother => hwhole other (List.mem_cons_of_mem _ hother))
      hrest, List.length_append, Nat.add_assoc]

/-! ## Boundaries -/

/-- A number at which a turn of a Session ends: so many events are whole turns. -/
structure Boundary (t : Tables) (session through : Nat) (turns rest : List Turn) : Prop where
  events : AreTurns (turns ++ rest) (transcript t session)
  length : through = (eventsOf turns).length
  nonempty : turns ≠ []

/-- The events up to a number are so many. -/
theorem Transcript.filter_le {events : List Event} (h : Transcript events) (through : Nat) :
    (events.filter fun e => e.2.sequence ≤ through) = events.take through := by
  have hbefore : (events.take through).filter (fun e => e.2.sequence ≤ through) =
      events.take through := by
    refine List.filter_eq_self.2 fun e he => ?_
    obtain ⟨i, hi⟩ := List.mem_iff_getElem?.1 he
    rw [List.getElem?_take] at hi
    split at hi
    · have := h.sequence_of_get hi
      exact decide_eq_true (by omega)
    · cases hi
  have hafter : (events.drop through).filter (fun e => e.2.sequence ≤ through) = [] := by
    refine List.filter_eq_nil_iff.2 fun e he => ?_
    obtain ⟨i, hi⟩ := List.mem_iff_getElem?.1 he
    rw [List.getElem?_drop] at hi
    have := h.sequence_of_get hi
    simp only [decide_eq_true_eq]
    omega
  calc
    events.filter (fun e => e.2.sequence ≤ through) =
        (events.take through ++ events.drop through).filter fun e => e.2.sequence ≤ through := by
      rw [List.take_append_drop]
    _ = events.take through := by rw [List.filter_append, hbefore, hafter, List.append_nil]

/-- Turns have an event. -/
theorem eventsOf_ne_nil {turns : List Turn} (hwhole : ∀ turn ∈ turns, IsTurn turn.1 turn.2)
    (h : turns ≠ []) : eventsOf turns ≠ [] := by
  obtain ⟨turn, turns, rfl⟩ := List.exists_cons_of_ne_nil h
  intro hnil
  rw [eventsOf_cons] at hnil
  exact (hwhole turn List.mem_cons_self).nonempty (List.append_eq_nil_iff.1 hnil).1

namespace Boundary

variable {turns rest : List Turn} (h : Boundary t session through turns rest)

include h

theorem whole : ∀ turn ∈ turns, IsTurn turn.1 turn.2 := fun turn hturn =>
  h.events.whole turn (List.mem_append_left _ hturn)

theorem transcript_eq : transcript t session = eventsOf turns ++ eventsOf rest := by
  rw [h.events.flatten, eventsOf_append]

theorem positive : 0 < through := by
  rw [h.length]
  exact List.length_pos_iff.2 (eventsOf_ne_nil h.whole h.nonempty)

/-- The last event up to a boundary ends a turn. -/
theorem last (ht : Transcript (transcript t session)) : ∃ e ∈ transcript t session,
    (transcript t session)[through - 1]? = some e ∧ e.2.sequence = through ∧
      0 < e.2.turnSize ∧ e.2.turnIndex + 1 = e.2.turnSize := by
  have hpos := h.positive
  rcases List.eq_nil_or_concat turns with rfl | ⟨before, turn, rfl⟩
  · exact absurd rfl h.nonempty
  · have hturn := h.whole turn (by simp)
    have hlength : 0 < turn.2.length := List.length_pos_iff.2 hturn.nonempty
    obtain ⟨e, he⟩ : ∃ e, turn.2[turn.2.length - 1]? = some e :=
      ⟨_, List.getElem?_eq_getElem (by omega)⟩
    obtain ⟨-, hsize, hindex⟩ := hturn.get he
    have hthrough : through = (eventsOf before).length + turn.2.length := by
      rw [h.length, List.concat_eq_append, eventsOf_concat, List.length_append]
    have hget : (transcript t session)[through - 1]? = some e := by
      rw [h.transcript_eq, List.concat_eq_append, eventsOf_concat,
        List.getElem?_append_left (by rw [List.length_append]; omega),
        List.getElem?_append_right (by omega), ← he]
      congr 1
      omega
    have hsequence := ht.sequence_of_get hget
    exact ⟨e, List.mem_of_getElem? hget, hget, by omega, by omega, by omega⟩

end Boundary

/-- The events up to the end of a turn have a provenance. -/
theorem transcriptProvenance_boundary (ht : Transcript (transcript t session))
    {turns rest : List Turn} (h : Boundary t session through turns rest) :
    ∃ source, transcriptProvenance encoding t session through = .ok source := by
  have hne := eventsOf_ne_nil h.whole h.nonempty
  have hrows : (sessionEvents t session fun _ event => event.sequence ≤ through) =
      eventsOf turns := by
    rw [sessionEvents_eq ht, ht.filter_le, h.transcript_eq, h.length, List.take_left]
  have hsequences : (eventsOf turns).map (·.2.sequence) =
      List.range' 1 (eventsOf turns).length := by
    have hall := ht.sequences
    rw [h.transcript_eq, List.map_append, List.length_append, ← List.range'_append_1] at hall
    exact (List.append_inj hall (by simp)).1
  unfold transcriptProvenance
  simp only [bind_eq_ok, ensure_eq_ok, required_eq_ok, hrows,
    provenanceTurns_whole h.whole hsequences]
  refine ⟨_, (), h.positive, _, rfl, (), by rw [h.length, Nat.add_comm], (), rfl, _,
    List.head?_eq_some_head hne, _, List.getLast?_eq_some_getLast hne, rfl⟩

/-! ## The transaction -/

/-- The job with a boundary that is found after a new one was inserted. -/
theorem compactionAt_queue {id : Uuid} {source : TranscriptProvenance} {now : Time}
    (hfree : t.compactions.rows.get id = none) : ∃ raw, compactionAt { t with
      compactions := t.compactions.queue id session through source now } session through =
        some raw := by
  refine Option.ne_none_iff_exists'.1 fun hfirst => ?_
  have hrow := t.compactions.rows.get_insert id id {
    sessionId := session, throughSequence := through, source, state := .pending,
    claimToken := none, leaseUntil := none, failureCount := 0, retryAfter := none,
    lastError := none, failedAt := none, finished := none, createdAt := now, updatedAt := now } hfree
  have hfalse := Table.first_eq_none hfirst (hrow.trans (if_pos rfl))
  simp at hfalse

/-- The row that a transaction inserts or finds is one of a valid queue. -/
theorem insertCompaction_row {id : Uuid} {source : TranscriptProvenance}
    (hvalid : t.compactions.Valid) (hfree : t.compactions.rows.get id = none)
    (hsource : transcriptProvenance encoding t session through = .ok source) (now : Time) :
    (insertCompaction t id session through source now).compactions.Valid ∧
      ∃ raw, compactionAt (insertCompaction t id session through source now) session through =
        some raw := by
  unfold insertCompaction
  cases hat : compactionAt t session through with
  | some existing => exact ⟨hvalid, existing, hat⟩
  | none =>
    obtain ⟨hpos, hcount⟩ := transcriptProvenance_ok hsource
    exact ⟨hvalid.queue hfree hpos hcount, compactionAt_queue hfree⟩

/-- At the end of a turn, with no active job and after the last summary, a job is queued. -/
theorem queueCompaction_accepts (hvalid : t.compactions.Valid)
    (ht : Transcript (transcript t session)) {turns rest : List Turn}
    (h : Boundary t session through turns rest) (hrange : through ≤ I64_MAX)
    (hidle : ∀ job row, t.compactions.rows.get job = some row → row.sessionId = session →
      row.active = false)
    (hprior : priorSummarySequence t session ≤ through) {id : Uuid}
    (hfree : t.compactions.rows.get id = none) (now : Time) :
    ∃ job, (queueCompaction encoding t session through id now).1 = .ok job ∧
      job.sessionId = session ∧ job.throughSequence = through := by
  obtain ⟨source, hsource⟩ :
      ∃ source, transcriptProvenance encoding t session through = .ok source :=
    transcriptProvenance_boundary ht h
  have hinserted := insertCompaction_row hvalid hfree hsource now
  obtain ⟨hvalid', ⟨job, row⟩, hraw⟩ := hinserted
  obtain ⟨e, he, hget, hsequence, hsize, hend⟩ := h.last ht
  have hactive : t.compactions.rows.first (fun _ row => row.sessionId = session &&
      (row.state = .pending || row.state = .running)) oldestFirst = none := by
    refine Option.eq_none_iff_forall_ne_some.2 fun ⟨other, row⟩ hfirst => ?_
    obtain ⟨hrow, hp⟩ := Table.first_eq_some hfirst
    simp only [Bool.and_eq_true, Bool.or_eq_true, decide_eq_true_eq] at hp
    have hnot := hidle other row hrow hp.1
    rcases hp.2 with hstate | hstate <;> simp [JobRow.active, hstate] at hnot
  obtain ⟨boundary, hboundary⟩ : ∃ boundary,
      (sessionEvents t session fun _ event => event.sequence = through).head? = some boundary := by
    refine Option.ne_none_iff_exists'.1 fun hnone => ?_
    rw [List.head?_eq_none_iff, sessionEvents_eq ht, List.filter_eq_nil_iff] at hnone
    exact hnone e he (decide_eq_true hsequence)
  have hsame : boundary = e := by
    have hmem := List.mem_of_mem_head? hboundary
    rw [sessionEvents_eq ht, List.mem_filter, decide_eq_true_eq] at hmem
    have hplace := (ht.getElem?_of_mem hmem.1).2
    rw [hmem.2, hget] at hplace
    exact (Option.some.inj hplace).symm
  have hwrite : writeCompaction encoding t session through id now =
      .ok ((job, row), insertCompaction t id session through source now) := by
    simp only [writeCompaction, bind_eq_ok, ensure_eq_ok, required_eq_ok, hactive]
    refine ⟨(), h.positive.ne', (), hrange, (), rfl, boundary, hboundary, (), ?_, (), hprior,
      source, hsource, (job, row), hraw, rfl⟩
    rw [hsame]
    exact ⟨hsize.ne', hend⟩
  obtain ⟨hrow, hp⟩ := Table.first_eq_some hraw
  simp only [Bool.and_eq_true, decide_eq_true_eq] at hp
  refine ⟨row.job job, ?_, hp.1, hp.2⟩
  unfold queueCompaction
  rw [hwrite]
  exact (tryFrom_of_valid hvalid' hrow).1

/-- A boundary before the last summary is refused. -/
theorem queueCompaction_refuses (hprior : through < priorSummarySequence t session) (id : Uuid)
    (now : Time) (job : Job) : (queueCompaction encoding t session through id now).1 ≠ .ok job := by
  intro hok
  unfold queueCompaction at hok
  split at hok
  · cases hok
  · rename_i hcall
    have hbody := transaction_ok hcall
    simp only [writeCompaction, bind_eq_ok, ensure_eq_ok, required_eq_ok] at hbody
    obtain ⟨_, _, _, _, _, _, _, _, _, _, _, hle, _⟩ := hbody
    omega

end Memory

end Emelex

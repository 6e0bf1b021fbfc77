import Emelex.Memory.CompactionOrder
import Mathlib.Data.List.Pairwise

/-!
# What a replay returns

* `newestSummary`, `replayContent` — the summary with the highest sequence, and after it every other
  event past its boundary; all events where nothing was compacted.
* `WholeTurns` — events that are whole turns, one after the other.
* `Fits` — the size bounds of a replay.

Principal results: `loadSessionReplay_eq`, `compactions_stay_replayable`,
`retry_of_superseded_compaction`.
-/

set_option autoImplicit false

namespace Emelex

namespace Memory

variable {encoding : Encoding} {s s' : State} {t : Tables} {session : Uuid}

/-! ## Specification -/

/-- The summary of a Session with the highest sequence. -/
def newestSummary (t : Tables) (session : Uuid) : Option (Uuid × SessionEvent) :=
  (sessionEvents t session fun _ event => event.kind = .summary).getLast?

/-- The boundary that a summary covers. -/
def Payload.boundary : Payload → Nat
  | .compaction _ throughSequence _ _ => throughSequence
  | .value _ => 0

/-- The newest summary and all other events after its boundary, or all events. -/
def replayContent (t : Tables) (session : Uuid) : List (Uuid × SessionEvent) :=
  match newestSummary t session with
  | none => sessionEvents t session fun _ _ => true
  | some (id, summary) => (id, summary) :: sessionEvents t session fun other event =>
      summary.payload.boundary < event.sequence && other ≠ id

/-- Events that are whole turns, one after the other. -/
inductive WholeTurns : List (Uuid × SessionEvent) → Prop
  | nil : WholeTurns []
  | cons {turnId : Uuid} {turn rest : List (Uuid × SessionEvent)} (hturn : IsTurn turnId turn)
    (hrest : WholeTurns rest) : WholeTurns (turn ++ rest)

/-- The bounds of a replay. -/
def Fits (encoding : Encoding) (events : List (Uuid × SessionEvent)) : Prop :=
  events.length ≤ MAX_REPLAY_EVENTS ∧
    (events.map fun e => encoding.jsonBytes e.2.payload).sum ≤ MAX_REPLAY_BYTES

instance (encoding : Encoding) (events : List (Uuid × SessionEvent)) :
    Decidable (Fits encoding events) := inferInstanceAs (Decidable (_ ∧ _))

/-! ## Whole turns -/

/-- An event of a turn, by its place. -/
theorem IsTurn.get {turnId : Uuid} {turn : List (Uuid × SessionEvent)} (h : IsTurn turnId turn)
    {i : Nat} {e : Uuid × SessionEvent} (he : turn[i]? = some e) :
    e.2.turnId = turnId ∧ e.2.turnSize = turn.length ∧ e.2.turnIndex = i := by
  have hmap := congrArg (fun l => l[i]?) h.whole
  have hi : i < turn.length := (List.getElem?_eq_some_iff.1 he).1
  simp only [List.getElem?_map, he, Option.map_some, List.getElem?_range hi] at hmap
  simp only [Option.some.injEq, Prod.mk.injEq] at hmap
  exact hmap

theorem Transcript.wholeTurns {events : List (Uuid × SessionEvent)} (h : Transcript events) :
    WholeTurns events := by
  obtain ⟨turns, hflatten, hwhole, -⟩ := h.turns
  subst hflatten
  clear h
  induction turns with
  | nil => exact .nil
  | cons turn turns ih =>
    exact .cons (hwhole turn List.mem_cons_self)
      (ih fun other hother => hwhole other (List.mem_cons_of_mem _ hother))

/-- What follows the end of a turn is whole turns. -/
theorem WholeTurns.drop {events : List (Uuid × SessionEvent)} (h : WholeTurns events) {n : Nat}
    {e : Uuid × SessionEvent} (he : events[n]? = some e)
    (hend : e.2.turnIndex + 1 = e.2.turnSize) : WholeTurns (events.drop (n + 1)) := by
  induction h generalizing n with
  | nil => cases he
  | @cons turnId turn rest hturn hrest ih =>
    by_cases hn : n < turn.length
    · rw [List.getElem?_append_left hn] at he
      obtain ⟨-, hsize, hindex⟩ := hturn.get he
      have hlast : n + 1 = turn.length := by omega
      rw [hlast, List.drop_left]
      exact hrest
    · rw [List.getElem?_append_right (Nat.not_lt.1 hn)] at he
      have hrest' := ih he
      have hsplit : n + 1 = turn.length + (n - turn.length + 1) := by omega
      rwa [hsplit, ← List.drop_drop, List.drop_left]

/-- Without a turn of one event they are still whole turns. -/
theorem WholeTurns.filter {events : List (Uuid × SessionEvent)} (h : WholeTurns events) (id : Uuid)
    (hid : ∀ e ∈ events, e.1 = id → e.2.turnSize = 1) :
    WholeTurns (events.filter fun e => e.1 ≠ id) := by
  induction h with
  | nil => exact .nil
  | @cons turnId turn rest hturn hrest ih =>
    have hrest' := ih fun e he => hid e (List.mem_append_right _ he)
    rw [List.filter_append]
    by_cases hmem : ∃ e ∈ turn, e.1 = id
    · obtain ⟨e, he, heq⟩ := hmem
      obtain ⟨i, hi⟩ := List.mem_iff_getElem?.1 he
      have hsize := (hturn.get hi).2.1
      rw [hid e (List.mem_append_left _ he) heq] at hsize
      obtain ⟨only, rfl⟩ := List.length_eq_one_iff.1 hsize.symm
      obtain rfl := List.mem_singleton.1 he
      simpa [heq] using hrest'
    · have hall : turn.filter (fun e => e.1 ≠ id) = turn :=
        List.filter_eq_self.2 fun e he => decide_eq_true fun heq => hmem ⟨e, he, heq⟩
      rw [hall]
      exact .cons hturn hrest'

/-- `validate_replay_turns` accepts whole turns. -/
theorem WholeTurns.validate {events : List (Uuid × SessionEvent)} (h : WholeTurns events)
    (session rounds : Nat) : validateReplayTurns session rounds events = .ok () := by
  induction h generalizing rounds with
  | nil => cases rounds <;> rfl
  | @cons turnId turn rest hturn _ ih =>
    obtain ⟨first, tail, rfl⟩ := List.exists_cons_of_ne_nil hturn.nonempty
    cases rounds with
    | zero => rfl
    | succ rounds =>
      obtain ⟨hid, hsize, hindex⟩ := hturn.get (i := 0) (e := first) rfl
      have htake : (first :: (tail ++ rest)).take first.2.turnSize = first :: tail := by
        rw [hsize, ← List.cons_append, List.take_left]
      have hdrop : (first :: (tail ++ rest)).drop first.2.turnSize = rest := by
        rw [hsize, ← List.cons_append, List.drop_left]
      rw [List.cons_append]
      simp only [validateReplayTurns, bind_eq_ok, ensure_eq_ok, htake, hdrop]
      refine ⟨(), ⟨hindex, by rw [hsize]; simp⟩, (), hsize.symm, (), fun event hevent => ?_,
        ih rounds⟩
      obtain ⟨e, i⟩ := event
      obtain ⟨hid', hsize', hindex'⟩ := hturn.get (List.mk_mem_zipIdx_iff_getElem?.1 hevent)
      exact ⟨hid'.trans hid.symm, hsize'.trans hsize.symm, hindex'⟩

/-! ## The rows of a replay -/

theorem replayRows_ok (encoding : Encoding) (compaction : Option Uuid) (payloadBytes : Nat)
    (events : List (Uuid × SessionEvent)) {rows : List (Uuid × SessionEvent)}
    (hkinds : ∀ row ∈ rows, compaction.isSome = true → row.2.kind ≠ .summary)
    (hcount : events.length + rows.length ≤ MAX_REPLAY_EVENTS)
    (hbytes : payloadBytes + (rows.map fun e => encoding.jsonBytes e.2.payload).sum ≤
      MAX_REPLAY_BYTES) :
    replayRows encoding compaction payloadBytes events rows = .ok (events ++ rows) := by
  induction rows generalizing payloadBytes events with
  | nil =>
    rw [List.append_nil]
    rfl
  | cons row rows ih =>
    rw [List.length_cons] at hcount
    rw [List.map_cons, List.sum_cons] at hbytes
    simp only [replayRows, boundedReplayEvent, bind_eq_ok, ensure_eq_ok]
    refine ⟨(), ?_, payloadBytes + encoding.jsonBytes row.2.payload,
      ⟨(), by omega, (), by omega, rfl⟩, ?_⟩
    · cases compaction with
      | none => rfl
      | some job => exact ensure_eq_ok.2 (hkinds row List.mem_cons_self rfl)
    · have hrest := ih (payloadBytes + encoding.jsonBytes row.2.payload) (events ++ [row])
        (fun other hother => hkinds other (List.mem_cons_of_mem _ hother))
        (by rw [List.length_append, List.length_singleton]; omega) (by omega)
      rwa [List.append_assoc, List.singleton_append] at hrest

/-- The events of a transcript are numbered from 1. -/
theorem Transcript.sequence_of_get {events : List (Uuid × SessionEvent)} (h : Transcript events)
    {i : Nat} {e : Uuid × SessionEvent} (he : events[i]? = some e) : e.2.sequence = i + 1 := by
  have hlt : i < events.length := (List.getElem?_eq_some_iff.1 he).1
  have hget := congrArg (fun l => l[i]?) h.sequences
  simp only [List.getElem?_map, he, Option.map_some, List.getElem?_range' hlt] at hget
  simp only [Option.some.injEq] at hget
  omega

/-- The event with a number stands at its place. -/
theorem Transcript.getElem?_of_mem {events : List (Uuid × SessionEvent)} (h : Transcript events)
    {e : Uuid × SessionEvent} (he : e ∈ events) :
    0 < e.2.sequence ∧ events[e.2.sequence - 1]? = some e := by
  obtain ⟨i, hi⟩ := List.mem_iff_getElem?.1 he
  rw [h.sequence_of_get hi]
  exact ⟨Nat.succ_pos i, hi⟩

/-- The events after a number are what is left when so many are dropped. -/
theorem Transcript.filter_lt {events : List (Uuid × SessionEvent)} (h : Transcript events)
    (through : Nat) :
    (events.filter fun e => through < e.2.sequence) = events.drop through := by
  have hbefore : (events.take through).filter (fun e => through < e.2.sequence) = [] := by
    refine List.filter_eq_nil_iff.2 fun e he => ?_
    obtain ⟨i, hi⟩ := List.mem_iff_getElem?.1 he
    rw [List.getElem?_take] at hi
    split at hi
    · have := h.sequence_of_get hi
      simp only [decide_eq_true_eq]
      omega
    · cases hi
  have hafter : (events.drop through).filter (fun e => through < e.2.sequence) =
      events.drop through := by
    refine List.filter_eq_self.2 fun e he => ?_
    obtain ⟨i, hi⟩ := List.mem_iff_getElem?.1 he
    rw [List.getElem?_drop] at hi
    have := h.sequence_of_get hi
    exact decide_eq_true (by omega)
  calc
    events.filter (fun e => through < e.2.sequence) =
        (events.take through ++ events.drop through).filter fun e => through < e.2.sequence := by
      rw [List.take_append_drop]
    _ = events.drop through := by rw [List.filter_append, hbefore, hafter, List.nil_append]

/-- What is after a boundary, but for the summary, is whole turns. -/
theorem Transcript.tail_wholeTurns {events : List (Uuid × SessionEvent)} (h : Transcript events)
    {through : Nat} {id : Uuid}
    (hwhole : ∃ e ∈ events, e.2.sequence = through ∧ e.2.turnIndex + 1 = e.2.turnSize)
    (hid : ∀ e ∈ events, e.1 = id → e.2.turnSize = 1) :
    WholeTurns (events.filter fun e => decide (through < e.2.sequence) && decide (e.1 ≠ id)) := by
  obtain ⟨e, he, rfl, hend⟩ := hwhole
  obtain ⟨hpos, hget⟩ := h.getElem?_of_mem he
  have hdrop := h.wholeTurns.drop hget hend
  rw [Nat.sub_add_cancel hpos, ← h.filter_lt] at hdrop
  have hfilter := hdrop.filter id fun e he => hid e (List.mem_filter.1 he).1
  rw [List.filter_filter] at hfilter
  simpa only [Bool.and_comm] using hfilter

/-! ## The newest summary -/

theorem pairwise_either {α : Type} {R : α → α → Prop} {l : List α} (h : l.Pairwise R) {a b : α}
    (ha : a ∈ l) (hb : b ∈ l) (hne : a ≠ b) : R a b ∨ R b a := by
  have hboth : l.Pairwise fun a b => R a b ∨ R b a := h.imp Or.inl
  have : Std.Symm fun a b => R a b ∨ R b a := ⟨fun _ _ => Or.symm⟩
  exact hboth.forall ha hb hne

section newest

variable {job other : Uuid} {row row' : JobRow Uuid} {summary summary' : Uuid × SessionEvent}

/-- The summary of a completed job is after its boundary, and a turn of its own. -/
theorem Compacted.summaryOf (h : Compacted encoding t) (hc : CompletedAs t job row summary) :
    SummaryOf job row summary.2 := by
  obtain ⟨known, hknown, hof⟩ := h.summary job row hc.stored hc.state
  have hid := Option.some.inj (hknown.finished.symm.trans hc.finished)
  have hevent := hknown.event
  rw [hid, hc.event] at hevent
  rwa [← Option.some.inj hevent] at hof

/-- Of two compactions of a Session one covers the summary of the other. -/
theorem Compacting.either (h : Compacting encoding s) (hc : CompletedAs s.tables job row summary)
    (hc' : CompletedAs s.tables other row' summary') (hsession : row'.sessionId = row.sessionId)
    (hne : job ≠ other) : summary'.2.sequence ≤ row.throughSequence ∨
      summary.2.sequence ≤ row'.throughSequence := by
  have hvalid := h.consistent.compactions
  have hmem := hvalid.mem_completedJobs_iff.2 ⟨row, hc.stored, hc.state⟩
  have hmem' := hvalid.mem_completedJobs_iff.2 ⟨row', hc'.stored, hc'.state⟩
  exact (pairwise_either h.compacted.order hmem hmem' hne).imp
    (fun hcovers => hcovers row row' summary' hc.stored hc' hsession)
    fun hcovers => hcovers row' row summary hc'.stored hc hsession.symm

/-- The compaction with the highest boundary has the newest summary, and no other summary is after
its boundary. -/
theorem Compacting.newest (h : Compacting encoding s) (hc : CompletedAs s.tables job row summary)
    (hhighest : ∀ other row', s.tables.compactions.rows.get other = some row' →
      row'.sessionId = row.sessionId → row'.state = .completed →
      row'.throughSequence ≤ row.throughSequence)
    {id : Uuid} {event : SessionEvent} (hevent : s.tables.events.get id = some event)
    (hsession : event.sessionId = row.sessionId) (hkind : event.kind = .summary) :
    (id, event) = summary ∨ event.sequence ≤ row.throughSequence := by
  obtain ⟨other, row', hc'⟩ := h.compacted.job id event hevent hkind
  have hof := h.compacted.summaryOf hc
  have hof' := h.compacted.summaryOf hc'
  have hsession' : row'.sessionId = row.sessionId := hof'.sessionId.symm.trans hsession
  by_cases hne : job = other
  · subst hne
    cases hc.stored.symm.trans hc'.stored
    have hid : summary.1 = id := Option.some.inj (hc.finished.symm.trans hc'.finished)
    have hsame := hc.event
    rw [hid, hevent] at hsame
    exact .inl (Prod.ext hid.symm (Option.some.inj hsame))
  · rcases h.either hc hc' hsession' hne with hcovers | hcovers
    · exact .inr hcovers
    · have hle := hhighest other row' hc'.stored hsession' hc'.state
      have := hof.after
      omega

end newest

/-- The last of numbered events is the one with the highest number. -/
theorem getLast?_of_highest {events : List (Uuid × SessionEvent)}
    (h : events.Pairwise fun a b => a.2.sequence < b.2.sequence) {e : Uuid × SessionEvent}
    (he : e ∈ events) (hhighest : ∀ e' ∈ events, e'.2.sequence ≤ e.2.sequence) :
    events.getLast? = some e := by
  obtain ⟨before, after, rfl⟩ := List.append_of_mem he
  cases after with
  | nil => rw [List.getLast?_append, List.getLast?_singleton, Option.some_or]
  | cons next after =>
    have hlt := List.rel_of_pairwise_cons (List.pairwise_append.1 h).2.1 List.mem_cons_self
    have hle := hhighest next (by simp)
    omega

/-! ## The replay -/

theorem mem_transcript {e : Uuid × SessionEvent} :
    e ∈ transcript t session ↔ t.events.get e.1 = some e.2 ∧ e.2.sessionId = session := by
  rw [transcript, List.mem_filter, decide_eq_true_eq, Table.get_eq_some]

/-- Where nothing was compacted there is no summary. -/
theorem Compacting.newestSummary_none (h : Compacting encoding s)
    (hnone : latestCompaction s.tables session = none) : newestSummary s.tables session = none := by
  unfold newestSummary
  rw [List.getLast?_eq_none_iff, sessionEvents_eq (h.transcribed session),
    List.filter_eq_nil_iff]
  rintro ⟨id, event⟩ he hkind
  obtain ⟨hevent, hsession⟩ := mem_transcript.1 he
  obtain ⟨job, row, hc⟩ := h.compacted.job id event hevent (of_decide_eq_true hkind)
  have hof := h.compacted.summaryOf hc
  have hfalse := Table.first_eq_none hnone hc.stored
  rw [hc.state, ← hof.sessionId, hsession] at hfalse
  simp at hfalse

/-- The completed compaction with the highest boundary. -/
theorem latestCompaction_some {job : Uuid} {row : JobRow Uuid}
    (h : latestCompaction t session = some (job, row)) :
    t.compactions.rows.get job = some row ∧ row.sessionId = session ∧ row.state = .completed ∧
    ∀ other row', t.compactions.rows.get other = some row' → row'.sessionId = session →
      row'.state = .completed → row'.throughSequence ≤ row.throughSequence := by
  obtain ⟨hrow, hp⟩ := Table.first_eq_some h
  simp only [Bool.and_eq_true, decide_eq_true_eq] at hp
  refine ⟨hrow, hp.1, hp.2, fun other row' hrow' hsession hstate => ?_⟩
  have hle := Table.first_le (fun a b => by grind) (fun a b c => by grind) h
    (Table.get_eq_some.1 hrow') (by simp [hsession, hstate])
  simp only [Bool.or_eq_true, Bool.and_eq_true, decide_eq_true_eq] at hle
  omega

/-- What a replay returns. -/
def replay (t : Tables) (session : Uuid) : SessionReplay where
  events := replayContent t session
  lastSequence := lastEventSequence t session
  compactedThrough := (newestSummary t session).map fun e => e.2.payload.boundary

/-- Where nothing was compacted a replay is the whole transcript. -/
theorem Compacting.replay_none (h : Compacting encoding s)
    (hnone : latestCompaction s.tables session = none)
    (hfits : Fits encoding (replayContent s.tables session)) :
    loadSessionReplay encoding s.tables session = .ok (replay s.tables session) ∧
      WholeTurns (replayContent s.tables session) := by
  have hnewest := h.newestSummary_none hnone
  have htranscript := h.transcribed session
  have hcontent : replayContent s.tables session =
      sessionEvents s.tables session fun _ _ => true := by
    unfold replayContent
    rw [hnewest]
  have hwhole : WholeTurns (replayContent s.tables session) := by
    rw [hcontent, sessionEvents_eq htranscript, List.filter_true]
    exact htranscript.wholeTurns
  refine ⟨?_, hwhole⟩
  have hrows := replayRows_ok encoding none 0 [] (fun _ _ h => nomatch h)
    (by simpa using hfits.1) (by simpa using hfits.2)
  unfold loadSessionReplay
  rw [hnone]
  simp only [bind_eq_ok]
  rw [← hcontent]
  refine ⟨_, hrows, (), hwhole.validate session _, ?_⟩
  simp [replay, hnewest, pure, Except.pure]

/-- The summary of a job and the events after its boundary are whole turns. -/
theorem Compacting.tail_wholeTurns (h : Compacting encoding s) {job id : Uuid} {row : JobRow Uuid}
    {summary : SessionEvent} (hc : CompletedAs s.tables job row (id, summary)) :
    WholeTurns ((id, summary) :: sessionEvents s.tables row.sessionId fun other event =>
      row.throughSequence < event.sequence && other ≠ id) := by
  have hof : SummaryOf job row summary := h.compacted.summaryOf hc
  have hturn : IsTurn summary.turnId [(id, summary)] :=
    ⟨List.cons_ne_nil _ _, by simp [hof.turn.1, hof.turn.2]⟩
  have htail : WholeTurns (sessionEvents s.tables row.sessionId fun other event =>
      row.throughSequence < event.sequence && other ≠ id) := by
    rw [sessionEvents_eq (h.transcribed _)]
    refine (h.transcribed _).tail_wholeTurns (h.compacted.whole job row hc.stored)
      fun e he hid => ?_
    have hevent := (mem_transcript.1 he).1
    rw [hid, hc.event] at hevent
    rw [← Option.some.inj hevent]
    exact hof.turn.1
  exact .cons hturn htail

/-- The compaction with the highest boundary is that of the newest summary. -/
theorem Compacting.newestSummary_some (h : Compacting encoding s) {job : Uuid} {row : JobRow Uuid}
    {summary : Uuid × SessionEvent} (hlatest : latestCompaction s.tables session = some (job, row))
    (hc : CompletedAs s.tables job row summary) :
    newestSummary s.tables session = some summary ∧
      ∀ e ∈ transcript s.tables session, e.2.kind = .summary →
        e = summary ∨ e.2.sequence ≤ row.throughSequence := by
  obtain ⟨-, rfl, -, hhighest⟩ := latestCompaction_some hlatest
  have hof := h.compacted.summaryOf hc
  have hsummaries : ∀ e ∈ transcript s.tables row.sessionId, e.2.kind = .summary →
      e = summary ∨ e.2.sequence ≤ row.throughSequence := by
    intro e he hkind
    obtain ⟨hevent, hsession⟩ := mem_transcript.1 he
    exact h.newest hc hhighest hevent hsession hkind
  refine ⟨?_, hsummaries⟩
  unfold newestSummary
  rw [sessionEvents_eq (h.transcribed _)]
  refine getLast?_of_highest ((h.transcribed _).pairwise.filter _) ?_ fun e he => ?_
  · exact List.mem_filter.2 ⟨mem_transcript.2 ⟨hc.event, hof.sessionId⟩, decide_eq_true hof.kind⟩
  · obtain ⟨he, hkind⟩ := List.mem_filter.1 he
    rcases hsummaries e he (of_decide_eq_true hkind) with rfl | hle
    · exact Nat.le_refl _
    · exact hle.trans hof.after.le

/-- Otherwise it is the newest summary and what it does not cover. -/
theorem Compacting.replay_some (h : Compacting encoding s) {job : Uuid} {row : JobRow Uuid}
    (hlatest : latestCompaction s.tables session = some (job, row))
    (hfits : Fits encoding (replayContent s.tables session)) :
    loadSessionReplay encoding s.tables session = .ok (replay s.tables session) ∧
      WholeTurns (replayContent s.tables session) := by
  obtain ⟨hrow, rfl, hstate, -⟩ := latestCompaction_some hlatest
  obtain ⟨⟨id, summary⟩, hc, hof⟩ := h.compacted.summary job row hrow hstate
  replace hof : SummaryOf job row summary := hof
  have hevent : s.tables.events.get id = some summary := hc.event
  obtain ⟨hnewest, hsummaries⟩ := h.newestSummary_some hlatest hc
  obtain ⟨text, hpayload⟩ := hof.payload
  have hboundary : summary.payload.boundary = row.throughSequence := by
    rw [hpayload]
    rfl
  have hcontent : replayContent s.tables row.sessionId =
      (id, summary) :: sessionEvents s.tables row.sessionId fun other event =>
        row.throughSequence < event.sequence && other ≠ id := by
    unfold replayContent
    rw [hnewest]
    simp only [hboundary]
  have hwhole : WholeTurns (replayContent s.tables row.sessionId) :=
    hcontent ▸ h.tail_wholeTurns hc
  refine ⟨?_, hwhole⟩
  have hkinds : ∀ e ∈ sessionEvents s.tables row.sessionId (fun other event =>
      row.throughSequence < event.sequence && other ≠ id), (some job).isSome = true →
      e.2.kind ≠ .summary := by
    intro e he _ hkind
    rw [sessionEvents_eq (h.transcribed _), List.mem_filter] at he
    simp only [Bool.and_eq_true, decide_eq_true_eq] at he
    rcases hsummaries e he.1 hkind with rfl | hle
    · exact he.2.2 rfl
    · omega
  obtain ⟨hcount, hbytes⟩ := hfits
  rw [hcontent, List.length_cons] at hcount
  rw [hcontent, List.map_cons, List.sum_cons] at hbytes
  have hsummaryBytes : encoding.jsonBytes summary.payload ≤ MAX_REPLAY_BYTES :=
    (Nat.le_add_right _ _).trans hbytes
  have hrows := replayRows_ok encoding (some job) (encoding.jsonBytes summary.payload)
    [(id, summary)] hkinds
    (by rw [List.length_singleton]; omega) hbytes
  rw [List.singleton_append, ← hcontent] at hrows
  unfold loadSessionReplay
  rw [hlatest]
  simp only [bind_eq_ok, required_eq_ok, ensure_eq_ok]
  refine ⟨id, hc.finished, row.job job, (tryFrom_of_valid h.consistent.compactions hrow).1,
    row.source, h.compacted.source job row hrow, (), rfl, summary, ?_,
    encoding.jsonBytes summary.payload, ?_, (), ?_, _, hrows, (), hwhole.validate _ _, ?_⟩
  · simp [hevent, hof.sessionId]
  · simp only [boundedReplayEvent, bind_eq_ok, ensure_eq_ok]
    exact ⟨(), by decide, (), by rwa [Nat.zero_add], by rw [Nat.zero_add]; rfl⟩
  · simp only [validateCompactionSummary, bind_eq_ok, ensure_eq_ok]
    refine ⟨(), ⟨hof.sessionId, hof.kind, hof.after⟩, ?_⟩
    simp [hpayload, Payload.summarizes, JobRow.job]
  · simp [replay, hnewest, hboundary, pure, Except.pure, JobRow.job]

/-- Within its bounds a replay succeeds. -/
theorem Compacting.replay (h : Compacting encoding s) (session : Uuid)
    (hfits : Fits encoding (replayContent s.tables session)) :
    loadSessionReplay encoding s.tables session = .ok (Memory.replay s.tables session) ∧
      WholeTurns (replayContent s.tables session) := by
  cases hlatest : latestCompaction s.tables session with
  | none => exact h.replay_none hlatest hfits
  | some latest => exact h.replay_some hlatest hfits

/-! ## Whole runs -/

/-- The compactions of every Session can be replayed.
* At most one of a Session is pending or running.
* A completed one has its summary; in the order of completion the boundaries go up, and each covers
  every summary before.
* Within its bounds a replay is the newest summary and all other events after its boundary, or all
  events, and these are whole turns. -/
structure Replayable (encoding : Encoding) (t : Tables) : Prop where
  single : ∀ job other row row', t.compactions.rows.get job = some row →
    t.compactions.rows.get other = some row' → row.sessionId = row'.sessionId →
    row.active = true → row'.active = true → job = other
  completed : ∀ job ∈ completedJobs t.compactions.history, ∃ row summary,
    CompletedAs t job row summary ∧ SummaryOf job row summary.2
  increasing : (completedJobs t.compactions.history).Pairwise fun later earlier =>
    ∀ row summary row' summary', CompletedAs t later row summary →
      CompletedAs t earlier row' summary' → row'.sessionId = row.sessionId →
      row'.throughSequence < row.throughSequence ∧
        summary'.2.sequence ≤ row.throughSequence
  replay : ∀ session, Fits encoding (replayContent t session) →
    loadSessionReplay encoding t session = .ok (Memory.replay t session) ∧
      WholeTurns (replayContent t session)

/-- **The compactions of a Session stay replayable** in every run whose retries find no other active
compaction of the Session and no summary after the boundary. -/
theorem compactions_stay_replayable {actions : List Action}
    (h : Machine.Run (step encoding) Reopens State.initial actions s) :
    Replayable encoding s.tables := by
  have hs := compacting_of_run h
  refine ⟨hs.compacted.single, fun job hmem => ?_, ?_, hs.replay⟩
  · obtain ⟨row, hrow, hstate⟩ := hs.consistent.compactions.mem_completedJobs_iff.1 hmem
    obtain ⟨summary, hc⟩ := hs.compacted.summary job row hrow hstate
    exact ⟨row, summary, hc⟩
  · refine hs.compacted.order.imp fun hcovers row summary row' summary' hc hc' hsession => ?_
    have hle := hcovers row row' summary' hc.stored hc' hsession
    exact ⟨(hs.compacted.summaryOf hc').after.trans_le hle, hle⟩

/-- Two turns; the first is compacted when its job is retried, the second after it. -/
def twoTurns : List Action :=
  [.startSession 1 ⟨"/work", ⟨0, 0⟩⟩ 0, .claimSession 1 ⟨"/work", ⟨0, 0⟩⟩ 2 0,
    .appendTurn 2 ⟨0, 0⟩ [(4, ⟨.userMessage, "1"⟩)] 3 0,
    .appendTurn 2 ⟨0, 0⟩ [(6, ⟨.userMessage, "2"⟩)] 5 0, .releaseSession 2,
    .queueCompaction 1 1 7 0, .claimCompaction 8 0, .recordCompactionFailure 8 "busy" .permanent 0]

theorem compactions_stay_replayable_retried : ∃ s,
    Machine.Run (step byteEncoding) Reopens State.initial (twoTurns ++ [.retryFailedJob 7 0]) s ∧
    Replayable byteEncoding s.tables := by
  have hfailed : ((Machine.run (step byteEncoding) State.initial twoTurns).bind fun s =>
      (step byteEncoding s (.retryFailedJob 7 0)).map fun _ =>
        (s.tables.compactions.rows.entries.all fun e => e.2.sessionId = 1 && e.2.state = .failed,
          priorSummarySequence s.tables 1)) = some (true, 0) := by
    decide +kernel
  obtain ⟨s, hs, hstep⟩ := Option.bind_eq_some_iff.1 hfailed
  obtain ⟨s', hs', hfacts⟩ := Option.map_eq_some_iff.1 hstep
  obtain ⟨hall, hprior⟩ := Prod.mk.inj hfacts
  have hrows : ∀ job row, s.tables.compactions.rows.get job = some row →
      row.sessionId = 1 ∧ row.state = .failed := by
    intro job row hrow
    simpa using List.all_eq_true.1 hall _ (Table.get_eq_some.1 hrow)
  have hbefore : Machine.Run (step byteEncoding) Reopens State.initial twoTurns s := by
    refine .of_run hs fun action haction _ => ?_
    simp only [twoTurns, List.mem_cons, List.not_mem_nil, or_false] at haction
    rcases haction with rfl | rfl | rfl | rfl | rfl | rfl | rfl | rfl <;> trivial
  have hreopens : Reopens s (.retryFailedJob 7 0) := by
    intro row hrow _
    refine ⟨fun other row' hrow' _ => ?_, ?_⟩
    · simp [JobRow.active, (hrows other row' hrow').2]
    · rw [(hrows 7 row hrow).1, hprior]
      exact Nat.zero_le _
  have hrun := hbefore.snoc hreopens hs'
  exact ⟨s', hrun, compactions_stay_replayable hrun⟩

/-- A failed compaction is retried when a later boundary has been compacted: its summary is in the
tail of the other. -/
theorem retry_of_superseded_compaction : ∃ s, Machine.Run (step byteEncoding) Machine.anyStep
    State.initial (twoTurns ++ [.queueCompaction 1 2 9 0, .claimCompaction 10 0,
      .completeCompaction 10 "all" 11 0, .retryFailedJob 7 0, .claimCompaction 12 0,
      .completeCompaction 12 "first" 13 0]) s ∧
    ¬ Replayable byteEncoding s.tables := by
  have hcorrupt : (Machine.run (step byteEncoding) State.initial (twoTurns ++
      [.queueCompaction 1 2 9 0, .claimCompaction 10 0, .completeCompaction 10 "all" 11 0,
        .retryFailedJob 7 0, .claimCompaction 12 0, .completeCompaction 12 "first" 13 0])).map
      (fun s => (decide (Fits byteEncoding (replayContent s.tables 1)),
        (loadSessionReplay byteEncoding s.tables 1).isOk)) = some (true, false) := by
    decide +kernel
  obtain ⟨s, hs, hfacts⟩ := Option.map_eq_some_iff.1 hcorrupt
  obtain ⟨hfits, hloaded⟩ := Prod.mk.inj hfacts
  refine ⟨s, Machine.run_eq_some_iff.1 hs, fun h => ?_⟩
  rw [(h.replay 1 (of_decide_eq_true hfits)).1] at hloaded
  cases hloaded

end Memory

end Emelex

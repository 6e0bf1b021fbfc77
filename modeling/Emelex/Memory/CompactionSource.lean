import Emelex.Memory.PlanAgreement

/-!
# What a compaction reads

`compaction_source` loads the whole replay of the Session and keeps the part up to the boundary;
`plan_compaction` reads the first rows after the last boundary.

* `effectiveSource` — the newest summary and the later events up to the boundary.
* `Live` — a lease that the database still has.
* `EndsTurn` — rows that do not stop inside a turn.

Principal results: `replayRows_fits`, `Compacting.compactionSource_iff`,
`Compacting.planCompaction_iff`, `compaction_recovers_iff`.
-/

set_option autoImplicit false

namespace Emelex

namespace Memory

variable {encoding : Encoding} {s : State} {t : Tables} {session : Uuid} {lease : JobLease}
  {now : Time}

/-! ## Definitions -/

/-- `compaction_source`. -/
def compactionSource (encoding : Encoding) (t : Tables) (lease : JobLease) (now : Time) :
    Except MemoryError (List Event) := do
  let _ ← validateCompactionLease encoding t lease now
  let replay ← loadSessionReplay encoding t lease.job.sessionId
  let events := replay.events.filter fun e => e.2.sequence ≤ lease.job.throughSequence
  ensure (events ≠ [])
    (.corrupt s!"compaction {lease.job.id} has no effective source events")
  return events

/-- The newest summary and all other events after its boundary that are not after a number, or all
events that are not. -/
def effectiveSource (t : Tables) (session through : Nat) : List Event :=
  match newestSummary t session with
  | none => sessionEvents t session fun _ event => event.sequence ≤ through
  | some (id, summary) => (id, summary) :: sessionEvents t session fun other event =>
      summary.payload.boundary < event.sequence && event.sequence ≤ through && other ≠ id

/-- The job runs under the token of the lease, and its deadline has not come. -/
def Live (t : Tables) (lease : JobLease) (now : Time) : Prop :=
  ∃ row, t.compactions.rows.get lease.job.id = some row ∧ row.held lease.token = true ∧
    row.leaseUntil.any (now < ·) = true

instance (t : Tables) (lease : JobLease) (now : Time) : Decidable (Live t lease now) :=
  decidable_of_iff ((t.compactions.rows.get lease.job.id).any (fun row =>
    row.held lease.token && row.leaseUntil.any (now < ·)) = true)
    (by simp [Live, Option.any_eq_true])

/-- The rows do not stop inside a turn. -/
def EndsTurn (rows : List Event) : Prop :=
  ∀ e, rows.getLast? = some e → e.2.turnIndex + 1 = e.2.turnSize

instance (rows : List Event) : Decidable (EndsTurn rows) :=
  decidable_of_iff (rows.getLast?.all (fun e => decide (e.2.turnIndex + 1 = e.2.turnSize)) = true)
    (by simp [EndsTurn, Option.all_eq_true])

/-! ## The bounds of a replay -/

/-- Rows that are taken are within the bounds. -/
theorem replayRows_fits {compaction : Option Uuid} {payloadBytes : Nat}
    {events rows result : List Event}
    (h : replayRows encoding compaction payloadBytes events rows = .ok result)
    (hcount : events.length ≤ MAX_REPLAY_EVENTS) (hbytes : payloadBytes ≤ MAX_REPLAY_BYTES) :
    events.length + rows.length ≤ MAX_REPLAY_EVENTS ∧
      payloadBytes + (rows.map fun e => encoding.jsonBytes e.2.payload).sum ≤
        MAX_REPLAY_BYTES := by
  induction rows generalizing payloadBytes events with
  | nil => exact ⟨hcount, hbytes⟩
  | cons row rows ih =>
    simp only [replayRows, boundedReplayEvent, bind_eq_ok, ensure_eq_ok] at h
    obtain ⟨_, _, bytes, ⟨_, hevents, _, hle, hpure⟩, hrest⟩ := h
    cases hpure
    have hgrown : (events ++ [row]).length = events.length + 1 := by
      rw [List.length_append, List.length_singleton]
    obtain ⟨hcount', hbytes'⟩ := ih hrest (by omega) hle
    rw [List.length_cons, List.map_cons, List.sum_cons]
    omega

/-- What is replayed is within the bounds. -/
theorem Compacting.fits_of_replay (h : Compacting encoding s) {replay : SessionReplay}
    (hloaded : loadSessionReplay encoding s.tables session = .ok replay) :
    Fits encoding (replayContent s.tables session) := by
  unfold loadSessionReplay at hloaded
  cases hlatest : latestCompaction s.tables session with
  | none =>
    rw [hlatest] at hloaded
    simp only [bind_eq_ok] at hloaded
    obtain ⟨_, hrows, _⟩ := hloaded
    have hcontent : replayContent s.tables session =
        sessionEvents s.tables session fun _ _ => true := by
      unfold replayContent
      rw [h.newestSummary_none hlatest]
    have hfits := replayRows_fits hrows (Nat.zero_le _) (Nat.zero_le _)
    rw [List.length_nil, Nat.zero_add, Nat.zero_add] at hfits
    rw [hcontent]
    exact hfits
  | some latest =>
    obtain ⟨job, row⟩ := latest
    obtain ⟨hrow, hsession, hstate, -⟩ := latestCompaction_some hlatest
    obtain ⟨⟨id, summary⟩, hc, hof⟩ := h.compacted.summary job row hrow hstate
    replace hof : SummaryOf job row summary := hof
    obtain ⟨text, hpayload⟩ := hof.payload
    have hevent : s.tables.events.get id = some summary := hc.event
    have hboundary : summary.payload.boundary = row.throughSequence := by
      rw [hpayload]
      rfl
    have hcontent : replayContent s.tables session =
        (id, summary) :: sessionEvents s.tables session fun other event =>
          row.throughSequence < event.sequence && other ≠ id := by
      unfold replayContent
      rw [(h.newestSummary_some hlatest hc).1]
      simp only [hboundary]
    rw [hlatest] at hloaded
    simp only [bind_eq_ok, required_eq_ok, ensure_eq_ok, boundedReplayEvent] at hloaded
    obtain ⟨_, hfinished, _, hread, _, _, _, _, _, hfound, _, ⟨_, _, _, hle, hpure⟩, _, _, _,
      hrows, _⟩ := hloaded
    cases hpure
    cases hc.finished.symm.trans hfinished
    rw [(tryFrom_of_valid h.consistent.compactions hrow).1] at hread
    cases hread
    rw [hevent] at hfound
    obtain rfl := Option.some.inj (Option.filter_eq_some_iff.1 hfound).1
    have hone : 1 ≤ MAX_REPLAY_EVENTS := by decide
    obtain ⟨hcount, hbytes⟩ := replayRows_fits hrows hone hle
    rw [Nat.zero_add] at hbytes
    rw [hcontent]
    refine ⟨?_, ?_⟩
    · rw [List.length_cons, Nat.add_comm]
      exact hcount
    · rw [List.map_cons, List.sum_cons]
      exact hbytes

/-- A replay succeeds exactly within its bounds. -/
theorem Compacting.replay_iff (h : Compacting encoding s) (session : Uuid) :
    (∃ replay, loadSessionReplay encoding s.tables session = .ok replay) ↔
      Fits encoding (replayContent s.tables session) :=
  ⟨fun ⟨_, hloaded⟩ => h.fits_of_replay hloaded, fun hfits => ⟨_, (h.replay session hfits).1⟩⟩

/-! ## The source of a job -/

/-- The lease of a job that runs is accepted. -/
theorem Compacting.validate_live (h : Compacting encoding s) {token : Uuid}
    (hlease : s.compactionLeases token = some lease) (hlive : Live s.tables lease now) :
    ∃ row, s.tables.compactions.rows.get lease.job.id = some row ∧ row.active = true ∧
      row.Describes lease.job ∧
      validateCompactionLease encoding s.tables lease now = .ok row := by
  obtain ⟨-, row, hrow, hdescribes⟩ := h.consistent.compactionLeases token lease hlease
  obtain ⟨row', hrow', hheld, hdeadline⟩ := hlive
  cases hrow.symm.trans hrow'
  refine ⟨row, hrow, ?_, hdescribes, ?_⟩
  · simp only [JobRow.held, Bool.and_eq_true, decide_eq_true_eq] at hheld
    simp [JobRow.active, hheld.1]
  · simp only [validateCompactionLease, bind_eq_ok, required_eq_ok, ensure_eq_ok]
    exact ⟨row, hrow, (), ⟨hheld, hdeadline⟩, (), hdescribes.source, _,
      h.compacted.source _ row hrow, (), rfl, rfl⟩

/-- The part of a replay up to the boundary of an active job is its source, and it is not empty. -/
theorem Compacting.filter_replay (h : Compacting encoding s) {job : Uuid} {row : JobRow Uuid}
    (hrow : s.tables.compactions.rows.get job = some row) (hactive : row.active = true) :
    ((replayContent s.tables row.sessionId).filter fun e => e.2.sequence ≤ row.throughSequence) =
        effectiveSource s.tables row.sessionId row.throughSequence ∧
      effectiveSource s.tables row.sessionId row.throughSequence ≠ [] := by
  have ht := h.transcribed row.sessionId
  unfold replayContent effectiveSource
  cases hlatest : latestCompaction s.tables row.sessionId with
  | none =>
    rw [h.newestSummary_none hlatest]
    simp only [sessionEvents_eq ht, List.filter_true]
    refine ⟨trivial, ?_⟩
    obtain ⟨e, he, hsequence, -⟩ := h.compacted.whole job row hrow
    exact List.ne_nil_of_mem (List.mem_filter.2 ⟨he, decide_eq_true hsequence.le⟩)
  | some latest =>
    obtain ⟨other, row'⟩ := latest
    obtain ⟨hrow', hsession, hstate, -⟩ := latestCompaction_some hlatest
    obtain ⟨⟨id, summary⟩, hc, -⟩ := h.compacted.summary other row' hrow' hstate
    have hcovered : summary.sequence ≤ row.throughSequence :=
      h.compacted.later job row other row' _ hrow hactive hc hsession
    rw [(h.newestSummary_some hlatest hc).1]
    refine ⟨?_, List.cons_ne_nil _ _⟩
    show List.filter _ ((id, summary) :: _) = (id, summary) :: _
    rw [List.filter_cons_of_pos (by exact decide_eq_true hcovered)]
    simp only [sessionEvents_eq ht, List.filter_filter]
    refine congrArg _ (List.filter_congr fun e _ => ?_)
    simp only [Bool.and_comm, Bool.and_left_comm]

/-- The source of a live lease is read exactly where the whole replay is within the bounds. -/
theorem Compacting.compactionSource_iff (h : Compacting encoding s) {token : Uuid}
    (hlease : s.compactionLeases token = some lease) (hlive : Live s.tables lease now) :
    compactionSource encoding s.tables lease now =
        .ok (effectiveSource s.tables lease.job.sessionId lease.job.throughSequence) ↔
      Fits encoding (replayContent s.tables lease.job.sessionId) := by
  obtain ⟨row, hrow, hactive, hdescribes, hvalid⟩ := h.validate_live hlease hlive
  have hsource := h.filter_replay hrow hactive
  rw [hdescribes.sessionId, hdescribes.throughSequence] at hsource
  unfold compactionSource
  simp only [bind_eq_ok, ensure_eq_ok]
  constructor
  · rintro ⟨_, _, replay, hloaded, _⟩
    exact h.fits_of_replay hloaded
  · intro hfits
    refine ⟨row, hvalid, _, (h.replay _ hfits).1, (), ?_, ?_⟩
    · show List.filter _ (replayContent _ _) ≠ []
      rw [hsource.1]
      exact hsource.2
    · show Except.ok (List.filter _ (replayContent _ _)) = _
      rw [hsource.1]

/-! ## The rows of a plan -/

/-- A beginning of a turn that is not the whole turn does not end it. -/
theorem not_endsTurn {before : List Event} {turn : Turn} {tail : List Event}
    (hturn : IsTurn turn.1 turn.2) (hne : tail ≠ []) (hlength : tail.length < turn.2.length)
    (hinitial : tail <+: turn.2) : ¬ EndsTurn (before ++ tail) := by
  intro hends
  have hlast : (before ++ tail).getLast? = some (tail.getLast hne) := by
    rw [List.getLast?_append, List.getLast?_eq_some_getLast hne, Option.some_or]
  have hget : tail[tail.length - 1]? = some (tail.getLast hne) := by
    rw [← List.getLast?_eq_getElem?, List.getLast?_eq_some_getLast hne]
  obtain ⟨more, hmore⟩ := hinitial
  have hpos := List.length_pos_iff.2 hne
  have hturnGet : turn.2[tail.length - 1]? = some (tail.getLast hne) := by
    rw [← hmore, List.getElem?_append_left (by omega)]
    exact hget
  obtain ⟨-, hsize, hindex⟩ := hturn.get hturnGet
  have hend := hends _ hlast
  omega

/-- Whole turns end with a turn. -/
theorem endsTurn_of_turns {turns : List Turn} {events : List Event} (h : AreTurns turns events) :
    EndsTurn events := by
  intro e he
  obtain ⟨hflatten, hwhole⟩ := h
  subst hflatten
  induction turns with
  | nil => cases he
  | cons turn turns ih =>
    rw [eventsOf_cons, List.getLast?_append] at he
    cases hrest : (eventsOf turns).getLast? with
    | some last =>
      rw [hrest, Option.some_or] at he
      exact ih (fun other hother => hwhole other (List.mem_cons_of_mem _ hother)) (hrest.trans he)
    | none =>
      rw [hrest, Option.none_or, List.getLast?_eq_getElem?] at he
      have hturn := hwhole turn List.mem_cons_self
      obtain ⟨-, hsize, hindex⟩ := hturn.get he
      have hpos := List.length_pos_iff.2 hturn.nonempty
      omega

variable {payloadLength : Payload → Nat} {currentTokens : Nat} {policy : CompactionPolicy}

/-- A plan that is asked for is made exactly where the window is in range and, from the trigger
on, the rows that are read end with a turn. -/
theorem Compacting.planCompaction_iff (h : Compacting encoding s)
    (hstored : Stored encoding s.tables)
    (hlength : ∀ payload, payloadLength payload ≤ encoding.jsonBytes payload)
    (hrow : (s.tables.sessions.get session).isSome = true) :
    (∃ plan, planCompaction payloadLength s.tables session currentTokens policy = .ok plan) ↔
      policy.contextWindowTokens * 80 + 99 ≤ U64_MAX ∧
        ((policy.contextWindowTokens * 80 + 99) / 100 ≤ currentTokens →
          EndsTurn (Memory.planRows s.tables session)) := by
  obtain ⟨hpos, -⟩ := h.planRows session
  constructor
  · rintro ⟨plan, hplan⟩
    have hrange : policy.contextWindowTokens * 80 + 99 ≤ U64_MAX := by
      unfold planCompaction at hplan
      simp only [bind_eq_ok, percentCeil, ensure_eq_ok] at hplan
      obtain ⟨_, _, _, ⟨_, hrange, _⟩, _⟩ := hplan
      exact hrange
    refine ⟨hrange, fun hreached => ?_⟩
    obtain ⟨turns, rest, hturns, hrows⟩ := h.reads hstored hlength ⟨hrow, hrange, hreached⟩
      fun message hcorrupt => by cases hplan.symm.trans hcorrupt
    exact endsTurn_of_turns
      ⟨hrows, fun turn hturn => hturns.whole turn (List.mem_append_left _ hturn)⟩
  · rintro ⟨hrange, hends⟩
    by_cases hreached : (policy.contextWindowTokens * 80 + 99) / 100 ≤ currentTokens
    · obtain ⟨-, all, -, hall, -⟩ := h.uncovered session
      obtain ⟨turns, rest, tail, rfl, htake, htail⟩ := eventsOf_take all MAX_REPLAY_EVENTS
      have hrows : Memory.planRows s.tables session = eventsOf turns ++ tail := by
        rw [planRows_eq, hall.flatten, htake]
      rcases htail with rfl | ⟨turn, hturn, hne, hshort, hinitial⟩
      · rw [List.append_nil] at hrows
        have hread : AreTurns turns (Memory.planRows s.tables session) :=
          ⟨hrows, fun turn hturn => hall.whole turn (List.mem_append_left _ hturn)⟩
        rcases planCompaction_turns ⟨hrow, hrange, hreached⟩ hread hpos
          (hstored.planRows hlength session) with ⟨_, plan, hplan, _⟩ | ⟨hplan, _⟩
        · exact ⟨_, hplan⟩
        · exact ⟨_, hplan⟩
      · have hends' := hends hreached
        rw [hrows] at hends'
        exact absurd hends' (not_endsTurn (hall.whole turn (List.mem_append_right _ hturn)) hne
          hshort hinitial)
    · rcases planCompaction_idle
        (fun htriggered : Triggered s.tables session currentTokens policy =>
          hreached htriggered.2.2) with hplan | ⟨error, herror, -⟩
      · exact ⟨_, hplan⟩
      · obtain ⟨row, hrow⟩ := Option.isSome_iff_exists.1 hrow
        unfold planCompaction at herror
        rw [hrow, percentCeil, ensure, if_pos hrange] at herror
        exact absurd herror (by
          show ¬ (if _ then _ else _) = _
          rw [if_pos (Nat.not_le.1 hreached)]
          intro hpure
          cases hpure)

/-! ## Recovery -/

/-- **Compaction works within the bounds of a replay only**, in every state of a run: the source of
a live lease is read exactly where the whole replay is within the bounds, and a plan is made exactly
where its window is in range and the rows that are read end with a turn. -/
theorem compaction_recovers_iff {actions : List Action}
    (h : Machine.Run (step encoding) Reopens State.initial actions s)
    (hlength : ∀ payload, payloadLength payload ≤ encoding.jsonBytes payload) :
    (∀ token lease now, s.compactionLeases token = some lease → Live s.tables lease now →
      (compactionSource encoding s.tables lease now =
          .ok (effectiveSource s.tables lease.job.sessionId lease.job.throughSequence) ↔
        Fits encoding (replayContent s.tables lease.job.sessionId))) ∧
    ∀ session currentTokens policy, (s.tables.sessions.get session).isSome = true →
      ((∃ plan, planCompaction payloadLength s.tables session currentTokens policy = .ok plan) ↔
        policy.contextWindowTokens * 80 + 99 ≤ U64_MAX ∧
          ((policy.contextWindowTokens * 80 + 99) / 100 ≤ currentTokens →
            EndsTurn (planRows s.tables session))) := by
  have hs := compacting_of_run h
  refine ⟨fun token lease now hlease hlive => hs.compactionSource_iff hlease hlive,
    fun session currentTokens policy hrow => ?_⟩
  exact hs.planCompaction_iff (stored_of_run h) hlength hrow

/-- A turn, and the claim of its compaction. -/
def claimedCompaction : List Action :=
  [.startSession 1 ⟨"/work", ⟨0, 0⟩⟩ 0, .claimSession 1 ⟨"/work", ⟨0, 0⟩⟩ 2 0,
    .appendTurn 2 ⟨0, 0⟩ [(4, ⟨.userMessage, "1"⟩)] 3 0, .releaseSession 2,
    .queueCompaction 1 1 7 0, .claimCompaction 8 0]

theorem compaction_recovers_claimed : ∃ s lease,
    Machine.Run (step byteEncoding) Reopens State.initial claimedCompaction s ∧
    s.compactionLeases 8 = some lease ∧
    compactionSource byteEncoding s.tables lease 0 = .ok (effectiveSource s.tables 1 1) ∧
    ∃ plan, planCompaction (fun _ => 1) s.tables 1 1 tinyPolicy = .ok plan := by
  have hclaimed : (Machine.run (step byteEncoding) State.initial claimedCompaction).bind (fun s =>
      (s.compactionLeases 8).map fun lease =>
        decide (lease.job.sessionId = 1 ∧ lease.job.throughSequence = 1 ∧ Live s.tables lease 0 ∧
          Fits byteEncoding (replayContent s.tables 1) ∧ (s.tables.sessions.get 1).isSome = true ∧
          EndsTurn (planRows s.tables 1))) = some true := by
    decide +kernel
  obtain ⟨s, hs, hmap⟩ := Option.bind_eq_some_iff.1 hclaimed
  obtain ⟨lease, hlease, hfacts⟩ := Option.map_eq_some_iff.1 hmap
  obtain ⟨hsession, hthrough, hlive, hfits, hrow, hends⟩ := of_decide_eq_true hfacts
  have hrun : Machine.Run (step byteEncoding) Reopens State.initial claimedCompaction s :=
    runs_reopen hs (by simp [claimedCompaction])
  have hlength : ∀ payload, 1 ≤ byteEncoding.jsonBytes payload := fun _ => Nat.le_refl 1
  obtain ⟨hsource, hplan⟩ := compaction_recovers_iff hrun hlength
  have hread := hsource 8 lease 0 hlease hlive
  rw [hsession, hthrough] at hread
  exact ⟨s, lease, hrun, hlease, hread.2 hfits,
    (hplan 1 1 tinyPolicy hrow).2 ⟨by decide, fun _ => hends⟩⟩

/-- A text of the size of the largest event. -/
def blobEncoding : Encoding where
  structurallyBounded _ := true
  jsonBytes payload := if payload = .value "blob" then MAX_EVENT_BYTES else 1
  transcriptSha256 _ _ _ := ""

/-- A turn of four of the largest events. -/
def blobTurn (turnId : Uuid) : Action :=
  .appendTurn 9 ⟨0, 0⟩ [(turnId + 1, ⟨.userMessage, "blob"⟩), (turnId + 2, ⟨.userMessage, "blob"⟩),
    (turnId + 3, ⟨.userMessage, "blob"⟩), (turnId + 4, ⟨.userMessage, "blob"⟩)] turnId 0

/-- While its first turn is compacted a Session grows past the bytes of a replay. -/
def grownSession : List Action :=
  claimedCompaction ++ [.claimSession 1 ⟨"/work", ⟨0, 0⟩⟩ 9 0, .replaySession 9 ⟨0, 0⟩ 0,
    blobTurn 10, blobTurn 20, blobTurn 30, blobTurn 40, blobTurn 50]

/-- The source of the job is one event, and it is refused. -/
theorem grown_session_refused : ∃ s lease,
    Machine.Run (step blobEncoding) Reopens State.initial grownSession s ∧
    s.compactionLeases 8 = some lease ∧ Live s.tables lease 0 ∧
    Fits blobEncoding (effectiveSource s.tables lease.job.sessionId lease.job.throughSequence) ∧
    compactionSource blobEncoding s.tables lease 0 =
      .error (.invalid "session replay exceeds 67108864 byte limit; compact more history") := by
  have hgrown : (Machine.run (step blobEncoding) State.initial grownSession).bind (fun s =>
      (s.compactionLeases 8).map fun lease =>
        decide (Live s.tables lease 0 ∧
          Fits blobEncoding
            (effectiveSource s.tables lease.job.sessionId lease.job.throughSequence) ∧
          compactionSource blobEncoding s.tables lease 0 =
            .error (.invalid "session replay exceeds 67108864 byte limit; compact more history"))) =
      some true := by
    decide +kernel
  obtain ⟨s, hs, hmap⟩ := Option.bind_eq_some_iff.1 hgrown
  obtain ⟨lease, hlease, hfacts⟩ := Option.map_eq_some_iff.1 hmap
  exact ⟨s, lease, runs_reopen hs (by simp [grownSession, claimedCompaction, blobTurn]), hlease,
    of_decide_eq_true hfacts⟩

end Memory

end Emelex

import Emelex.Memory.QueueAcceptance
import Mathlib.Algebra.Order.BigOperators.Group.List

/-!
# Plans and the queue

`plan_compaction` walks the events after the last boundary, among which the summary of the last
compaction stands somewhere; `queue_compaction` asks that a boundary covers this summary.

* `Stored` — the limits of the events that are stored.
* `Planned` — what a plan is: the first whole turns whose estimate is enough.
* `Agrees` — every plan is one, and is queued; nothing is reported as corrupt.
* `Plannable` — the rows that are read end with a turn, and no turns before the last summary are
  enough.

Principal results: `planCompaction_turns`, `stored_of_run`, `plan_agrees_iff`,
`plan_before_summary`.
-/

set_option autoImplicit false

namespace Emelex

namespace Memory

variable {encoding : Encoding} {s s' : State} {action : Action} {t t' : Tables} {session : Uuid}

/-! ## What is stored -/

/-- The limits of the events that are stored. -/
def Stored (encoding : Encoding) (t : Tables) : Prop := ∀ e ∈ t.events.entries,
  encoding.jsonBytes e.2.payload ≤ MAX_EVENT_BYTES ∧ e.2.sequence ≤ I64_MAX

theorem prepareTurn_bounded {events : List SessionEventInput} {u : Unit}
    (h : prepareTurn encoding events = .ok u) :
    ∀ event ∈ events, encoding.jsonBytes (.value event.json) ≤ MAX_EVENT_BYTES := by
  simp only [prepareTurn, bind_eq_ok, ensure_eq_ok] at h
  obtain ⟨_, _, _, _, hloop⟩ := h
  have hall : ∀ totalBytes (events : List SessionEventInput),
      prepareTurn.prepareEvents encoding totalBytes events = .ok u →
        ∀ event ∈ events, encoding.jsonBytes (.value event.json) ≤ MAX_EVENT_BYTES := by
    intro totalBytes events
    induction events generalizing totalBytes with
    | nil => simp
    | cons event events ih =>
      intro hprepared
      simp only [prepareTurn.prepareEvents, boundedJsonString, bind_eq_ok, ensure_eq_ok]
        at hprepared
      obtain ⟨_, _, _, ⟨_, _, _, hbytes, _⟩, _, _, hrest⟩ := hprepared
      intro other hother
      rcases List.mem_cons.1 hother with rfl | hother
      · exact hbytes
      · exact ih _ hrest other hother
  exact hall 0 events hloop

/-- The loop of an append stores no number above the limit. -/
theorem insertTurn_bounded {turnId : Uuid} {turnSize currentSequence offset : Nat} {now : Time}
    {events : List (Uuid × SessionEventInput)}
    (h : insertTurn session turnId turnSize currentSequence now offset events t = .ok t') :
    events = [] ∨ currentSequence + (offset + events.length) ≤ I64_MAX := by
  induction events generalizing offset t with
  | nil => exact .inl rfl
  | cons event events ih =>
    simp only [insertTurn, bind_eq_ok, ensure_eq_ok] at h
    obtain ⟨_, hsequence, hrest⟩ := h
    rcases ih hrest with rfl | hle
    · exact .inr hsequence
    · rw [List.length_cons]
      exact .inr (by omega)

theorem appendTurn_bounded {lease : SessionLease} {actual : WorkspaceIdentity}
    {events : List (Uuid × SessionEventInput)} {turnId : Uuid} {now : Time} {call : LeaseCall Nat}
    (h : appendTurn encoding t lease actual events turnId now = call) :
    call.tables = t ∨
      (∀ event ∈ events, encoding.jsonBytes (.value event.2.json) ≤ MAX_EVENT_BYTES) ∧
      (lease.lastSequence = lastEventSequence t lease.session.id →
        lease.lastSequence + events.length ≤ I64_MAX) := by
  unfold appendTurn at h
  split at h
  · subst h
    exact .inl rfl
  · rename_i hvalid
    simp only [bind_eq_ok] at hvalid
    obtain ⟨_, hprepared, _⟩ := hvalid
    have hbounded := prepareTurn_bounded hprepared
    have hne := (prepareTurn_ok hprepared).1
    by_cases htail : lastEventSequence t lease.session.id = lease.lastSequence
    · simp only [htail, ne_eq, not_true_eq_false, if_false] at h
      split at h
      · rename_i hcall
        subst h
        exact .inl (transaction_error hcall)
      · rename_i hcall
        have hbody := transaction_ok hcall
        simp only [writeTurn, bind_eq_ok] at hbody
        obtain ⟨_, _, _, hinserted, _⟩ := hbody
        refine .inr ⟨fun event hevent => hbounded event.2 (List.mem_map_of_mem hevent), fun _ => ?_⟩
        rcases insertTurn_bounded hinserted with rfl | hle
        · exact absurd rfl hne
        · omega
    · simp only [htail, ne_eq, not_false_eq_true, if_true] at h
      subst h
      exact .inl rfl

theorem completeCompaction_bounded {lease : JobLease} {summary : String} {eventId : Uuid}
    {now : Time} {call : WorkerCall Nat}
    (h : completeCompaction encoding t lease summary eventId now = call) :
    call.tables = t ∨
      encoding.jsonBytes (.compaction lease.job.id lease.job.throughSequence lease.job.source
        summary) ≤ MAX_EVENT_BYTES ∧
      ∀ row, t.compactions.rows.get lease.job.id = some row →
        lastEventSequence t row.sessionId + 1 ≤ I64_MAX := by
  unfold completeCompaction settle at h
  split at h
  · rename_i hcall
    subst h
    have hbody := transaction_ok hcall
    simp only [writeSummary, boundedJsonString, validateCompactionLease, bind_eq_ok, ensure_eq_ok,
      required_eq_ok] at hbody
    obtain ⟨_, ⟨_, _, _, hbytes, _⟩, row, ⟨row', hrow, _, _, _, _, _, _, _, _, hpure⟩, _, _, _,
      hsequence, _⟩ := hbody
    cases hpure
    refine .inr ⟨hbytes, fun row₁ hrow₁ => ?_⟩
    cases hrow.symm.trans hrow₁
    exact hsequence
  · rename_i hcall
    subst h
    exact .inl (transaction_error hcall)

/-- What is added by a call that keeps the limits. -/
theorem Effect.storedEvents (h : Effect encoding s action t') (hs : Stored encoding s.tables)
    (hturn : ∀ token actual events turnId now lease,
      action = .appendTurn token actual events turnId now → s.leases token = some lease →
      t' = s.tables ∨
        (∀ event ∈ events, encoding.jsonBytes (.value event.2.json) ≤ MAX_EVENT_BYTES) ∧
        (lease.lastSequence = lastEventSequence s.tables lease.session.id →
          lease.lastSequence + events.length ≤ I64_MAX))
    (hsummary : ∀ token summary eventId now lease,
      action = .completeCompaction token summary eventId now →
      s.compactionLeases token = some lease → t' = s.tables ∨
        encoding.jsonBytes (.compaction lease.job.id lease.job.throughSequence lease.job.source
          summary) ≤ MAX_EVENT_BYTES ∧
        ∀ row, s.tables.compactions.rows.get lease.job.id = some row →
          lastEventSequence s.tables row.sessionId + 1 ≤ I64_MAX) : Stored encoding t' := by
  cases h with
  | none | started | claimed | renewed | released | compactions | distillations
  | queuedCompaction | queuedDistillation | retriedCompaction | retriedDistillation
  | maintained => exact hs
  | distilled _ hdistilled =>
    rw [hdistilled.frame]
    exact hs
  | @appended token turnId actual events now deadline lease call row hlease happended =>
    rcases hturn _ _ _ _ _ _ rfl hlease with hsame | ⟨hbytes, hlast⟩
    · rw [hsame]
      exact hs
    · intro e he
      rw [happended.events, List.mem_append] at he
      rcases he with hold | hnew
      · exact hs e hold
      · obtain ⟨input, hinput, rfl⟩ := List.mem_map.1 hnew
        have hevent := List.fst_mem_of_mem_zipIdx hinput
        have hlt := List.snd_lt_of_mem_zipIdx hinput
        have hle := hlast happended.tail
        refine ⟨hbytes input.1 hevent, ?_⟩
        show lease.lastSequence + (input.2 + 1) ≤ I64_MAX
        omega
  | @summarized token eventId summary now lease row session t' hlease hsummarized =>
    rcases hsummary _ _ _ _ _ rfl hlease with hsame | ⟨hbytes, hlast⟩
    · rw [hsame]
      exact hs
    · intro e he
      rw [hsummarized.events, List.mem_append, List.mem_singleton] at he
      rcases he with hold | rfl
      · exact hs e hold
      · exact ⟨hbytes, hlast row hsummarized.stored⟩

theorem Stored.call {result : Except MemoryError Unit} (hc : Consistent s)
    (hs : Stored encoding s.tables) (h : call encoding s action = some (result, s')) :
    Stored encoding s'.tables := by
  rcases (call_cases hc h).outcome with ⟨-, hsame⟩ | ⟨-, heffect⟩
  · rw [hsame]
    exact hs
  · refine heffect.storedEvents hs ?_ ?_
    · rintro token actual events turnId now lease rfl hlease
      unfold Memory.call at h
      split at h
      · simp only [perform, hlease, Option.map_some, Option.some.injEq, Prod.mk.injEq] at h
        rw [← h.2]
        exact appendTurn_bounded rfl
      · cases h
    · rintro token summary eventId now lease rfl hlease
      unfold Memory.call at h
      split at h
      · simp only [perform, hlease, Option.map_some, Option.some.injEq, Prod.mk.injEq] at h
        rw [← h.2]
        exact completeCompaction_bounded rfl
      · cases h

theorem stored_of_run {ok : State → Action → Prop} {actions : List Action}
    (h : Machine.Run (step encoding) ok State.initial actions s) : Stored encoding s.tables := by
  refine (h.invariant (I := fun s => Consistent s ∧ Stored encoding s.tables) ?_
    ⟨consistent_initial, fun e he => absurd he List.not_mem_nil⟩).2
  intro s action s' hs _ hstep
  obtain ⟨_, hcall⟩ := step_eq_some hstep
  exact ⟨hs.1.call hcall, hs.2.call hs.1 hcall⟩

/-! ## The turns of a plan -/

/-- The events that no completed compaction covers. -/
def uncovered (t : Tables) (session : Uuid) : List Event :=
  sessionEvents t session fun _ event => effectiveAfter t session < event.sequence

/-- The tokens that a plan has to remove: what is above half of the window. -/
def desiredTokens (currentTokens : Nat) (policy : CompactionPolicy) : Nat :=
  currentTokens - policy.contextWindowTokens * 50 / 100

/-- The window is in range and it is filled to 80 percent. -/
def Triggered (t : Tables) (session : Uuid) (currentTokens : Nat) (policy : CompactionPolicy) :
    Prop :=
  (t.sessions.get session).isSome = true ∧ policy.contextWindowTokens * 80 + 99 ≤ U64_MAX ∧
    (policy.contextWindowTokens * 80 + 99) / 100 ≤ currentTokens

variable (payloadLength : Payload → Nat) (currentTokens : Nat) (policy : CompactionPolicy)

/-- A plan: the boundary is the end of the first turns that are enough, and the recent turns are
after it. -/
structure Planned (t : Tables) (session : Uuid) (plan : CompactionPlan) (turns : List Turn)
    (k : Nat) : Prop where
  events : AreTurns turns (uncovered t session)
  recent : k + policy.recentTurns ≤ turns.length
  reaches : Reaches payloadLength (desiredTokens currentTokens policy) turns k
  through : plan.throughSequence = endOf (eventsOf (turns.take k))

variable {payloadLength currentTokens policy}

theorem Triggered.desired_pos (h : Triggered t session currentTokens policy) :
    0 < desiredTokens currentTokens policy := by
  have hwindow := policy.windowPositive
  have htrigger := h.2.2
  unfold desiredTokens
  omega

/-- Below the trigger nothing is planned, and nothing is reported as corrupt. -/
theorem planCompaction_idle (h : ¬ Triggered t session currentTokens policy) :
    planCompaction payloadLength t session currentTokens policy = .ok none ∨
      ∃ error, planCompaction payloadLength t session currentTokens policy = .error error ∧
        ∀ message, error ≠ .corrupt message := by
  unfold planCompaction
  cases hrow : t.sessions.get session with
  | none => exact .inr ⟨_, rfl, fun message h => by cases h⟩
  | some row =>
    by_cases hrange : policy.contextWindowTokens * 80 + 99 ≤ U64_MAX
    · have hbelow : currentTokens < (policy.contextWindowTokens * 80 + 99) / 100 := by
        by_contra hnot
        exact h ⟨by rw [hrow]; rfl, hrange, Nat.not_lt.1 hnot⟩
      have htrigger : percentCeil policy.contextWindowTokens 80 =
          .ok ((policy.contextWindowTokens * 80 + 99) / 100) := by
        rw [percentCeil, ensure, if_pos hrange]
        rfl
      rw [htrigger]
      refine .inl ?_
      show (if _ then _ else _) = _
      rw [if_pos hbelow]
      rfl
    · have htrigger : percentCeil policy.contextWindowTokens 80 =
          .error (.invalid "compaction token threshold overflow") := by
        rw [percentCeil, ensure, if_neg hrange]
        rfl
      rw [htrigger]
      exact .inr ⟨_, rfl, fun message h => by cases h⟩

/-- At the trigger the turns are weighed and the boundary is chosen. -/
theorem planCompaction_triggered (h : Triggered t session currentTokens policy) :
    planCompaction payloadLength t session currentTokens policy =
      (weighTurns payloadLength session [] none (planRows t session)).bind fun groups =>
        (chooseBoundary (desiredTokens currentTokens policy) 0 none
          (groups.take (groups.length - policy.recentTurns))).map fun (removed, boundary) =>
            if removed < desiredTokens currentTokens policy then none
            else boundary.map fun throughSequence => {
              throughSequence
              currentTokens
              triggerTokens := (policy.contextWindowTokens * 80 + 99) / 100
              targetTokens := policy.contextWindowTokens * 50 / 100
              estimatedRemovedTokens := removed
              preservedTurns := policy.recentTurns } := by
  obtain ⟨hrow, hrange, hreached⟩ := h
  obtain ⟨row, hrow⟩ := Option.isSome_iff_exists.1 hrow
  have htrigger : percentCeil policy.contextWindowTokens 80 =
      .ok ((policy.contextWindowTokens * 80 + 99) / 100) := by
    rw [percentCeil, ensure, if_pos hrange]
    rfl
  have htarget : percentFloor policy.contextWindowTokens 50 =
      .ok (policy.contextWindowTokens * 50 / 100) := by
    rw [percentFloor, ensure, if_pos (by omega)]
    rfl
  unfold planCompaction
  rw [hrow, htrigger, htarget]
  show (if _ then _ else _) = _
  rw [if_neg (Nat.not_lt.2 hreached)]
  show (weighTurns _ _ _ _ _ >>= fun _ => _) = _
  cases weighTurns payloadLength session [] none (planRows t session) with
  | error error => rfl
  | ok groups =>
    show (chooseBoundary _ _ _ _ >>= fun _ => _) = Except.map _ _
    unfold desiredTokens
    cases chooseBoundary (currentTokens - policy.contextWindowTokens * 50 / 100) 0 none
      (groups.take (groups.length - policy.recentTurns)) with
    | error error => rfl
    | ok chosen =>
      show (if _ then _ else _) = Except.ok (if _ then _ else _)
      split <;> rfl

theorem Reaches.of_take {desired n k : Nat} {turns : List Turn} (hn : n ≤ turns.length)
    (h : Reaches payloadLength desired (turns.take n) k) :
    k ≤ n ∧ Reaches payloadLength desired turns k := by
  have hinside := h.inside
  rw [List.length_take, Nat.min_eq_left hn] at hinside
  have htake : ∀ j ≤ k, (turns.take n).take j = turns.take j := fun j hj => by
    rw [List.take_take, Nat.min_eq_left (hj.trans hinside)]
  refine ⟨hinside, h.positive, hinside.trans hn, ?_, fun j hj => ?_⟩
  · rw [← htake k (Nat.le_refl k)]
    exact h.enough
  · rw [← htake j hj.le]
    exact h.least j hj

/-- Where the rows are whole turns, the first turns that are enough are planned, if there are any
before the recent ones. -/
theorem planCompaction_turns (h : Triggered t session currentTokens policy) {turns : List Turn}
    (hturns : AreTurns turns (planRows t session))
    (hpos : ∀ e ∈ planRows t session, 0 < e.2.sequence)
    (htokens : tokensOf payloadLength (planRows t session) ≤ U64_MAX) :
    (∃ k plan, planCompaction payloadLength t session currentTokens policy = .ok (some plan) ∧
      k + policy.recentTurns ≤ turns.length ∧
      Reaches payloadLength (desiredTokens currentTokens policy) turns k ∧
      plan.throughSequence = endOf (eventsOf (turns.take k))) ∨
    (planCompaction payloadLength t session currentTokens policy = .ok none ∧
      ∀ k, k + policy.recentTurns ≤ turns.length →
        tokensOf payloadLength (eventsOf (turns.take k)) < desiredTokens currentTokens policy) := by
  have hdesired := h.desired_pos
  obtain ⟨n, hn⟩ : ∃ n, n = turns.length - policy.recentTurns := ⟨_, rfl⟩
  have hle : n ≤ turns.length := by omega
  have hinitial : tokensOf payloadLength (eventsOf (turns.take n)) ≤ U64_MAX := by
    have hsplit : eventsOf turns = eventsOf (turns.take n) ++ eventsOf (turns.drop n) := by
      rw [← eventsOf_append, List.take_append_drop]
    rw [hturns.flatten, hsplit, tokensOf_append] at htokens
    omega
  rw [planCompaction_triggered h, weighTurns_turns hturns hpos htokens]
  simp only [Except.bind, List.length_map, ← hn, ← List.map_take]
  rcases chooseBoundary_turns hdesired
    (fun turn hturn => hturns.whole turn (List.mem_of_mem_take hturn)) hinitial with
    ⟨k, hk, hchosen⟩ | ⟨hshort, boundary, hchosen⟩
  · obtain ⟨hkn, hreaches⟩ := hk.of_take hle
    have hpositive := hk.positive
    have htake : (turns.take n).take k = turns.take k := by
      rw [List.take_take, Nat.min_eq_left hkn]
    refine .inl ⟨k, {
      throughSequence := endOf (eventsOf (turns.take k))
      currentTokens
      triggerTokens := (policy.contextWindowTokens * 80 + 99) / 100
      targetTokens := policy.contextWindowTokens * 50 / 100
      estimatedRemovedTokens := tokensOf payloadLength (eventsOf (turns.take k))
      preservedTurns := policy.recentTurns }, ?_, by omega, hreaches, rfl⟩
    rw [hchosen, htake]
    simp only [Except.map]
    rw [if_neg (Nat.not_lt.2 hreaches.enough)]
    rfl
  · have htake : ∀ k ≤ n, (turns.take n).take k = turns.take k := fun k hk => by
      rw [List.take_take, Nat.min_eq_left hk]
    rw [List.length_take, Nat.min_eq_left hle] at hshort
    refine .inr ⟨?_, fun k hk => ?_⟩
    · have hall := hshort n (Nat.le_refl n)
      rw [htake n (Nat.le_refl n)] at hall
      rw [hchosen]
      simp only [Except.map]
      rw [if_pos hall]
    · have hk' := hshort k (by omega)
      rwa [htake k (by omega)] at hk'

/-! ## The rows that are read -/

theorem foldl_max_mem (numbers : List Nat) (start : Nat) :
    numbers.foldl max start = start ∨ numbers.foldl max start ∈ numbers := by
  induction numbers generalizing start with
  | nil => exact .inl rfl
  | cons n numbers ih =>
    rw [List.foldl_cons]
    rcases ih (max start n) with hstart | hmem
    · rcases Nat.le_total start n with hle | hle
      · rw [hstart, Nat.max_eq_right hle]
        exact .inr List.mem_cons_self
      · rw [hstart, Nat.max_eq_left hle]
        exact .inl rfl
    · exact .inr (List.mem_cons_of_mem _ hmem)

/-- Turns are split after an event that ends one. -/
theorem split_turns {turns : List Turn} (hwhole : ∀ turn ∈ turns, IsTurn turn.1 turn.2) {n : Nat}
    {e : Event} (he : (eventsOf turns)[n]? = some e) (hend : e.2.turnIndex + 1 = e.2.turnSize) :
    ∃ before after, turns = before ++ after ∧ (eventsOf before).length = n + 1 := by
  induction turns generalizing n with
  | nil => cases he
  | cons turn turns ih =>
    rw [eventsOf_cons] at he
    by_cases hn : n < turn.2.length
    · rw [List.getElem?_append_left hn] at he
      obtain ⟨-, hsize, hindex⟩ := (hwhole turn List.mem_cons_self).get he
      refine ⟨[turn], turns, rfl, ?_⟩
      rw [eventsOf_cons, List.length_append]
      show turn.2.length + 0 = n + 1
      omega
    · rw [List.getElem?_append_right (Nat.not_lt.1 hn)] at he
      obtain ⟨before, after, rfl, hlength⟩ := ih
        (fun other hother => hwhole other (List.mem_cons_of_mem _ hother)) he
      refine ⟨turn :: before, after, rfl, ?_⟩
      rw [eventsOf_cons, List.length_append, hlength]
      omega

/-- The events up to the last boundary are whole turns, and so are those after it. -/
theorem Compacting.uncovered (h : Compacting encoding s) (session : Uuid) :
    ∃ covered turns, AreTurns (covered ++ turns) (transcript s.tables session) ∧
      AreTurns turns (uncovered s.tables session) ∧
      effectiveAfter s.tables session = (eventsOf covered).length := by
  have ht := h.transcribed session
  obtain ⟨all, hflatten, hwhole, -⟩ := ht.turns
  have hsplit : ∃ covered turns, all = covered ++ turns ∧
      (eventsOf covered).length = effectiveAfter s.tables session := by
    rcases foldl_max_mem _ 0 with hzero | hmem
    · exact ⟨[], all, rfl, hzero.symm⟩
    · obtain ⟨⟨job, row⟩, hrow, hthrough⟩ := List.mem_map.1 hmem
      rw [List.mem_filter, Bool.and_eq_true, decide_eq_true_eq, decide_eq_true_eq] at hrow
      obtain ⟨hrow, hsession, -⟩ := hrow
      obtain ⟨e, he, hsequence, hend⟩ := h.compacted.whole job row (Table.get_eq_some.2 hrow)
      rw [hsession] at he
      obtain ⟨hpos, hget⟩ := ht.getElem?_of_mem he
      rw [hflatten] at hget
      obtain ⟨covered, turns, hall, hlength⟩ := split_turns hwhole hget hend
      refine ⟨covered, turns, hall, hlength.trans ?_⟩
      rw [Nat.sub_add_cancel hpos, hsequence]
      exact hthrough
  obtain ⟨covered, turns, rfl, hlength⟩ := hsplit
  refine ⟨covered, turns, ⟨hflatten, hwhole⟩, ⟨?_, fun turn hturn =>
    hwhole turn (List.mem_append_right _ hturn)⟩, hlength.symm⟩
  unfold Memory.uncovered
  rw [sessionEvents_eq ht, ht.filter_lt, ← hlength, hflatten]
  show (eventsOf (covered ++ turns)).drop _ = _
  rw [eventsOf_append, List.drop_left]

/-- The rows that are read are the first ones after the last boundary. -/
theorem planRows_eq (t : Tables) (session : Uuid) :
    planRows t session = (uncovered t session).take MAX_REPLAY_EVENTS := rfl

/-- The rows that are read have positive numbers that go up. -/
theorem Compacting.planRows (h : Compacting encoding s) (session : Uuid) :
    (∀ e ∈ planRows s.tables session, 0 < e.2.sequence) ∧
      (planRows s.tables session).Pairwise fun a b => a.2.sequence < b.2.sequence := by
  have ht := h.transcribed session
  have hsub : (Memory.planRows s.tables session).Sublist (transcript s.tables session) := by
    rw [planRows_eq, Memory.uncovered, sessionEvents_eq ht]
    exact (List.take_sublist _ _).trans List.filter_sublist
  exact ⟨fun e he => (ht.getElem?_of_mem (hsub.subset he)).1, ht.pairwise.sublist hsub⟩

/-- Their estimate is in range: a payload has no more characters than bytes. -/
theorem Stored.planRows (h : Stored encoding t) {payloadLength : Payload → Nat}
    (hlength : ∀ payload, payloadLength payload ≤ encoding.jsonBytes payload) (session : Uuid) :
    tokensOf payloadLength (planRows t session) ≤ U64_MAX := by
  have hmem : ∀ e ∈ Memory.planRows t session, e ∈ t.events.entries := fun e he =>
    (Table.mem_select.1 (List.mem_of_mem_take he)).1
  have hcount : (Memory.planRows t session).length ≤ MAX_REPLAY_EVENTS := by
    rw [planRows_eq, List.length_take]
    exact Nat.min_le_left _ _
  have hsum : tokensOf payloadLength (Memory.planRows t session) ≤
      (Memory.planRows t session).length * MAX_EVENT_BYTES := by
    refine (List.sum_le_card_nsmul _ MAX_EVENT_BYTES fun n hn => ?_).trans
      (le_of_eq (by rw [List.length_map]; rfl))
    obtain ⟨e, he, rfl⟩ := List.mem_map.1 hn
    have hbytes := (h e (hmem e he)).1
    have hpayload := hlength e.2.payload
    unfold eventTokens
    simp only [TOKEN_BYTES, MAX_EVENT_BYTES] at hbytes ⊢
    omega
  calc
    tokensOf payloadLength (Memory.planRows t session)
      ≤ (Memory.planRows t session).length * MAX_EVENT_BYTES := hsum
    _ ≤ MAX_REPLAY_EVENTS * MAX_EVENT_BYTES := Nat.mul_le_mul_right _ hcount
    _ ≤ U64_MAX := by decide

/-! ## Agreement -/

theorem endOf_mem {events : List Event} (h : events ≠ []) :
    ∃ e, events.getLast? = some e ∧ endOf events = e.2.sequence := by
  refine ⟨events.getLast h, List.getLast?_eq_some_getLast h, ?_⟩
  unfold endOf
  rw [List.getLast?_eq_some_getLast h]
  rfl

/-- Of numbers that go up, those of a prefix end before those of a longer one. -/
theorem endOf_le {events more : List Event}
    (h : (events ++ more).Pairwise fun a b => a.2.sequence < b.2.sequence) (hne : events ≠ []) :
    endOf events ≤ endOf (events ++ more) := by
  cases more with
  | nil => rw [List.append_nil]
  | cons next more =>
    obtain ⟨e, he, hend⟩ := endOf_mem hne
    obtain ⟨last, hlast, hend'⟩ := endOf_mem (List.cons_ne_nil next more)
    rw [endOf_append (List.cons_ne_nil next more), hend, hend']
    exact ((List.pairwise_append.1 h).2.2 e (List.mem_of_getLast? he) last
      (List.mem_of_getLast? hlast)).le

section agreement

variable (encoding) (t) (session) (payloadLength) (currentTokens) (policy)

/-- Planning agrees with queueing.
* A plan is the first whole turns after the last boundary that are enough, before the recent ones.
* It is queued at once.
* Nothing is reported as corrupt. -/
structure Agrees : Prop where
  planned : ∀ plan, planCompaction payloadLength t session currentTokens policy = .ok (some plan) →
    ∃ turns k, Planned payloadLength currentTokens policy t session plan turns k
  queued : ∀ plan, planCompaction payloadLength t session currentTokens policy = .ok (some plan) →
    ∀ id now, t.compactions.rows.get id = none → ∃ job,
      (queueCompactionIfNeeded payloadLength encoding t session currentTokens policy id now).1 =
        .ok (some (plan, job)) ∧
      job.sessionId = session ∧ job.throughSequence = plan.throughSequence
  uncorrupt : ∀ message,
    planCompaction payloadLength t session currentTokens policy ≠ .error (.corrupt message)

/-- Where a plan is asked for, the rows that are read end with a turn, and turns that end before the
last summary are not enough or are recent. -/
def Plannable : Prop :=
  Triggered t session currentTokens policy →
    ∃ turns rest, AreTurns (turns ++ rest) (uncovered t session) ∧
      planRows t session = eventsOf turns ∧
      ∀ k, 0 < k → k + policy.recentTurns ≤ turns.length →
        endOf (eventsOf (turns.take k)) < priorSummarySequence t session →
        tokensOf payloadLength (eventsOf (turns.take k)) < desiredTokens currentTokens policy

end agreement

/-- The plan is queued, or the queue's error is the result. -/
theorem queueCompactionIfNeeded_planned {plan : CompactionPlan}
    (h : planCompaction payloadLength t session currentTokens policy = .ok (some plan)) (id : Uuid)
    (now : Time) :
    (queueCompactionIfNeeded payloadLength encoding t session currentTokens policy id now).1 =
      (queueCompaction encoding t session plan.throughSequence id now).1.map
        fun job => some (plan, job) := by
  unfold queueCompactionIfNeeded
  rw [h]

/-- The end of some of the turns after a boundary is a boundary. -/
theorem boundary_of_take {covered turns : List Turn} {k : Nat}
    (hall : AreTurns (covered ++ turns) (transcript t session))
    (ht : Transcript (transcript t session)) (hpositive : 0 < k) (hinside : k ≤ turns.length) :
    Boundary t session (endOf (eventsOf (turns.take k))) (covered ++ turns.take k)
      (turns.drop k) := by
  have htake : turns.take k ≠ [] := by
    rw [← List.length_pos_iff, List.length_take, Nat.min_eq_left hinside]
    exact hpositive
  have hne : eventsOf (turns.take k) ≠ [] := eventsOf_ne_nil (fun turn hturn =>
    hall.whole turn (List.mem_append_right _ (List.mem_of_mem_take hturn))) htake
  refine ⟨?_, ?_, fun hnil => htake (List.append_eq_nil_iff.1 hnil).2⟩
  · rwa [List.append_assoc, List.take_append_drop]
  · obtain ⟨e, he, hend⟩ := endOf_mem hne
    have hlength : 0 < (eventsOf (turns.take k)).length := List.length_pos_iff.2 hne
    rw [List.getLast?_eq_getElem?] at he
    have hget : (transcript t session)[(eventsOf covered).length +
        ((eventsOf (turns.take k)).length - 1)]? = some e := by
      rw [hall.flatten, ← List.take_append_drop k turns, eventsOf_append, eventsOf_append,
        List.getElem?_append_right (Nat.le_add_right _ _), Nat.add_sub_cancel_left,
        List.getElem?_append_left (by rw [List.take_append_drop]; omega), List.take_append_drop]
      exact he
    have hsequence := ht.sequence_of_get hget
    rw [hend, hsequence, eventsOf_append, List.length_append]
    omega

/-- A boundary after the last summary is queued. -/
theorem Compacting.accepts (h : Compacting encoding s) (hstored : Stored encoding s.tables)
    (hidle : ∀ job row, s.tables.compactions.rows.get job = some row → row.sessionId = session →
      row.active = false) {turns : List Turn}
    (hturns : AreTurns turns (Memory.uncovered s.tables session)) {k : Nat} (hpositive : 0 < k)
    (hinside : k ≤ turns.length)
    (hprior : priorSummarySequence s.tables session ≤ endOf (eventsOf (turns.take k))) {id : Uuid}
    (hfree : s.tables.compactions.rows.get id = none) (now : Time) :
    ∃ job, (queueCompaction encoding s.tables session (endOf (eventsOf (turns.take k))) id now).1 =
      .ok job ∧ job.sessionId = session ∧
      job.throughSequence = endOf (eventsOf (turns.take k)) := by
  have ht := h.transcribed session
  obtain ⟨covered, others, hall, hothers, -⟩ := h.uncovered session
  have hsame : AreTurns (covered ++ turns) (transcript s.tables session) := by
    refine ⟨?_, fun turn hturn => ?_⟩
    · rw [hall.flatten, eventsOf_append, eventsOf_append, ← hothers.flatten, ← hturns.flatten]
    · rcases List.mem_append.1 hturn with hturn | hturn
      · exact hall.whole turn (List.mem_append_left _ hturn)
      · exact hturns.whole turn hturn
  have hboundary := boundary_of_take hsame ht hpositive hinside
  obtain ⟨e, he, -, hsequence, -⟩ := hboundary.last ht
  have hrange := (hstored e (List.mem_filter.1 he).1).2
  exact queueCompaction_accepts h.consistent.compactions ht hboundary (hsequence ▸ hrange) hidle
    hprior hfree now

/-- The rows that are read end with a turn, or the turn in which they end is reported. -/
theorem Compacting.reads (h : Compacting encoding s) (hstored : Stored encoding s.tables)
    (hlength : ∀ payload, payloadLength payload ≤ encoding.jsonBytes payload)
    (htrigger : Triggered s.tables session currentTokens policy)
    (huncorrupt : ∀ message, planCompaction payloadLength s.tables session currentTokens policy ≠
      .error (.corrupt message)) :
    ∃ turns rest, AreTurns (turns ++ rest) (Memory.uncovered s.tables session) ∧
      Memory.planRows s.tables session = eventsOf turns := by
  obtain ⟨-, all, -, hall, -⟩ := h.uncovered session
  obtain ⟨turns, rest, tail, rfl, htake, hend⟩ := eventsOf_take all MAX_REPLAY_EVENTS
  have hrows : Memory.planRows s.tables session = eventsOf turns ++ tail := by
    rw [planRows_eq, hall.flatten, htake]
  rcases hend with rfl | ⟨turn, hturn, hne, hshort, hinitial⟩
  · exact ⟨turns, rest, hall, by rw [hrows, List.append_nil]⟩
  · have hevents : ∀ e ∈ eventsOf turns ++ turn.2, 0 < e.2.sequence := by
      intro e he
      have hmem : e ∈ Memory.uncovered s.tables session := by
        rw [hall.flatten, eventsOf_append]
        rcases List.mem_append.1 he with he | he
        · exact List.mem_append_left _ he
        · exact List.mem_append_right _
            (List.mem_flatten.2 ⟨turn.2, List.mem_map_of_mem hturn, he⟩)
      rw [Memory.uncovered, sessionEvents_eq (h.transcribed session)] at hmem
      exact ((h.transcribed session).getElem?_of_mem (List.mem_filter.1 hmem).1).1
    have htokens := hstored.planRows hlength session
    rw [hrows] at htokens
    have hpartial : weighTurns payloadLength session [] none (eventsOf turns ++ tail) =
        .error (.corrupt s!"session {session} ends inside atomic turn {turn.1}") :=
      weighTurns_partial (fun other hother => hall.whole other (List.mem_append_left _ hother))
        (hall.whole turn (List.mem_append_right _ hturn)) hne hshort hinitial hevents htokens
    refine absurd ?_ (huncorrupt s!"session {session} ends inside atomic turn {turn.1}")
    rw [planCompaction_triggered htrigger, hrows, hpartial]
    rfl

/-- There is an identifier that no job has. -/
theorem exists_free (table : Table Uuid (JobRow Uuid)) : ∃ id, table.get id = none := by
  refine ⟨(table.entries.map Prod.fst).foldl max 0 + 1, Table.get_eq_none.2 fun hmem => ?_⟩
  have hle : (table.entries.map Prod.fst).foldl max 0 + 1 ≤
      (table.entries.map Prod.fst).foldl max 0 := le_foldl_max (.inl hmem)
  exact Nat.not_succ_le_self _ hle

/-- Where nothing is planned there is nothing to agree on. -/
theorem agrees_of_none
    (h : planCompaction payloadLength t session currentTokens policy = .ok none) :
    Agrees encoding t session payloadLength currentTokens policy := by
  constructor
  · intro plan hplan
    cases h.symm.trans hplan
  · intro plan hplan
    cases h.symm.trans hplan
  · intro message hcorrupt
    cases h.symm.trans hcorrupt

/-- A plan that is queued ends after the last summary, and so do all turns that are enough. -/
theorem Agrees.plannable (hagrees : Agrees encoding s.tables session payloadLength currentTokens
    policy) (hs : Compacting encoding s) (hstored : Stored encoding s.tables)
    (hlength : ∀ payload, payloadLength payload ≤ encoding.jsonBytes payload) :
    Plannable s.tables session payloadLength currentTokens policy := by
  intro htrigger
  obtain ⟨hpos, hpairwise⟩ := hs.planRows session
  obtain ⟨turns, rest, hturns, hrows⟩ := hs.reads hstored hlength htrigger hagrees.uncorrupt
  refine ⟨turns, rest, hturns, hrows, fun k hk hrecent hbefore => ?_⟩
  have hread : AreTurns turns (planRows s.tables session) :=
    ⟨hrows, fun turn hturn => hturns.whole turn (List.mem_append_left _ hturn)⟩
  rcases planCompaction_turns htrigger hread hpos (hstored.planRows hlength session) with
    ⟨j, plan, hplan, -, hreaches, hthrough⟩ | ⟨-, hshort⟩
  · by_contra hnot
    have hjk : j ≤ k := by
      by_contra hlt
      exact hnot (hreaches.least k (Nat.not_le.1 hlt))
    have hend : endOf (eventsOf (turns.take j)) ≤ endOf (eventsOf (turns.take k)) := by
      have htake : turns.take k = turns.take j ++ (turns.take k).drop j := by
        conv_lhs => rw [← List.take_append_drop j (turns.take k), List.take_take,
          Nat.min_eq_left hjk]
      have hinitial : (eventsOf (turns.take k)).Sublist (planRows s.tables session) := by
        rw [hrows]
        conv_rhs => rw [← List.take_append_drop k turns, eventsOf_append]
        exact List.sublist_append_left _ _
      have hsorted := hpairwise.sublist hinitial
      rw [htake, eventsOf_append] at hsorted ⊢
      refine endOf_le hsorted (eventsOf_ne_nil (fun turn hturn =>
        hread.whole turn (List.mem_of_mem_take hturn)) ?_)
      rw [← List.length_pos_iff, List.length_take, Nat.min_eq_left hreaches.inside]
      exact hreaches.positive
    -- the plan ends before the last summary, so the queue refuses it
    obtain ⟨id, hfree⟩ := exists_free s.tables.compactions.rows
    obtain ⟨job, hqueued, -⟩ := hagrees.queued plan hplan id 0 hfree
    rw [queueCompactionIfNeeded_planned hplan, hthrough] at hqueued
    cases hcall : (queueCompaction encoding s.tables session
        (endOf (eventsOf (turns.take j))) id 0).1 with
    | error error =>
      rw [hcall] at hqueued
      cases hqueued
    | ok job => exact queueCompaction_refuses (hend.trans_lt hbefore) id 0 job hcall
  · exact hshort k hrecent

/-- Where the first turns that are enough end after the last summary, their plan is queued. -/
theorem Plannable.agrees (hplannable : Plannable s.tables session payloadLength currentTokens policy)
    (hs : Compacting encoding s) (hstored : Stored encoding s.tables)
    (hidle : ∀ job row, s.tables.compactions.rows.get job = some row → row.sessionId = session →
      row.active = false)
    (hlength : ∀ payload, payloadLength payload ≤ encoding.jsonBytes payload)
    (htrigger : Triggered s.tables session currentTokens policy) :
    Agrees encoding s.tables session payloadLength currentTokens policy := by
  obtain ⟨turns, rest, hturns, hrows, hprior⟩ := hplannable htrigger
  have hread : AreTurns turns (planRows s.tables session) :=
    ⟨hrows, fun turn hturn => hturns.whole turn (List.mem_append_left _ hturn)⟩
  rcases planCompaction_turns htrigger hread (hs.planRows session).1
    (hstored.planRows hlength session) with
    ⟨k, plan, hplan, hrecent, hreaches, hthrough⟩ | ⟨hnone, -⟩
  · have hmore : turns.length ≤ (turns ++ rest).length := by
      rw [List.length_append]
      exact Nat.le_add_right _ _
    have htake : (turns ++ rest).take k = turns.take k :=
      List.take_append_of_le_length hreaches.inside
    have hcovers : priorSummarySequence s.tables session ≤
        endOf (eventsOf ((turns ++ rest).take k)) := by
      rw [htake]
      by_contra hbefore
      have hshort := hprior k hreaches.positive hrecent (Nat.not_le.1 hbefore)
      exact absurd hreaches.enough (Nat.not_le.2 hshort)
    constructor
    · intro plan' hplan'
      cases hplan.symm.trans hplan'
      have hreaches' : Reaches payloadLength (desiredTokens currentTokens policy)
          ((turns ++ rest).take turns.length) k := by rwa [List.take_left]
      exact ⟨turns ++ rest, k, hturns, hrecent.trans hmore, (hreaches'.of_take hmore).2,
        by rw [hthrough, htake]⟩
    · intro plan' hplan' id now hfree
      cases hplan.symm.trans hplan'
      obtain ⟨job, hjob, hsession, hboundary⟩ := hs.accepts hstored hidle hturns
        hreaches.positive (hreaches.inside.trans hmore) hcovers hfree now
      rw [htake, ← hthrough] at hjob hboundary
      exact ⟨job, by rw [queueCompactionIfNeeded_planned hplan, hjob]; rfl, hsession, hboundary⟩
    · intro message hcorrupt
      cases hplan.symm.trans hcorrupt
  · exact agrees_of_none hnone

/-- **Planning agrees with queueing** in the states of a run where no compaction of the Session is
active exactly where the rows that are read end with a turn and no turns that end before the last
summary are enough. -/
theorem plan_agrees_iff {actions : List Action}
    (h : Machine.Run (step encoding) Reopens State.initial actions s)
    (hidle : ∀ job row, s.tables.compactions.rows.get job = some row → row.sessionId = session →
      row.active = false)
    (hlength : ∀ payload, payloadLength payload ≤ encoding.jsonBytes payload) :
    Agrees encoding s.tables session payloadLength currentTokens policy ↔
      Plannable s.tables session payloadLength currentTokens policy := by
  have hs := compacting_of_run h
  have hstored := stored_of_run h
  refine ⟨fun hagrees => hagrees.plannable hs hstored hlength, fun hplannable => ?_⟩
  by_cases htrigger : Triggered s.tables session currentTokens policy
  · exact hplannable.agrees hs hstored hidle hlength htrigger
  · rcases planCompaction_idle htrigger with hnone | ⟨error, herror, huncorrupt⟩
    · exact agrees_of_none hnone
    · constructor
      · intro plan hplan
        cases herror.symm.trans hplan
      · intro plan hplan
        cases herror.symm.trans hplan
      · intro message hcorrupt
        cases herror.symm.trans hcorrupt
        exact huncorrupt message rfl

/-- A window of one token, and one turn that stays. -/
def tinyPolicy : CompactionPolicy := ⟨1, 1, by decide, by decide⟩

/-- Two turns, and nothing is compacted. -/
def plainTurns : List Action :=
  [.startSession 1 ⟨"/work", ⟨0, 0⟩⟩ 0, .claimSession 1 ⟨"/work", ⟨0, 0⟩⟩ 2 0,
    .appendTurn 2 ⟨0, 0⟩ [(4, ⟨.userMessage, "1"⟩)] 3 0,
    .appendTurn 2 ⟨0, 0⟩ [(6, ⟨.userMessage, "2"⟩)] 5 0, .releaseSession 2]

theorem runs_reopen {actions : List Action} (hrun : Machine.run (step encoding) s actions = some s')
    (h : ∀ action ∈ actions, ∀ id now, action ≠ .retryFailedJob id now) :
    Machine.Run (step encoding) Reopens s actions s' := by
  refine .of_run hrun fun action haction s => ?_
  cases action with
  | retryFailedJob id now => exact absurd rfl (h _ haction id now)
  | _ => trivial

theorem plan_agrees_plain : ∃ s, Machine.Run (step byteEncoding) Reopens State.initial plainTurns s ∧
    Agrees byteEncoding s.tables 1 (fun _ => 1) 1 tinyPolicy := by
  have hplain : (Machine.run (step byteEncoding) State.initial plainTurns).map (fun s =>
      ((planCompaction (fun _ => 1) s.tables 1 1 tinyPolicy).isOk,
        s.tables.compactions.rows.entries.isEmpty, priorSummarySequence s.tables 1,
        (s.tables.sessions.get 1).isSome)) = some (true, true, 0, true) := by
    decide +kernel
  obtain ⟨s, hs, hfacts⟩ := Option.map_eq_some_iff.1 hplain
  simp only [Prod.mk.injEq] at hfacts
  obtain ⟨hplanned, hempty, hprior, hsession⟩ := hfacts
  have hrun : Machine.Run (step byteEncoding) Reopens State.initial plainTurns s :=
    runs_reopen hs (by simp [plainTurns])
  have hnone : ∀ job, s.tables.compactions.rows.get job = none := by
    intro job
    rw [Table.get_eq_none, List.isEmpty_iff.1 hempty]
    exact List.not_mem_nil
  refine ⟨s, hrun, (plan_agrees_iff hrun (fun job row hrow => ?_) fun _ => Nat.le_refl 1).2 ?_⟩
  · rw [hnone job] at hrow
    cases hrow
  · intro htrigger
    obtain ⟨turns, rest, hturns, hrows⟩ := (compacting_of_run hrun).reads (stored_of_run hrun)
      (fun _ => Nat.le_refl 1) htrigger fun message hcorrupt => by
        rw [hcorrupt] at hplanned
        cases hplanned
    refine ⟨turns, rest, hturns, hrows, fun k _ _ hbefore => ?_⟩
    rw [hprior] at hbefore
    exact absurd hbefore (Nat.not_lt_zero _)

/-- Two turns, the first of which is compacted: its summary comes after the second, and a plan that
leaves the last turn ends before the summary. -/
theorem plan_before_summary : ∃ s, Machine.Run (step byteEncoding) Reopens State.initial
    (plainTurns ++ [.queueCompaction 1 1 7 0, .claimCompaction 8 0,
      .completeCompaction 8 "first" 9 0]) s ∧
    (∀ job row, s.tables.compactions.rows.get job = some row → row.active = false) ∧
    ¬ Agrees byteEncoding s.tables 1 (fun _ => 1) 1 tinyPolicy := by
  have hplanned : (Machine.run (step byteEncoding) State.initial (plainTurns ++
      [.queueCompaction 1 1 7 0, .claimCompaction 8 0, .completeCompaction 8 "first" 9 0])).map
      (fun s => (s.tables.compactions.rows.entries.all fun e => !e.2.active,
        planCompaction (fun _ => 1) s.tables 1 1 tinyPolicy,
        (queueCompactionIfNeeded (fun _ => 1) byteEncoding s.tables 1 1 tinyPolicy 10 0).1.isOk,
        s.tables.compactions.rows.get 10)) =
      some (true, .ok (some ⟨2, 1, 1, 0, 1, 1⟩), false, none) := by
    decide +kernel
  obtain ⟨s, hs, hfacts⟩ := Option.map_eq_some_iff.1 hplanned
  simp only [Prod.mk.injEq] at hfacts
  obtain ⟨hall, hplan, hrefused, hfree⟩ := hfacts
  refine ⟨s, runs_reopen hs (by simp [plainTurns]), fun job row hrow => ?_, fun hagrees => ?_⟩
  · simpa using List.all_eq_true.1 hall _ (Table.get_eq_some.1 hrow)
  · obtain ⟨job, hqueued, -⟩ := hagrees.queued _ hplan 10 0 hfree
    rw [hqueued] at hrefused
    cases hrefused

end Memory

end Emelex

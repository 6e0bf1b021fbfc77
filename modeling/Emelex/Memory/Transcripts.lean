import Emelex.Memory.Calls

/-!
# The transcripts of Sessions

The events of a Session are numbered from 1 without gaps, and they are whole turns: the events of a
turn stand together, in their order, and no turn has the identifier of another.

* `transcript` — the events of a Session as they were inserted.
* `IsTurn`, `Turns`, `Transcript` — a turn, a list of them, and a transcript that is made of them.
* `Extends` — what a call adds to a transcript: a turn under a lease, or the summary of a compaction.

Principal results: `lastEventSequence_eq`, `Effect.extends`, `transcribed_of_run`.
-/

set_option autoImplicit false

namespace Emelex

namespace Memory

variable {encoding : Encoding} {s s' : State} {action : Action} {t t' : Tables}

/-- The events of a Session, as they were inserted. -/
def transcript (t : Tables) (session : Uuid) : List (Uuid × SessionEvent) :=
  t.events.entries.filter fun e => e.2.sessionId = session

/-- The events of one turn, whole and in order. -/
structure IsTurn (turnId : Uuid) (turn : List (Uuid × SessionEvent)) : Prop where
  nonempty : turn ≠ []
  whole : turn.map (fun e => (e.2.turnId, e.2.turnSize, e.2.turnIndex)) =
    (List.range turn.length).map fun i => (turnId, turn.length, i)

/-- Events that are these turns, one after the other. -/
structure Turns (turns : List (Uuid × List (Uuid × SessionEvent)))
    (events : List (Uuid × SessionEvent)) : Prop where
  flatten : events = (turns.map Prod.snd).flatten
  whole : ∀ turn ∈ turns, IsTurn turn.1 turn.2
  distinct : (turns.map Prod.fst).Nodup

/-- Events that are numbered from 1 without gaps and are whole turns. -/
structure Transcript (events : List (Uuid × SessionEvent)) : Prop where
  sequences : events.map (·.2.sequence) = List.range' 1 events.length
  turns : ∃ turns, Turns turns events

namespace IsTurn

variable {turnId : Uuid} {turn : List (Uuid × SessionEvent)}

theorem turnId_of_mem (h : IsTurn turnId turn) {e : Uuid × SessionEvent} (he : e ∈ turn) :
    e.2.turnId = turnId := by
  have hmem : (e.2.turnId, e.2.turnSize, e.2.turnIndex) ∈
      turn.map fun e => (e.2.turnId, e.2.turnSize, e.2.turnIndex) := List.mem_map.2 ⟨e, he, rfl⟩
  rw [h.whole] at hmem
  obtain ⟨_, _, heq⟩ := List.mem_map.1 hmem
  exact (congrArg Prod.fst heq).symm

/-- A turn has an event with its identifier. -/
theorem exists_mem (h : IsTurn turnId turn) : ∃ e ∈ turn, e.2.turnId = turnId := by
  obtain ⟨e, he⟩ := List.exists_mem_of_ne_nil turn h.nonempty
  exact ⟨e, he, h.turnId_of_mem he⟩

end IsTurn

namespace Transcript

theorem nil : Transcript [] := ⟨rfl, [], rfl, by simp, by simp⟩

variable {events turn : List (Uuid × SessionEvent)} {turnId : Uuid}

/-- A transcript goes on with a turn whose identifier is new. -/
theorem append (h : Transcript events) (hturn : IsTurn turnId turn)
    (hsequences : turn.map (·.2.sequence) = List.range' (events.length + 1) turn.length)
    (hnew : ∀ e ∈ events, e.2.turnId ≠ turnId) : Transcript (events ++ turn) := by
  obtain ⟨hseq, turns, hflatten, hwhole, hdistinct⟩ := h
  refine ⟨?_, turns ++ [(turnId, turn)], ?_, ?_, ?_⟩
  · rw [List.map_append, hseq, hsequences, List.length_append, Nat.add_comm events.length 1,
      List.range'_append_1]
  · simp [hflatten]
  · simp only [List.mem_append, List.mem_singleton]
    rintro other (hother | rfl)
    · exact hwhole other hother
    · exact hturn
  · rw [List.map_append, List.map_singleton]
    refine hdistinct.append (List.nodup_singleton _) ?_
    simp only [List.disjoint_singleton]
    intro hmem
    obtain ⟨other, hother, heq⟩ := List.mem_map.1 hmem
    obtain ⟨e, he, hid⟩ := (hwhole other hother).exists_mem
    refine hnew e ?_ (hid.trans heq)
    rw [hflatten]
    exact List.mem_flatten.2 ⟨other.2, List.mem_map.2 ⟨other, hother, rfl⟩, he⟩

/-- The last number of a transcript is its length. -/
theorem foldl_max (h : Transcript events) :
    (events.map (·.2.sequence)).foldl max 0 = events.length := by
  rw [h.sequences]
  induction events.length with
  | zero => rfl
  | succ n ih =>
    rw [List.range'_1_concat, List.foldl_append, ih]
    simp only [List.foldl_cons, List.foldl_nil]
    omega

/-- The numbers of a transcript go up. -/
theorem pairwise (h : Transcript events) :
    events.Pairwise fun a b => a.2.sequence < b.2.sequence := by
  have hsorted := List.pairwise_lt_range' (s := 1) (n := events.length)
  rw [← h.sequences, List.pairwise_map] at hsorted
  exact hsorted

end Transcript

/-- `last_event_sequence` is the length of the transcript. -/
theorem lastEventSequence_eq {session : Uuid} (h : Transcript (transcript t session)) :
    lastEventSequence t session = (transcript t session).length := h.foldl_max

/-- Events selected from a transcript are in the order of their insertion. -/
theorem sessionEvents_eq {session : Uuid} {p : Uuid → SessionEvent → Bool}
    (h : Transcript (transcript t session)) :
    sessionEvents t session p = (transcript t session).filter fun e => p e.1 e.2 := by
  have hfilter : (t.events.entries.filter fun e => e.2.sessionId = session && p e.1 e.2) =
      (transcript t session).filter fun e => p e.1 e.2 := by
    simp only [transcript, List.filter_filter, Bool.and_comm]
  unfold sessionEvents
  rw [Table.select_of_pairwise, hfilter]
  rw [hfilter]
  exact (h.pairwise.filter _).imp fun hlt => decide_eq_true hlt.le

/-! ## What a call adds -/

section rows

variable {session turnId : Uuid} {current : Nat} {now : Time}
  {events : List (Uuid × SessionEventInput)}

theorem turnRows_length (size offset : Nat) :
    (turnRows session turnId size current now offset events).length = events.length := by
  simp [turnRows]

theorem turnRows_sessionId {size offset : Nat} {e : Uuid × SessionEvent}
    (he : e ∈ turnRows session turnId size current now offset events) :
    e.2.sessionId = session ∧ ∃ input ∈ events, e.2.kind = input.2.kind := by
  obtain ⟨input, hinput, rfl⟩ := List.mem_map.1 he
  exact ⟨rfl, input.1, List.fst_mem_of_mem_zipIdx hinput, rfl⟩

/-- The rows of an append are one turn. -/
theorem turnRows_isTurn (hne : events ≠ []) :
    IsTurn turnId (turnRows session turnId events.length current now 0 events) where
  nonempty := by
    rw [← List.length_pos_iff, turnRows_length]
    exact List.length_pos_iff.2 hne
  whole := by
    rw [turnRows_length]
    simp only [turnRows, List.map_map, Function.comp_def, turnRow]
    rw [List.range_eq_range', ← List.zipIdx_map_snd 0 events, List.map_map]
    rfl

/-- The rows of an append have the numbers after the tail. -/
theorem turnRows_sequences : (turnRows session turnId events.length current now 0 events).map
    (·.2.sequence) = List.range' (current + 1) events.length := by
  simp only [turnRows, List.map_map, Function.comp_def, turnRow]
  rw [show (fun e : (Uuid × SessionEventInput) × Nat => current + (e.2 + 1)) =
    (fun i => current + 1 + i) ∘ Prod.snd from funext fun e => by simp only [Function.comp]; omega]
  rw [← List.map_map, List.zipIdx_map_snd, List.map_add_range', Nat.add_zero]

theorem summaryRow_isTurn {job : Job} {summary : String} {eventId : Uuid} :
    IsTurn eventId [(eventId, summaryRow t session eventId job summary now)] where
  nonempty := List.cons_ne_nil _ _
  whole := rfl

end rows

/-- What a call adds to the transcript of a Session. -/
inductive Extends (encoding : Encoding) (s : State) (session : Uuid) :
    Action → List (Uuid × SessionEvent) → Prop
  | turn {token turnId : Uuid} {actual : WorkspaceIdentity}
    {events : List (Uuid × SessionEventInput)} {now deadline : Time} {lease : SessionLease}
    {row : SessionRow} (hlease : s.leases token = some lease) (hsession : lease.session.id = session)
    (hrow : s.tables.sessions.get session = some row)
    (htoken : row.executionToken = some lease.token)
    (hdeadline : row.executionLeaseUntil = some deadline) (hlive : now < deadline)
    (htail : lease.lastSequence = lastEventSequence s.tables session) (hne : events ≠ [])
    (hkinds : ∀ event ∈ events, event.2.kind ≠ .summary) :
    Extends encoding s session (.appendTurn token actual events turnId now)
      (turnRows session turnId events.length lease.lastSequence now 0 events)
  | summary {token eventId : Uuid} {summary : String} {now : Time} {lease : JobLease}
    {job : JobRow Uuid} {row : SessionRow} (hlease : s.compactionLeases token = some lease)
    (hjob : s.tables.compactions.rows.get lease.job.id = some job)
    (hheld : job.held lease.token = true) (hsession : job.sessionId = session)
    (hrow : s.tables.sessions.get session = some row)
    (hidle : row.executionLeaseUntil.all (· ≤ now) = true) :
    Extends encoding s session (.completeCompaction token summary eventId now)
      [(eventId, summaryRow s.tables session eventId lease.job summary now)]

/-- Events of one Session that are inserted are added to its transcript and to no other. -/
theorem transcript_append {owner : Uuid} {turn : List (Uuid × SessionEvent)}
    (h : t'.events.entries = t.events.entries ++ turn) (hturn : ∀ e ∈ turn, e.2.sessionId = owner)
    (session : Uuid) : transcript t' session =
      transcript t session ++ if owner = session then turn else [] := by
  simp only [transcript, h, List.filter_append]
  congr 1
  split
  · rename_i howner
    exact List.filter_eq_self.2 fun e he => decide_eq_true ((hturn e he).trans howner)
  · rename_i howner
    refine List.filter_eq_nil_iff.2 fun e he => ?_
    simpa [hturn e he] using howner

/-- Only an append and a completed compaction change a transcript. -/
theorem Effect.extends (h : Effect encoding s action t') (session : Uuid) :
    transcript t' session = transcript s.tables session ∨
      ∃ turn, Extends encoding s session action turn ∧
        transcript t' session = transcript s.tables session ++ turn := by
  cases h with
  | none | started | claimed | renewed | released | compactions | distillations
  | queuedCompaction | queuedDistillation | retriedCompaction | retriedDistillation
  | maintained => exact .inl rfl
  | distilled _ hdistilled =>
    rw [hdistilled.frame]
    exact .inl rfl
  | @appended token turnId actual events now deadline lease call row hlease happended =>
    rw [transcript_append happended.events (fun e he => (turnRows_sessionId he).1) session]
    split
    · rename_i hsession
      refine .inr ⟨_, .turn hlease hsession (hsession ▸ happended.stored) happended.token
        happended.deadline happended.live (hsession ▸ happended.tail) happended.nonempty
        happended.notSummary, ?_⟩
      rw [hsession]
    · exact .inl (List.append_nil _)
  | @summarized token eventId summary now lease job row t' hlease hsummarized =>
    have hsessionId : ∀ e ∈ [(eventId, summaryRow s.tables job.sessionId eventId lease.job summary
        now)], e.2.sessionId = job.sessionId := by simp [summaryRow]
    rw [transcript_append hsummarized.events hsessionId session]
    split
    · rename_i hsession
      refine .inr ⟨_, .summary hlease hsummarized.stored hsummarized.held hsession
        (hsession ▸ hsummarized.bound) hsummarized.idle, ?_⟩
      rw [hsession]
    · exact .inl (List.append_nil _)

/-- What a call adds is a turn with a new identifier, numbered from the tail on. -/
theorem Extends.isTurn {session : Uuid} {turn : List (Uuid × SessionEvent)}
    (h : Extends encoding s session action turn)
    (ht : Transcript (transcript s.tables session)) :
    ∃ turnId ∈ action.mints, IsTurn turnId turn ∧ turn.map (·.2.sequence) =
      List.range' ((transcript s.tables session).length + 1) turn.length := by
  cases h with
  | turn _ _ _ _ _ _ htail hne =>
    refine ⟨_, List.mem_cons_self, turnRows_isTurn hne, ?_⟩
    rw [turnRows_sequences, turnRows_length, htail, lastEventSequence_eq ht]
  | summary =>
    refine ⟨_, List.mem_cons_self, summaryRow_isTurn, ?_⟩
    simp [summaryRow, lastEventSequence_eq ht]

/-- The transcript of every Session is numbered from 1 without gaps and made of whole turns. -/
def Transcribed (s : State) : Prop := ∀ session, Transcript (transcript s.tables session)

theorem Transcribed.call {result : Except MemoryError Unit} (hs : Consistent s)
    (ht : Transcribed s) (h : call encoding s action = some (result, s')) : Transcribed s' := by
  intro session
  have hcalled := call_cases hs h
  refine hcalled.tables (P := fun t => Transcript (transcript t session)) (ht session)
    fun t' heffect => ?_
  obtain hsame | ⟨turn, hextends, happend⟩ := heffect.extends session
  · rw [hsame]
    exact ht session
  · obtain ⟨turnId, hminted, hturn, hsequences⟩ := hextends.isTurn (ht session)
    rw [happend]
    refine (ht session).append hturn hsequences fun e he heq => ?_
    have hmem := Table.get_eq_some.2 (List.mem_filter.1 he).1
    exact hcalled.new turnId hminted (heq ▸ hs.issued.turns e.1 e.2 hmem)

theorem transcribed_of_run {ok : State → Action → Prop} {actions : List Action}
    (h : Machine.Run (step encoding) ok State.initial actions s) : Transcribed s := by
  refine (h.invariant (I := fun s => Consistent s ∧ Transcribed s) ?_
    ⟨consistent_initial, fun _ => .nil⟩).2
  intro s action s' hs _ hstep
  obtain ⟨_, hcall⟩ := step_eq_some hstep
  exact ⟨hs.1.call hcall, hs.2.call hs.1 hcall⟩

end Memory

end Emelex

import Emelex.Memory.Transcripts

/-!
# The leases of Sessions fence their writers

Any number of processes claim, renew and release Sessions, append turns, complete compactions and
run maintenance.  A Session stores one claim; what is written to its transcript is written by the
holder of that claim before its deadline, at the tail that it has read, or it is the summary of a
compaction while no claim is live.

* `Fenced` — what a call can do to the claims and the transcripts.

Principal result: `session_leases_fence_writers`.
-/

set_option autoImplicit false

namespace Emelex

namespace Memory

variable {encoding : Encoding} {s s' : State} {action : Action}
  {result : Except MemoryError Unit} {t' : Tables}

/-- A claim is stored by `claim_session` alone. -/
theorem Effect.stored (hs : Consistent s) (hnew : ∀ id ∈ action.mints, id ∉ s.issued)
    (h : Effect encoding s action t') {token : Uuid} : ∀ id row', t'.sessions.get id = some row' →
      row'.executionToken = some token →
      (∃ row, s.tables.sessions.get id = some row ∧ row.executionToken = some token) ∨
        ∃ workspace now, action = .claimSession id workspace token now := by
  have hold : ∀ id row', s.tables.sessions.get id = some row' →
      row'.executionToken = some token →
      (∃ row, s.tables.sessions.get id = some row ∧ row.executionToken = some token) ∨
        ∃ workspace now, action = .claimSession id workspace token now :=
    fun _ row hrow htoken => .inl ⟨row, hrow, htoken⟩
  cases h with
  | none | compactions | distillations | queuedCompaction | queuedDistillation
  | retriedCompaction | retriedDistillation => exact hold
  | @started id workspace now =>
    have hfree := get_eq_none_of_not_issued hs.issued.sessions
      (hnew id (List.mem_singleton_self id))
    exact Table.forall_get (fun other => Table.get_insert _ id other _ hfree) hold (by simp)
  | claimed _ _ hget =>
    refine Table.forall_get hget hold fun htoken => ?_
    cases htoken
    exact .inr ⟨_, _, rfl⟩
  | renewed _ hrow _ hget =>
    exact Table.forall_get hget hold fun htoken => hold _ _ hrow htoken
  | released _ _ _ hget => exact Table.forall_get hget hold (by simp)
  | appended _ happended =>
    exact Table.forall_get happended.sessions hold fun htoken =>
      .inl ⟨_, happended.stored, htoken⟩
  | summarized _ hsummarized =>
    exact Table.forall_get hsummarized.sessions hold fun htoken =>
      .inl ⟨_, hsummarized.bound, htoken⟩
  | distilled _ hdistilled =>
    rw [hdistilled.frame]
    exact hold
  | maintained hsessions _ _ =>
    intro id row' hrow' htoken
    obtain ⟨row, hrow, rfl | ⟨_, rfl⟩⟩ := hsessions id row' hrow'
    · exact hold id row' hrow htoken
    · cases htoken

/-- A claim succeeds where none is stored, or one whose deadline has come. -/
theorem claim_of_ok {session token : Uuid} {workspace : WorkspaceBinding} {now : Time}
    (h : call encoding s (.claimSession session workspace token now) = some (.ok (), s')) :
    ∃ row row', s.tables.sessions.get session = some row ∧
      (row.executionToken = none ∨ ∃ deadline, row.executionLeaseUntil = some deadline ∧
        deadline ≤ now) ∧
      s'.tables.sessions.get session = some row' ∧ row'.executionToken = some token := by
  unfold call at h
  split at h
  · obtain ⟨⟨result, s₁⟩, hperform, heq⟩ := Option.map_eq_some_iff.1 h
    cases heq
    simp only [perform] at hperform
    split at hperform
    · rename_i hcall
      cases hperform
      obtain ⟨sessions, row, rfl, hrow, hfree, hget, _⟩ := claimSession_ok hcall
      refine ⟨row, _, hrow, ?_, (hget session).trans (if_pos rfl), rfl⟩
      refine hfree.imp And.left ?_
      rintro ⟨_, deadline, _, hdeadline, hle⟩
      exact ⟨deadline, hdeadline, hle⟩
    · cases hperform
  · cases h

/-- The lease of an append whose cursor is stale has to be replayed again. -/
def Unreplayed (s : State) (action : Action) (s' : State) : Prop :=
  ∃ token actual events turnId now lease,
    action = .appendTurn token actual events turnId now ∧ s.leases token = some lease ∧
    lease.lastSequence ≠ lastEventSequence s.tables lease.session.id ∧
    s'.leases = fun other =>
      if other = token then some { lease with replayed := false } else s.leases other

/-- A call that fails leaves the leases, but for the flag of a lease whose cursor is stale. -/
theorem leases_of_error {error : MemoryError} (hs : Consistent s)
    (h : call encoding s action = some (.error error, s')) :
    s'.leases = s.leases ∨ Unreplayed s action s' := by
  have hcalled := call_cases hs h
  have hnew := hcalled.new
  have hnodup := hcalled.nodup
  unfold call at h
  split at h
  · obtain ⟨⟨result, s₁⟩, hperform, heq⟩ := Option.map_eq_some_iff.1 h
    cases heq
    cases action with
    | appendTurn token actual events turnId now =>
      simp only [perform, Option.map_eq_some_iff] at hperform
      obtain ⟨lease, hlease, hperform⟩ := hperform
      obtain ⟨herror, rfl⟩ := Prod.mk.inj hperform
      have hfree : ∀ id ∈ events.map Prod.fst, s.tables.events.get id = none := fun id hid =>
        get_eq_none_of_not_issued hs.issued.events (hnew id (List.mem_cons_of_mem _ hid))
      obtain ⟨_, _, hsame | ⟨hstale, hsame⟩⟩ | ⟨_, _, happended⟩ :=
        appendTurn_cases (List.nodup_cons.1 hnodup).2 hfree (rfl :
          appendTurn encoding s.tables lease actual events turnId now = _)
      · left
        funext other
        simp only [State.setLease, State.setTables, hsame]
        split
        · rename_i hother
          rw [hother, hlease]
        · rfl
      · exact .inr ⟨token, actual, events, turnId, now, lease, rfl, hlease, hstale, by
          simp only [State.setLease, State.setTables, hsame]⟩
      · rw [happended.result] at herror
        cases herror
    | _ =>
      left
      simp only [perform, Option.map_eq_some_iff] at hperform
      grind [State.setTables, State.setLease, State.setCompactionLease, State.setDistillationLease]
  · cases h

/-- What a call can do to the claims and to the transcripts of Sessions.
* A claim succeeds where none is stored, or one whose deadline has come; no other call stores one.
* A transcript stays, or it goes on with a turn of the holder of the stored claim, before its
  deadline and at the tail that the holder has read, or with the summary of a compaction while no
  claim is live.
* A call that fails changes no table, and of the leases at most the flag of one whose cursor is
  stale. -/
structure Fenced (encoding : Encoding) (s : State) (action : Action)
    (result : Except MemoryError Unit) (s' : State) : Prop where
  claim : ∀ session workspace token now,
    action = .claimSession session workspace token now → result = .ok () →
    ∃ row row', s.tables.sessions.get session = some row ∧
      (row.executionToken = none ∨ ∃ deadline, row.executionLeaseUntil = some deadline ∧
        deadline ≤ now) ∧
      s'.tables.sessions.get session = some row' ∧ row'.executionToken = some token
  stored : ∀ id row' token, s'.tables.sessions.get id = some row' →
    row'.executionToken = some token →
    (∃ row, s.tables.sessions.get id = some row ∧ row.executionToken = some token) ∨
      ∃ workspace now, action = .claimSession id workspace token now
  transcripts : ∀ session, transcript s'.tables session = transcript s.tables session ∨
    ∃ turn, Extends encoding s session action turn ∧
      transcript s'.tables session = transcript s.tables session ++ turn
  error : ∀ error, result = .error error →
    s'.tables = s.tables ∧ (s'.leases = s.leases ∨ Unreplayed s action s')

theorem fenced_of_call (hs : Consistent s) (h : call encoding s action = some (result, s')) :
    Fenced encoding s action result s' := by
  have hcalled := call_cases hs h
  constructor
  · rintro session workspace token now rfl rfl
    exact claim_of_ok h
  · intro id row' token
    exact hcalled.tables (P := fun t => ∀ id row', t.sessions.get id = some row' →
      row'.executionToken = some token →
      (∃ row, s.tables.sessions.get id = some row ∧ row.executionToken = some token) ∨
        ∃ workspace now, action = .claimSession id workspace token now)
      (fun _ row hrow htoken => .inl ⟨row, hrow, htoken⟩)
      (fun t' heffect => heffect.stored hs hcalled.new) id row'
  · exact fun session => hcalled.tables (P := fun t =>
      transcript t session = transcript s.tables session ∨
        ∃ turn, Extends encoding s session action turn ∧
          transcript t session = transcript s.tables session ++ turn)
      (.inl rfl) fun t' heffect => heffect.extends session
  · rintro error rfl
    refine ⟨?_, leases_of_error hs h⟩
    obtain ⟨_, htables⟩ | ⟨hok, _⟩ := hcalled.outcome
    · exact htables
    · cases hok

/-- **The leases of Sessions fence their writers.**  In every state that any number of processes
reach, a Session stores one whole claim or none, every transcript is numbered from 1 without gaps
and made of whole turns, and every call is fenced. -/
theorem session_leases_fence_writers {actions : List Action}
    (h : Machine.Run (step encoding) Machine.anyStep State.initial actions s) :
    (∀ id row, s.tables.sessions.get id = some row →
      row.executionToken.isSome = row.executionLeaseUntil.isSome) ∧
    (∀ session, Transcript (transcript s.tables session)) ∧
    ∀ action result s', call encoding s action = some (result, s') →
      Fenced encoding s action result s' := by
  have hs := Consistent.of_run h
  refine ⟨fun id row hrow => ?_, transcribed_of_run h, fun _ _ _ hcall => fenced_of_call hs hcall⟩
  simpa [SessionRow.check] using hs.sessions id row hrow

/-- A Session is started and claimed, and a turn of two events is appended. -/
def oneTurn : List Action :=
  [.startSession 1 ⟨"/work", ⟨0, 0⟩⟩ 0, .claimSession 1 ⟨"/work", ⟨0, 0⟩⟩ 2 0,
    .appendTurn 2 ⟨0, 0⟩ [(4, ⟨.userMessage, "1"⟩), (5, ⟨.assistantMessage, "2"⟩)] 3 0]

theorem one_turn_is_fenced : ∃ s, Machine.run (step byteEncoding) State.initial oneTurn = some s ∧
    (transcript s.tables 1).length = 2 ∧ Transcript (transcript s.tables 1) := by
  obtain ⟨s, hs, hlength⟩ : ∃ s, Machine.run (step byteEncoding) State.initial oneTurn = some s ∧
      (transcript s.tables 1).length = 2 := Option.map_eq_some_iff.1
    (show (Machine.run (step byteEncoding) State.initial oneTurn).map
      (fun s => (transcript s.tables 1).length) = some 2 by decide)
  exact ⟨s, hs, hlength, (session_leases_fence_writers (Machine.run_eq_some_iff.1 hs)).2.1 1⟩

end Memory

end Emelex

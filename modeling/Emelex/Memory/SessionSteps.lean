import Emelex.Memory.Store

/-!
# What the operations of a Session's lease do

One lemma for each operation: what it has checked when it succeeds, and what it leaves.

Principal results: `claimSession_ok`, `renewSession_cases`, `releaseSession_cases`,
`appendTurn_cases`.
-/

set_option autoImplicit false

namespace Emelex

namespace Memory

variable {encoding : Encoding} {t t' : Tables} {lease lease' : SessionLease}

/-- An update of one session changes its row where it satisfies the condition, and nothing else. -/
theorem updateSession_cases {id : Uuid} {p : SessionRow → Bool} {f : SessionRow → SessionRow}
    {n : Nat} (h : updateSession t id p f = (t', n)) :
    (n = 0 ∧ t' = t ∧ ∀ row, t.sessions.get id = some row → p row = false) ∨
    (n = 1 ∧ ∃ sessions row, t' = { t with sessions } ∧ t.sessions.get id = some row ∧
      p row = true ∧
      ∀ other, sessions.get other = if other = id then some (f row) else t.sessions.get other) := by
  have hcount := t.sessions.matching_key id p
  simp only [updateSession] at h
  cases hrow : (t.sessions.get id).any p with
  | false =>
    rw [hrow] at hcount
    simp only [Bool.false_eq_true, if_false] at hcount
    rw [Table.updateWhere_eq_self hcount, hcount] at h
    cases h
    refine .inl ⟨rfl, rfl, fun row hget => ?_⟩
    simpa [hget] using hrow
  | true =>
    rw [hrow] at hcount
    simp only [if_true] at hcount
    rw [hcount] at h
    cases h
    obtain ⟨row, hget, hp⟩ := (Option.any_eq_true _ _).1 hrow
    refine .inr ⟨rfl, _, row, rfl, hget, hp, fun other => ?_⟩
    rw [Table.get_updateWhere]
    split
    · rename_i hother
      simp [hother, hget, hp]
    · rename_i hother
      simp [hother]

/-- A stored claim that can be read has both of its columns, or none. -/
theorem parseSessionClaim_ok {token : Option Uuid} {leaseUntil : Option Time}
    {claim : Option (Uuid × Time)} (h : parseSessionClaim token leaseUntil = .ok claim) :
    token = claim.map Prod.fst ∧ leaseUntil = claim.map Prod.snd := by
  unfold parseSessionClaim at h
  split at h <;> cases h <;> simp

/-- A lease is valid where its token is stored with a deadline ahead. -/
theorem validateSessionLease_ok {now : Time} {u : Unit}
    (h : validateSessionLease t lease now = .ok u) :
    ∃ row deadline, t.sessions.get lease.session.id = some row ∧
      row.executionToken = some lease.token ∧ row.executionLeaseUntil = some deadline ∧
      now < deadline := by
  simp only [validateSessionLease, bind_eq_ok, required_eq_ok, ensure_eq_ok] at h
  obtain ⟨row, hrow, claim, hclaim, hany⟩ := h
  obtain ⟨htoken, huntil⟩ := parseSessionClaim_ok hclaim
  obtain ⟨⟨token, deadline⟩, rfl, hvalid⟩ := (Option.any_eq_true _ _).1 hany
  obtain ⟨rfl, hlt⟩ : token = lease.token ∧ now < deadline := by simpa using hvalid
  exact ⟨row, deadline, hrow, htoken, huntil, hlt⟩

/-- A claim succeeds where no claim is stored, or one whose deadline has come. -/
theorem claimSession_ok {id token : Uuid} {workspace : WorkspaceBinding} {now : Time}
    (h : claimSession t id workspace token now = (.ok lease, t')) :
    ∃ sessions row, t' = { t with sessions } ∧ t.sessions.get id = some row ∧
      (row.executionToken = none ∧ row.executionLeaseUntil = none ∨
        ∃ stored deadline, row.executionToken = some stored ∧
          row.executionLeaseUntil = some deadline ∧ deadline ≤ now) ∧
      (∀ other, sessions.get other = if other = id then some { row with
          executionToken := some token, executionLeaseUntil := some (now + SESSION_LEASE),
          workspace := workspace.path, updatedAt := max row.updatedAt now }
        else t.sessions.get other) ∧
      lease.token = token ∧ lease.session.id = id ∧ lease.lastSequence = lastEventSequence t id ∧
      (lease.replayed = true → lease.lastSequence = 0) ∧ lease.released = false := by
  have hbody := transaction_ok h
  simp only [bind_eq_ok, required_eq_ok, ensure_eq_ok] at hbody
  obtain ⟨row, hrow, _, _, claim, hclaim, _, hbusy, leaseUntil, huntil, _, hchanged, hpure⟩ := hbody
  obtain ⟨htoken, hdeadline⟩ := parseSessionClaim_ok hclaim
  obtain rfl := deadlineAfter_eq_ok huntil
  obtain ⟨hn, _⟩ | ⟨_, sessions, row', ht, hrow', _, hget⟩ := updateSession_cases (Prod.eta _).symm
  · rw [hn] at hchanged
    cases hchanged
  · rw [hrow] at hrow'
    cases hrow'
    cases hpure
    refine ⟨sessions, row, ht, hrow, ?_, hget, rfl, rfl, ?_, ?_, rfl⟩
    · cases claim with
      | none => exact .inl ⟨htoken, hdeadline⟩
      | some claim =>
        simp only [ensureNotBusy, ensure_eq_ok] at hbusy
        exact .inr ⟨claim.1, claim.2, htoken, hdeadline, hbusy⟩
    · rw [ht]
      rfl
    · simp

/-- A renewal succeeds where the token is stored, and only moves its deadline. -/
theorem renewSession_cases {actual : WorkspaceIdentity} {now : Time}
    {result : Except MemoryError SessionLease}
    (h : renewSession t lease actual now = (result, t')) :
    (t' = t ∧ ∃ error, result = .error error) ∨
    ∃ sessions row, t' = { t with sessions } ∧ t.sessions.get lease.session.id = some row ∧
      row.executionToken = some lease.token ∧
      (∀ other, sessions.get other = if other = lease.session.id then
          some { row with executionLeaseUntil := some (now + SESSION_LEASE) }
        else t.sessions.get other) ∧
      result = .ok { lease with leaseUntil := now + SESSION_LEASE } := by
  unfold renewSession at h
  split at h
  · cases h
    exact .inl ⟨rfl, _, rfl⟩
  · rename_i leaseUntil hvalid
    simp only [bind_eq_ok] at hvalid
    obtain ⟨_, _, huntil⟩ := hvalid
    obtain rfl := deadlineAfter_eq_ok huntil
    simp only at h
    split at h
    · rename_i hchanged
      cases h
      obtain ⟨hn, _⟩ | ⟨_, sessions, row, ht, hrow, hp, hget⟩ :=
        updateSession_cases (Prod.eta _).symm
      · rw [hn] at hchanged
        cases hchanged
      · exact .inr ⟨sessions, row, ht, hrow, by simpa using hp, hget, rfl⟩
    · rename_i hchanged
      cases h
      obtain ⟨_, ht, _⟩ | ⟨hn, _⟩ := updateSession_cases (Prod.eta _).symm
      · exact .inl ⟨ht, _, rfl⟩
      · exact absurd hn hchanged

/-- A release clears the claim where its token is stored. -/
theorem releaseSession_cases {result : Except MemoryError SessionLease}
    (h : releaseSession t lease = (result, t')) :
    (t' = t ∧ (result = .ok lease ∨ ∃ error, result = .error error)) ∨
    ∃ sessions row, t' = { t with sessions } ∧ t.sessions.get lease.session.id = some row ∧
      row.executionToken = some lease.token ∧
      (∀ other, sessions.get other = if other = lease.session.id then
          some { row with executionToken := none, executionLeaseUntil := none }
        else t.sessions.get other) ∧
      result = .ok { lease with released := true } := by
  unfold releaseSession at h
  split at h
  · cases h
    exact .inl ⟨rfl, .inl rfl⟩
  · simp only at h
    split at h
    · rename_i hchanged
      cases h
      obtain ⟨hn, _⟩ | ⟨_, sessions, row, ht, hrow, hp, hget⟩ :=
        updateSession_cases (Prod.eta _).symm
      · rw [hn] at hchanged
        cases hchanged
      · exact .inr ⟨sessions, row, ht, hrow, by simpa using hp, hget, rfl⟩
    · rename_i hchanged
      cases h
      obtain ⟨_, ht, _⟩ | ⟨hn, _⟩ := updateSession_cases (Prod.eta _).symm
      · exact .inl ⟨ht, .inr ⟨_, rfl⟩⟩
      · exact absurd hn hchanged

/-- A replay changes no table. -/
theorem replaySession_tables {actual : WorkspaceIdentity} {now : Time}
    {result : Except MemoryError (SessionReplay × SessionLease)}
    (h : replaySession encoding t lease actual now = (result, t')) : t' = t := by
  cases result with
  | error error => exact transaction_error h
  | ok replayed =>
    have hbody := transaction_ok h
    simp only [bind_eq_ok] at hbody
    obtain ⟨_, _, _, _, _, _, hpure⟩ := hbody
    cases hpure
    rfl

/-! ## Appending a turn -/

/-- The row of an event of a turn. -/
def turnRow (session turnId : Uuid) (turnSize currentSequence : Nat) (now : Time) (offset : Nat)
    (input : SessionEventInput) : SessionEvent where
  sessionId := session
  sequence := currentSequence + (offset + 1)
  turnId
  turnIndex := offset
  turnSize
  kind := input.kind
  payload := .value input.json
  createdAt := now

/-- The rows of a turn, from the event at an offset on. -/
def turnRows (session turnId : Uuid) (turnSize currentSequence : Nat) (now : Time) (offset : Nat)
    (events : List (Uuid × SessionEventInput)) : List (Uuid × SessionEvent) :=
  (events.zipIdx offset).map fun e =>
    (e.1.1, turnRow session turnId turnSize currentSequence now e.2 e.1.2)

/-- The loop of an append inserts the rows of the turn. -/
theorem insertTurn_ok {session turnId : Uuid} {turnSize currentSequence offset : Nat} {now : Time}
    {events : List (Uuid × SessionEventInput)} (hnodup : (events.map Prod.fst).Nodup)
    (hfree : ∀ id ∈ events.map Prod.fst, t.events.get id = none)
    (h : insertTurn session turnId turnSize currentSequence now offset events t = .ok t') :
    ∃ table, t' = { t with events := table } ∧ table.entries = t.events.entries ++
      turnRows session turnId turnSize currentSequence now offset events := by
  induction events generalizing offset t with
  | nil =>
    cases h
    exact ⟨_, rfl, by simp [turnRows]⟩
  | cons event events ih =>
    obtain ⟨id, input⟩ := event
    simp only [insertTurn, bind_eq_ok, ensure_eq_ok] at h
    obtain ⟨_, _, h⟩ := h
    simp only [List.map_cons, List.nodup_cons] at hnodup
    have hid := hfree id (by simp)
    obtain ⟨table, rfl, htable⟩ := ih hnodup.2 (fun other hother => by
      rw [Table.get_insert _ _ _ _ hid]
      split
      · rename_i hsame
        exact absurd (hsame ▸ hother) hnodup.1
      · exact hfree other (List.mem_cons_of_mem _ hother)) h
    refine ⟨table, rfl, ?_⟩
    rw [htable, Table.entries_insert _ hid]
    simp [turnRows, turnRow]

/-- The writes of an append: the rows of the turn and the new deadline. -/
theorem writeTurn_ok {events : List (Uuid × SessionEventInput)} {turnId : Uuid}
    {currentSequence : Nat} {now leaseUntil : Time} {row : SessionRow}
    (hnodup : (events.map Prod.fst).Nodup)
    (hfree : ∀ id ∈ events.map Prod.fst, t.events.get id = none)
    (hrow : t.sessions.get lease.session.id = some row)
    (h : writeTurn t lease events turnId currentSequence now = .ok (leaseUntil, t')) :
    leaseUntil = now + SESSION_LEASE ∧ ∃ table sessions,
      t' = { t with events := table, sessions } ∧
      (∀ other, sessions.get other = if other = lease.session.id then
          some { row with updatedAt := now, executionLeaseUntil := some (now + SESSION_LEASE) }
        else t.sessions.get other) ∧
      table.entries = t.events.entries ++
        turnRows lease.session.id turnId events.length currentSequence now 0 events := by
  simp only [writeTurn, bind_eq_ok, ensure_eq_ok] at h
  obtain ⟨_, hdeadline, inserted, hinserted, _, hchanged, hpure⟩ := h
  obtain rfl := deadlineAfter_eq_ok hdeadline
  obtain ⟨table, rfl, htable⟩ := insertTurn_ok hnodup hfree hinserted
  obtain ⟨hn, _⟩ | ⟨_, sessions, row', ht, hrow', _, hget⟩ := updateSession_cases (Prod.eta _).symm
  · rw [hn] at hchanged
    cases hchanged
  · cases hpure
    rw [hrow] at hrow'
    cases hrow'
    exact ⟨rfl, table, sessions, ht, hget, htable⟩

/-- A turn that passes `prepare_turn` has events, and none of them is a summary. -/
theorem prepareTurn_ok {events : List SessionEventInput} {u : Unit}
    (h : prepareTurn encoding events = .ok u) :
    events ≠ [] ∧ ∀ event ∈ events, event.kind ≠ .summary := by
  simp only [prepareTurn, bind_eq_ok, ensure_eq_ok] at h
  obtain ⟨_, hne, _, _, hloop⟩ := h
  refine ⟨hne, ?_⟩
  have hall : ∀ totalBytes (events : List SessionEventInput),
      prepareTurn.prepareEvents encoding totalBytes events = .ok u →
        ∀ event ∈ events, event.kind ≠ .summary := by
    intro totalBytes events
    induction events generalizing totalBytes with
    | nil => simp
    | cons event events ih =>
      intro hprepared
      simp only [prepareTurn.prepareEvents, bind_eq_ok, ensure_eq_ok] at hprepared
      obtain ⟨_, hkind, _, _, _, _, hrest⟩ := hprepared
      intro other hother
      rcases List.mem_cons.1 hother with rfl | hother
      · exact hkind
      · exact ih _ hrest other hother
  exact hall 0 events hloop

/-- What an append has checked and what it leaves: the lease's token is stored, its deadline is
ahead, and the cursor of the lease is the tail that the turn extends. -/
structure Appended (t : Tables) (lease : SessionLease) (events : List (Uuid × SessionEventInput))
    (turnId : Uuid) (now : Time) (call : LeaseCall Nat) (row : SessionRow) (leaseUntil : Time) :
    Prop where
  nonempty : events ≠ []
  notSummary : ∀ event ∈ events, event.2.kind ≠ .summary
  stored : t.sessions.get lease.session.id = some row
  token : row.executionToken = some lease.token
  deadline : row.executionLeaseUntil = some leaseUntil
  live : now < leaseUntil
  replayed : lease.replayed = true
  tail : lease.lastSequence = lastEventSequence t lease.session.id
  result : call.result = .ok (lease.lastSequence + events.length)
  leaseAfter : call.lease = { lease with
    lastSequence := lease.lastSequence + events.length, leaseUntil := now + SESSION_LEASE,
    session := { lease.session with updatedAt := now } }
  frame : call.tables = { t with sessions := call.tables.sessions, events := call.tables.events }
  sessions : ∀ other, call.tables.sessions.get other = if other = lease.session.id then
      some { row with updatedAt := now, executionLeaseUntil := some (now + SESSION_LEASE) }
    else t.sessions.get other
  events : call.tables.events.entries = t.events.entries ++
    turnRows lease.session.id turnId events.length lease.lastSequence now 0 events

/-- An append fails and changes no table, at most the lease's own flag, or it succeeds. -/
theorem appendTurn_cases {actual : WorkspaceIdentity} {events : List (Uuid × SessionEventInput)}
    {turnId : Uuid} {now : Time} (hnodup : (events.map Prod.fst).Nodup)
    (hfree : ∀ id ∈ events.map Prod.fst, t.events.get id = none) {call : LeaseCall Nat}
    (h : appendTurn encoding t lease actual events turnId now = call) :
    ((∃ error, call.result = .error error) ∧ call.tables = t ∧
      (call.lease = lease ∨ lease.lastSequence ≠ lastEventSequence t lease.session.id ∧
        call.lease = { lease with replayed := false })) ∨
    ∃ row deadline, Appended t lease events turnId now call row deadline := by
  unfold appendTurn at h
  split at h
  · subst h
    exact .inl ⟨⟨_, rfl⟩, rfl, .inl rfl⟩
  · rename_i hvalid
    simp only [bind_eq_ok, ensure_eq_ok] at hvalid
    obtain ⟨_, hprepared, _, hreplayed, _, _, hlease⟩ := hvalid
    obtain ⟨hne, hkinds⟩ := prepareTurn_ok hprepared
    have hne' : events ≠ [] := by
      rintro rfl
      exact hne rfl
    have hall : ∀ event ∈ events, event.2.kind ≠ .summary := fun event hevent =>
      hkinds event.2 (List.mem_map_of_mem hevent)
    obtain ⟨row, deadline, hrow, htoken, huntil, hlive⟩ := validateSessionLease_ok hlease
    by_cases htail : lastEventSequence t lease.session.id = lease.lastSequence
    · simp only [htail, ne_eq, not_true_eq_false, if_false] at h
      split at h
      · rename_i error tables hcall
        subst h
        exact .inl ⟨⟨error, rfl⟩, transaction_error hcall, .inl rfl⟩
      · rename_i leaseUntil tables hcall
        obtain ⟨hdeadline, table, sessions, hframe, hget, htable⟩ :=
          writeTurn_ok hnodup hfree hrow (transaction_ok hcall)
        subst h hframe
        exact .inr ⟨row, deadline, {
          nonempty := hne'
          notSummary := hall
          stored := hrow
          token := htoken
          deadline := huntil
          live := hlive
          replayed := hreplayed
          tail := htail.symm
          result := rfl
          leaseAfter := by rw [hdeadline]
          frame := rfl
          sessions := hget
          events := htable }⟩
    · simp only [htail, ne_eq, not_false_eq_true, if_true] at h
      subst h
      exact .inl ⟨⟨_, rfl⟩, rfl, .inr ⟨fun heq => htail heq.symm, rfl⟩⟩

end Memory

end Emelex

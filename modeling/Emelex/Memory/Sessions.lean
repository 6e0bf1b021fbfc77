import Emelex.Memory.JobQueue

/-!
# Sessions, their transcripts and their leases (`memory.rs`)

* `claimSession`, `renewSession`, `releaseSession`, `replaySession`, `appendTurn` — the operations of
  a Session's lease.
* `transcriptProvenance` — what a compaction or a distillation is made from.
* `loadSessionReplay` — the newest summary and the events it does not cover.

The assets of an event and the title and model of a Session are left out.  The operations take the
new identifiers, the clock and the identity that the workspace directory has now as arguments.

Principal definitions: `claimSession`, `appendTurn`, `loadSessionReplay`.
-/

set_option autoImplicit false

namespace Emelex

namespace Memory

/-! ## Tables -/

/-- A row of `knowledge`. -/
structure KnowledgeRow where
  workspaceIdentity : WorkspaceIdentity
  key : String
  activeVersion : Nat
  pinned : Bool
  tombstonedAt : Option Time
  updatedAt : Time
deriving DecidableEq, Repr

/-- A row of `knowledge_versions`. -/
structure KnowledgeVersion where
  knowledgeId : Uuid
  version : Nat
  content : String
  distillationJobId : Uuid
  candidateIndex : Nat
deriving DecidableEq, Repr

/-- A row of `distillation_results`. -/
structure DistillationResult where
  jobId : Uuid
  candidateIndex : Nat
  knowledgeId : Uuid
  knowledgeVersion : Nat
deriving DecidableEq, Repr

structure Tables where
  sessions : Table Uuid SessionRow
  events : Table Uuid SessionEvent
  compactions : Queue Uuid
  distillations : Queue Time
  knowledge : Table Uuid KnowledgeRow
  versions : List KnowledgeVersion
  results : List DistillationResult

/-- What the operations take from elsewhere: the structural limits and the length of a payload as
JSON, and the digest of a transcript. -/
structure Encoding where
  structurallyBounded : Payload → Bool
  jsonBytes : Payload → Nat
  transcriptSha256 : Uuid → Nat → List (Uuid × SessionEvent) → String

/-- `bounded_json_string`: the length of the text. -/
def boundedJsonString (encoding : Encoding) (payload : Payload) (limit : Nat) (name : String) :
    Except MemoryError Nat := do
  ensure (encoding.structurallyBounded payload = true)
    (.invalid s!"{name} exceeds JSON structural limits")
  ensure (encoding.jsonBytes payload ≤ limit) (.invalid s!"{name} exceeds {limit} byte limit")
  return encoding.jsonBytes payload

/-! ## Events -/

/-- The events of a session in the order of their sequences. -/
def sessionEvents (t : Tables) (session : Uuid) (p : Uuid → SessionEvent → Bool) :
    List (Uuid × SessionEvent) :=
  t.events.select (fun id event => event.sessionId = session && p id event)
    (fun a b => a.2.sequence ≤ b.2.sequence)

/-- `last_event_sequence`. -/
def lastEventSequence (t : Tables) (session : Uuid) : Nat :=
  ((t.events.entries.filter fun e => e.2.sessionId = session).map (·.2.sequence)).foldl max 0

/-! ### Provenance -/

/-- `ProvenanceTurn`. -/
structure ProvenanceTurn where
  id : Option Uuid
  size : Nat
  nextIndex : Nat

/-- `ProvenanceTurn::validate`. -/
def ProvenanceTurn.validate (turn : ProvenanceTurn) (session : Uuid) (event : SessionEvent) :
    Except MemoryError ProvenanceTurn := do
  ensure (event.turnIndex = 0 → turn.id = none)
    (.corrupt s!"session {session} starts a turn before the prior turn ends")
  let turn := if event.turnIndex = 0 then
    { id := some event.turnId, size := event.turnSize, nextIndex := 0 } else turn
  ensure (0 < event.turnSize ∧ event.turnIndex = turn.nextIndex ∧ turn.id = some event.turnId ∧
    event.turnSize = turn.size)
    (.corrupt s!"session {session} has invalid atomic turn metadata at sequence {event.sequence}")
  if turn.nextIndex + 1 = turn.size then return { id := none, size := 0, nextIndex := 0 }
  else return { turn with nextIndex := turn.nextIndex + 1 }

/-- The loop of `transcript_provenance` over the rows. -/
def provenanceTurns (session : Uuid) : Nat → ProvenanceTurn → List (Uuid × SessionEvent) →
    Except MemoryError (Nat × ProvenanceTurn)
  | expectedSequence, turn, [] => .ok (expectedSequence, turn)
  | expectedSequence, turn, (_, event) :: rows => do
    ensure (event.sequence = expectedSequence)
      (.corrupt s!"session {session} transcript is not contiguous at sequence {expectedSequence}")
    let turn ← turn.validate session event
    provenanceTurns session (expectedSequence + 1) turn rows

/-- `transcript_provenance`. -/
def transcriptProvenance (encoding : Encoding) (t : Tables) (session : Uuid)
    (throughSequence : Nat) : Except MemoryError TranscriptProvenance := do
  ensure (0 < throughSequence) (.invalid "compaction source boundary must be positive")
  let rows := sessionEvents t session fun _ event => event.sequence ≤ throughSequence
  let (expectedSequence, turn) ←
    provenanceTurns session 1 { id := none, size := 0, nextIndex := 0 } rows
  ensure (expectedSequence = throughSequence + 1)
    (.corrupt s!"session {session} transcript ends before compaction boundary {throughSequence}")
  ensure (turn.id = none) (.corrupt s!"session {session} compaction boundary splits an atomic turn")
  let first ← required
    (.corrupt s!"session {session} compaction source is unexpectedly empty") rows.head?
  let last ← required
    (.corrupt s!"session {session} compaction source has no final event") rows.getLast?
  return {
    eventCount := throughSequence
    firstEventId := first.1
    lastEventId := last.1
    sha256 := encoding.transcriptSha256 session throughSequence rows }

/-! ### Replay -/

/-- `SessionReplay`; the snapshot is left out. -/
structure SessionReplay where
  events : List (Uuid × SessionEvent)
  lastSequence : Nat
  compactedThrough : Option Nat
deriving DecidableEq, Repr

/-- `bounded_replay_event`: the new total of payload bytes. -/
def boundedReplayEvent (encoding : Encoding) (event : SessionEvent) (payloadBytes eventCount : Nat) :
    Except MemoryError Nat := do
  ensure (eventCount < MAX_REPLAY_EVENTS)
    (.invalid s!"session replay exceeds {MAX_REPLAY_EVENTS} event limit; compact more history")
  let payloadBytes := payloadBytes + encoding.jsonBytes event.payload
  ensure (payloadBytes ≤ MAX_REPLAY_BYTES)
    (.invalid s!"session replay exceeds {MAX_REPLAY_BYTES} byte limit; compact more history")
  return payloadBytes

/-- The tail of a compaction has no other summary. -/
def ensureNotSummary (event : SessionEvent) : Option Uuid → Except MemoryError Unit
  | some job => ensure (event.kind ≠ .summary)
      (.corrupt s!"compaction {job} leaves another summary in its replay tail")
  | none => .ok ()

/-- The loops of `load_session_replay`: the rows are taken one by one, within the bounds. -/
def replayRows (encoding : Encoding) (compaction : Option Uuid) :
    Nat → List (Uuid × SessionEvent) → List (Uuid × SessionEvent) →
      Except MemoryError (List (Uuid × SessionEvent))
  | _, events, [] => .ok events
  | payloadBytes, events, row :: rows => do
    ensureNotSummary row.2 compaction
    let payloadBytes ← boundedReplayEvent encoding row.2 payloadBytes events.length
    replayRows encoding compaction payloadBytes (events ++ [row]) rows

/-- The metadata of a `CompactionSummaryPayload` are those of the job. -/
def Payload.summarizes (job : Job) : Payload → Bool
  | .compaction jobId throughSequence source _ =>
    jobId = job.id && throughSequence = job.throughSequence && source = job.source
  | .value _ => false

/-- `validate_compaction_summary`. -/
def validateCompactionSummary (event : SessionEvent) (job : Job) : Except MemoryError Unit := do
  ensure (event.sessionId = job.sessionId ∧ event.kind = .summary ∧
      job.throughSequence < event.sequence)
    (.corrupt s!"compaction {job.id} summary event violates its boundary")
  ensure (event.payload.summarizes job)
    (.corrupt s!"compaction {job.id} summary provenance does not match its job")

/-- `validate_replay_turns`; the list shrinks, so as many rounds as events are enough. -/
def validateReplayTurns (session : Uuid) :
    Nat → List (Uuid × SessionEvent) → Except MemoryError Unit
  | _, [] => .ok ()
  | 0, _ => .ok ()
  | rounds + 1, first :: rest => do
    ensure (first.2.turnIndex = 0 ∧ first.2.turnSize ≠ 0)
      (.corrupt s!"session {session} replay starts inside atomic turn {first.2.turnId}")
    let turn := (first :: rest).take first.2.turnSize
    ensure (turn.length = first.2.turnSize)
      (.corrupt s!"session {session} replay ends inside atomic turn {first.2.turnId}")
    ensure (∀ event ∈ turn.zipIdx, event.1.2.turnId = first.2.turnId ∧
        event.1.2.turnSize = first.2.turnSize ∧ event.1.2.turnIndex = event.2)
      (.corrupt s!"session {session} replay interleaves atomic turn {first.2.turnId}")
    validateReplayTurns session rounds ((first :: rest).drop first.2.turnSize)

/-- The completed compaction with the highest boundary. -/
def latestCompaction (t : Tables) (session : Uuid) : Option (Uuid × JobRow Uuid) :=
  t.compactions.rows.first (fun _ row => row.sessionId = session && row.state = .completed)
    fun a b => b.2.throughSequence < a.2.throughSequence ||
      (a.2.throughSequence = b.2.throughSequence && (b.2.updatedAt < a.2.updatedAt ||
        (a.2.updatedAt = b.2.updatedAt && b.1 ≤ a.1)))

/-- `load_session_replay`. -/
def loadSessionReplay (encoding : Encoding) (t : Tables) (session : Uuid) :
    Except MemoryError SessionReplay := do
  let lastSequence := lastEventSequence t session
  match latestCompaction t session with
  | some (id, row) =>
    let summaryId ← required (.corrupt s!"completed compaction {id} has no summary") row.finished
    let job ← CompactionJob.tryFrom id row
    let actualSource ← transcriptProvenance encoding t session job.throughSequence
    ensure (actualSource = job.source)
      (.corrupt s!"compaction {id} source provenance no longer matches transcript")
    let summary ← required (.corrupt s!"compaction {id} summary event is missing")
      ((t.events.get summaryId).filter fun event => event.sessionId = session)
    let payloadBytes ← boundedReplayEvent encoding summary 0 0
    validateCompactionSummary summary job
    let tail := sessionEvents t session fun eventId event =>
      job.throughSequence < event.sequence && eventId ≠ summaryId
    let events ← replayRows encoding (some id) payloadBytes [(summaryId, summary)] tail
    validateReplayTurns session events.length events
    return { events, lastSequence, compactedThrough := some job.throughSequence }
  | none =>
    let events ← replayRows encoding none 0 [] (sessionEvents t session fun _ _ => true)
    validateReplayTurns session events.length events
    return { events, lastSequence, compactedThrough := none }

/-! ## Leases -/

/-- `Session`. -/
structure Session where
  id : Uuid
  workspace : String
  workspaceIdentity : WorkspaceIdentity
  updatedAt : Time
deriving DecidableEq, Repr

/-- `SessionLease`. -/
structure SessionLease where
  session : Session
  token : Uuid
  leaseUntil : Time
  lastSequence : Nat
  replayed : Bool
  released : Bool
deriving DecidableEq, Repr

/-- `WorkspaceBinding`. -/
structure WorkspaceBinding where
  path : String
  identity : WorkspaceIdentity
deriving DecidableEq, Repr

/-- `parse_session_claim`. -/
def parseSessionClaim : Option Uuid → Option Time → Except MemoryError (Option (Uuid × Time))
  | none, none => .ok none
  | some token, some leaseUntil => .ok (some (token, leaseUntil))
  | _, _ => .error (.corrupt "session execution claim has incomplete metadata")

/-- A claim whose deadline is ahead is an error. -/
def ensureNotBusy (session : Uuid) (now : Time) : Option (Uuid × Time) → Except MemoryError Unit
  | some (_, deadline) => ensure (deadline ≤ now) (.sessionBusy session deadline)
  | none => .ok ()

/-- `validate_session_lease`. -/
def validateSessionLease (t : Tables) (lease : SessionLease) (now : Time) :
    Except MemoryError Unit := do
  let row ← required (.notFound "session" lease.session.id) (t.sessions.get lease.session.id)
  let claim ← parseSessionClaim row.executionToken row.executionLeaseUntil
  ensure (claim.any fun (token, deadline) => token = lease.token ∧ now < deadline)
    (.staleSessionLease lease.session.id)

/-- `validate_workspace_identity`. -/
def validateWorkspaceIdentity (session : Session) (actual : WorkspaceIdentity) :
    Except MemoryError Unit :=
  ensure (actual = session.workspaceIdentity)
    (.workspaceMismatch session.id session.workspaceIdentity actual)

/-- One `UPDATE sessions … WHERE id = … AND …` and the number of rows it changes. -/
def updateSession (t : Tables) (id : Uuid) (p : SessionRow → Bool) (f : SessionRow → SessionRow) :
    Tables × Nat :=
  let condition := fun id' row => decide (id' = id) && p row
  ({ t with sessions := t.sessions.updateWhere condition f }, t.sessions.matching condition)

/-- `claim_session`. -/
def claimSession (t : Tables) (id : Uuid) (workspace : WorkspaceBinding) (token : Uuid)
    (now : Time) : Except MemoryError SessionLease × Tables :=
  transaction t do
    let row ← required (.notFound "session" id) (t.sessions.get id)
    ensure (row.workspaceIdentity = workspace.identity)
      (.workspaceMismatch id row.workspaceIdentity workspace.identity)
    let currentLease ← parseSessionClaim row.executionToken row.executionLeaseUntil
    ensureNotBusy id now currentLease
    let leaseUntil ← deadlineAfter now SESSION_LEASE "session lease"
    let (t, changed) := updateSession t id
      (fun row => row.executionToken.isNone || row.executionLeaseUntil.any (· ≤ now))
      fun row => { row with
        executionToken := some token, executionLeaseUntil := some leaseUntil,
        workspace := workspace.path, updatedAt := max row.updatedAt now }
    ensure (changed = 1) (.sessionBusy id leaseUntil)
    let lastSequence := lastEventSequence t id
    return ({
      session := { id, workspace := workspace.path, workspaceIdentity := row.workspaceIdentity,
                   updatedAt := max row.updatedAt now }
      token
      leaseUntil
      lastSequence
      replayed := lastSequence = 0
      released := false }, t)

/-- `renew_session`. -/
def renewSession (t : Tables) (lease : SessionLease) (actual : WorkspaceIdentity) (now : Time) :
    Except MemoryError SessionLease × Tables :=
  match (do
    validateWorkspaceIdentity lease.session actual
    deadlineAfter now SESSION_LEASE "session lease") with
  | .error error => (.error error, t)
  | .ok leaseUntil =>
    let (t, changed) := updateSession t lease.session.id
      (fun row => row.executionToken = some lease.token)
      fun row => { row with executionLeaseUntil := some leaseUntil }
    if changed = 1 then (.ok { lease with leaseUntil }, t)
    else (.error (.staleSessionLease lease.session.id), t)

/-- `release_session`. -/
def releaseSession (t : Tables) (lease : SessionLease) :
    Except MemoryError SessionLease × Tables :=
  if lease.released then (.ok lease, t)
  else
    let (t, changed) := updateSession t lease.session.id
      (fun row => row.executionToken = some lease.token)
      fun row => { row with executionToken := none, executionLeaseUntil := none }
    if changed = 1 then (.ok { lease with released := true }, t)
    else (.error (.staleSessionLease lease.session.id), t)

/-- `replay_session`. -/
def replaySession (encoding : Encoding) (t : Tables) (lease : SessionLease)
    (actual : WorkspaceIdentity) (now : Time) :
    Except MemoryError (SessionReplay × SessionLease) × Tables :=
  transaction t do
    validateWorkspaceIdentity lease.session actual
    validateSessionLease t lease now
    let replay ← loadSessionReplay encoding t lease.session.id
    return ((replay, { lease with lastSequence := replay.lastSequence, replayed := true }), t)

/-! ## Appending a turn -/

/-- `SessionEventInput`; the assets are left out. -/
structure SessionEventInput where
  kind : SessionEventKind
  json : String
deriving DecidableEq, Repr

/-- `prepare_turn`. -/
def prepareTurn (encoding : Encoding) (events : List SessionEventInput) :
    Except MemoryError Unit := do
  ensure (events ≠ []) (.invalid "turn must contain at least one event")
  ensure (events.length ≤ MAX_TURN_EVENTS) (.invalid s!"turn exceeds {MAX_TURN_EVENTS} event limit")
  prepareEvents 0 events
where
  /-- The loop over the events. -/
  prepareEvents : Nat → List SessionEventInput → Except MemoryError Unit
    | _, [] => .ok ()
    | totalBytes, event :: events => do
      ensure (event.kind ≠ .summary)
        (.invalid "summary events may only be written by compaction")
      let bytes ← boundedJsonString encoding (.value event.json) MAX_EVENT_BYTES "session event"
      ensure (totalBytes + bytes ≤ MAX_TURN_BYTES)
        (.invalid s!"turn exceeds {MAX_TURN_BYTES} byte payload limit")
      prepareEvents (totalBytes + bytes) events

/-- The loop of `append_turn_internal`: one `INSERT INTO session_events` for each event. -/
def insertTurn (session turnId : Uuid) (turnSize currentSequence : Nat) (now : Time) :
    Nat → List (Uuid × SessionEventInput) → Tables → Except MemoryError Tables
  | _, [], t => .ok t
  | offset, (id, input) :: events, t => do
    let sequence := currentSequence + (offset + 1)
    ensure (sequence ≤ I64_MAX) (.corrupt "session event sequence exceeds SQLite range")
    insertTurn session turnId turnSize currentSequence now (offset + 1) events { t with
      events := t.events.insert id {
        sessionId := session
        sequence
        turnId
        turnIndex := offset
        turnSize
        kind := input.kind
        payload := .value input.json
        createdAt := now } }

/-- What a call leaves: its result, the lease, and the tables. -/
structure LeaseCall (α : Type) where
  result : Except MemoryError α
  lease : SessionLease
  tables : Tables

/-- The writes of `append_turn_internal`; gives the new deadline of the lease. -/
def writeTurn (t : Tables) (lease : SessionLease) (events : List (Uuid × SessionEventInput))
    (turnId : Uuid) (currentSequence : Nat) (now : Time) : Except MemoryError (Time × Tables) := do
  let leaseUntil ← deadlineAfter now SESSION_LEASE "session lease"
  let t ← insertTurn lease.session.id turnId events.length currentSequence now 0 events t
  let (t, changed) := updateSession t lease.session.id
    (fun row => row.executionToken = some lease.token)
    fun row => { row with updatedAt := now, executionLeaseUntil := some leaseUntil }
  ensure (changed = 1) (.staleSessionLease lease.session.id)
  return (leaseUntil, t)

/-- `append_turn`: `append_turn_internal` without a pending tool batch or agent turn to close.  The
events come with their new identifiers. -/
def appendTurn (encoding : Encoding) (t : Tables) (lease : SessionLease)
    (actual : WorkspaceIdentity) (events : List (Uuid × SessionEventInput)) (turnId : Uuid)
    (now : Time) : LeaseCall Nat :=
  match (do
    prepareTurn encoding (events.map Prod.snd)
    ensure (lease.replayed = true) (.replayRequired lease.session.id)
    validateWorkspaceIdentity lease.session actual
    validateSessionLease t lease now) with
  | .error error => { result := .error error, lease, tables := t }
  | .ok () =>
    let currentSequence := lastEventSequence t lease.session.id
    if currentSequence ≠ lease.lastSequence then
      { result := .error (.staleReplay lease.session.id lease.lastSequence currentSequence)
        lease := { lease with replayed := false }
        tables := t }
    else
      match transaction t (writeTurn t lease events turnId currentSequence now) with
      | (.error error, tables) => { result := .error error, lease, tables }
      | (.ok leaseUntil, tables) =>
        { result := .ok (currentSequence + events.length)
          lease := { lease with
            lastSequence := currentSequence + events.length, leaseUntil,
            session := { lease.session with updatedAt := now } }
          tables }

end Memory

end Emelex

import Emelex.Memory.Workers

/-!
# Where to compact (`memory/lifecycle.rs`)

* `CompactionPolicy` — a context window and the number of turns that no summary may cover.
* `weighTurns` — the turns after the last boundary, with their estimated tokens.
* `chooseBoundary` — the first turns that are to be replaced.
* `planCompaction`, `queueCompactionIfNeeded`.

The length of a payload that SQLite counts is that of its text in characters, so it is an argument
beside the encoding, which counts bytes.

Principal definitions: `planCompaction`, `queueCompactionIfNeeded`.
-/

set_option autoImplicit false

namespace Emelex

namespace Memory

def U64_MAX : Nat := 18446744073709551615
def TOKEN_BYTES : Nat := 1

/-- `CompactionPolicy`, with what its constructors check. -/
structure CompactionPolicy where
  contextWindowTokens : Nat
  recentTurns : Nat
  windowPositive : 0 < contextWindowTokens
  turnsInRange : 1 ≤ recentTurns ∧ recentTurns ≤ 64

/-- `CompactionPolicy::new`. -/
def CompactionPolicy.new (contextWindowTokens : Nat) : Except MemoryError CompactionPolicy :=
  if h : 0 < contextWindowTokens then .ok ⟨contextWindowTokens, 4, h, by decide⟩
  else .error (.invalid "compaction context window must be positive")

/-- `preserve_recent_turns`. -/
def CompactionPolicy.preserveRecentTurns (policy : CompactionPolicy) (turns : Nat) :
    Except MemoryError CompactionPolicy :=
  if h : 1 ≤ turns ∧ turns ≤ 64 then .ok { policy with recentTurns := turns, turnsInRange := h }
  else .error (.invalid "preserved recent turns must be in 1..=64")

/-- `CompactionPlan`. -/
structure CompactionPlan where
  throughSequence : Nat
  currentTokens : Nat
  triggerTokens : Nat
  targetTokens : Nat
  estimatedRemovedTokens : Nat
  preservedTurns : Nat
deriving DecidableEq, Repr

/-- `percent_ceil`. -/
def percentCeil (value percent : Nat) : Except MemoryError Nat := do
  ensure (value * percent + 99 ≤ U64_MAX) (.invalid "compaction token threshold overflow")
  return (value * percent + 99) / 100

/-- `percent_floor`. -/
def percentFloor (value percent : Nat) : Except MemoryError Nat := do
  ensure (value * percent ≤ U64_MAX) (.invalid "compaction token target overflow")
  return value * percent / 100

/-- `TurnWeight`. -/
structure TurnWeight where
  turnId : Uuid
  size : Nat
  seen : Nat
  endSequence : Nat
  tokens : Nat
deriving DecidableEq, Repr

/-- `checked_add` of two estimates. -/
def addTokens (a b : Nat) : Except MemoryError Nat := do
  ensure (a + b ≤ U64_MAX) (.corrupt "compaction token estimate overflow")
  return a + b

/-- The boundary after which nothing is covered. -/
def effectiveAfter (t : Tables) (session : Uuid) : Nat :=
  ((t.compactions.rows.entries.filter fun e =>
    e.2.sessionId = session && e.2.state = .completed).map (·.2.throughSequence)).foldl max 0

/-- The rows that are weighed: the first ones after the boundary. -/
def planRows (t : Tables) (session : Uuid) : List (Uuid × SessionEvent) :=
  (sessionEvents t session fun _ event => effectiveAfter t session < event.sequence).take
    MAX_REPLAY_EVENTS

/-- A turn ends where the next one starts. -/
def endTurn (session : Uuid) (groups : List TurnWeight) :
    Option TurnWeight → Except MemoryError (List TurnWeight)
  | none => .ok groups
  | some group => do
    ensure (group.seen = group.size)
      (.corrupt s!"session {session} compaction accounting splits turn {group.turnId}")
    return groups ++ [group]

section plan

variable (payloadLength : Payload → Nat)

/-- The estimate for an event, at least one token. -/
def eventTokens (payload : Payload) : Nat :=
  max ((payloadLength payload + (TOKEN_BYTES - 1)) / TOKEN_BYTES) 1

/-- The loop of `plan_compaction` over the rows. -/
def weighTurns (session : Uuid) (groups : List TurnWeight) :
    Option TurnWeight → List (Uuid × SessionEvent) → Except MemoryError (List TurnWeight)
  | none, [] => .ok groups
  | some group, [] => do
    ensure (group.seen = group.size)
      (.corrupt s!"session {session} ends inside atomic turn {group.turnId}")
    return groups ++ [group]
  | current, (_, event) :: rows => do
    ensure (0 < event.sequence ∧ 0 < event.turnSize ∧ event.turnIndex < event.turnSize)
      (.corrupt s!"session {session} has invalid compaction accounting metadata")
    let tokens := eventTokens payloadLength event.payload
    if event.turnIndex = 0 then
      let groups ← endTurn session groups current
      weighTurns session groups (some {
        turnId := event.turnId
        size := event.turnSize
        seen := 1
        endSequence := event.sequence
        tokens }) rows
    else
      let group ← required (.corrupt s!"session {session} starts inside an atomic turn") current
      ensure (group.turnId = event.turnId ∧ event.turnIndex = group.seen ∧
        event.turnSize = group.size)
        (.corrupt s!"session {session} has interleaved atomic turns")
      let tokens ← addTokens group.tokens tokens
      weighTurns session groups (some { group with
        seen := group.seen + 1
        endSequence := event.sequence
        tokens }) rows

/-- The loop of `plan_compaction` over the turns that may be removed: their tokens up to the
boundary, and the boundary. -/
def chooseBoundary (desired : Nat) :
    Nat → Option Nat → List TurnWeight → Except MemoryError (Nat × Option Nat)
  | removed, boundary, [] => .ok (removed, boundary)
  | removed, _, group :: groups => do
    let removed ← addTokens removed group.tokens
    if desired ≤ removed then return (removed, some group.endSequence)
    else chooseBoundary desired removed (some group.endSequence) groups

/-- `plan_compaction`. -/
def planCompaction (t : Tables) (session : Uuid) (currentTokens : Nat) (policy : CompactionPolicy) :
    Except MemoryError (Option CompactionPlan) := do
  let _ ← required (.notFound "session" session) (t.sessions.get session)
  let triggerTokens ← percentCeil policy.contextWindowTokens 80
  if currentTokens < triggerTokens then return none
  else
    let targetTokens ← percentFloor policy.contextWindowTokens 50
    let desired := currentTokens - targetTokens
    let groups ← weighTurns payloadLength session [] none (planRows t session)
    let removable := groups.length - policy.recentTurns
    let (removed, boundary) ← chooseBoundary desired 0 none (groups.take removable)
    if removed < desired then return none
    else
      return boundary.map fun throughSequence => {
        throughSequence
        currentTokens
        triggerTokens
        targetTokens
        estimatedRemovedTokens := removed
        preservedTurns := policy.recentTurns }

/-- `queue_compaction_if_needed`. -/
def queueCompactionIfNeeded (encoding : Encoding) (t : Tables) (session : Uuid)
    (currentTokens : Nat) (policy : CompactionPolicy) (id : Uuid) (now : Time) :
    Except MemoryError (Option (CompactionPlan × Job)) × Tables :=
  match planCompaction payloadLength t session currentTokens policy with
  | .error error => (.error error, t)
  | .ok none => (.ok none, t)
  | .ok (some plan) =>
    let (job, t) := queueCompaction encoding t session plan.throughSequence id now
    (job.map fun job => some (plan, job), t)

end plan

end Memory

end Emelex

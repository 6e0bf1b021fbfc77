import Emelex.Lib.Paging
import Emelex.Lib.Rfc3339
import Emelex.Memory.Schema

/-!
# The catalogs of Sessions and of Knowledge (`memory.rs`)

A listing is one `SELECT` with a cursor in its condition, an order and a limit, whose rows are
collected until one of two bounds is reached.

* `RawSession`, `RawKnowledge` — the columns that a listing reads.
* `collectPage` — the loop of `collect_session_page` and of `collect_knowledge_page`.
* `sessions`, `knowledgeForWorkspace` — one page.

Identifiers and times are columns of text; the functions of other packages that write and read them
are arguments.  A workspace identity is written by its two numbers.  The texts of a model reference
and of a snapshot are kept as they are, and confidence is left out.

Principal definitions: `sessions`, `knowledgeForWorkspace`.
-/

set_option autoImplicit false

namespace Emelex

namespace Memory

namespace Catalog

def MAX_SESSION_PAGE_ITEMS : Nat := 500
def MAX_KNOWLEDGE_PAGE_ITEMS : Nat := 100
def MAX_PAGE_PAYLOAD_BYTES : Nat := 16777216
def USIZE_MAX : Nat := 18446744073709551615

/-- The functions of `uuid` and `chrono` that a listing uses. -/
structure Packages where
  uuidText : Uuid → String
  parseUuid : String → Except String Uuid
  toRfc3339 : DateTime → String
  parseFromRfc3339 : String → Except String DateTime

/-! ## Rows -/

/-- `RawSession`. -/
structure RawSession where
  id : String
  workspace : String
  workspaceIdentity : Option WorkspaceIdentity
  modelReference : Option String
  modelSnapshot : Option String
  title : Option String
  createdAt : String
  updatedAt : String
deriving DecidableEq, Repr

/-- `Session`. -/
structure Session where
  id : Uuid
  workspace : String
  workspaceIdentity : WorkspaceIdentity
  modelReference : Option String
  modelSnapshot : Option String
  title : Option String
  createdAt : DateTime
  updatedAt : DateTime
deriving DecidableEq, Repr

/-- `RawKnowledge`: a row of `knowledge` with its active version. -/
structure RawKnowledge where
  id : String
  workspace : String
  workspaceIdentity : WorkspaceIdentity
  key : String
  activeVersion : Int
  content : String
  sourceSessionId : Option String
  pinned : Bool
  tombstoned : Bool
  createdAt : String
  updatedAt : String
deriving DecidableEq, Repr

/-- `Knowledge`. -/
structure Knowledge where
  id : Uuid
  workspace : String
  workspaceIdentity : WorkspaceIdentity
  key : String
  activeVersion : Nat
  content : String
  sourceSessionId : Option Uuid
  pinned : Bool
  tombstoned : Bool
  createdAt : DateTime
  updatedAt : DateTime
deriving DecidableEq, Repr

section packages

variable (p : Packages)

/-- `parse_uuid`. -/
def parseUuid (value field : String) : Except MemoryError Uuid :=
  (p.parseUuid value).mapError fun error => .corrupt s!"{field} \"{value}\" is invalid: {error}"

/-- `parse_time`. -/
def parseTime (value field : String) : Except MemoryError DateTime :=
  (p.parseFromRfc3339 value).mapError fun error =>
    .corrupt s!"{field} \"{value}\" is invalid: {error}"

/-- `Session::try_from`. -/
def Session.tryFrom (raw : RawSession) : Except MemoryError Session := do
  let id ← parseUuid p raw.id "session ID"
  let workspaceIdentity ← required (.corrupt "session has no durable workspace identity")
    raw.workspaceIdentity
  let createdAt ← parseTime p raw.createdAt "session creation time"
  let updatedAt ← parseTime p raw.updatedAt "session update time"
  return {
    id
    workspace := raw.workspace
    workspaceIdentity
    modelReference := raw.modelReference
    modelSnapshot := raw.modelSnapshot
    title := raw.title
    createdAt
    updatedAt }

/-- `Knowledge::try_from`. -/
def Knowledge.tryFrom (raw : RawKnowledge) : Except MemoryError Knowledge := do
  let id ← parseUuid p raw.id "Knowledge ID"
  ensure (0 ≤ raw.activeVersion ∧ raw.activeVersion ≤ U32_MAX) (.corrupt "invalid Knowledge version")
  let sourceSessionId ← match raw.sourceSessionId with
    | none => pure none
    | some source => (parseUuid p source "Knowledge source session ID").map some
  let createdAt ← parseTime p raw.createdAt "Knowledge creation time"
  let updatedAt ← parseTime p raw.updatedAt "Knowledge update time"
  return {
    id
    workspace := raw.workspace
    workspaceIdentity := raw.workspaceIdentity
    key := raw.key
    activeVersion := raw.activeVersion.toNat
    content := raw.content
    sourceSessionId
    pinned := raw.pinned
    tombstoned := raw.tombstoned
    createdAt
    updatedAt }

end packages

/-! ## Pages -/

/-- `page_limit`. -/
def pageLimit (limit maximum : Nat) (collection : String) : Except MemoryError Nat := do
  ensure (1 ≤ limit ∧ limit ≤ maximum)
    (.invalid s!"{collection} page limit must be between 1 and {maximum}")
  return limit

/-- `saturating_add`. -/
def saturatingAdd (a b : Nat) : Nat := min (a + b) USIZE_MAX

/-- The payload of a row of `sessions`. -/
def RawSession.rowBytes (raw : RawSession) : Nat :=
  let optional (text : Option String) := (text.map String.utf8ByteSize).getD 0
  saturatingAdd (saturatingAdd (saturatingAdd (saturatingAdd raw.id.utf8ByteSize
    raw.workspace.utf8ByteSize) (optional raw.modelReference)) (optional raw.modelSnapshot))
    (optional raw.title)

/-- The payload of a row of `knowledge`. -/
def RawKnowledge.rowBytes (raw : RawKnowledge) : Nat :=
  raw.key.utf8ByteSize + raw.content.utf8ByteSize

/-- The loop over the rows: the items of the page, and whether a row was left. -/
def collectPage {ρ α : Type} (rowBytes : ρ → Nat) (tryFrom : ρ → Except MemoryError α)
    (collection : String) (limit : Nat) :
    List α → Nat → List ρ → Except MemoryError (List α × Bool)
  | items, _, [] => .ok (items, false)
  | items, payloadBytes, raw :: rows =>
    if items.length = limit then .ok (items, true)
    else do
      let next := payloadBytes + rowBytes raw
      ensure (next ≤ USIZE_MAX) (.corrupt s!"{collection} page byte count overflow")
      if items ≠ [] ∧ MAX_PAGE_PAYLOAD_BYTES < next then return (items, true)
      else
        let item ← tryFrom raw
        collectPage rowBytes tryFrom collection limit (items ++ [item]) next rows

/-- `SELECT … WHERE … ORDER BY … LIMIT …`. -/
def select {ρ : Type} (rows : List ρ) (condition : ρ → Bool) (orderBy : ρ → ρ → Bool)
    (limit : Nat) : List ρ :=
  ((rows.filter condition).insertionSort fun a b => orderBy a b = true).take limit

/-! ### Sessions -/

/-- `SessionCursor`. -/
structure SessionCursor where
  updatedAt : DateTime
  id : Uuid
deriving DecidableEq, Repr

/-- `collect_session_page`. -/
def collectSessionPage (p : Packages) (rows : List RawSession) (limit : Nat) :
    Except MemoryError (Paging.Page SessionCursor Session) := do
  let (items, hasMore) ←
    collectPage RawSession.rowBytes (Session.tryFrom p) "Session" limit [] 0 rows
  return {
    items
    next := if hasMore then items.getLast?.map fun session =>
        { updatedAt := session.updatedAt, id := session.id }
      else none }

/-- `?3 IS NULL OR updated_at < ?3 OR (updated_at = ?3 AND id < ?4)`. -/
def RawSession.before (cursorTime cursorId : Option String) (row : RawSession) : Bool :=
  match cursorTime, cursorId with
  | some time, some id => row.updatedAt < time || (row.updatedAt = time && row.id < id)
  | _, _ => true

/-- `ORDER BY updated_at DESC, id DESC`. -/
def RawSession.newestFirst (a b : RawSession) : Bool :=
  b.updatedAt < a.updatedAt || (a.updatedAt = b.updatedAt && b.id ≤ a.id)

/-- `sessions`. -/
def sessions (p : Packages) (rows : List RawSession) (workspace : Option WorkspaceIdentity)
    (before : Option SessionCursor) (limit : Nat) :
    Except MemoryError (Paging.Page SessionCursor Session) := do
  let limit ← pageLimit limit MAX_SESSION_PAGE_ITEMS "Session"
  let queryLimit := limit + 1
  let cursorTime := before.map fun cursor => p.toRfc3339 cursor.updatedAt
  let cursorId := before.map fun cursor => p.uuidText cursor.id
  match workspace with
  | some workspace =>
    collectSessionPage p (select rows
      (fun row => row.workspaceIdentity = some workspace && row.before cursorTime cursorId)
      RawSession.newestFirst queryLimit) limit
  | none =>
    collectSessionPage p (select rows (RawSession.before cursorTime cursorId)
      RawSession.newestFirst queryLimit) limit

/-! ### Knowledge -/

/-- `KnowledgeCursor`. -/
structure KnowledgeCursor where
  pinned : Bool
  updatedAt : DateTime
  key : String
deriving DecidableEq, Repr

/-- `collect_knowledge_page`. -/
def collectKnowledgePage (p : Packages) (rows : List RawKnowledge) (limit : Nat) :
    Except MemoryError (Paging.Page KnowledgeCursor Knowledge) := do
  let (items, hasMore) ←
    collectPage RawKnowledge.rowBytes (Knowledge.tryFrom p) "Knowledge" limit [] 0 rows
  return {
    items
    next := if hasMore then items.getLast?.map fun knowledge =>
        { pinned := knowledge.pinned, updatedAt := knowledge.updatedAt, key := knowledge.key }
      else none }

/-- `?3 IS NULL OR k.pinned < ?3 OR (k.pinned = ?3 AND k.updated_at < ?4)
OR (k.pinned = ?3 AND k.updated_at = ?4 AND k.key > ?5)`. -/
def RawKnowledge.after (cursorPinned : Option Bool) (cursorTime cursorKey : Option String)
    (row : RawKnowledge) : Bool :=
  match cursorPinned, cursorTime, cursorKey with
  | some pinned, some time, some key => row.pinned < pinned ||
      (row.pinned = pinned && row.updatedAt < time) ||
      (row.pinned = pinned && row.updatedAt = time && key < row.key)
  | _, _, _ => true

/-- `ORDER BY k.pinned DESC, k.updated_at DESC, k.key ASC`. -/
def RawKnowledge.pinnedFirst (a b : RawKnowledge) : Bool :=
  b.pinned < a.pinned || (a.pinned = b.pinned && (b.updatedAt < a.updatedAt ||
    (a.updatedAt = b.updatedAt && a.key ≤ b.key)))

/-- `knowledge_for_workspace`. -/
def knowledgeForWorkspace (p : Packages) (rows : List RawKnowledge) (workspace : WorkspaceIdentity)
    (after : Option KnowledgeCursor) (limit : Nat) :
    Except MemoryError (Paging.Page KnowledgeCursor Knowledge) := do
  let limit ← pageLimit limit MAX_KNOWLEDGE_PAGE_ITEMS "Knowledge"
  let queryLimit := limit + 1
  let cursorPinned := after.map fun cursor => cursor.pinned
  let cursorTime := after.map fun cursor => p.toRfc3339 cursor.updatedAt
  let cursorKey := after.map fun cursor => cursor.key
  collectKnowledgePage p (select rows
    (fun row => row.workspaceIdentity = workspace && !row.tombstoned &&
      row.after cursorPinned cursorTime cursorKey) RawKnowledge.pinnedFirst queryLimit) limit

end Catalog

end Memory

end Emelex

import Emelex.Engine.ToolCalls
import Emelex.Lib.Checks
import Emelex.Lib.Paging
import Emelex.Models.Checkpoint
import Mathlib.Data.List.Infix

/-!
# Searching the catalog of the Hub (`hub/mod.rs`)

One call looks at one page of the Hub, inspects its candidates in chunks, and stops where it has as
many results as are asked for.  The cursor that it returns names the page of the Hub and the place in
it where the next call goes on.

* `SearchCursor`, `encodeSearchCursor`, `decodeSearchCursor` — the state of a walk, and its text.
* `inspectChunk`, `filterSearchStorage`, `appendCompatiblePage` — a chunk of candidates.
* `search` — one page of results.

The Hub's answers, the inspection of one model, the evidence for a filter and the free space are
given.  `serde_json` and `base64` work on texts in place of their UTF-8; the traits of a model are of
any type.  What the Hub counts of a model and its files are left out.

Principal definitions: `search`, `decodeSearchCursor`.
-/

set_option autoImplicit false

namespace Emelex

open Checks

namespace Hub

namespace Search

def MAX_SEARCH_QUERY_BYTES : Nat := 1024
def MAX_SEARCH_CURSOR_BYTES : Nat := 2048
def MAX_UPSTREAM_CURSOR_BYTES : Nat := 1024
def SEARCH_CURSOR_VERSION : Nat := 3
def MAX_HUB_COMPONENT_BYTES : Nat := 96
def MAX_HUB_ID_BYTES : Nat := 96
def USIZE_MAX : Nat := 18446744073709551615

/-- `HubError`, as far as a search raises it. -/
inductive SearchError where
  | configuration (message : String)
  | request (message : String)
  | http (status : Nat) (body : String)
  | notPublic (id : String)
  | incompatible (message : String)
  | protocol (message : String)
  | io (message : String)
deriving DecidableEq, Repr

def SearchError.display : SearchError → String
  | .configuration message => s!"invalid Hub configuration: {message}"
  | .request message => s!"Hub request failed: {message}"
  | .http status body => s!"Hub returned HTTP {status}: {body}"
  | .notPublic id => s!"model is private or gated: {id}"
  | .incompatible message => s!"incompatible Hub model: {message}"
  | .protocol message => s!"invalid Hub response: {message}"
  | .io message => s!"I/O failed for {message}"

/-- `candidate_inspection_diagnostic`. -/
def candidateInspectionDiagnostic : SearchError → Bool
  | .notPublic _ | .incompatible _ | .protocol _ => true
  | .http status _ => status = 404 || status = 410
  | _ => false

/-! ## Requests and answers -/

/-- `HubSearch`; a filter is its text. -/
structure HubSearch where
  query : Option String
  require : List String
  mlxLibrary : Bool
  cursor : Option String

/-- The bounds, the credential and the fit profile of a client: batch size, context tokens and
memory budget. -/
structure Client where
  results : Nat
  scanLimit : Nat
  metadataConcurrency : Nat
  credentialScope : Option (List UInt8)
  fitProfile : Option (Nat × Nat × Nat)

/-- The bounds of `HubConfig::validate`. -/
structure Client.Valid (c : Client) : Prop where
  results : 1 ≤ c.results ∧ c.results ≤ 100
  scanLimit : c.results ≤ c.scanLimit ∧ c.scanLimit ≤ 1000
  metadataConcurrency : 1 ≤ c.metadataConcurrency ∧ c.metadataConcurrency ≤ 32

/-- A candidate of a page of the Hub. -/
structure ModelWire where
  id : String
  isPrivate : Bool
  gated : Json

/-- A page of the Hub, with the cursor of the link to the next. -/
structure Response where
  candidates : List ModelWire
  next : Option String

/-- `HubModel`. -/
structure HubModel (T : Type) where
  id : String
  traits : T
  compatible : Bool
  diagnostics : List String
  downloadBytes : Option Nat

/-- `HubDiagnostic`. -/
structure HubDiagnostic where
  id : Option String
  message : String
deriving DecidableEq, Repr

/-- `gated`. -/
def gated : Json → Bool
  | .null | .bool false => false
  | _ => true

/-- `valid_hub_component`. -/
def validHubComponent (value : List Char) : Bool :=
  decide (Text.utf8Len value ≤ MAX_HUB_COMPONENT_BYTES) &&
    value.head?.any (fun c => c.isAlphanum || c = '_') &&
    value.getLast?.any (fun c => c.isAlphanum || c = '_') &&
    value.all fun c => c.isAlphanum || c ∈ ['-', '_', '.']

/-- `HubModelId::parse`. -/
def parseHubModelId (id : String) : Except String String :=
  let value := id.toList
  let (nameSpace, repoName) := match value.span (· ≠ '/') with
    | (repoName, []) => (none, repoName)
    | (nameSpace, _ :: repoName) => (some nameSpace, repoName)
  if value = [] ∨ repoName = [] ∨ nameSpace = some [] ∨ '/' ∈ repoName ∨
      MAX_HUB_ID_BYTES < Text.utf8Len value ∨ validHubComponent repoName = false ∨
      nameSpace.any (fun part => !validHubComponent part) = true ∨
      ['-', '-'] <:+: value ∨ ['.', '.'] <:+: value ∨ ".git".toList <:+ value then
    .error s!"invalid Hugging Face model ID {id.quote}; expected repo_name or namespace/repo_name"
  else .ok id

/-! ## Cursors -/

/-- `SearchCursor`. -/
structure SearchCursor where
  version : Nat
  upstream : Option String
  offset : Nat
  scope : String
deriving DecidableEq, Repr

/-- What a cursor is bound to: the query, the filters, the library flag, the credential and the fit
profile. -/
structure Scope where
  query : Option String
  require : List String
  mlxLibrary : Bool
  credentialScope : Option (List UInt8)
  fitProfile : Option (Nat × Nat × Nat)
deriving DecidableEq

/-- A character of a string in JSON; the strings of a cursor have no control characters. -/
def escapeChar (c : Char) : List Char := if c = '"' ∨ c = '\\' then ['\\', c] else [c]

def jsonString (value : String) : List Char :=
  '"' :: value.toList.flatMap escapeChar ++ ['"']

/-- `serde_json::to_vec` of a cursor. -/
def SearchCursor.toJson (cursor : SearchCursor) : List Char :=
  "\x7b\"version\":".toList ++ Nat.toDigits 10 cursor.version ++ ",\"upstream\":".toList ++
    (match cursor.upstream with
      | some upstream => jsonString upstream
      | none => "null".toList) ++
    ",\"offset\":".toList ++ Nat.toDigits 10 cursor.offset ++ ",\"scope\":".toList ++
    jsonString cursor.scope ++ "\x7d".toList

/-- What `serde_json`, `base64` and `sha2` do. -/
structure Codec where
  base64Encode : List Char → String
  base64Decode : String → Option (List Char)
  readCursor : List Char → Option SearchCursor
  scopeText : Scope → List Char
  sha256 : List Char → Import.Digest

/-- `normalized_search_query`. -/
def normalizedSearchQuery (search : HubSearch) : Except SearchError (Option String) := do
  let query := Text.trim ((search.query.getD "").toList)
  ensure (Text.utf8Len query ≤ MAX_SEARCH_QUERY_BYTES)
    (.configuration s!"Hub search query exceeds {MAX_SEARCH_QUERY_BYTES} bytes")
  ensure (query.any isControl = false)
    (.configuration "Hub search query contains control characters")
  return if query = [] then none else some (String.ofList query)

/-- The tuple of `search_scope`. -/
def scopeOf (client : Client) (search : HubSearch) : Except SearchError Scope := do
  let query ← normalizedSearchQuery search
  return {
    query
    require := (search.require.insertionSort (· ≤ ·)).dedup
    mlxLibrary := search.mlxLibrary
    credentialScope := client.credentialScope
    fitProfile := client.fitProfile }

/-- `search_scope`. -/
def searchScope (codec : Codec) (client : Client) (search : HubSearch) :
    Except SearchError String := do
  let scope ← scopeOf client search
  return (codec.sha256 (codec.scopeText scope)).text

/-- `validate_upstream_cursor`. -/
def validateUpstreamCursor (cursor : String) : Except SearchError Unit :=
  ensure (cursor ≠ "" ∧ cursor.utf8ByteSize ≤ MAX_UPSTREAM_CURSOR_BYTES ∧
      cursor.toList.all (fun c => 33 ≤ c.toNat && c.toNat ≤ 126) = true)
    (.protocol "invalid Hub cursor")

/-- The check of a cursor that may be missing. -/
def validateUpstream : Option String → Except SearchError Unit
  | some cursor => validateUpstreamCursor cursor
  | none => .ok ()

/-- `encode_search_cursor`. -/
def encodeSearchCursor (codec : Codec) (client : Client) (search : HubSearch)
    (upstream : Option String) (offset : Nat) : Except SearchError String := do
  validateUpstream upstream
  ensure (offset ≤ 1000)
    (.protocol "Hub search cursor offset exceeds the configured maximum")
  let scope ← searchScope codec client search
  let bytes := SearchCursor.toJson { version := SEARCH_CURSOR_VERSION, upstream, offset, scope }
  ensure (Text.utf8Len bytes ≤ MAX_SEARCH_CURSOR_BYTES)
    (.protocol "Hub search cursor exceeds its encoded-state bound")
  return codec.base64Encode bytes

/-- `decode_search_cursor`. -/
def decodeSearchCursor (codec : Codec) (client : Client) (search : HubSearch) :
    Except SearchError SearchCursor :=
  match search.cursor with
  | none => do
    let scope ← searchScope codec client search
    return { version := SEARCH_CURSOR_VERSION, upstream := none, offset := 0, scope }
  | some cursor => do
    ensure (cursor.utf8ByteSize ≤ MAX_SEARCH_CURSOR_BYTES * 2)
      (.protocol "invalid Hub search cursor")
    let bytes ← required (.protocol "invalid Hub search cursor") (codec.base64Decode cursor)
    ensure (Text.utf8Len bytes ≤ MAX_SEARCH_CURSOR_BYTES) (.protocol "invalid Hub search cursor")
    let decoded ← required (.protocol "invalid Hub search cursor") (codec.readCursor bytes)
    ensure (decoded.version = SEARCH_CURSOR_VERSION ∧ decoded.offset ≤ 1000)
      (.protocol <| "Hub search cursor does not match this query, catalog, credential, or fit " ++
        "scope")
    let scope ← searchScope codec client search
    ensure (decoded.scope = scope)
      (.protocol <| "Hub search cursor does not match this query, catalog, credential, or fit " ++
        "scope")
    validateUpstream decoded.upstream
    return decoded

/-- `continuation_cursor`. -/
def continuationCursor (codec : Codec) (client : Client) (search : HubSearch)
    (upstream : Option String) (offset candidateCount : Nat) (nextUpstream : Option String) :
    Except SearchError (Option String) :=
  if offset < candidateCount then
    (encodeSearchCursor codec client search upstream offset).map some
  else match nextUpstream with
    | some cursor => (encodeSearchCursor codec client search (some cursor) 0).map some
    | none => .ok none

/-! ## Candidates -/

/-- Where a search is made: the Hub's answers, the inspection of a model, the filters with remote
evidence, and the free space. -/
structure World (T : Type) where
  fetch : Bool → Nat → Option String → Option String → Except SearchError Response
  inspect : String → Except SearchError (HubModel T)
  satisfies : T → String → Bool
  remoteEvidence : String → Bool
  available : Except SearchError (Option Nat)

/-- `required_download_storage_bytes`. -/
def requiredDownloadStorageBytes (transferBytes : Nat) : Option Nat :=
  let bytes := transferBytes + max 67108864 (transferBytes / 20)
  if bytes ≤ 18446744073709551615 then some bytes else none

/-- `append_compatible_page`. -/
def appendCompatiblePage {α : Type} (limit : Nat) : List α → List (Nat × α) → List α × Option Nat
  | items, [] => (items, none)
  | items, (rank, item) :: ranked =>
    if (items ++ [item]).length = limit then
      (items ++ [item], if rank + 1 ≤ USIZE_MAX then some (rank + 1) else none)
    else appendCompatiblePage limit (items ++ [item]) ranked

section search

variable {T : Type} (w : World T)

/-- `filter_search_storage` of one candidate: whether it fits, or why not. -/
def fitsStorage (available : Nat) (model : HubModel T) : Except HubDiagnostic Unit := do
  let needed ← required
    ⟨some model.id, "candidate download storage requirement is unavailable"⟩
    (model.downloadBytes.bind requiredDownloadStorageBytes)
  ensure (needed ≤ available) ⟨some model.id, s!"download requires {needed} bytes including " ++
    s!"safety margin, exceeds available storage {available} bytes"⟩

/-- `filter_search_storage`. -/
def filterSearchStorage (available : Option Nat) (ranked : List (Nat × HubModel T)) :
    List (Nat × HubModel T) × List HubDiagnostic :=
  match available with
  | none => (ranked, [])
  | some available =>
    (ranked.filter fun entry => (fitsStorage available entry.2).isOk,
      ranked.filterMap fun entry =>
        match fitsStorage available entry.2 with
        | .ok () => none
        | .error diagnostic => some diagnostic)

/-- What is made of the inspection of one candidate. -/
def inspectCandidate (require : List String)
    (result : Nat × String × Except SearchError (HubModel T)) :
    Except SearchError (List (Nat × HubModel T) × List HubDiagnostic) :=
  match result.2.2 with
  | .ok model =>
    if model.compatible = true ∧ require.all (w.satisfies model.traits) = true then
      .ok ([(result.1, model)], [])
    else .ok ([], model.diagnostics.map fun message => ⟨some model.id, message⟩)
  | .error error =>
    if candidateInspectionDiagnostic error then .ok ([], [⟨some result.2.1, error.display⟩])
    else .error error

/-- One chunk of candidates: those that are accepted, and the diagnostics. -/
def inspectChunk (require : List String) (available : Option Nat) (chunk : List (Nat × String)) :
    Except SearchError (List (Nat × HubModel T) × List HubDiagnostic) := do
  let results := (chunk.map fun candidate => (candidate.1, candidate.2, w.inspect candidate.2))
    |>.insertionSort fun a b => a.1 ≤ b.1
  let outcomes ← results.mapM (inspectCandidate w require)
  let (accepted, diagnostics) :=
    filterSearchStorage available (outcomes.flatMap fun outcome => outcome.1)
  return (accepted, (outcomes.flatMap fun outcome => outcome.2) ++ diagnostics)

/-- `chunks`, with so many left at most. -/
def chunksFrom {α : Type} (size : Nat) : Nat → List α → List (List α)
  | 0, _ => []
  | _ + 1, [] => []
  | left + 1, x :: xs => (x :: xs).take size :: chunksFrom size left ((x :: xs).drop size)

/-- `chunks`. -/
def chunks {α : Type} (size : Nat) (xs : List α) : List (List α) := chunksFrom size xs.length xs

/-- The state of a search: the results, the candidates that were inspected, and the diagnostics. -/
structure Progress (T : Type) where
  compatible : List (HubModel T)
  metadataScanned : Nat
  diagnostics : List HubDiagnostic

/-- The loop over the chunks, and where it stopped for the results to be as many as are asked for. -/
def inspectRanked (require : List String) (available : Option Nat) (limit : Nat) :
    Progress T → List (List (Nat × String)) → Except SearchError (Progress T × Option Nat)
  | progress, [] => .ok (progress, none)
  | progress, chunk :: rest => do
    let (accepted, diagnostics) ← inspectChunk w require available chunk
    let (compatible, offset) := appendCompatiblePage limit progress.compatible accepted
    let next : Progress T := {
      compatible
      metadataScanned := progress.metadataScanned + chunk.length
      diagnostics := progress.diagnostics ++ diagnostics }
    match offset with
    | some offset => return (next, some offset)
    | none => inspectRanked require available limit next rest

/-- What a candidate is before it is inspected: an identifier, or a diagnostic. -/
def rankCandidate (client : Client) (candidate : ModelWire × Nat) :
    Except HubDiagnostic (Nat × String) :=
  if client.credentialScope = none ∧ (candidate.1.isPrivate = true ∨ gated candidate.1.gated = true)
  then
    .error ⟨(parseHubModelId candidate.1.id).toOption, "candidate is private or gated"⟩
  else match parseHubModelId candidate.1.id with
    | .ok id => .ok (candidate.2, id)
    | .error error => .error ⟨none, error⟩

/-- The candidates to inspect. -/
def rankedCandidates (client : Client) (candidates : List (ModelWire × Nat)) :
    List (Nat × String) :=
  candidates.filterMap fun candidate => (rankCandidate client candidate).toOption

/-- The diagnostics of the others. -/
def skippedDiagnostics (client : Client) (candidates : List (ModelWire × Nat)) :
    List HubDiagnostic :=
  candidates.filterMap fun candidate =>
    match rankCandidate client candidate with
    | .ok _ => none
    | .error diagnostic => some diagnostic

/-- `HubSearchPage`. -/
structure HubSearchPage (T : Type) where
  items : List (HubModel T)
  nextCursor : Option String
  scanned : Nat
  diagnostics : List HubDiagnostic

/-- `validate_remote_filters`. -/
def validateRemoteFilters (filters : List String) : Except SearchError Unit :=
  match filters.find? fun filter => !w.remoteEvidence filter with
  | some filter => .error (.configuration <| s!"trait filter {filter.quote} has no remote catalog " ++
      "evidence; use `emelex hub capabilities`")
  | none => .ok ()

/-- The cursor behind a page. -/
def nextSearchCursor (codec : Codec) (client : Client) (search : HubSearch)
    (upstream : Option String) (candidateCount : Nat) (nextUpstream : Option String) :
    Option Nat → Except SearchError (Option String)
  | some offset =>
    continuationCursor codec client search upstream offset candidateCount nextUpstream
  | none =>
    match nextUpstream with
    | some cursor => (encodeSearchCursor codec client search (some cursor) 0).map some
    | none => .ok none

/-- `search`. -/
def search (codec : Codec) (client : Client) (search : HubSearch) :
    Except SearchError (HubSearchPage T) := do
  validateRemoteFilters w search.require
  let normalizedQuery ← normalizedSearchQuery search
  let available ← w.available
  let position ← decodeSearchCursor codec client search
  let response ← w.fetch search.mlxLibrary client.scanLimit normalizedQuery position.upstream
  validateUpstream response.next
  let candidateCount := response.candidates.length
  ensure (candidateCount ≤ client.scanLimit) (.protocol <|
    s!"Hub search returned {candidateCount} candidates above configured scan limit " ++
      s!"{client.scanLimit}")
  ensure (position.offset ≤ candidateCount)
    (.protocol "Hub search cursor offset exceeds its candidate page")
  let candidates := response.candidates.zipIdx.drop position.offset
  let skipped := skippedDiagnostics client candidates
  let (progress, stopped) ← inspectRanked w search.require available client.results ⟨[], 0, skipped⟩
    (chunks client.metadataConcurrency (rankedCandidates client candidates))
  let nextCursor ← nextSearchCursor codec client search position.upstream candidateCount
    response.next stopped
  return {
    items := progress.compatible
    nextCursor
    scanned := min (skipped.length + progress.metadataScanned) USIZE_MAX
    diagnostics := progress.diagnostics }

end search

end Search

end Hub

end Emelex

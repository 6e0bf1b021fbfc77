import Mathlib.Algebra.Order.Ring.Nat
import Emelex.Models.RuntimeFiles

/-!
# Download plans and range responses (`hub/mod.rs`)

* `validateDownloadPlan` — the checks on the files of a plan.
* `validateContentRange` — which partial response answers a range request.
* `HubError` — the errors of a transfer, and which of them are retried.

Principal definitions: `validateDownloadFiles`, `validateContentRange`, `HubError.transient`.
Principal result: `contentRange_accepted`.
-/

set_option autoImplicit false

namespace Emelex

open Text

namespace Hub

/-- The largest `u64` and one more. -/
def U64_LIMIT : Nat := 2 ^ 64

/-- `HubError`, as far as a transfer raises it; a transport error by what `transient` asks. -/
inductive HubError where
  | request (timeout connect body : Bool)
  | http (status : Nat)
  | incompatible (message : String)
  | protocol (message : String)
  | observer
  | cancelled
  | downloadIdleTimeout (path : PathName)
  | io (path : PathName)
  | size (path : PathName) (expected actual : Nat)
  | hash (path : PathName) (expected actual : List Char)
  deriving DecidableEq, Repr

/-- `transient`. -/
def HubError.transient : HubError → Bool
  | request timeout connect body => timeout || connect || body
  | http status => decide (status = 429 ∨ (500 ≤ status ∧ status < 600))
  | size _ expected actual => decide (actual < expected)
  | downloadIdleTimeout _ => true
  | _ => false

/-- `RemoteFile`. -/
structure RemoteFile where
  path : PathName
  size : Nat
  expectedSha256 : Option (List Char)
  deriving DecidableEq, Repr

/-- The name the file is published under. -/
def RemoteFile.localPath (f : RemoteFile) : PathName := localRuntimePath f.path

/-- The name of its partial download. -/
def RemoteFile.partPath (f : RemoteFile) : PathName := f.localPath ++ ".part".toList

/-- `MAX_RUNTIME_COMPONENT_BYTES`. -/
def MAX_RUNTIME_COMPONENT_BYTES : Nat := 255

/-- `is_ascii_hexdigit`. -/
def isHexDigit (c : Char) : Bool :=
  c.isDigit || ('a' ≤ c && c ≤ 'f') || ('A' ≤ c && c ≤ 'F')

/-- `RemoteFile::new`. -/
def RemoteFile.new (path : PathName) (size : Nat) (expectedSha256 : Option (List Char)) :
    Except HubError RemoteFile :=
  let shown := String.ofList path
  if safeRuntimeFile path = false then .error (.protocol s!"unsafe Hub runtime path {shown}")
  else if MAX_RUNTIME_COMPONENT_BYTES < utf8Len path then
    .error (.protocol "Hub runtime path exceeds 255 bytes")
  else if size = 0 ∧ ".safetensors".toList <:+ path then
    .error (.incompatible s!"zero-byte weight file {shown}")
  else
    let digest := expectedSha256.map fun digest => digest.map Char.toLower
    if digest.any fun digest => digest.length ≠ 64 || !digest.all isHexDigit then
      .error (.protocol s!"invalid LFS digest for {shown}")
    else .ok { path, size, expectedSha256 := digest }

/-- The accumulators of the loop of `validate_download_files`. -/
structure Totals where
  names : List PathName
  localNames : List PathName
  total : Nat
  nonWeight : Nat
  deriving DecidableEq, Repr

/-- One file of the plan. -/
def validateDownloadFile (t : Totals) (file : RemoteFile) : Except HubError Totals :=
  match RemoteFile.new file.path file.size file.expectedSha256 with
  | .error e => .error e
  | .ok _ =>
    let shown := String.ofList file.path
    if file.path ∈ t.names then .error (.protocol s!"duplicate download path {shown}")
    else if file.localPath ∈ t.localNames then
      .error (.protocol s!"download paths collide after runtime normalization: {shown}")
    else if U64_LIMIT ≤ t.total + file.size then
      .error (.protocol "file-plan byte count overflow")
    else
      let weight : Bool := ".safetensors".toList <:+ file.path
      if weight = false ∧ U64_LIMIT ≤ t.nonWeight + file.size then
        .error (.protocol "file-plan byte count overflow")
      else
        .ok
          { names := file.path :: t.names
            localNames := file.localPath :: t.localNames
            total := t.total + file.size
            nonWeight := if weight then t.nonWeight else t.nonWeight + file.size }

/-- The loop of `validate_download_files`. -/
def validateEachFile : Totals → List RemoteFile → Except HubError Totals
  | t, [] => .ok t
  | t, file :: files =>
    match validateDownloadFile t file with
    | .error e => .error e
    | .ok t' => validateEachFile t' files

/-- `validate_download_files`. -/
def validateDownloadFiles (files : List RemoteFile) : Except HubError Nat :=
  if files = [] ∨ 10000 < files.length then
    .error (.protocol "download plan must contain between 1 and 10000 files")
  else
    match validateEachFile ⟨[], [], 0, 0⟩ files with
    | .error e => .error e
    | .ok t =>
      if "config.json".toList ∉ t.names ∨ "tokenizer.json".toList ∉ t.names ∨
          ¬ files.any fun file => ".safetensors".toList <:+ file.path then
        .error (.incompatible "download plan lacks config.json, tokenizer.json, or safetensors")
      else if 256 * 2 ^ 20 < t.nonWeight then
        .error (.incompatible "non-weight runtime files exceed 256 MiB")
      else .ok t.total

/-- `DownloadPlan`; of the model only whether it is MLX-compatible is read here. -/
structure DownloadPlan where
  mlx : Bool
  files : List RemoteFile
  totalBytes : Nat
  deriving DecidableEq, Repr

/-- `validate_download_plan`. -/
def validateDownloadPlan (plan : DownloadPlan) : Except HubError Unit :=
  if plan.mlx = false then
    .error (.incompatible "download plan model is not MLX-compatible")
  else
    match validateDownloadFiles plan.files with
    | .error e => .error e
    | .ok total =>
      if total ≠ plan.totalBytes then
        .error (.protocol "download plan total_bytes does not match files")
      else .ok ()

/-! ## Range responses -/

/-- The part of an HTTP response that is read: header values are their characters. -/
structure Response where
  status : Nat
  contentRange : Option (List Char)
  contentLength : Option (List Char)
  /-- The bytes of the body; the connection may end before all of them have arrived. -/
  body : List UInt8
  deriving DecidableEq, Repr

/-- `is_success`. -/
def Response.isSuccess (r : Response) : Bool := 200 ≤ r.status && r.status < 300

/-- `to_str`: a header value of visible characters. -/
def headerText (value : List Char) : Option (List Char) :=
  if value.all fun c => c = '\t' || (' ' ≤ c && c ≤ '~') then some value else none

/-- `split_once`. -/
def splitOnce (c : Char) (s : List Char) : Option (List Char × List Char) :=
  if c ∈ s then some (s.takeWhile (· ≠ c), (s.dropWhile (· ≠ c)).drop 1) else none

/-- `parse_header_u64`. -/
def parseHeaderU64 (value : List Char) : Option Nat :=
  if value = [] ∨ ¬ value.all Char.isDigit then none
  else
    let n := value.foldl (fun n c => 10 * n + (c.toNat - '0'.toNat)) 0
    if n < U64_LIMIT then some n else none

/-- First, last and total byte of a `Content-Range`. -/
def parseContentRange (value : List Char) : Option (Nat × Nat × Nat) := do
  let value ← headerText value
  let range ← stripPrefix "bytes ".toList value
  let (bounds, total) ← splitOnce '/' range
  let (first, last) ← splitOnce '-' bounds
  let first ← parseHeaderU64 first
  let last ← parseHeaderU64 last
  let total ← parseHeaderU64 total
  return (first, last, total)

/-- `validate_content_range`. -/
def validateContentRange (r : Response) (expectedStart expectedTotal : Nat) :
    Except HubError Unit :=
  match r.contentRange with
  | none => .error (.protocol "partial response lacks Content-Range")
  | some value =>
    match parseContentRange value with
    | none => .error (.protocol "invalid Content-Range")
    | some (first, last, total) =>
      if first ≠ expectedStart ∨ total ≠ expectedTotal ∨ last < first ∨ total ≤ last then
        .error (.protocol "Content-Range does not match requested bytes")
      else
        match r.contentLength with
        | none => .ok ()
        | some length =>
          match (headerText length).bind parseHeaderU64 with
          | none => .error (.protocol "invalid Content-Length")
          | some length =>
            if length ≠ last - first + 1 then
              .error (.protocol "Content-Length does not match Content-Range length")
            else .ok ()

/-- The slice that an accepted partial response announces. -/
theorem contentRange_accepted {r : Response} {start total : Nat}
    (h : validateContentRange r start total = .ok ()) :
    ∃ value last, r.contentRange = some value ∧
      parseContentRange value = some (start, last, total) ∧ start ≤ last ∧ last < total := by
  unfold validateContentRange at h
  split at h
  · cases h
  · rename_i value hvalue
    split at h
    · cases h
    · rename_i first last total' hparse
      split at h
      · cases h
      · rename_i hrange
        simp only [not_or, not_not, Nat.not_lt, Nat.not_le] at hrange
        obtain ⟨rfl, rfl, hle, hlt⟩ := hrange
        exact ⟨value, last, hvalue, hparse, hle, hlt⟩

end Hub

end Emelex

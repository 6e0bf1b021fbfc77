import Emelex.Engine.Error
import Emelex.Engine.Streaming

/-!
# The token emitter (`engine/generate.rs`)

`TokenEmitter`: the display pipeline every emitted token goes through (incremental decoding,
classification, stop-token strip, duplicate-close filter, callback cancellation).

The tokenizer is a parameter: three fallible functions of ids and texts.  The callback
`FnMut(GeneratedToken) -> bool` is a function of the calls made so far, the last one being the
call it answers; `calls` is the sequence of calls.

Principal results: `emit_spec`, `emitForced_spec` (a token is added to the ledger exactly when
the call succeeds), `flushTerminal_emitted` (the terminal flush adds none).
-/

set_option autoImplicit false

namespace Emelex

open Text

/-- A token id. -/
abbrev TokenId := Nat

/-- `Tokenizer`, as far as decoding uses it. -/
structure Tokenizer where
  encode : Str → Except Error (List TokenId)
  /-- Special tokens are skipped. -/
  decode : List TokenId → Except Error Str
  /-- Special tokens are kept as text. -/
  decodeRaw : List TokenId → Except Error Str

/-- `decode_piece_raw`. -/
def Tokenizer.decodePieceRaw (t : Tokenizer) (id : TokenId) : Except Error Str := t.decodeRaw [id]

/-- `GeneratedToken`: one step of streamed generation. -/
structure GeneratedToken where
  id : TokenId
  text : Str
  finished : Bool
  completionTokens : Nat
  kind : TokenKind
  deriving DecidableEq, Repr

/-- `DecodedPiece`. -/
structure DecodedPiece where
  raw : Str
  display : Str
  deriving DecidableEq, Repr

/-- `StreamDecoder`: incremental display detokenizer. -/
structure StreamDecoder where
  pendingIds : List TokenId
  pendingRaw : Str
  pendingDisplay : Str
  deriving DecidableEq, Repr

namespace StreamDecoder

/-- `StreamDecoder::default`. -/
def default : StreamDecoder := ⟨[], [], []⟩

/-- `take`. -/
def take (d : StreamDecoder) : StreamDecoder × Option DecodedPiece :=
  if d.pendingIds = [] then (d, none)
  else (default, some ⟨d.pendingRaw, d.pendingDisplay⟩)

/-- `next`: on a decode error the id and its raw text stay pending. -/
def next (d : StreamDecoder) (tokenizer : Tokenizer) (id : TokenId) (raw : Str) :
    StreamDecoder × Except Error (Option DecodedPiece) :=
  let d := { d with pendingIds := d.pendingIds ++ [id], pendingRaw := d.pendingRaw ++ raw }
  match tokenizer.decode d.pendingIds with
  | .error e => (d, .error e)
  | .ok display =>
    let d := { d with pendingDisplay := display }
    if display.getLast? = some '\uFFFD' ∧ d.pendingIds.length < 4 then (d, .ok none)
    else
      let (d, piece) := d.take
      (d, .ok piece)

/-- `finish`. -/
def finish (d : StreamDecoder) : StreamDecoder × Option DecodedPiece := d.take

end StreamDecoder

/-- `Emit`: outcome of pushing one token through the emitter. -/
inductive Emit where
  /-- Generation continues; the raw decode goes to the reasoning budget. -/
  | continue_ (rawText : Str)
  | eos
  | cancelled
  deriving DecidableEq, Repr

/-- `TokenEmitter`. -/
structure TokenEmitter where
  tokenizer : Tokenizer
  eosIds : List TokenId
  classifier : StreamClassifier
  displayDecoder : StreamDecoder
  /-- Pending raw and display text while an immediately duplicated close is undecided. -/
  orphanClose : Option (Str × Str × Str)
  emitted : List TokenId
  /-- The answer of the callback, given all calls up to the present one. -/
  onToken : List GeneratedToken → Bool
  calls : List GeneratedToken
  callbackOpen : Bool
  /-- Fault hook: the emit that would push `emitted[n]` fails instead. -/
  failAt : Option Nat
  /-- Test hook: the encoding of every close marker. -/
  closeOverride : Option (List TokenId)

/-- `display_after_forced_close`. -/
def displayAfterForcedClose (raw display : Str) (markerAt : Nat) (close : Str) : Str :=
  if raw = display then display.drop (markerAt + close.length)
  else
    let rawPrefix := raw.take markerAt
    let visible := (stripPrefix rawPrefix display).getD display
    let rawAfter := raw.drop (markerAt + close.length)
    if visible = rawAfter then visible
    else (stripPrefix close visible).getD visible

/-- `push`, whose fuel always suffices (`StreamClassifier.push_total`). -/
def StreamClassifier.pushed (c : StreamClassifier) (raw display : Str) :
    StreamClassifier × List ClassifiedText :=
  (c.push raw display).getD (c, [])

namespace TokenEmitter

/-- `TokenEmitter::new`. -/
def new (tokenizer : Tokenizer) (eosIds : List TokenId) (classifier : StreamClassifier)
    (onToken : List GeneratedToken → Bool) : TokenEmitter :=
  { tokenizer, eosIds, classifier, onToken
    displayDecoder := .default
    orphanClose := none
    emitted := []
    calls := []
    callbackOpen := true
    failAt := none
    closeOverride := none }

/-- `encode_close`. -/
def encodeClose (e : TokenEmitter) (marker : Str) : Except Error (List TokenId) :=
  match e.closeOverride with
  | some ids => .ok ids
  | none => e.tokenizer.encode marker

/-- `arm_close_filters`. -/
def armCloseFilters (e : TokenEmitter) (closeMarker : Str) : TokenEmitter :=
  { e with orphanClose := some (closeMarker, [], []) }

/-- `(self.on_token)(token)`. -/
def callback (e : TokenEmitter) (token : GeneratedToken) : TokenEmitter × Bool :=
  let calls := e.calls ++ [token]
  if e.onToken calls then ({ e with calls := calls }, true)
  else ({ e with calls := calls, callbackOpen := false }, false)

/-- `send_empty`. -/
def sendEmpty (e : TokenEmitter) (id : TokenId) (finished : Bool) : TokenEmitter × Bool :=
  e.callback ⟨id, [], finished, e.emitted.length, e.classifier.currentKind⟩

/-- The loop of `send_segments`. -/
def sendEach (e : TokenEmitter) (id : TokenId) (finished : Bool) :
    List ClassifiedText → TokenEmitter × Bool
  | [] => (e, true)
  | segment :: rest =>
    match e.callback ⟨id, segment.text, finished && rest.isEmpty, e.emitted.length,
      segment.kind⟩ with
    | (e', true) => e'.sendEach id finished rest
    | (e', false) => (e', false)

/-- `send_segments`. -/
def sendSegments (e : TokenEmitter) (id : TokenId) (finished : Bool)
    (segments : List ClassifiedText) : TokenEmitter × Bool :=
  if segments = [] then e.sendEmpty id finished else e.sendEach id finished segments

/-- `filter_post_budget_closes`. -/
def filterPostBudgetCloses (e : TokenEmitter) (raw display : Str) : TokenEmitter × Str :=
  match e.orphanClose with
  | none => (e, display)
  | some (close, rawBuffer, displayBuffer) =>
    let e := { e with orphanClose := none }
    let rawBuffer := rawBuffer ++ raw
    let displayBuffer := displayBuffer ++ display
    let candidate := trimStart rawBuffer
    let leadingBytes := utf8Len rawBuffer - utf8Len candidate
    if leadingBytes ≤ MAX_FORCED_CLOSE_WHITESPACE_BYTES ∧ close <+: candidate then
      let markerAt := rawBuffer.length - candidate.length
      (e, displayAfterForcedClose rawBuffer displayBuffer markerAt close)
    else if (candidate = [] ∨ candidate <+: close) ∧
        leadingBytes ≤ MAX_FORCED_CLOSE_WHITESPACE_BYTES ∧
        utf8Len rawBuffer ≤ utf8Len close + MAX_FORCED_CLOSE_WHITESPACE_BYTES then
      ({ e with orphanClose := some (close, rawBuffer, displayBuffer) }, [])
    else (e, displayBuffer)

/-- `emit_decoded`. -/
def emitDecoded (e : TokenEmitter) (id : TokenId) (finished : Bool) (piece : DecodedPiece)
    (applyCloseFilters : Bool) : TokenEmitter × Bool :=
  let (e, display) :=
    if applyCloseFilters then e.filterPostBudgetCloses piece.raw piece.display
    else (e, piece.display)
  let (classifier, segments) := e.classifier.pushed piece.raw display
  ({ e with classifier := classifier } : TokenEmitter).sendSegments id finished segments

/-- `match decoded { Some(piece) => self.emit_decoded(..), None => self.send_empty(..) }`. -/
def deliver (e : TokenEmitter) (id : TokenId) (finished : Bool) (decoded : Option DecodedPiece)
    (applyCloseFilters : Bool) : TokenEmitter × Bool :=
  match decoded with
  | some piece => e.emitDecoded id finished piece applyCloseFilters
  | none => e.sendEmpty id finished

/-- The error of the fault hook. -/
def testFault : Error := .model "token emitter test fault"

/-- `emit`: one ordinarily generated token. -/
def emit (e : TokenEmitter) (id : TokenId) : TokenEmitter × Except Error Emit :=
  if e.failAt = some e.emitted.length then (e, .error testFault)
  else
    let finished := decide (id ∈ e.eosIds)
    match e.tokenizer.decodePieceRaw id with
    | .error err => (e, .error err)
    | .ok rawText =>
      match e.displayDecoder.next e.tokenizer id rawText with
      | (d, .error err) => ({ e with displayDecoder := d }, .error err)
      | (d, .ok decoded) =>
        let (d, decoded) :=
          if finished ∧ decoded = none then d.finish else (d, decoded)
        -- a stop token never carries reply text
        let decoded :=
          if finished then
            decoded.map fun piece =>
              { piece with display := (stripSuffix rawText piece.display).getD piece.display }
          else decoded
        let e := { e with displayDecoder := d, emitted := e.emitted ++ [id] }
        let (e, keepGoing) := e.deliver id finished decoded true
        if finished then (e, .ok .eos)
        else if keepGoing then (e, .ok (.continue_ rawText))
        else (e, .ok .cancelled)

/-- `emit_forced`: one teacher-forced close-marker token. -/
def emitForced (e : TokenEmitter) (id : TokenId) : TokenEmitter × Except Error Emit :=
  if e.failAt = some e.emitted.length then (e, .error testFault)
  else
    match e.tokenizer.decodePieceRaw id with
    | .error err => (e, .error err)
    | .ok rawPiece =>
      match e.displayDecoder.next e.tokenizer id rawPiece with
      | (d, .error err) => ({ e with displayDecoder := d }, .error err)
      | (d, .ok decoded) =>
        let e := { e with displayDecoder := d, emitted := e.emitted ++ [id] }
        let (e, keepGoing) := e.deliver id false decoded false
        if keepGoing then (e, .ok (.continue_ rawPiece)) else (e, .ok .cancelled)

/-- `flush_terminal`. -/
def flushTerminal (e : TokenEmitter) : TokenEmitter :=
  if e.callbackOpen = false then e
  else
    let id := e.emitted.getLast?.getD 0
    let (d, piece) := e.displayDecoder.finish
    let e := { e with displayDecoder := d }
    let (e, keepGoing) :=
      match piece with
      | some piece => e.emitDecoded id false piece true
      | none => (e, true)
    if keepGoing = false then e
    else
      let (e, keepGoing) :=
        match e.orphanClose with
        | some (_, raw, display) =>
          let e := { e with orphanClose := none }
          let (classifier, segments) := e.classifier.pushed raw display
          ({ e with classifier := classifier } : TokenEmitter).sendSegments id false segments
        | none => (e, true)
      if keepGoing = false then e
      else
        let (classifier, segments) := e.classifier.finish
        (({ e with classifier := classifier } : TokenEmitter).sendSegments id false segments).1

/-- `into_emitted`. -/
def intoEmitted (e : TokenEmitter) : List TokenId := e.flushTerminal.emitted

/-! ## The ledger of emitted tokens -/

@[simp] theorem callback_emitted (e : TokenEmitter) (token : GeneratedToken) :
    (e.callback token).1.emitted = e.emitted := by
  unfold callback
  dsimp only
  split <;> rfl

@[simp] theorem sendEmpty_emitted (e : TokenEmitter) (id : TokenId) (finished : Bool) :
    (e.sendEmpty id finished).1.emitted = e.emitted := callback_emitted _ _

@[simp] theorem sendEach_emitted (id : TokenId) (finished : Bool)
    (segments : List ClassifiedText) (e : TokenEmitter) :
    (e.sendEach id finished segments).1.emitted = e.emitted := by
  induction segments generalizing e with
  | nil => rfl
  | cons segment rest ih =>
    unfold sendEach
    split
    · rename_i e' hc
      rw [ih, ← callback_emitted e, hc]
    · rename_i e' hc
      rw [← callback_emitted e, hc]

@[simp] theorem sendSegments_emitted (e : TokenEmitter) (id : TokenId) (finished : Bool)
    (segments : List ClassifiedText) :
    (e.sendSegments id finished segments).1.emitted = e.emitted := by
  unfold sendSegments
  split
  · exact sendEmpty_emitted _ _ _
  · exact sendEach_emitted _ _ _ _

@[simp] theorem filterPostBudgetCloses_emitted (e : TokenEmitter) (raw display : Str) :
    (e.filterPostBudgetCloses raw display).1.emitted = e.emitted := by
  unfold filterPostBudgetCloses
  split
  · rfl
  · dsimp only
    split
    · rfl
    · split <;> rfl

@[simp] theorem emitDecoded_emitted (e : TokenEmitter) (id : TokenId) (finished : Bool)
    (piece : DecodedPiece) (applyCloseFilters : Bool) :
    (e.emitDecoded id finished piece applyCloseFilters).1.emitted = e.emitted := by
  unfold emitDecoded
  cases applyCloseFilters <;> simp

@[simp] theorem deliver_emitted (e : TokenEmitter) (id : TokenId) (finished : Bool)
    (decoded : Option DecodedPiece) (applyCloseFilters : Bool) :
    (e.deliver id finished decoded applyCloseFilters).1.emitted = e.emitted := by
  unfold deliver
  split
  · exact emitDecoded_emitted _ _ _ _ _
  · exact sendEmpty_emitted _ _ _

/-- What an emit does to the ledger. -/
def Pushes (e : TokenEmitter) (id : TokenId) (r : TokenEmitter × Except Error Emit) : Prop :=
  match r with
  | (e', .ok _) => e'.emitted = e.emitted ++ [id]
  | (e', .error _) => e'.emitted = e.emitted

theorem emit_spec (e : TokenEmitter) (id : TokenId) : e.Pushes id (e.emit id) := by
  unfold emit
  split
  · rfl
  · split
    · rfl
    · split
      · rfl
      · rename_i d decoded _
        dsimp only
        generalize (if decide (id ∈ e.eosIds) = true ∧ decoded = none then d.finish
          else (d, decoded)) = flushed
        split
        · exact deliver_emitted _ _ _ _ _
        · split <;> exact deliver_emitted _ _ _ _ _

theorem emitForced_spec (e : TokenEmitter) (id : TokenId) : e.Pushes id (e.emitForced id) := by
  unfold emitForced
  split
  · rfl
  · split
    · rfl
    · split
      · rfl
      · dsimp only
        split <;> exact deliver_emitted _ _ _ _ _

/-- A forced token is never a stop token. -/
theorem emitForced_ne_eos (e : TokenEmitter) (id : TokenId) :
    (e.emitForced id).2 ≠ .ok .eos := by
  unfold emitForced
  split
  · simp
  · split
    · simp
    · split
      · simp
      · dsimp only
        split <;> simp

/-- The terminal flush emits text, never a token. -/
theorem flushTerminal_emitted (e : TokenEmitter) : e.flushTerminal.emitted = e.emitted := by
  unfold flushTerminal
  split
  · rfl
  · dsimp only
    generalize hr : (match e.displayDecoder.finish.2 with
      | some piece => ({ e with displayDecoder := e.displayDecoder.finish.1 } : TokenEmitter).emitDecoded
          (e.emitted.getLast?.getD 0) false piece true
      | none => (({ e with displayDecoder := e.displayDecoder.finish.1 } : TokenEmitter), true)) = r
    have h1 : r.1.emitted = e.emitted := by
      rw [← hr]
      split <;> simp
    split
    · exact h1
    · split
      · split
        · simpa using h1
        · simpa using h1
      · rw [if_neg (by simp)]
        simpa using h1

theorem intoEmitted_eq (e : TokenEmitter) : e.intoEmitted = e.emitted := flushTerminal_emitted e

end TokenEmitter

end Emelex

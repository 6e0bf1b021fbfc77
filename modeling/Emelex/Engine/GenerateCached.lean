import Mathlib.Algebra.Order.Ring.Nat
import Emelex.Engine.Prefill
import Emelex.Engine.KvCache

/-!
# One cached generation call (`engine/generate.rs`)

`Session::generate_cached_inner` from the admission of the request to the reply, with the prefill
and the decode loop it runs.  A `Call` is what one call brings from outside: the encoded prompt
with its media, the encoded transcript without the generation prompt, the options, the answers
of the callbacks and of the cancellation predicate, and the readings of the clock.  The state of
a session is its prompt-cache pool.

* `checkCall` — the checks before the pool is touched.
* `lookup`, `resetIfWhole` — what the pool serves.
* `feedBoundary` — the snapshot at the conversation boundary.
* `generateWithMediaInner` — `prefillSuffix`, then `decodeLoop`.
* `store` — the boundary snapshot, or the prompt with the committed part of the reply.

The tool calls and the finish reason of the reply are left out.
-/

set_option autoImplicit false

namespace Emelex

open Program

/-- `GenerateOptions`. -/
structure GenerateOptions where
  maxTokens : Nat
  contextTokens : Nat
  sampling : SamplingConfig
  reasoningBudgetTokens : Option Nat
  promptCache : Option Bool
  speculativeTokens : Option Nat
  deriving DecidableEq, Repr

/-- `resolve_speculative_tokens`. -/
def resolveSpeculativeTokens (options : GenerateOptions) : Option Nat :=
  (options.speculativeTokens.filter fun k => decide (k > 0)).map
    fun k => min k SPECULATIVE_TOKENS_CEILING

/-- `mtp_certification::IMPLEMENTATION_ID`. -/
def IMPLEMENTATION_ID : String := "emelex-qwen3.5-mtp-dense-bf16-v1"

/-- `Session`, without its model and its pool. -/
structure Session where
  tokenizer : Tokenizer
  eosIds : List TokenId
  toolCallFormat : ToolCallFormat
  mtpCertified : Bool
  modelContextLimit : Option Nat

/-- The instants that one call reads. -/
structure Clock where
  lookupExpire : Nat
  lookupTouch : Nat
  insertExpire : Nat
  insertTouch : Nat

/-- `Usage`. -/
structure Usage where
  promptTokens : Nat
  cachedTokens : Nat
  completionTokens : Nat
  deriving DecidableEq, Repr

/-- `GenerateReply`, before tool calls are parsed out of the text. -/
structure GenerateReply where
  text : Str
  usage : Usage
  reasoning : Option Str
  speculation : Option SpeculationStats
  deriving DecidableEq, Repr

section Session

variable (C M : Type) {G : Type} [RowSampler G] [ModelOps C M G]

/-- `MediaInputs`. -/
structure MediaInputs where
  images : List (ModelOps.Image C M)
  audios : List (ModelOps.Audio C M)

/-- A working MTP state: the caches and the frontier. -/
abbrev MtpPair := M × ModelOps.Hidden C M

/-- What one call brings from outside. -/
structure Call where
  /-- `encode_chat_with_media_full_inner`. -/
  encoded : Except Error (List TokenId × MediaInputs C M × Option (Str × Str))
  /-- The encoded transcript without the generation prompt, when it renders and encodes. -/
  boundaryIds : Option (List TokenId)
  options : GenerateOptions
  cancellation : Cancellation
  /-- `on_progress` in the phase `Prompt`. -/
  promptProgress : Bool
  /-- `on_progress` in the phase `Prefill`. -/
  prefillProgress : Bool
  /-- The token callback, with `on_progress` in the phase `Decode`. -/
  onToken : List GeneratedToken → Bool
  rng : G
  clock : Clock

/-- `SessionState`: the pool, and the number of cancellation checks made. -/
structure SessionState where
  pool : PromptCachePool C M (ModelOps.Hidden C M)
  polls : Nat

/-- A computation of a session. -/
abbrev SessionM (α : Type) := Prog Error (SessionState C M) α

/-- What a call works on before the suffix is fed. -/
structure Working where
  caches : C
  fedLen : Nat
  fedImages : Nat
  fedAudios : Nat
  mtp : Option (MtpPair C M)

/-- The state at the conversation boundary. -/
structure Snapshot where
  ids : List TokenId
  caches : C
  mtp : Option (MtpState M (ModelOps.Hidden C M))

/-- What the decode loop starts from. -/
structure DecodeStart where
  next : TokenId
  caches : C
  sampler : Sampler G
  mtp : Option (MtpPair C M)

/-- `DecodeOutcome`, with the caches it leaves. -/
structure DecodeOutcome where
  emitted : List TokenId
  committedLen : Nat
  speculation : Option SpeculationStats
  mtp : Option (MtpState M (ModelOps.Hidden C M))
  reasoningForcedClosed : Bool
  caches : C

/-- An admitted request. -/
structure Admitted where
  fullIds : List TokenId
  media : MediaInputs C M
  pendingReasoning : Option (Str × Str)

/-- What `generate_cached_inner` has prepared when it hands over to the suffix. -/
structure Prepared where
  working : Working C M
  poolHitTokens : Nat
  snapshot : Option (Snapshot C M)

end Session

variable {C M G : Type} [RowSampler G] [ModelOps C M G]

/-- `MediaInputs::is_empty`. -/
def MediaInputs.isEmpty (m : MediaInputs C M) : Bool := m.images.isEmpty && m.audios.isEmpty

namespace Session

variable (session : Session)

/-- Run a computation of the engine on the counter of checks. -/
def engine {α : Type} (m : EngineM α) : SessionM C M α := fun s =>
  let r := m s.polls
  (r.1, { s with polls := r.2 })

/-! ## Decode -/

/-- The error of a driver exit. -/
def exitError : Exit → Error
  | .invalidCache e => e
  | .exactPrefix e => e

/-- The MTP state for the pool; a failed detach drops it. -/
def handoff (mtp : Option M) (frontier : Option (ModelOps.Hidden C M)) :
    Option (MtpState M (ModelOps.Hidden C M)) :=
  match mtp, frontier with
  | some caches, some frontier =>
    match ModelOps.contiguous (C := C) (M := M) [frontier] with
    | .ok row => some ⟨caches, ModelOps.pairsFed C caches, row.headD frontier⟩
    | .error _ => none
  | _, _ => none

/-- The driver of one decode loop. -/
def driver (start : DecodeStart C M) (options : GenerateOptions)
    (pendingReasoning : Option (Str × Str)) (onToken : List GeneratedToken → Bool) :
    RoundDriver (SessionOps C M) :=
  let budget := options.reasoningBudgetTokens.map ReasoningBudget.new
  let classifier := StreamClassifier.new session.toolCallFormat
  let budget := match pendingReasoning with
    | some pair => budget.map (·.seedOpen pair)
    | none => budget
  let classifier := match pendingReasoning with
    | some pair => classifier.seedReasoning pair.2
    | none => classifier
  let emitter := TokenEmitter.new session.tokenizer session.eosIds classifier onToken
  let frontier := start.mtp.map Prod.snd
  let specK := (resolveSpeculativeTokens options).filter fun _ => frontier.isSome
  RoundDriver.new ⟨start.caches, start.mtp.map Prod.fst⟩ emitter budget start.sampler
    options.maxTokens specK frontier

/-- `decode_loop`; every round uses a token, so `max_tokens` rounds suffice. -/
def decodeLoop (start : DecodeStart C M) (options : GenerateOptions)
    (pendingReasoning : Option (Str × Str)) (onToken : List GeneratedToken → Bool) :
    Except Error (DecodeOutcome C M) :=
  match RoundDriver.decodeLoop options.maxTokens start.next
      (driver session start options pendingReasoning onToken) with
  | (.error e, _) => .error (exitError e)
  | (.ok _, d) => .ok
    { emitted := d.emitter.intoEmitted
      committedLen := d.committedLen
      speculation := if d.stats.rounds > 0 ∨ d.stats.drafted > 0 then some d.stats else none
      mtp := handoff d.ops.mtp d.frontier
      reasoningForcedClosed := d.reasoningForcedClosed
      caches := d.ops.caches }

/-! ## Prefill of the suffix -/

/-- `sample_last`, and the check after it. -/
def sampleNext (logits : ModelOps.Logits C M) (sampler : Sampler G) (caches : C)
    (mtp : Option (MtpPair C M)) : EngineM (DecodeStart C M) := do
  let r := ModelOps.sampleLast logits sampler
  let next ← .ofExcept r.1
  pure ⟨next, caches, r.2, mtp⟩

/-- `prefill_resume`. -/
def prefillResume (suffixIds : List TokenId) (caches : C) (sampler : Sampler G)
    (mtp : MtpPair C M) (cancellation : Cancellation) : EngineM (DecodeStart C M) := do
  let r ← prefillMtp suffixIds caches (some mtp) cancellation
  let start ← sampleNext r.1 sampler r.2.1 (some r.2.2)
  cancellation.checkpoint
  pure start

/-- `prefill_prompt`. -/
def prefillPrompt (promptIds : List TokenId) (caches : C) (sampler : Sampler G)
    (speculate : Bool) (cancellation : Cancellation) : EngineM (DecodeStart C M) :=
  if !speculate then do
    let r ← prefillPlain (M := M) promptIds caches cancellation
    sampleNext r.1 sampler r.2 none
  else do
    let r ← prefillMtp promptIds caches none cancellation
    let start ← sampleNext r.1 sampler r.2.1 (some r.2.2)
    cancellation.checkpoint
    pure start

/-- The prefill with media, through the towers. -/
def prefillMedia (promptIds : List TokenId) (media : MediaInputs C M) (caches : C)
    (sampler : Sampler G) (cancellation : Cancellation) : EngineM (DecodeStart C M) := do
  cancellation.checkpoint
  let r := ModelOps.forwardWithMedia promptIds media.images media.audios caches
  let logits ← .ofExcept r.1
  let start ← sampleNext logits sampler r.2 none
  cancellation.checkpoint
  pure start

/-- The prefill of `generate_with_media_inner`. -/
def prefillSuffix (newPromptIds : List TokenId) (media : MediaInputs C M) (caches : C)
    (options : GenerateOptions) (resumeMtp : Option (MtpPair C M)) (cancellation : Cancellation)
    (rng : G) : EngineM (DecodeStart C M) :=
  let sampler : Sampler G := ⟨options.sampling, rng⟩
  if media.isEmpty then
    match resumeMtp with
    | some state => prefillResume newPromptIds caches sampler state cancellation
    | none =>
      let speculate := (resolveSpeculativeTokens options).isSome && session.mtpCertified &&
        ModelOps.isPristine M caches
      prefillPrompt newPromptIds caches sampler speculate cancellation
  else prefillMedia newPromptIds media caches sampler cancellation

/-- `generate_with_media_inner`. -/
def generateWithMediaInner (newPromptIds : List TokenId) (media : MediaInputs C M) (caches : C)
    (options : GenerateOptions) (pendingReasoning : Option (Str × Str))
    (resumeMtp : Option (MtpPair C M)) (cancellation : Cancellation) (rng : G)
    (onToken : List GeneratedToken → Bool) : EngineM (DecodeOutcome C M) := do
  cancellation.checkpoint
  let start ← prefillSuffix session newPromptIds media caches options resumeMtp cancellation rng
  cancellation.checkpoint
  .ofExcept (decodeLoop session start options pendingReasoning onToken)

/-! ## The call -/

/-- The context ceiling of a request. -/
def contextLimit (options : GenerateOptions) : Nat :=
  session.modelContextLimit.elim options.contextTokens fun limit => min limit options.contextTokens

/-- The request asks for speculation and the checkpoint is certified for it. -/
def speculates (options : GenerateOptions) : Bool :=
  (resolveSpeculativeTokens options).isSome && session.mtpCertified

/-- The checks before the pool is touched. -/
def checkCall (call : Call C M) : EngineM (Admitted C M) := do
  call.cancellation.checkpoint
  if (resolveSpeculativeTokens call.options).isSome && !session.mtpCertified then
    .throw (.capabilityUnavailable "acceleration:mtp"
      ("loaded checkpoint is not covered by " ++ IMPLEMENTATION_ID))
  else
    let encoded ← .ofExcept call.encoded
    let limit := contextLimit session call.options
    let promptTokens := encoded.1.length
    if !call.promptProgress then .throw .cancelled
    else if promptTokens + call.options.maxTokens ≥ 2 ^ 64 ∨
        promptTokens + call.options.maxTokens > limit then
      .throw (.contextExceeded promptTokens call.options.maxTokens limit)
    else do
      call.cancellation.checkpoint
      pure ⟨encoded.1, encoded.2.1, encoded.2.2⟩

/-- A cold start. -/
def cold : Working C M := ⟨ModelOps.newCaches M, 0, 0, 0, none⟩

/-- What an entry serves; a call that does not speculate ignores its MTP state. -/
def served (specRequested : Bool) (entry : CacheEntry C M (ModelOps.Hidden C M)) (shared : Nat) :
    Working C M :=
  ⟨entry.caches, shared, entry.fedImages, entry.fedAudios,
    (entry.mtp.filter fun _ => specRequested).map fun state => (state.caches, state.frontier)⟩

/-- The pool lookup. -/
def lookup (fullIds : List TokenId) (cacheEnabled specRequested : Bool) (clock : Clock) :
    SessionM C M (Working C M) :=
  if cacheEnabled then do
    let found ← .call fun s =>
      let r := s.pool.findLongestCompatiblePrefix fullIds specRequested clock.lookupExpire
        clock.lookupTouch
      (r.1, { s with pool := r.2 })
    match found with
    | some (entry, shared) => pure (served specRequested entry shared)
    | none => pure cold
  else pure cold

/-- An entry that covers the whole prompt counts as a miss. -/
def resetIfWhole (fullIds : List TokenId) (w : Working C M) : Working C M :=
  if w.fedLen ≥ fullIds.length then cold else w

/-- `conversation_boundary_len`. -/
def conversationBoundaryLen (boundaryIds : Option (List TokenId)) (fullIds : List TokenId) :
    Option Nat :=
  boundaryIds.bind fun ids => if isPrefix ids fullIds then some ids.length else none

/-- Feed up to the boundary: through the MTP module when the call speculates. -/
def feedTo (pre : List TokenId) (specRequested : Bool) (w : Working C M)
    (cancellation : Cancellation) : EngineM (C × Option (MtpPair C M)) :=
  if specRequested then do
    let r ← prefillMtp pre w.caches w.mtp cancellation
    cancellation.checkpoint
    pure (r.2.1, some r.2.2)
  else do
    let r ← prefillPlain (M := M) pre w.caches cancellation
    .ofExcept (ModelOps.evalLastLogits r.1)
    cancellation.checkpoint
    pure (r.2, w.mtp)

/-- Stop at the boundary and take a snapshot. -/
def snapshotAt (fullIds : List TokenId) (boundaryLen : Nat) (specRequested : Bool)
    (w : Working C M) (cancellation : Cancellation) :
    EngineM (Working C M × Option (Snapshot C M)) := do
  let r ← feedTo (slice fullIds w.fedLen boundaryLen) specRequested w cancellation
  let snapshotMtp := r.2.map fun m => MtpState.mk m.1 (ModelOps.pairsFed C m.1) m.2
  pure ({ w with caches := r.1, mtp := r.2, fedLen := boundaryLen },
    some ⟨fullIds.take boundaryLen, r.1, snapshotMtp⟩)

/-- The boundary feed of a text-only call with caching on. -/
def feedBoundary (fullIds : List TokenId) (boundaryLen : Option Nat)
    (snapshots specRequested : Bool) (w : Working C M) (cancellation : Cancellation) :
    EngineM (Working C M × Option (Snapshot C M)) :=
  match boundaryLen with
  | some len =>
    if snapshots && decide (len > w.fedLen) && decide (len < fullIds.length) then
      snapshotAt fullIds len specRequested w cancellation
    else pure (w, none)
  | none => pure (w, none)

/-- `options.prompt_cache.unwrap_or(true)`. -/
def cacheEnabled (options : GenerateOptions) : Bool := options.promptCache.getD true

/-- From the pool lookup to the point where the suffix is handed over. -/
def prepare (call : Call C M) (req : Admitted C M) : SessionM C M (Prepared C M) := do
  let specRequested := speculates session call.options && req.media.isEmpty
  let found ← lookup req.fullIds (cacheEnabled call.options) specRequested call.clock
  let w := resetIfWhole req.fullIds found
  if !call.prefillProgress then .throw .cancelled
  else do
    let r ← engine (feedBoundary req.fullIds (conversationBoundaryLen call.boundaryIds req.fullIds)
      (cacheEnabled call.options && req.media.isEmpty) specRequested w call.cancellation)
    pure ⟨r.1, w.fedLen, r.2⟩

/-- The suffix that is left to feed. -/
def newSuffix (req : Admitted C M) (w : Working C M) : List TokenId := req.fullIds.drop w.fedLen

/-- The media that are left to feed. -/
def newMedia (req : Admitted C M) (w : Working C M) : MediaInputs C M :=
  ⟨req.media.images.drop (min w.fedImages req.media.images.length),
    req.media.audios.drop (min w.fedAudios req.media.audios.length)⟩

/-- The pool insert: the boundary snapshot alone when there is one, else the prompt with exactly
the committed ledger. -/
def store (call : Call C M) (req : Admitted C M) (snapshot : Option (Snapshot C M))
    (outcome : DecodeOutcome C M) (pool : PromptCachePool C M (ModelOps.Hidden C M)) :
    PromptCachePool C M (ModelOps.Hidden C M) :=
  match snapshot with
  | some snap =>
    pool.insertOrUpdate snap.ids snap.caches 0 0 false snap.mtp call.clock.insertExpire
      call.clock.insertTouch
  | none =>
    pool.insertOrUpdate (req.fullIds ++ outcome.emitted.take outcome.committedLen) outcome.caches
      req.media.images.length req.media.audios.length false outcome.mtp call.clock.insertExpire
      call.clock.insertTouch

/-- The reply text: the emitted tokens without the end tokens, split into reasoning and text. -/
def replyText (req : Admitted C M) (outcome : DecodeOutcome C M) :
    Except Error (Option Str × Str) := do
  let rawText ← session.tokenizer.decodeRaw (outcome.emitted.filter fun id => !session.eosIds.contains id)
  let rawReply := match req.pendingReasoning with
    | some pair => pair.1 ++ rawText
    | none => rawText
  pure (if outcome.reasoningForcedClosed then splitReasoningAfterForcedClose rawReply
    else splitReasoning rawReply)

/-- `generate_cached_inner`. -/
def generateCachedInner (call : Call C M) : SessionM C M GenerateReply := do
  let req ← engine (checkCall session call)
  let prepared ← prepare session call req
  let w := prepared.working
  let outcome ← engine (generateWithMediaInner session (newSuffix req w) (newMedia req w) w.caches
    call.options req.pendingReasoning w.mtp call.cancellation call.rng call.onToken)
  engine call.cancellation.checkpoint
  Prog.when (cacheEnabled call.options)
    (.modify fun s => { s with pool := store call req prepared.snapshot outcome s.pool })
  let reply ← .ofExcept (replyText session req outcome)
  pure
    { text := reply.2
      usage := ⟨req.fullIds.length, prepared.poolHitTokens, outcome.emitted.length⟩
      reasoning := reply.1
      speculation := outcome.speculation }

end Session

end Emelex

import Mathlib.Algebra.Order.Ring.Nat
import Emelex.Engine.PromptCache
import Emelex.Lib.Program

/-!
# Prefill of the target and of the MTP module (`engine/generate.rs`)

The prompt, or what is left of it, is fed in chunks: of `PREFILL_CHUNK_TOKENS` when the call can
be cancelled, whole otherwise.  The state of a computation here is the number of cancellation
checks made so far; the caches are passed along.

* `runPrefillChunks` — the loop, with a check before and after each chunk.
* `prefillPlain`, `prefillMtp` — feed the target alone, or with its MTP module.
* `primeMtp`, `primeMtpResume` — the pairs of a first chunk, and of a later one.

Principal results: `ensures_prefillPlain` and `ensures_prefillMtp` (after a prefill the caches
hold the tokens, and the MTP state is primed on exactly those, however they were cut into chunks
and whatever was held before).
-/

set_option autoImplicit false

namespace Emelex

open Program

/-- `Cancellation`: the answer of the predicate at each check, if there is one. -/
structure Cancellation where
  predicate : Option (Nat → Bool)

/-- A computation of the engine; its state counts the cancellation checks. -/
abbrev EngineM (α : Type) := Prog Error Nat α

namespace Cancellation

/-- `disabled`. -/
def disabled : Cancellation := ⟨none⟩

/-- `is_cooperative`. -/
def isCooperative (c : Cancellation) : Bool := c.predicate.isSome

/-- `checkpoint`. -/
def checkpoint (c : Cancellation) : EngineM Unit :=
  match c.predicate with
  | none => pure ()
  | some predicate => do
    let n ← .get
    .modify (· + 1)
    if predicate n then .throw .cancelled else pure ()

end Cancellation

/-! ## Chunks -/

/-- `PREFILL_CHUNK_TOKENS`. -/
def PREFILL_CHUNK_TOKENS : Nat := 512

/-- `slice::chunks`; every chunk takes a token, so that as many as there are tokens suffice. -/
def chunksWithin {α : Type} (n : Nat) : Nat → List α → List (List α)
  | 0, _ => []
  | fuel + 1, xs => if xs.isEmpty then [] else xs.take n :: chunksWithin n fuel (xs.drop n)

/-- `slice::chunks`. -/
def chunks {α : Type} (n : Nat) (xs : List α) : List (List α) := chunksWithin n xs.length xs

section Chunks

variable {S T : Type}

/-- The loop of `run_prefill_chunks`; `S` is what its closure captures. -/
def chunkLoop (cancellation : Cancellation) (chunkCount : Nat)
    (forward : List TokenId → Bool → S → EngineM (T × S)) :
    Nat → List (List TokenId) → S → Option T → EngineM (Option T × S)
  | _, [], s, output => pure (output, s)
  | index, chunk :: rest, s, _ => do
    cancellation.checkpoint
    let r ← forward chunk (index + 1 == chunkCount) s
    cancellation.checkpoint
    chunkLoop cancellation chunkCount forward (index + 1) rest r.2 (some r.1)

/-- The error of a prefill without tokens. -/
def emptySuffix : Error := .model "cannot prefill an empty prompt suffix"

/-- `run_prefill_chunks`. -/
def runPrefillChunks (promptIds : List TokenId) (cancellation : Cancellation)
    (forward : List TokenId → Bool → S → EngineM (T × S)) (s : S) : EngineM (T × S) :=
  if promptIds = [] then .throw emptySuffix
  else do
    let chunkTokens := if cancellation.isCooperative then PREFILL_CHUNK_TOKENS
      else promptIds.length
    let chunkCount := (promptIds.length + chunkTokens - 1) / chunkTokens
    let r ← chunkLoop cancellation chunkCount forward 0 (chunks chunkTokens promptIds) s none
    match r.1 with
    | some output => pure (output, r.2)
    | none => .throw emptySuffix

theorem chunksWithin_flatten {α : Type} {n : Nat} (hn : 0 < n) :
    ∀ (fuel : Nat) (xs : List α), xs.length ≤ fuel → (chunksWithin n fuel xs).flatten = xs
  | 0, xs, h => by
    rw [List.length_eq_zero_iff.1 (Nat.le_zero.1 h)]
    rfl
  | fuel + 1, xs, h => by
    unfold chunksWithin
    split
    · rename_i he
      rw [List.isEmpty_iff.1 he]
      rfl
    · rw [List.flatten_cons, chunksWithin_flatten hn fuel (xs.drop n), List.take_append_drop]
      rw [List.length_drop]
      omega

theorem chunks_flatten {α : Type} {n : Nat} (hn : 0 < n) (xs : List α) :
    (chunks n xs).flatten = xs := chunksWithin_flatten hn _ xs (Nat.le_refl _)

theorem chunksWithin_ne_nil {α : Type} {n : Nat} (hn : 0 < n) :
    ∀ (fuel : Nat) (xs : List α), ∀ chunk ∈ chunksWithin n fuel xs, chunk ≠ []
  | 0, _, _, hc => by cases hc
  | fuel + 1, xs, chunk, hc => by
    unfold chunksWithin at hc
    split at hc
    · cases hc
    · rename_i he
      rcases List.mem_cons.1 hc with rfl | hc
      · intro h
        rcases List.take_eq_nil_iff.1 h with h | h
        · omega
        · exact he (List.isEmpty_iff.2 h)
      · exact chunksWithin_ne_nil hn fuel _ chunk hc

variable {forward : List TokenId → Bool → S → EngineM (T × S)} {I : List TokenId → S → Prop}

theorem ensures_chunkLoop (cancellation : Cancellation) (chunkCount : Nat)
    (hstep : ∀ p chunk last s, chunk ≠ [] → I p s →
      Ensures (forward chunk last s) fun r => I (p ++ chunk) r.2) :
    ∀ (cs : List (List TokenId)) (index : Nat) (p : List TokenId) (s : S) (output : Option T),
      (∀ c ∈ cs, c ≠ []) → I p s →
      Ensures (chunkLoop cancellation chunkCount forward index cs s output)
        fun r => I (p ++ cs.flatten) r.2
  | [], _, p, s, _, _, hs => by
    rw [List.flatten_nil, List.append_nil]
    exact ensures_pure hs
  | chunk :: cs, index, p, s, _, hne, hs => by
    unfold chunkLoop
    refine ensures_seq fun _ => ?_
    refine ensures_bind (hstep p chunk _ s (hne chunk List.mem_cons_self) hs) ?_
    intro r hr
    refine ensures_seq fun _ => ?_
    rw [List.flatten_cons, ← List.append_assoc]
    exact ensures_chunkLoop cancellation chunkCount hstep cs _ _ _ _
      (fun c hc => hne c (List.mem_cons_of_mem _ hc)) hr

/-- What one chunk keeps, the prefill keeps. -/
theorem ensures_runPrefillChunks {ids p : List TokenId} {s : S} (cancellation : Cancellation)
    (hstep : ∀ p chunk last s, chunk ≠ [] → I p s →
      Ensures (forward chunk last s) fun r => I (p ++ chunk) r.2) (hs : I p s) :
    Ensures (runPrefillChunks ids cancellation forward s) fun r => I (p ++ ids) r.2 := by
  unfold runPrefillChunks
  split
  · exact ensures_throw _
  · rename_i hne
    have hpos : 0 < if cancellation.isCooperative then PREFILL_CHUNK_TOKENS else ids.length := by
      split
      · decide
      · exact List.length_pos_iff.2 hne
    refine ensures_bind (ensures_chunkLoop cancellation _ hstep _ 0 p s none
      (chunksWithin_ne_nil hpos _ ids) hs) ?_
    intro r hr
    rw [chunks_flatten hpos] at hr
    split
    · exact ensures_pure hr
    · exact ensures_throw _

theorem ensures_runPrefillChunks_ne {ids : List TokenId} {cancellation : Cancellation} {s : S} :
    Ensures (runPrefillChunks ids cancellation forward s) fun _ => ids ≠ [] := by
  unfold runPrefillChunks
  split
  · exact ensures_throw _
  · rename_i hne
    refine ensures_seq fun r => ?_
    split
    · exact ensures_pure hne
    · exact ensures_throw _

end Chunks

/-! ## The prefills -/

section Prefill

variable {C M G : Type} [RowSampler G] [ModelOps C M G]

/-- `i32::try_from(chunk.len())`. -/
def lengthFits (chunk : List TokenId) (msg : String) : EngineM Unit :=
  if chunk.length < 2 ^ 31 then pure () else .throw (.model msg)

/-- `prefill_plain`. -/
def prefillPlain (promptIds : List TokenId) (caches : C) (cancellation : Cancellation) :
    EngineM (ModelOps.Logits C M × C) :=
  runPrefillChunks promptIds cancellation
    (fun chunk isLast caches => do
      lengthFits chunk "prefill chunk length exceeds i32"
      let r := ModelOps.forward (M := M) chunk caches
      let logits ← .ofExcept r.1
      Prog.when (!isLast) (.ofExcept (ModelOps.evalLastLogits logits))
      pure (logits, r.2))
    caches

/-- The last of `len` rows, detached. -/
def lastRow (block : List (ModelOps.Hidden C M)) (len : Nat) (cancellation : Cancellation) :
    EngineM (ModelOps.Hidden C M) :=
  match block[len - 1]? with
  | none => .throw (.mlx "slice out of range")
  | some last => do
    let row ← .ofExcept (ModelOps.contiguous [last])
    cancellation.checkpoint
    pure (row.headD last)

/-- The one `forward_mtp` call of a priming, evaluated before the next check. -/
def primePairs (ids : List TokenId) (prev : List (ModelOps.Hidden C M)) (mtpCaches : M)
    (cancellation : Cancellation) : EngineM M := do
  let r := ModelOps.forwardMtp (C := C) ids prev mtpCaches
  let step ← .ofExcept r.1
  .ofExcept (ModelOps.evalHidden step.1)
  cancellation.checkpoint
  pure r.2

/-- The shifted pairs of a first chunk; a chunk of one token has none. -/
def primeFresh (promptIds : List TokenId) (block : List (ModelOps.Hidden C M))
    (cancellation : Cancellation) : EngineM M :=
  if promptIds.length ≥ 2 then
    primePairs promptIds.tail (block.take (promptIds.length - 1)) (ModelOps.newMtpCaches C)
      cancellation
  else pure (ModelOps.newMtpCaches C)

/-- `prime_mtp`. -/
def primeMtp (promptIds : List TokenId) (hiddenPreNorm : List (ModelOps.Hidden C M))
    (cancellation : Cancellation) : EngineM (M × ModelOps.Hidden C M) := do
  let block ← .ofExcept (ModelOps.contiguous hiddenPreNorm)
  cancellation.checkpoint
  let mtpCaches ← primeFresh promptIds block cancellation
  let frontier ← lastRow block promptIds.length cancellation
  pure (mtpCaches, frontier)

/-- `prime_mtp_resume`; the first pair is the bridge from the stored frontier. -/
def primeMtpResume (mtp : M × ModelOps.Hidden C M) (suffixIds : List TokenId)
    (hiddenPreNorm : List (ModelOps.Hidden C M)) (cancellation : Cancellation) :
    EngineM (M × ModelOps.Hidden C M) := do
  let block ← .ofExcept (ModelOps.contiguous hiddenPreNorm)
  cancellation.checkpoint
  let prev := if suffixIds.length ≥ 2 then mtp.2 :: block.take (suffixIds.length - 1) else [mtp.2]
  let mtpCaches ← primePairs suffixIds prev mtp.1 cancellation
  let frontier ← lastRow block suffixIds.length cancellation
  pure (mtpCaches, frontier)

/-- Prime over a chunk: fresh, or resuming. -/
def primeChunk (mtp : Option (M × ModelOps.Hidden C M)) (chunk : List TokenId)
    (hiddenPreNorm : List (ModelOps.Hidden C M)) (cancellation : Cancellation) :
    EngineM (M × ModelOps.Hidden C M) :=
  match mtp with
  | some state => primeMtpResume state chunk hiddenPreNorm cancellation
  | none => primeMtp chunk hiddenPreNorm cancellation

/-- `prefill_mtp`. -/
def prefillMtp (promptIds : List TokenId) (caches : C)
    (initialMtp : Option (M × ModelOps.Hidden C M)) (cancellation : Cancellation) :
    EngineM (ModelOps.Logits C M × C × M × ModelOps.Hidden C M) := do
  let r ← runPrefillChunks promptIds cancellation
    (fun chunk isLast (s : C × Option (M × ModelOps.Hidden C M)) => do
      lengthFits chunk "MTP prefill chunk length exceeds i32"
      let r := ModelOps.forwardHidden (M := M) chunk s.1
      let out ← .ofExcept r.1
      Prog.when (!isLast) (.ofExcept (ModelOps.evalLastLogits out.2))
      let mtp ← primeChunk s.2 chunk out.1 cancellation
      pure (out.2, r.2, some mtp))
    (caches, initialMtp)
  match r.2.2 with
  | some mtp => pure (r.1, r.2.1, mtp)
  | none => .throw (.model "MTP prefill produced no state")

/-! ## What a prefill leaves -/

variable {K : CacheLedger C M} {hiddenAt : List TokenId → ModelOps.Hidden C M}

/-- The MTP state is primed on exactly `ids`: its pairs are the shifted pairs of the rows of
`ids`, and its frontier is the hidden of the last. -/
def Primed (K : CacheLedger C M) (hiddenAt : List TokenId → ModelOps.Hidden C M) (m : M)
    (frontier : ModelOps.Hidden C M) (ids : List TokenId) : Prop :=
  Resumable (canonical hiddenAt ids) (K.pairs m) frontier

/-- What the working MTP state of a prefill is when `ids` have been fed. -/
def MtpFor (K : CacheLedger C M) (hiddenAt : List TokenId → ModelOps.Hidden C M)
    (ids : List TokenId) : Option (M × ModelOps.Hidden C M) → Prop
  | none => ids = []
  | some s => Primed K hiddenAt s.1 s.2 ids

theorem getLast?_successors {α : Type} {next : List TokenId → α} (pre : List TokenId)
    {ids : List TokenId} (h : ids ≠ []) :
    (successors next pre ids).getLast? = some (next (pre ++ ids)) := by
  have hpos := List.length_pos_iff.2 h
  rw [List.getLast?_eq_getElem?, successors_length, successors_getElem? (by omega),
    Nat.sub_add_cancel hpos, List.take_length]

/-- The pairs of a first feed. -/
theorem Resumable.fresh {H : Type} {ids : List TokenId} {hs : List H} {h : H}
    (hlen : hs.length = ids.length) (hlast : hs.getLast? = some h) :
    Resumable (rowsOf ids hs) (ids.tail.zip (hs.take (ids.length - 1))) h := by
  cases ids with
  | nil =>
    rw [List.length_eq_zero_iff.1 hlen] at hlast
    cases hlast
  | cons id ids =>
    cases hs with
    | nil => cases hlen
    | cons h0 hs =>
      have hlen : hs.length = ids.length := by simpa using hlen
      have hfirst : Resumable [(id, some h0)] ([] : List (TokenId × H)) h0 := ⟨rfl, rfl⟩
      cases ids with
      | nil =>
        obtain rfl := List.length_eq_zero_iff.1 hlen
        obtain rfl := Option.some.inj hlast
        exact hfirst
      | cons id' ids =>
        have hlast : hs.getLast? = some h := by
          cases hs with
          | nil => cases hlen
          | cons h1 hs => rwa [List.getLast?_cons_cons] at hlast
        have := hfirst.extend hlen hlast
        simpa [rowsOf] using this

section Specs

variable (hP : PrefixModel K hiddenAt)
include hP

theorem ensures_lastRow {p chunk : List TokenId} (hne : chunk ≠ []) (cancellation : Cancellation) :
    Ensures (lastRow (M := M) (successors hiddenAt p chunk) chunk.length cancellation)
      fun row => row = hiddenAt (p ++ chunk) := by
  have hlast : (successors hiddenAt p chunk).getLast? = _ := getLast?_successors p hne
  rw [List.getLast?_eq_getElem?, successors_length] at hlast
  unfold lastRow
  rw [hlast]
  refine ensures_bind (ensures_ofExcept fun row hr => hP.contiguous _ _ hr) ?_
  rintro row rfl
  exact ensures_seq fun _ => ensures_pure rfl

theorem ensures_primePairs {ids : List TokenId} {prev : List (ModelOps.Hidden C M)} {m : M}
    (cancellation : Cancellation) :
    Ensures (primePairs ids prev m cancellation) fun m' => K.pairs m' = K.pairs m ++ ids.zip prev := by
  unfold primePairs
  refine ensures_bind (ensures_ofExcept fun step hs => hs) ?_
  intro step hs
  refine ensures_seq fun _ => ensures_seq fun _ => ensures_pure ?_
  exact hP.forwardMtp ids prev m step hs

theorem ensures_primeMtp {chunk : List TokenId} (hne : chunk ≠ []) (cancellation : Cancellation) :
    Ensures (primeMtp chunk (successors hiddenAt [] chunk) cancellation)
      fun r => Primed K hiddenAt r.1 r.2 chunk := by
  unfold primeMtp
  refine ensures_bind (ensures_ofExcept fun block hb => hP.contiguous _ _ hb) ?_
  rintro block rfl
  refine ensures_seq fun _ => ?_
  have hpairs : Ensures (primeFresh chunk (successors hiddenAt [] chunk) cancellation) fun m : M =>
      K.pairs m = chunk.tail.zip ((successors hiddenAt [] chunk).take (chunk.length - 1)) := by
    unfold primeFresh
    split
    · refine ensures_mono (ensures_primePairs hP cancellation) ?_
      intro m hm
      rw [hm, hP.newMtpCaches, List.nil_append]
    · rename_i hlt
      refine ensures_pure ?_
      rw [hP.newMtpCaches, show chunk.length - 1 = 0 by omega, List.take_zero, List.zip_nil_right]
  refine ensures_bind hpairs ?_
  intro m hm
  refine ensures_bind (ensures_lastRow hP hne cancellation) ?_
  rintro row rfl
  refine ensures_pure ?_
  show Resumable _ (K.pairs m) _
  rw [hm]
  exact Resumable.fresh (successors_length _ _) (getLast?_successors [] hne)

theorem ensures_primeMtpResume {p chunk : List TokenId} {m : M} {f : ModelOps.Hidden C M}
    (hm : Primed K hiddenAt m f p) (hne : chunk ≠ []) (cancellation : Cancellation) :
    Ensures (primeMtpResume (m, f) chunk (successors hiddenAt p chunk) cancellation)
      fun r => Primed K hiddenAt r.1 r.2 (p ++ chunk) := by
  unfold primeMtpResume
  refine ensures_bind (ensures_ofExcept fun block hb => hP.contiguous _ _ hb) ?_
  rintro block rfl
  refine ensures_seq fun _ => ?_
  have hprev : (if chunk.length ≥ 2 then f :: (successors hiddenAt p chunk).take (chunk.length - 1)
      else [f]) = f :: (successors hiddenAt p chunk).take (chunk.length - 1) := by
    split
    · rfl
    · rw [show chunk.length - 1 = 0 by omega, List.take_zero]
  rw [hprev]
  refine ensures_bind (ensures_primePairs hP cancellation) ?_
  intro m' hm'
  refine ensures_bind (ensures_lastRow hP hne cancellation) ?_
  rintro row rfl
  refine ensures_pure ?_
  show Resumable (canonical hiddenAt (p ++ chunk)) (K.pairs m') _
  rw [hm', canonical_append]
  exact hm.extend (successors_length _ _) (getLast?_successors p hne)

theorem ensures_primeChunk {p chunk : List TokenId} {mtp : Option (M × ModelOps.Hidden C M)}
    (hm : MtpFor K hiddenAt p mtp) (hne : chunk ≠ []) (cancellation : Cancellation) :
    Ensures (primeChunk mtp chunk (successors hiddenAt p chunk) cancellation)
      fun r => Primed K hiddenAt r.1 r.2 (p ++ chunk) := by
  cases mtp with
  | none =>
    have hp : p = [] := hm
    subst hp
    exact ensures_primeMtp hP hne cancellation
  | some s => exact ensures_primeMtpResume hP hm hne cancellation

/-- The target holds the tokens fed, whatever it held before. -/
theorem ensures_prefillPlain {p ids : List TokenId} {c : C} (hc : K.Holds c p)
    (cancellation : Cancellation) :
    Ensures (prefillPlain (M := M) ids c cancellation) fun r => K.Holds r.2 (p ++ ids) := by
  refine ensures_runPrefillChunks (I := fun q c => K.Holds c q) cancellation ?_ hc
  intro q chunk last c _ hc
  refine ensures_seq fun _ => ?_
  refine ensures_bind (ensures_ofExcept fun logits hl => hl) ?_
  intro logits hl
  refine ensures_seq fun _ => ensures_pure ?_
  exact (hP.forward chunk c logits hl).1.holds hc

/-- The target holds the tokens fed, and the MTP state is primed on all that it holds. -/
theorem ensures_prefillMtp {p ids : List TokenId} {c : C} {mtp : Option (M × ModelOps.Hidden C M)}
    (hc : K.Holds c p) (hm : MtpFor K hiddenAt p mtp) (cancellation : Cancellation) :
    Ensures (prefillMtp ids c mtp cancellation) fun r =>
      K.Holds r.2.1 (p ++ ids) ∧ Primed K hiddenAt r.2.2.1 r.2.2.2 (p ++ ids) := by
  unfold prefillMtp
  refine ensures_bind (ensures_runPrefillChunks
    (I := fun q s => K.Holds s.1 q ∧ MtpFor K hiddenAt q s.2) cancellation ?_ ⟨hc, hm⟩) ?_
  · rintro q chunk last ⟨c, mtp⟩ hne ⟨hc, hm⟩
    refine ensures_seq fun _ => ?_
    refine ensures_bind (ensures_ofExcept fun out ho => ho) ?_
    rintro ⟨hs, logits⟩ ho
    obtain ⟨hfeeds, -, hhs⟩ := hP.forwardHidden chunk c hs logits ho
    have hhs := hhs hc.inStep
    rw [hc.attn] at hhs
    subst hhs
    refine ensures_seq fun _ => ?_
    refine ensures_bind (ensures_primeChunk hP hm hne cancellation) ?_
    intro m hm'
    exact ensures_pure ⟨hfeeds.holds hc, hm'⟩
  · rintro ⟨logits, c', mtp'⟩ ⟨hc', hm'⟩
    cases mtp' with
    | none => exact ensures_throw _
    | some s => exact ensures_pure ⟨hc', hm'⟩

end Specs

end Prefill

end Emelex

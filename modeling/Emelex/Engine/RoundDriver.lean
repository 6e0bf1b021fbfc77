import Mathlib.Algebra.Order.Ring.Nat
import Emelex.Engine.RoundOps
import Emelex.Lib.Program

/-!
# The round driver (`engine/spec.rs`)

`RoundDriver` and its methods as the source has them: one decode round for the current token
`x`, target-only or speculative, with every failure row.  A method is a program over the driver
state; an error exit is tagged with the name the source's comments give it: `invalidCache` when
a target operation was `Invalid` or a restore or truncation failed, `exactPrefix` otherwise.

* `runRound` — the ordered transition at `x`.
* `forcedCloseAtX`, `forcedCloseAtDraft`, `closeReplay` — a budget that closes the reasoning.
* `speculativeRound` with `draft`, `verify`, `decide`, `emitDrafts`, `reconcile`.
* `decodeLoop` — the loop of `Session::decode_loop` over rounds.
-/

set_option autoImplicit false

namespace Emelex

open Program

/-- How a round leaves with an error. -/
inductive Exit where
  /-- The caches must not be reused. -/
  | invalidCache (e : Error)
  /-- The caches hold the committed prefix. -/
  | exactPrefix (e : Error)
  deriving DecidableEq, Repr

/-- `RoundEnd`. -/
inductive RoundEnd where
  | continue_ (next : TokenId)
  | finished
  | aborted
  | budget
  deriving DecidableEq, Repr

/-- `MtpMode`. -/
inductive MtpMode where
  | dead
  | commit
  | resumeAt (entryPairs : Nat)
  deriving DecidableEq, Repr

/-- The truncation that a mode asks for. -/
def MtpMode.truncateTo : MtpMode → Option Nat
  | .resumeAt entryPairs => some entryPairs
  | _ => none

/-- `SPECULATIVE_TOKENS_CEILING`. -/
def SPECULATIVE_TOKENS_CEILING : Nat := 8

/-- `SpeculationStats`; the counters saturate at `u64::MAX`. -/
structure SpeculationStats where
  drafted : Nat
  acceptedByDepth : List Nat
  rounds : Nat
  deriving DecidableEq, Repr

namespace SpeculationStats

/-- `u64::saturating_add`. -/
def saturatingAdd (a b : Nat) : Nat := min (a + b) (2 ^ 64 - 1)

/-- `SpeculationStats::default`. -/
def default : SpeculationStats := ⟨0, [], 0⟩

/-- `record_drafted`. -/
def recordDrafted (s : SpeculationStats) (n : Nat) : SpeculationStats :=
  { s with drafted := saturatingAdd s.drafted n }

/-- `record_round`. -/
def recordRound (s : SpeculationStats) (accepted : Nat) : SpeculationStats :=
  let s := { s with rounds := saturatingAdd s.rounds 1 }
  match accepted with
  | 0 => s
  | index + 1 =>
    let buckets := s.acceptedByDepth ++
      List.replicate (index + 1 - s.acceptedByDepth.length) 0
    { s with acceptedByDepth := buckets.set index (saturatingAdd (buckets.getD index 0) 1) }

end SpeculationStats

section Driver

variable (O : Type) {G : Type} [RowSampler G] [RoundOps O G]

/-- `RoundDriver`. -/
structure RoundDriver where
  ops : O
  emitter : TokenEmitter
  budget : Option ReasoningBudget
  sampler : Sampler G
  maxTokens : Nat
  specK : Option Nat
  committedLen : Nat
  frontier : Option (RoundOps.Hidden O)
  stats : SpeculationStats
  reasoningForcedClosed : Bool
  used : Nat

/-- A method of the driver. -/
abbrev DriverM (α : Type) := Prog Exit (RoundDriver O) α

/-- `DraftOutcome`. -/
inductive DraftOutcome (G : Type) [RowSampler G] where
  | drafted (drafts : List TokenId) (dists : List (Dist G))
  | discard
  | resume

/-- `Verified`. -/
inductive Verified where
  | ready (hiddens : List (RoundOps.Hidden O)) (dists : List (Dist G))
      (postX : Option (RoundOps.Snapshot O))
  | done (roundEnd : RoundEnd)

/-- `Verdict`. -/
structure Verdict (G : Type) [RowSampler G] where
  accepted : Nat
  successor : Dist G

/-- `SpecEvent`. -/
inductive SpecEvent where
  | none
  | eos
  | cancel
  | close (marker : Str)
  | slot
  | emitErr (e : Error)
  deriving DecidableEq, Repr

/-- `ClosePrefix`. -/
structure ClosePrefix where
  accepted : Nat
  cancelled : Bool
  error : Option Error
  deriving DecidableEq, Repr

/-- `Reconciled`. -/
inductive Reconciled (H : Type) where
  | committed (frontierH : H) (prevs : List H)
  | detachFailed

/-- `SpecCtx`. -/
structure SpecCtx where
  entryPos : Nat
  entryPairs : Nat
  entrySnap : RoundOps.Snapshot O
  frontierEntry : RoundOps.Hidden O
  k : Nat
  drafts : List TokenId
  hiddens : List (RoundOps.Hidden O)
  dists : List (Dist G)
  postX : Option (RoundOps.Snapshot O)

end Driver

/-- `internal`. -/
def internal (msg : String) : Error := .model ("spec: " ++ msg)

namespace RoundDriver

variable {O G : Type} [RowSampler G] [RoundOps O G]

/-- `RoundDriver::new`. -/
def new (ops : O) (emitter : TokenEmitter) (budget : Option ReasoningBudget)
    (sampler : Sampler G) (maxTokens : Nat) (specK : Option Nat)
    (frontier : Option (RoundOps.Hidden O)) : RoundDriver O :=
  { ops, emitter, budget, sampler, maxTokens, specK, frontier
    committedLen := 0
    stats := .default
    reasoningForcedClosed := false
    used := 0 }

/-! ## Calls into the parts -/

/-- `self.ops.verify_feed(ids, &self.sampler)`. -/
def verifyFeed (ids : List TokenId) :
    DriverM O (OpResult G (List (RoundOps.Hidden O) × List (Dist G))) :=
  .call fun d =>
    let r := RoundOps.verifyFeed d.ops ids d.sampler
    (r.1, { d with ops := r.2 })

/-- `self.ops.replay_feed(ids, want_last_dist, &self.sampler)`. -/
def replayFeed (ids : List TokenId) (wantLastDist : Bool) :
    DriverM O (OpResult G (List (RoundOps.Hidden O) × Option (Dist G))) :=
  .call fun d =>
    let r := RoundOps.replayFeed d.ops ids wantLastDist d.sampler
    (r.1, { d with ops := r.2 })

/-- `self.ops.mtp_step(id, prev, &self.sampler)`. -/
def mtpStep (id : TokenId) (prev : RoundOps.Hidden O) :
    DriverM O (OpResult G (RoundOps.Hidden O × Dist G)) :=
  .call fun d =>
    let r := RoundOps.mtpStep d.ops id prev d.sampler
    (r.1, { d with ops := r.2 })

/-- `self.ops.mtp_commit(ids, prevs).is_ok()`. -/
def mtpCommit (ids : List TokenId) (prevs : List (RoundOps.Hidden O)) : DriverM O Bool :=
  .call fun d =>
    let r := RoundOps.mtpCommit d.ops ids prevs
    (r.1.isOk, { d with ops := r.2 })

/-- `self.ops.mtp_truncate(pairs_fed).is_ok()`. -/
def mtpTruncate (pairsFed : Nat) : DriverM O Bool :=
  .call fun d =>
    let r := RoundOps.mtpTruncate d.ops pairsFed
    (r.1.isOk, { d with ops := r.2 })

/-- `discard_mtp`. -/
def discardMtp : DriverM O Unit :=
  .modify fun d => { d with ops := RoundOps.mtpDiscard d.ops, frontier := none }

/-- `restore_or_exit`. -/
def restoreOrExit (snap : RoundOps.Snapshot O) : DriverM O Unit := do
  let r ← .call fun d =>
    let r := RoundOps.restore d.ops snap
    (r.1, { d with ops := r.2 })
  match r with
  | .ok () => pure ()
  | .error e => .throw (.invalidCache e.intoError)

/-- `truncate_or_exit`. -/
def truncateOrExit (absOffset : Nat) : DriverM O Unit := do
  let r ← .call fun d =>
    let r := RoundOps.truncateTarget d.ops absOffset
    (r.1, { d with ops := r.2 })
  match r with
  | .ok () => pure ()
  | .error e => .throw (.invalidCache e.intoError)

/-- `self.emitter.emit(id)`. -/
def emit (id : TokenId) : DriverM O (Except Error Emit) :=
  .call fun d =>
    let r := d.emitter.emit id
    (r.2, { d with emitter := r.1 })

/-- `self.emitter.emit_forced(id)`. -/
def emitForced (id : TokenId) : DriverM O (Except Error Emit) :=
  .call fun d =>
    let r := d.emitter.emitForced id
    (r.2, { d with emitter := r.1 })

/-- `self.budget.as_mut().and_then(|b| b.observe(&raw_text))`. -/
def observe (rawText : Str) : DriverM O (Option Str) :=
  .call fun d =>
    match d.budget with
    | none => (none, d)
    | some b =>
      let r := b.observe rawText
      (r.2, { d with budget := some r.1 })

/-- `self.used += 1`. -/
def countUsed : DriverM O Unit := .modify fun d => { d with used := d.used + 1 }

/-- `self.committed_len += n`. -/
def commitLen (n : Nat) : DriverM O Unit :=
  .modify fun d => { d with committedLen := d.committedLen + n }

/-- `self.frontier = frontier`. -/
def setFrontier (frontier : Option (RoundOps.Hidden O)) : DriverM O Unit :=
  .modify fun d => { d with frontier := frontier }

/-- `self.reasoning_forced_closed = true; self.emitter.arm_close_filters(close_marker)`. -/
def armForcedClose (closeMarker : Str) : DriverM O Unit :=
  .modify fun d =>
    { d with
      reasoningForcedClosed := true
      emitter := d.emitter.armCloseFilters closeMarker }

/-- `self.sampler.sample_from_probs(p)`. -/
def sampleFromProbs (p : RowSampler.Row G) : DriverM O (Except Error TokenId) :=
  .call fun d =>
    let r := d.sampler.sampleFromProbs p
    (r.1, { d with sampler := r.2 })

/-- `draw`: stage-4 successor selection. -/
def draw (dist : Dist G) : DriverM O TokenId := do
  .modify fun d => { d with ops := RoundOps.trace d.ops .successorSelect }
  match dist with
  | .greedy t => pure t
  | .sampled p =>
    match ← sampleFromProbs p with
    | .ok t => pure t
    | .error e => .throw (.exactPrefix e)

/-- `Ok(RoundEnd::Continue { next: self.draw(&dist)? })`. -/
def continueWith (dist : Dist G) : DriverM O RoundEnd := do
  let next ← draw dist
  pure (.continue_ next)

/-- `match salvage.into_iter().next()`: draw from the salvaged row, else the exact-prefix
exit. -/
def continueFromSalvage (salvage : Option (Dist G)) (error : Error) : DriverM O RoundEnd :=
  match salvage with
  | some dist => continueWith dist
  | none => .throw (.exactPrefix error)

/-- `record_round`. -/
def recordRound (accepted : Nat) : DriverM O Unit :=
  .modify fun d => { d with stats := d.stats.recordRound accepted }

/-- `spec_depth`. -/
def specDepth (d : RoundDriver O) : Option Nat :=
  match d.specK with
  | none => none
  | some k =>
    if !RoundOps.mtpAlive d.ops || d.frontier.isNone then none
    else some (min (min k SPECULATIVE_TOKENS_CEILING) (d.maxTokens - d.used))

/-! ## The target-only round -/

/-- `mtp_truncate(n).is_ok()`, when there is an `n`. -/
def truncateSome : Option Nat → DriverM O Bool
  | some n => mtpTruncate n
  | none => pure true

/-- `truncated && mtp_commit(ids, prevs).is_ok()`. -/
def commitIf (truncated : Bool) (ids : List TokenId) (prevs : List (RoundOps.Hidden O)) :
    DriverM O Bool :=
  if truncated then mtpCommit ids prevs else pure false

/-- The MTP disposition of every completed round: truncate to `entryPairs` when given, commit
the pairs of `ids`, and move the frontier; a failure discards the module. -/
def recommit (entryPairs : Option Nat) (ids : List TokenId) (prevs : List (RoundOps.Hidden O))
    (frontier : Option (RoundOps.Hidden O)) : DriverM O Unit := do
  let truncated ← truncateSome entryPairs
  let committed ← commitIf truncated ids prevs
  if committed then setFrontier frontier else discardMtp

/-- `self.frontier.clone()` of a live MTP module. -/
def liveFrontier : DriverM O (RoundOps.Hidden O) := do
  match (← .get).frontier with
  | none => .throw (.exactPrefix (internal "live MTP without a frontier"))
  | some frontier => pure frontier

/-- The pair commit of a live MTP module: `(frontier, x)`, after the truncation of the mode. -/
def pairCommit (x : TokenId) (mode : MtpMode) (hiddens : List (RoundOps.Hidden O)) :
    DriverM O Unit := do
  let frontier ← liveFrontier
  recommit mode.truncateTo [x] [frontier] hiddens.head?

/-- `feed_x_target_only`. -/
def feedXTargetOnly (x : TokenId) (mode : MtpMode) (drawSuccessor : Bool) :
    DriverM O RoundEnd := do
  let alive := RoundOps.mtpAlive (← .get).ops && mode ≠ .dead
  match ← verifyFeed [x] with
  | .error (.invalid e) => .throw (.invalidCache e)
  | .error (.mtpForward e) => .throw (.invalidCache e)
  | .error (.host error salvage) =>
    commitLen 1
    discardMtp
    if drawSuccessor then continueFromSalvage salvage.head? error else pure .budget
  | .ok (hiddens, dists) =>
    commitLen 1
    .when alive (pairCommit x mode hiddens)
    if drawSuccessor then
      continueFromSalvage dists.head? (internal "verify feed returned no dist")
    else pure .budget

/-- `final_slot`. -/
def finalSlot (x : TokenId) : DriverM O RoundEnd := do
  let alive := RoundOps.mtpAlive (← .get).ops
  match ← replayFeed [x] false with
  | .ok (hiddens, _) =>
    commitLen 1
    .when alive (pairCommit x .commit hiddens)
    pure .budget
  | .error (.invalid e) => .throw (.invalidCache e)
  | .error (.mtpForward e) => .throw (.invalidCache e)
  | .error (.host _ _) =>
    commitLen 1
    discardMtp
    pure .budget

/-- The mode of an ordinary target-only round. -/
def ordinaryMode (d : RoundDriver O) : MtpMode :=
  if RoundOps.mtpAlive d.ops then .commit else .dead

/-! ## Forced close -/

/-- The loop of `emit_close_prefix`. -/
def emitClosePrefix : List TokenId → Nat → DriverM O ClosePrefix
  | [], accepted => pure ⟨accepted, false, none⟩
  | id :: closeIds, accepted => do
    match ← emitForced id with
    | .ok (.continue_ _) => emitClosePrefix closeIds (accepted + 1)
    | .ok .eos => pure ⟨accepted, true, none⟩
    | .ok .cancelled => pure ⟨accepted, true, none⟩
    | .error e => pure ⟨accepted, false, some e⟩

/-- The MTP replay of `close_replay`: truncate to entry, then every shifted pair of `seq`. -/
def replayPairs (seq : List TokenId) (entryPairs : Nat)
    (hiddens : List (RoundOps.Hidden O)) : DriverM O Unit := do
  let frontierEntry ← liveFrontier
  recommit (some entryPairs) seq (frontierEntry :: hiddens.take (seq.length - 1))
    hiddens.getLast?

/-- `close_replay`. -/
def closeReplay (seq : List TokenId) (close : ClosePrefix) (closeMarker : Str)
    (entryPairs : Nat) : DriverM O RoundEnd := do
  let d ← .get
  let alive := RoundOps.mtpAlive d.ops
  let overBudget := d.used ≥ d.maxTokens
  let wantDist := close.error.isNone && !close.cancelled && !overBudget
  match ← replayFeed seq wantDist with
  | .error (.invalid e) => .throw (.invalidCache e)
  | .error (.mtpForward e) => .throw (.invalidCache e)
  | .error (.host error salvage) =>
    commitLen seq.length
    discardMtp
    match close.error with
    | some e => .throw (.exactPrefix e)
    | none =>
      if close.cancelled then pure .aborted
      else if overBudget then pure .budget
      else
        armForcedClose closeMarker
        continueFromSalvage salvage.getLast? error
  | .ok (hiddens, lastDist) =>
    commitLen seq.length
    match close.error with
    | some e =>
      discardMtp
      .throw (.exactPrefix e)
    | none =>
      .when alive (replayPairs seq entryPairs hiddens)
      if close.cancelled then pure .aborted
      else if overBudget then pure .budget
      else
        armForcedClose closeMarker
        continueFromSalvage lastDist (internal "close replay returned no dist")

/-- `forced_close_at_x`. -/
def forcedCloseAtX (x : TokenId) (closeMarker : Str) : DriverM O RoundEnd := do
  let d ← .get
  match d.emitter.encodeClose closeMarker with
  | .error e => .throw (.exactPrefix e)
  | .ok closeIds =>
    if closeIds = [] then feedXTargetOnly x d.ordinaryMode (d.used < d.maxTokens)
    else
      let close ← emitClosePrefix closeIds 0
      let entryPairs := RoundOps.mtpPairs (← .get).ops
      closeReplay (x :: closeIds.take close.accepted) close closeMarker entryPairs

/-! ## The speculative round -/

/-- The draw of a draft token. -/
def draftDraw (dist : Dist G) : DriverM O (Except Error TokenId) :=
  match dist with
  | .greedy t => pure (.ok t)
  | .sampled q => sampleFromProbs q

/-- The loop of `draft`. -/
def draft : Nat → TokenId → RoundOps.Hidden O → List TokenId → List (Dist G) →
    DriverM O (DraftOutcome G)
  | 0, _, _, drafts, dists => pure (.drafted drafts dists)
  | k + 1, prevId, prev, drafts, dists => do
    match ← mtpStep prevId prev with
    | .error (.host _ _) => pure .resume
    | .error (.mtpForward _) => pure .discard
    | .error (.invalid _) => pure .discard
    | .ok (recycle, dist) =>
      match ← draftDraw dist with
      | .error _ => pure .resume
      | .ok drafted =>
        .modify fun d => { d with stats := d.stats.recordDrafted 1 }
        draft k drafted recycle (drafts ++ [drafted]) (dists ++ [dist])

/-- Restore the snapshot, if there is one. -/
def restoreSome : Option (RoundOps.Snapshot O) → DriverM O Unit
  | none => pure ()
  | some snap => restoreOrExit snap

/-- `verify_host_recovery`. -/
def verifyHostRecovery (error : Error) (salvage : List (Dist G))
    (postX : Option (RoundOps.Snapshot O)) (entryPos : Nat) : DriverM O RoundEnd := do
  restoreSome postX
  truncateOrExit (entryPos + 1)
  commitLen 1
  discardMtp
  continueFromSalvage salvage.head? error

/-- `verify_host_recovery(..).map(Verified::Done)`. -/
def verifyDone (error : Error) (salvage : List (Dist G))
    (postX : Option (RoundOps.Snapshot O)) (entryPos : Nat) : DriverM O (Verified O) := do
  let roundEnd ← verifyHostRecovery error salvage postX entryPos
  pure (.done roundEnd)

/-- `verify`: hybrid feeds `[x]`, then the drafts; pure attention feeds them at once. -/
def verify (x : TokenId) (drafts : List TokenId) (entryPos : Nat) : DriverM O (Verified O) := do
  if !RoundOps.isHybrid (← .get).ops then
    match ← verifyFeed (x :: drafts) with
    | .ok (hiddens, dists) => pure (.ready hiddens dists none)
    | .error (.invalid e) => .throw (.invalidCache e)
    | .error (.mtpForward e) => .throw (.invalidCache e)
    | .error (.host error salvage) => verifyDone error salvage none entryPos
  else
    match ← verifyFeed [x] with
    | .error (.invalid e) => .throw (.invalidCache e)
    | .error (.mtpForward e) => .throw (.invalidCache e)
    | .error (.host error salvage) => verifyDone error salvage none entryPos
    | .ok (h0, d0) =>
      let postX := RoundOps.capture (← .get).ops
      match ← verifyFeed drafts with
      | .ok (hr, dr) => pure (.ready (h0 ++ hr) (d0 ++ dr) (some postX))
      | .error (.invalid e) => .throw (.invalidCache e)
      | .error (.mtpForward e) => .throw (.invalidCache e)
      | .error (.host error _) => verifyDone error d0 (some postX) entryPos

/-- The argmax rows, unless a row is sampled. -/
def greedyRows : List (Dist G) → Option (List TokenId)
  | [] => some []
  | .greedy t :: dists => (greedyRows dists).map (t :: ·)
  | .sampled _ :: _ => none

/-- The probability rows, unless a row is greedy. -/
def sampledRows : List (Dist G) → Option (List (RowSampler.Row G))
  | [] => some []
  | .sampled p :: dists => (sampledRows dists).map (p :: ·)
  | .greedy _ :: _ => none

/-- `self.sampler.verify_accept_trusted(drafts, q, p)`. -/
def verifyAccept (drafts : List TokenId) (q p : List (RowSampler.Row G)) :
    DriverM O (Except Error (Nat × RowSampler.Row G)) :=
  .call fun d =>
    let r := d.sampler.verifyAcceptTrusted drafts q p
    (r.1, { d with sampler := r.2 })

/-- `decide`: the acceptance decision; it never draws the successor. -/
def decide (drafts : List TokenId) (draftDists dists : List (Dist G)) :
    DriverM O (Option (Verdict G)) := do
  if (← .get).sampler.isGreedy then
    match greedyRows dists with
    | none => pure none
    | some targetArgmax =>
      match verifyGreedy drafts targetArgmax with
      | .error _ => pure none
      | .ok v => pure (some ⟨v.accepted, .greedy v.next⟩)
  else
    match sampledRows draftDists, sampledRows dists with
    | some q, some p =>
      match ← verifyAccept drafts q p with
      | .error _ => pure none
      | .ok v => pure (some ⟨v.1, .sampled v.2⟩)
    | _, _ => pure none

/-- `invariant_err_recovery`. -/
def invariantErrRecovery (x : TokenId) (entryPos entryPairs : Nat)
    (frontierEntry : RoundOps.Hidden O) (postX : Option (RoundOps.Snapshot O))
    (hiddens : List (RoundOps.Hidden O)) (dists : List (Dist G)) : DriverM O RoundEnd := do
  restoreSome postX
  truncateOrExit (entryPos + 1)
  commitLen 1
  recommit (some entryPairs) [x] [frontierEntry] hiddens.head?
  continueFromSalvage dists.head? (internal "missing verify row-0 dist")

/-- The loop of `emit_drafts` over the accepted drafts, `emittedDrafts` of them emitted. -/
def emitDrafts : List TokenId → Nat → DriverM O (Nat × SpecEvent)
  | [], emittedDrafts => pure (emittedDrafts, .none)
  | draft :: drafts, emittedDrafts => do
    match ← emit draft with
    | .error e => pure (emittedDrafts, .emitErr e)
    | .ok .eos =>
      countUsed
      pure (emittedDrafts, .eos)
    | .ok .cancelled =>
      countUsed
      pure (emittedDrafts, .cancel)
    | .ok (.continue_ rawText) =>
      countUsed
      match ← observe rawText with
      | some marker => pure (emittedDrafts + 1, .close marker)
      | none =>
        let d ← .get
        if d.used ≥ d.maxTokens then pure (emittedDrafts + 1, .slot)
        else emitDrafts drafts (emittedDrafts + 1)

/-- The first `n` rows, or the internal error of a missing one. -/
def firstRows {H : Type} (hiddens : List H) (n : Nat) (msg : String) : Except Exit (List H) :=
  if n ≤ hiddens.length then .ok (hiddens.take n) else .error (.exactPrefix (internal msg))

/-- Row `i`, or the internal error of a missing one. -/
def rowAt {H : Type} (hiddens : List H) (i : Nat) (msg : String) : Except Exit H :=
  match hiddens[i]? with
  | some h => .ok h
  | none => .error (.exactPrefix (internal msg))

/-- The reconciliation that keeps the verify rows: frontier row `r`, inputs up to it. -/
def fromVerifyRows (ctx : SpecCtx O) (r : Nat) : DriverM O (Reconciled (RoundOps.Hidden O)) := do
  let frontierH ← .ofExcept (rowAt ctx.hiddens r "missing verify hidden row")
  let rows ← .ofExcept (firstRows ctx.hiddens r "missing verify hidden row")
  pure (.committed frontierH (ctx.frontierEntry :: rows))

/-- `reconcile`: the target to the retained prefix `[x, d1..dr]`. -/
def reconcile (ctx : SpecCtx O) (r : Nat) : DriverM O (Reconciled (RoundOps.Hidden O)) := do
  if !RoundOps.isHybrid (← .get).ops then
    truncateOrExit (ctx.entryPos + 1 + r)
    fromVerifyRows ctx r
  else if r = ctx.k then fromVerifyRows ctx ctx.k
  else
    match ctx.postX with
    | none => .throw (.exactPrefix (internal "hybrid verify without a post-x snapshot"))
    | some postX =>
      restoreOrExit postX
      truncateOrExit (ctx.entryPos + 1)
      if r = 0 then fromVerifyRows ctx 0
      else
        match ← replayFeed (ctx.drafts.take r) false with
        | .ok (replayHiddens, _) =>
          let row0 ← .ofExcept (rowAt ctx.hiddens 0 "missing verify hidden row")
          let rows ← .ofExcept (firstRows replayHiddens (r - 1) "missing replay hidden row")
          let frontierH ← .ofExcept (rowAt replayHiddens (r - 1) "missing replay hidden row")
          pure (.committed frontierH (ctx.frontierEntry :: row0 :: rows))
        | .error (.invalid e) => .throw (.invalidCache e)
        | .error (.mtpForward e) => .throw (.invalidCache e)
        | .error (.host _ _) => pure .detachFailed

/-- `reconcile_and_commit`. -/
def reconcileAndCommit (x : TokenId) (ctx : SpecCtx O) (r : Nat) : DriverM O Unit := do
  match ← reconcile ctx r with
  | .committed frontierH prevs =>
    commitLen (1 + r)
    recommit (some ctx.entryPairs) (x :: ctx.drafts.take r) prevs (some frontierH)
  | .detachFailed =>
    commitLen (1 + r)
    discardMtp

/-- `reconcile_and_discard`. -/
def reconcileAndDiscard (ctx : SpecCtx O) (r : Nat) : DriverM O Unit := do
  let _ ← reconcile ctx r
  commitLen (1 + r)
  discardMtp

/-- `forced_close_at_draft`. -/
def forcedCloseAtDraft (x : TokenId) (ctx : SpecCtx O) (r : Nat) (closeMarker : Str) :
    DriverM O RoundEnd := do
  match (← .get).emitter.encodeClose closeMarker with
  | .error e =>
    reconcileAndDiscard ctx r
    .throw (.exactPrefix e)
  | .ok closeIds =>
    if closeIds = [] then
      reconcileAndCommit x ctx r
      let d ← .get
      if d.used ≥ d.maxTokens then pure .budget
      else continueFromSalvage ctx.dists[r]? (internal "missing verify row dist at close trigger")
    else
      let close ← emitClosePrefix closeIds 0
      -- to entry, never to post-x: the replayed sequence contains x
      restoreOrExit ctx.entrySnap
      closeReplay (x :: (ctx.drafts.take r ++ closeIds.take close.accepted)) close closeMarker
        ctx.entryPairs

/-- What follows the sequential emission of a speculative round. -/
def finishSpeculative (x : TokenId) (ctx : SpecCtx O) (verdict : Verdict G) (r : Nat) :
    SpecEvent → DriverM O RoundEnd
  | .close marker => forcedCloseAtDraft x ctx r marker
  | .emitErr e => do
    reconcileAndDiscard ctx r
    .throw (.exactPrefix e)
  | .none => do
    reconcileAndCommit x ctx r
    continueWith verdict.successor
  | .eos => do
    reconcileAndCommit x ctx r
    pure .finished
  | .cancel => do
    reconcileAndCommit x ctx r
    pure .aborted
  | .slot => do
    reconcileAndCommit x ctx r
    pure .budget

/-- `speculative_round`. -/
def speculativeRound (x : TokenId) (k : Nat) : DriverM O RoundEnd := do
  let d ← .get
  let entryPos := RoundOps.targetPos d.ops
  let entryPairs := RoundOps.mtpPairs d.ops
  let entrySnap := RoundOps.capture d.ops
  match d.frontier with
  | none => .throw (.exactPrefix (internal "speculative round without a frontier"))
  | some frontierEntry =>
    match ← draft k x frontierEntry [] [] with
    | .discard =>
      discardMtp
      feedXTargetOnly x .dead true
    | .resume => feedXTargetOnly x (.resumeAt entryPairs) true
    | .drafted drafts draftDists =>
      match ← verify x drafts entryPos with
      | .done roundEnd => pure roundEnd
      | .ready hiddens dists postX =>
        match ← decide drafts draftDists dists with
        | none =>
          invariantErrRecovery x entryPos entryPairs frontierEntry postX hiddens dists
        | some verdict =>
          recordRound verdict.accepted
          let (r, event) ← emitDrafts (drafts.take verdict.accepted) 0
          let ctx : SpecCtx O :=
            { entryPos, entryPairs, entrySnap, frontierEntry, k, drafts, hiddens, dists, postX }
          finishSpeculative x ctx verdict r event

/-! ## A round and the decode loop -/

/-- What follows the emission of a continuing `x`. -/
def continueRound (x : TokenId) : DriverM O RoundEnd := do
  let d ← .get
  if d.used ≥ d.maxTokens then finalSlot x
  else
    match d.specDepth with
    | some k =>
      if RoundOps.windowWouldTrim d.ops (k + 1) then feedXTargetOnly x d.ordinaryMode true
      else speculativeRound x k
    | none => feedXTargetOnly x d.ordinaryMode true

/-- `run_round`. -/
def runRound (x : TokenId) : DriverM O RoundEnd := do
  match ← emit x with
  | .error e => .throw (.exactPrefix e)
  | .ok .eos =>
    countUsed
    pure .finished
  | .ok .cancelled =>
    countUsed
    pure .aborted
  | .ok (.continue_ rawText) =>
    countUsed
    match ← observe rawText with
    | some closeMarker => forcedCloseAtX x closeMarker
    | none => continueRound x

/-- The `while` loop of `decode_loop`, with the end of the last round; `none` when
`max_tokens` was reached between rounds or the fuel ran out. -/
def decodeLoop : Nat → TokenId → DriverM O (Option RoundEnd)
  | 0, _ => pure none
  | fuel + 1, next => do
    let d ← .get
    if d.used < d.maxTokens then
      match ← runRound next with
      | .continue_ successor => decodeLoop fuel successor
      | roundEnd => pure (some roundEnd)
    else pure none

end RoundDriver

end Emelex

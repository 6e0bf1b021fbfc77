import Emelex.Engine.RoundDriver

/-!
# Rounds over hooked operations

What the driver does to the caches can be watched, or made to fail, without touching the
driver: `Hooked O W` is an implementation of `RoundOps` that carries a state `W` beside `O`,
asks it before every target feed and tells it of every operation performed.  A feed that the
hook refuses never reaches `O`, and is a host failure without salvage.

* `Hook` — the hook: `approve` before a feed, `note` after an operation.
* `Hooked.plain` — the driver without the hook.

Principal results: `follows_runRound` (a round in which the hook refuses nothing is the round
over `O`).
-/

set_option autoImplicit false

namespace Emelex

open Program RoundDriver

/-- What is done to the caches of the target and of the MTP module, and what is traced. -/
inductive OpEvent (G : Type) [RowSampler G] where
  | verifyFeed
  | replayFeed
  | restore
  | truncateTarget
  /-- With the distribution that a successful step returned. -/
  | mtpStep (dist : Option (Dist G))
  | mtpCommit
  | mtpTruncate
  | mtpDiscard
  | traced (event : TraceEvent)

/-- A hook with state `W`. -/
class Hook (W : Type) (G : outParam Type) [RowSampler G] where
  /-- Asked before a target feed of these tokens. -/
  approve : List TokenId → W → Except Error Unit × W
  note : OpEvent G → W → W
  /-- A feed has been refused. -/
  Refused : W → Prop
  approve_error : ∀ ids w e, (approve ids w).1 = .error e → Refused (approve ids w).2
  approve_refused : ∀ ids w, Refused w → Refused (approve ids w).2
  note_refused : ∀ event w, Refused (note event w) ↔ Refused w

/-- Operations with the state of a hook. -/
structure Hooked (O W : Type) where
  ops : O
  hook : W

namespace Hooked

variable {O W G : Type} [RowSampler G] [RoundOps O G] [Hook W G]

/-- The hook is told of `event`, which left `ops`. -/
def noted (o : Hooked O W) (event : OpEvent G) (ops : O) : Hooked O W :=
  ⟨ops, Hook.note event o.hook⟩

/-- A feed that the hook is asked about. -/
def admitted {α : Type} (o : Hooked O W) (ids : List TokenId) (event : OpEvent G)
    (feed : OpResult G α × O) : OpResult G α × Hooked O W :=
  match Hook.approve ids o.hook with
  | (.error e, w) => (.error (.host e []), ⟨o.ops, w⟩)
  | (.ok (), w) => (feed.1, noted ⟨o.ops, w⟩ event feed.2)

/-- The distribution that an MTP step returned. -/
def stepped {H : Type} : OpResult G (H × Dist G) → Option (Dist G)
  | .ok a => some a.2
  | .error _ => none

instance : RoundOps (Hooked O W) G where
  Hidden := RoundOps.Hidden O
  Snapshot := RoundOps.Snapshot O
  isHybrid o := RoundOps.isHybrid o.ops
  targetPos o := RoundOps.targetPos o.ops
  windowWouldTrim o n := RoundOps.windowWouldTrim o.ops n
  verifyFeed o ids sampler := o.admitted ids .verifyFeed (RoundOps.verifyFeed o.ops ids sampler)
  replayFeed o ids want sampler :=
    o.admitted ids .replayFeed (RoundOps.replayFeed o.ops ids want sampler)
  capture o := RoundOps.capture o.ops
  restore o snap :=
    let r := RoundOps.restore o.ops snap
    (r.1, o.noted .restore r.2)
  truncateTarget o n :=
    let r := RoundOps.truncateTarget o.ops n
    (r.1, o.noted .truncateTarget r.2)
  mtpAlive o := RoundOps.mtpAlive o.ops
  mtpPairs o := RoundOps.mtpPairs o.ops
  mtpStep o id prev sampler :=
    let r := RoundOps.mtpStep o.ops id prev sampler
    (r.1, o.noted (.mtpStep (stepped r.1)) r.2)
  mtpCommit o ids prevs :=
    let r := RoundOps.mtpCommit o.ops ids prevs
    (r.1, o.noted .mtpCommit r.2)
  mtpTruncate o n :=
    let r := RoundOps.mtpTruncate o.ops n
    (r.1, o.noted .mtpTruncate r.2)
  mtpDiscard o := o.noted .mtpDiscard (RoundOps.mtpDiscard o.ops)
  trace o event := o.noted (.traced event) (RoundOps.trace o.ops event)

/-- The driver without the hook. -/
def plain (d : RoundDriver (Hooked O W)) : RoundDriver O :=
  { ops := d.ops.ops
    emitter := d.emitter
    budget := d.budget
    sampler := d.sampler
    maxTokens := d.maxTokens
    specK := d.specK
    committedLen := d.committedLen
    frontier := d.frontier
    stats := d.stats
    reasoningForcedClosed := d.reasoningForcedClosed
    used := d.used }

/-- The driver with a hook in the state `w`. -/
def hooked (d : RoundDriver O) (w : W) : RoundDriver (Hooked O W) :=
  { ops := ⟨d.ops, w⟩
    emitter := d.emitter
    budget := d.budget
    sampler := d.sampler
    maxTokens := d.maxTokens
    specK := d.specK
    committedLen := d.committedLen
    frontier := d.frontier
    stats := d.stats
    reasoningForcedClosed := d.reasoningForcedClosed
    used := d.used }

/-- A feed has been refused. -/
def Refusing (d : RoundDriver (Hooked O W)) : Prop := Hook.Refused d.ops.hook

/-- `m` gives what `m'` gives, unless a feed is refused. -/
abbrev Unhooked {α' α : Type} (f : α' → α) (m' : DriverM (Hooked O W) α') (m : DriverM O α) :
    Prop := Follows plain Refusing f m' m

/-! ## The operations -/

omit [RoundOps O G] in
theorem admitted_spec {α : Type} {o : Hooked O W} {ids : List TokenId} {event : OpEvent G}
    {feed : OpResult G α × O} :
    (Hook.Refused o.hook → Hook.Refused (o.admitted ids event feed).2.hook) ∧
      (¬ Hook.Refused (o.admitted ids event feed).2.hook →
        feed = ((o.admitted ids event feed).1, (o.admitted ids event feed).2.ops)) := by
  have herror := Hook.approve_error ids o.hook
  have hrefused := Hook.approve_refused ids o.hook
  unfold admitted
  rcases happrove : Hook.approve ids o.hook with ⟨e | _, w⟩ <;> rw [happrove] at herror hrefused
  · exact ⟨hrefused, fun hn => absurd (herror e rfl) hn⟩
  · refine ⟨fun h => ?_, fun _ => rfl⟩
    exact (Hook.note_refused event w).2 (hrefused h)

theorem follows_verifyFeed (ids : List TokenId) :
    Unhooked id (verifyFeed (O := Hooked O W) ids) (verifyFeed (O := O) ids) := by
  refine follows_call (fun d => admitted_spec.1) (fun d hn => ?_)
  have hfeed := admitted_spec.2 hn
  exact congrArg (fun r => (r.1, { plain d with ops := r.2 })) hfeed

theorem follows_replayFeed (ids : List TokenId) (want : Bool) :
    Unhooked id (replayFeed (O := Hooked O W) ids want) (replayFeed (O := O) ids want) := by
  refine follows_call (fun d => admitted_spec.1) (fun d hn => ?_)
  have hfeed := admitted_spec.2 hn
  exact congrArg (fun r => (r.1, { plain d with ops := r.2 })) hfeed

theorem follows_mtpStep (id : TokenId) (prev : RoundOps.Hidden (Hooked O W)) :
    Unhooked (fun r => r) (mtpStep (O := Hooked O W) id prev) (mtpStep (O := O) id prev) :=
  follows_call (fun _ => (Hook.note_refused _ _).2) (fun _ _ => rfl)

theorem follows_mtpCommit (ids : List TokenId) (prevs : List (RoundOps.Hidden (Hooked O W))) :
    Unhooked id (mtpCommit (O := Hooked O W) ids prevs) (mtpCommit (O := O) ids prevs) :=
  follows_call (fun _ => (Hook.note_refused _ _).2) (fun _ _ => rfl)

theorem follows_mtpTruncate (n : Nat) :
    Unhooked id (mtpTruncate (O := Hooked O W) n) (mtpTruncate (O := O) n) :=
  follows_call (fun _ => (Hook.note_refused _ _).2) (fun _ _ => rfl)

theorem follows_discardMtp :
    Unhooked id (discardMtp (O := Hooked O W)) (discardMtp (O := O)) :=
  follows_modify (fun _ => (Hook.note_refused _ _).2) (fun _ => rfl)

theorem follows_restoreOrExit (snap : RoundOps.Snapshot (Hooked O W)) :
    Unhooked id (restoreOrExit (O := Hooked O W) snap) (restoreOrExit (O := O) snap) := by
  refine follows_bind (f := id)
    (follows_call (fun _ => (Hook.note_refused _ _).2) (fun _ _ => rfl)) ?_
  rintro (e | _)
  · exact follows_throw _
  · exact follows_pure _

theorem follows_truncateOrExit (n : Nat) :
    Unhooked id (truncateOrExit (O := Hooked O W) n) (truncateOrExit (O := O) n) := by
  refine follows_bind (f := id)
    (follows_call (fun _ => (Hook.note_refused _ _).2) (fun _ _ => rfl)) ?_
  rintro (e | _)
  · exact follows_throw _
  · exact follows_pure _

theorem follows_restoreSome (snap : Option (RoundOps.Snapshot (Hooked O W))) :
    Unhooked id (restoreSome (O := Hooked O W) snap) (restoreSome (O := O) snap) := by
  cases snap with
  | none => exact follows_pure _
  | some snap => exact follows_restoreOrExit snap

theorem follows_emit (token : TokenId) :
    Unhooked id (emit (O := Hooked O W) token) (emit (O := O) token) :=
  follows_call (fun _ h => h) (fun _ _ => rfl)

theorem follows_emitForced (token : TokenId) :
    Unhooked id (emitForced (O := Hooked O W) token) (emitForced (O := O) token) :=
  follows_call (fun _ h => h) (fun _ _ => rfl)

theorem follows_observe (rawText : Str) :
    Unhooked id (observe (O := Hooked O W) rawText) (observe (O := O) rawText) := by
  refine follows_call (fun d h => ?_) (fun d _ => ?_)
  · cases d.budget <;> exact h
  · cases hd : d.budget <;> simp [plain, hd]

theorem follows_countUsed : Unhooked id (countUsed (O := Hooked O W)) (countUsed (O := O)) :=
  follows_modify (fun _ h => h) (fun _ => rfl)

theorem follows_commitLen (n : Nat) :
    Unhooked id (commitLen (O := Hooked O W) n) (commitLen (O := O) n) :=
  follows_modify (fun _ h => h) (fun _ => rfl)

theorem follows_setFrontier (frontier : Option (RoundOps.Hidden (Hooked O W))) :
    Unhooked id (setFrontier (O := Hooked O W) frontier) (setFrontier (O := O) frontier) :=
  follows_modify (fun _ h => h) (fun _ => rfl)

theorem follows_armForcedClose (closeMarker : Str) :
    Unhooked id (armForcedClose (O := Hooked O W) closeMarker)
      (armForcedClose (O := O) closeMarker) :=
  follows_modify (fun _ h => h) (fun _ => rfl)

theorem follows_recordRound (accepted : Nat) :
    Unhooked id (recordRound (O := Hooked O W) accepted) (recordRound (O := O) accepted) :=
  follows_modify (fun _ h => h) (fun _ => rfl)

theorem follows_sampleFromProbs (p : RowSampler.Row G) :
    Unhooked id (sampleFromProbs (O := Hooked O W) p) (sampleFromProbs (O := O) p) :=
  follows_call (fun _ h => h) (fun _ _ => rfl)

theorem follows_verifyAccept (drafts : List TokenId) (q p : List (RowSampler.Row G)) :
    Unhooked id (verifyAccept (O := Hooked O W) drafts q p) (verifyAccept (O := O) drafts q p) :=
  follows_call (fun _ h => h) (fun _ _ => rfl)

/-! ## The parts of a round -/

theorem follows_continueWith (dist : Dist G) :
    Unhooked id (continueWith (O := Hooked O W) dist) (continueWith (O := O) dist) := by
  refine follows_bind (f := id) ?_ fun next => follows_pure _
  refine follows_bind (f := id)
    (follows_modify (fun _ => (Hook.note_refused _ _).2) (fun _ => rfl)) fun _ => ?_
  cases dist with
  | greedy t => exact follows_pure _
  | sampled p =>
    refine follows_bind (follows_sampleFromProbs p) ?_
    rintro (e | t)
    · exact follows_throw _
    · exact follows_pure _

theorem follows_continueFromSalvage (salvage : Option (Dist G)) (error : Error) :
    Unhooked id (continueFromSalvage (O := Hooked O W) salvage error)
      (continueFromSalvage (O := O) salvage error) := by
  cases salvage with
  | none => exact follows_throw _
  | some dist => exact follows_continueWith dist

theorem follows_recommit (entryPairs : Option Nat) (ids : List TokenId)
    (prevs : List (RoundOps.Hidden (Hooked O W)))
    (frontier : Option (RoundOps.Hidden (Hooked O W))) :
    Unhooked id (recommit (O := Hooked O W) entryPairs ids prevs frontier)
      (recommit (O := O) entryPairs ids prevs frontier) := by
  refine follows_bind (f := id) ?_ fun truncated => follows_bind (f := id) ?_ fun committed => ?_
  · cases entryPairs with
    | none => exact follows_pure _
    | some n => exact follows_mtpTruncate n
  · cases truncated with
    | false => exact follows_pure _
    | true => exact follows_mtpCommit ids prevs
  · cases committed with
    | false => exact follows_discardMtp
    | true => exact follows_setFrontier frontier

theorem follows_liveFrontier :
    Unhooked (fun h => h) (liveFrontier (O := Hooked O W)) (liveFrontier (O := O)) := by
  refine follows_bind follows_get fun d => ?_
  dsimp only [plain]
  cases d.frontier with
  | none => exact follows_throw _
  | some frontier => exact follows_pure _

theorem follows_pairCommit (x : TokenId) (mode : MtpMode)
    (hiddens : List (RoundOps.Hidden (Hooked O W))) :
    Unhooked id (pairCommit (O := Hooked O W) x mode hiddens)
      (pairCommit (O := O) x mode hiddens) :=
  follows_bind follows_liveFrontier fun _ => follows_recommit _ _ _ _

theorem follows_replayPairs (seq : List TokenId) (entryPairs : Nat)
    (hiddens : List (RoundOps.Hidden (Hooked O W))) :
    Unhooked id (replayPairs (O := Hooked O W) seq entryPairs hiddens)
      (replayPairs (O := O) seq entryPairs hiddens) :=
  follows_bind follows_liveFrontier fun _ => follows_recommit _ _ _ _

theorem follows_feedXTargetOnly (x : TokenId) (mode : MtpMode) (drawSuccessor : Bool) :
    Unhooked id (feedXTargetOnly (O := Hooked O W) x mode drawSuccessor)
      (feedXTargetOnly (O := O) x mode drawSuccessor) := by
  refine follows_bind follows_get fun d => follows_bind (follows_verifyFeed _) ?_
  rintro ((e | e | ⟨e, salvage⟩) | ⟨hiddens, dists⟩)
  · exact follows_throw _
  · exact follows_throw _
  · refine follows_bind (follows_commitLen _) fun _ => follows_bind follows_discardMtp fun _ => ?_
    cases drawSuccessor with
    | false => exact follows_pure _
    | true => exact follows_continueFromSalvage _ _
  · refine follows_bind (follows_commitLen _) fun _ => ?_
    refine follows_bind (follows_when (follows_pairCommit _ _ _)) fun _ => ?_
    cases drawSuccessor with
    | false => exact follows_pure _
    | true => exact follows_continueFromSalvage _ _

theorem follows_finalSlot (x : TokenId) :
    Unhooked id (finalSlot (O := Hooked O W) x) (finalSlot (O := O) x) := by
  refine follows_bind follows_get fun d => follows_bind (follows_replayFeed _ _) ?_
  rintro ((e | e | ⟨e, salvage⟩) | ⟨hiddens, dist⟩)
  · exact follows_throw _
  · exact follows_throw _
  · exact follows_bind (follows_commitLen _) fun _ =>
      follows_bind follows_discardMtp fun _ => follows_pure _
  · exact follows_bind (follows_commitLen _) fun _ =>
      follows_bind (follows_when (follows_pairCommit _ _ _)) fun _ => follows_pure _

theorem follows_emitClosePrefix : ∀ (closeIds : List TokenId) (accepted : Nat),
    Unhooked id (emitClosePrefix (O := Hooked O W) closeIds accepted)
      (emitClosePrefix (O := O) closeIds accepted)
  | [], _ => follows_pure _
  | id :: closeIds, accepted => by
    refine follows_bind (follows_emitForced id) ?_
    rintro (e | ⟨rawText⟩ | _ | _)
    · exact follows_pure _
    · exact follows_emitClosePrefix closeIds (accepted + 1)
    · exact follows_pure _
    · exact follows_pure _

theorem follows_closeReplay (seq : List TokenId) (close : ClosePrefix) (closeMarker : Str)
    (entryPairs : Nat) :
    Unhooked id (closeReplay (O := Hooked O W) seq close closeMarker entryPairs)
      (closeReplay (O := O) seq close closeMarker entryPairs) := by
  refine follows_bind follows_get fun d => follows_bind (follows_replayFeed _ _) ?_
  rintro ((e | e | ⟨e, salvage⟩) | ⟨hiddens, dist⟩)
  · exact follows_throw _
  · exact follows_throw _
  · refine follows_bind (follows_commitLen _) fun _ => follows_bind follows_discardMtp fun _ => ?_
    cases close.error with
    | some e => exact follows_throw _
    | none =>
      refine follows_ite .rfl (follows_pure _) (follows_ite .rfl (follows_pure _) ?_)
      exact follows_bind (follows_armForcedClose _) fun _ => follows_continueFromSalvage _ _
  · refine follows_bind (follows_commitLen _) fun _ => ?_
    cases close.error with
    | some e => exact follows_bind follows_discardMtp fun _ => follows_throw _
    | none =>
      refine follows_bind (follows_when (follows_replayPairs _ _ _)) fun _ => ?_
      refine follows_ite .rfl (follows_pure _) (follows_ite .rfl (follows_pure _) ?_)
      exact follows_bind (follows_armForcedClose _) fun _ => follows_continueFromSalvage _ _

theorem follows_forcedCloseAtX (x : TokenId) (closeMarker : Str) :
    Unhooked id (forcedCloseAtX (O := Hooked O W) x closeMarker)
      (forcedCloseAtX (O := O) x closeMarker) := by
  refine follows_bind follows_get fun d => ?_
  dsimp only [plain]
  cases d.emitter.encodeClose closeMarker with
  | error e => exact follows_throw _
  | ok closeIds =>
    refine follows_ite .rfl (follows_feedXTargetOnly _ _ _) ?_
    exact follows_bind (follows_emitClosePrefix _ _) fun close =>
        follows_bind follows_get fun _ => follows_closeReplay _ _ _ _

theorem follows_draftDraw (dist : Dist G) :
    Unhooked id (draftDraw (O := Hooked O W) dist) (draftDraw (O := O) dist) := by
  cases dist with
  | greedy t => exact follows_pure _
  | sampled q => exact follows_sampleFromProbs q

theorem follows_draft : ∀ (k : Nat) (prevId : TokenId) (prev : RoundOps.Hidden (Hooked O W))
    (drafts : List TokenId) (dists : List (Dist G)),
    Unhooked id (draft (O := Hooked O W) k prevId prev drafts dists)
      (draft (O := O) k prevId prev drafts dists)
  | 0, _, _, _, _ => follows_pure _
  | k + 1, prevId, prev, drafts, dists => by
    refine follows_bind (follows_mtpStep _ _) ?_
    rintro ((e | e | ⟨e, salvage⟩) | ⟨recycle, dist⟩)
    · exact follows_pure _
    · exact follows_pure _
    · exact follows_pure _
    · refine follows_bind (follows_draftDraw dist) ?_
      rintro (e | drafted)
      · exact follows_pure _
      · refine follows_bind (follows_modify (fun _ h => h) (fun _ => rfl)) fun _ => ?_
        exact follows_draft k drafted recycle (drafts ++ [drafted]) (dists ++ [dist])

theorem follows_verifyHostRecovery (error : Error) (salvage : List (Dist G))
    (postX : Option (RoundOps.Snapshot (Hooked O W))) (entryPos : Nat) :
    Unhooked id (verifyHostRecovery (O := Hooked O W) error salvage postX entryPos)
      (verifyHostRecovery (O := O) error salvage postX entryPos) :=
  follows_bind (follows_restoreSome _) fun _ => follows_bind (follows_truncateOrExit _) fun _ =>
    follows_bind (follows_commitLen _) fun _ => follows_bind follows_discardMtp fun _ =>
      follows_continueFromSalvage _ _

theorem follows_decide (drafts : List TokenId) (draftDists dists : List (Dist G)) :
    Unhooked id (decide (O := Hooked O W) drafts draftDists dists)
      (decide (O := O) drafts draftDists dists) := by
  refine follows_bind follows_get fun d => ?_
  dsimp only [plain]
  split
  · cases greedyRows dists with
    | none => exact follows_pure _
    | some targetArgmax =>
      dsimp only
      cases verifyGreedy drafts targetArgmax with
      | error e => exact follows_pure _
      | ok v => exact follows_pure _
  · cases sampledRows draftDists with
    | none => exact follows_pure _
    | some q =>
      cases sampledRows dists with
      | none => exact follows_pure _
      | some p =>
        refine follows_bind (follows_verifyAccept _ _ _) ?_
        rintro (e | v)
        · exact follows_pure _
        · exact follows_pure _

theorem follows_invariantErrRecovery (x : TokenId) (entryPos entryPairs : Nat)
    (frontierEntry : RoundOps.Hidden (Hooked O W))
    (postX : Option (RoundOps.Snapshot (Hooked O W)))
    (hiddens : List (RoundOps.Hidden (Hooked O W))) (dists : List (Dist G)) :
    Unhooked id
      (invariantErrRecovery (O := Hooked O W) x entryPos entryPairs frontierEntry postX hiddens
        dists)
      (invariantErrRecovery (O := O) x entryPos entryPairs frontierEntry postX hiddens dists) :=
  follows_bind (follows_restoreSome _) fun _ => follows_bind (follows_truncateOrExit _) fun _ =>
    follows_bind (follows_commitLen _) fun _ => follows_bind (follows_recommit _ _ _ _) fun _ =>
      follows_continueFromSalvage _ _

theorem follows_emitDrafts : ∀ (drafts : List TokenId) (emittedDrafts : Nat),
    Unhooked id (emitDrafts (O := Hooked O W) drafts emittedDrafts)
      (emitDrafts (O := O) drafts emittedDrafts)
  | [], _ => follows_pure _
  | draft :: drafts, emittedDrafts => by
    refine follows_bind (follows_emit draft) ?_
    rintro (e | ⟨rawText⟩ | _ | _)
    · exact follows_pure _
    · refine follows_bind follows_countUsed fun _ => follows_bind (follows_observe rawText) ?_
      rintro (_ | marker)
      · refine follows_bind follows_get fun d => follows_ite .rfl (follows_pure _) ?_
        exact follows_emitDrafts drafts (emittedDrafts + 1)
      · exact follows_pure _
    · exact follows_bind follows_countUsed fun _ => follows_pure _
    · exact follows_bind follows_countUsed fun _ => follows_pure _

/-! The contexts of a speculative round name the types of the operations. -/

/-- The verify rows, for the operations without the hook. -/
def plainVerified : Verified (Hooked O W) → Verified O
  | .ready hiddens dists postX => .ready hiddens dists postX
  | .done roundEnd => .done roundEnd

/-- The round context, for the operations without the hook. -/
def plainCtx (ctx : SpecCtx (Hooked O W)) : SpecCtx O :=
  { entryPos := ctx.entryPos
    entryPairs := ctx.entryPairs
    entrySnap := ctx.entrySnap
    frontierEntry := ctx.frontierEntry
    k := ctx.k
    drafts := ctx.drafts
    hiddens := ctx.hiddens
    dists := ctx.dists
    postX := ctx.postX }

theorem follows_verifyDone (error : Error) (salvage : List (Dist G))
    (postX : Option (RoundOps.Snapshot (Hooked O W))) (entryPos : Nat) :
    Unhooked plainVerified (verifyDone (O := Hooked O W) error salvage postX entryPos)
      (verifyDone (O := O) error salvage postX entryPos) :=
  follows_bind (follows_verifyHostRecovery _ _ _ _) fun _ => follows_pure _

theorem follows_verify (x : TokenId) (drafts : List TokenId) (entryPos : Nat) :
    Unhooked plainVerified (verify (O := Hooked O W) x drafts entryPos)
      (verify (O := O) x drafts entryPos) := by
  refine follows_bind follows_get fun d => follows_ite .rfl ?_ ?_
  · refine follows_bind (follows_verifyFeed _) ?_
    rintro ((e | e | ⟨e, salvage⟩) | ⟨hiddens, dists⟩)
    · exact follows_throw _
    · exact follows_throw _
    · exact follows_verifyDone _ _ _ _
    · exact follows_pure _
  · refine follows_bind (follows_verifyFeed _) ?_
    rintro ((e | e | ⟨e, salvage⟩) | ⟨hiddens, dists⟩)
    · exact follows_throw _
    · exact follows_throw _
    · exact follows_verifyDone _ _ _ _
    refine follows_bind follows_get fun d => follows_bind (follows_verifyFeed _) ?_
    rintro ((e | e | ⟨e, salvage⟩) | ⟨more, moreDists⟩)
    · exact follows_throw _
    · exact follows_throw _
    · exact follows_verifyDone _ _ _ _
    · exact follows_pure _

theorem follows_fromVerifyRows (ctx : SpecCtx (Hooked O W)) (r : Nat) :
    Unhooked (fun c => c) (fromVerifyRows (O := Hooked O W) ctx r)
      (fromVerifyRows (O := O) (plainCtx ctx) r) :=
  follows_bind (follows_ofExcept _) fun _ => follows_bind (follows_ofExcept _) fun _ =>
    follows_pure _

theorem follows_reconcile (ctx : SpecCtx (Hooked O W)) (r : Nat) :
    Unhooked (fun c => c) (reconcile (O := Hooked O W) ctx r)
      (reconcile (O := O) (plainCtx ctx) r) := by
  refine follows_bind follows_get fun d => follows_ite .rfl ?_ (follows_ite .rfl ?_ ?_)
  · exact follows_bind (follows_truncateOrExit _) fun _ => follows_fromVerifyRows ctx r
  · exact follows_fromVerifyRows ctx ctx.k
  dsimp only [plainCtx]
  cases ctx.postX with
  | none => exact follows_throw _
  | some postX =>
    refine follows_bind (follows_restoreOrExit postX) fun _ => ?_
    refine follows_bind (follows_truncateOrExit _) fun _ => follows_ite .rfl ?_ ?_
    · exact follows_fromVerifyRows ctx 0
    refine follows_bind (follows_replayFeed _ _) ?_
    rintro ((e | e | ⟨e, salvage⟩) | ⟨hiddens, dist⟩)
    · exact follows_throw _
    · exact follows_throw _
    · exact follows_pure _
    · exact follows_bind (follows_ofExcept _) fun _ => follows_bind (follows_ofExcept _) fun _ =>
        follows_bind (follows_ofExcept _) fun _ => follows_pure _

theorem follows_reconcileAndCommit (x : TokenId) (ctx : SpecCtx (Hooked O W)) (r : Nat) :
    Unhooked id (reconcileAndCommit (O := Hooked O W) x ctx r)
      (reconcileAndCommit (O := O) x (plainCtx ctx) r) := by
  refine follows_bind (follows_reconcile ctx r) ?_
  rintro (⟨frontierH, prevs⟩ | _)
  · exact follows_bind (follows_commitLen _) fun _ => follows_recommit _ _ _ _
  · exact follows_bind (follows_commitLen _) fun _ => follows_discardMtp

theorem follows_reconcileAndDiscard (ctx : SpecCtx (Hooked O W)) (r : Nat) :
    Unhooked id (reconcileAndDiscard (O := Hooked O W) ctx r)
      (reconcileAndDiscard (O := O) (plainCtx ctx) r) :=
  follows_bind (follows_reconcile ctx r) fun _ =>
    follows_bind (follows_commitLen _) fun _ => follows_discardMtp

theorem follows_forcedCloseAtDraft (x : TokenId) (ctx : SpecCtx (Hooked O W)) (r : Nat)
    (closeMarker : Str) :
    Unhooked id (forcedCloseAtDraft (O := Hooked O W) x ctx r closeMarker)
      (forcedCloseAtDraft (O := O) x (plainCtx ctx) r closeMarker) := by
  refine follows_bind follows_get fun d => ?_
  dsimp only [plain]
  cases d.emitter.encodeClose closeMarker with
  | error e => exact follows_bind (follows_reconcileAndDiscard _ _) fun _ => follows_throw _
  | ok closeIds =>
    refine follows_ite .rfl ?_ ?_
    · refine follows_bind (follows_reconcileAndCommit _ _ _) fun _ =>
        follows_bind follows_get fun d => ?_
      exact follows_ite .rfl (follows_pure _) (follows_continueFromSalvage _ _)
    · exact follows_bind (follows_emitClosePrefix _ _) fun close =>
        follows_bind (follows_restoreOrExit _) fun _ => follows_closeReplay _ _ _ _

theorem follows_finishSpeculative (x : TokenId) (ctx : SpecCtx (Hooked O W))
    (verdict : Verdict G) (r : Nat) (event : SpecEvent) :
    Unhooked id (finishSpeculative (O := Hooked O W) x ctx verdict r event)
      (finishSpeculative (O := O) x (plainCtx ctx) verdict r event) := by
  cases event with
  | close marker => exact follows_forcedCloseAtDraft _ _ _ _
  | emitErr e => exact follows_bind (follows_reconcileAndDiscard _ _) fun _ => follows_throw _
  | none =>
    exact follows_bind (follows_reconcileAndCommit _ _ _) fun _ => follows_continueWith _
  | eos => exact follows_bind (follows_reconcileAndCommit _ _ _) fun _ => follows_pure _
  | cancel => exact follows_bind (follows_reconcileAndCommit _ _ _) fun _ => follows_pure _
  | slot => exact follows_bind (follows_reconcileAndCommit _ _ _) fun _ => follows_pure _

theorem follows_speculativeRound (x : TokenId) (k : Nat) :
    Unhooked id (speculativeRound (O := Hooked O W) x k) (speculativeRound (O := O) x k) := by
  refine follows_bind follows_get fun d => ?_
  dsimp only [plain]
  cases d.frontier with
  | none => exact follows_throw _
  | some frontierEntry =>
    refine follows_bind (follows_draft k x frontierEntry [] []) ?_
    rintro (⟨drafts, draftDists⟩ | _ | _)
    · refine follows_bind (follows_verify x drafts _) ?_
      rintro (⟨hiddens, dists, postX⟩ | roundEnd)
      · refine follows_bind (follows_decide drafts draftDists dists) ?_
        rintro (_ | verdict)
        · exact follows_invariantErrRecovery _ _ _ _ _ _ _
        · exact follows_bind (follows_recordRound _) fun _ =>
            follows_bind (follows_emitDrafts _ _) fun _ => follows_finishSpeculative _ _ _ _ _
      · exact follows_pure _
    · exact follows_bind follows_discardMtp fun _ => follows_feedXTargetOnly _ _ _
    · exact follows_feedXTargetOnly _ _ _

theorem follows_continueRound (x : TokenId) :
    Unhooked id (continueRound (O := Hooked O W) x) (continueRound (O := O) x) := by
  refine follows_bind follows_get fun d => ?_
  refine follows_ite .rfl (follows_finalSlot x) ?_
  have hdepth : (plain d).specDepth = d.specDepth := rfl
  rw [hdepth]
  cases d.specDepth with
  | none => exact follows_feedXTargetOnly _ _ _
  | some k => exact follows_ite .rfl (follows_feedXTargetOnly _ _ _) (follows_speculativeRound x k)

/-- A round in which no feed is refused is the round over the operations without the hook. -/
theorem follows_runRound (x : TokenId) :
    Unhooked id (runRound (O := Hooked O W) x) (runRound (O := O) x) := by
  refine follows_bind (follows_emit x) ?_
  rintro (e | ⟨rawText⟩ | _ | _)
  · exact follows_throw _
  · refine follows_bind follows_countUsed fun _ => follows_bind (follows_observe rawText) ?_
    rintro (_ | closeMarker)
    · exact follows_continueRound x
    · exact follows_forcedCloseAtX x closeMarker
  · exact follows_bind follows_countUsed fun _ => follows_pure _
  · exact follows_bind follows_countUsed fun _ => follows_pure _

end Hooked

end Emelex

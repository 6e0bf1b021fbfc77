import Emelex.Engine.Hooked

/-!
# The successor draw of a round (`engine/spec.rs`)

The driver calls `draw` in many places: after an ordinary feed, after a salvaged one, after a
forced close, after a reconciliation.  What all of them have in common is read off a log.

* `Recorded` — operations that note what is done to the caches, and every traced event, in the
  order performed; `runRound_recorded` (recording changes nothing).
* `RngEvent`, `consume` — what the sampler does to the random source.
* `Undrawn` — nothing has been traced, and the random source has served one draw for each
  sampled row that an MTP step returned and then the acceptance; every operation keeps it.
* `Drawn` — how a round ends: undrawn and not continuing, or with the draw as its last act.

Principal results: `drawn_runRound`, `successor_draw_discipline`.
-/

set_option autoImplicit false

namespace Emelex

open Program

/-! ## A recording implementation -/

section Recorded

variable {G : Type} [RowSampler G]

instance : Hook (List (OpEvent G)) G where
  approve _ log := (.ok (), log)
  note event log := log ++ [event]
  Refused _ := False
  approve_error _ _ _ h := nomatch h
  approve_refused _ _ h := h
  note_refused _ _ := Iff.rfl

/-- Operations with the log of what has been performed on them. -/
abbrev Recorded (O G : Type) [RowSampler G] := Hooked O (List (OpEvent G))

end Recorded

/-- What the sampler asks of the random source. -/
inductive RngEvent (G : Type) [RowSampler G] where
  | sample (p : RowSampler.Row G)
  | accept (drafts : List TokenId) (q p : List (RowSampler.Row G))

section Rng

variable {G : Type} [RowSampler G]

/-- The random source after an event. -/
def RngEvent.run : RngEvent G → G → G
  | .sample p, rng => (RowSampler.sampleFromProbs p rng).2
  | .accept drafts q p, rng => (RowSampler.verifyAcceptTrusted drafts q p rng).2

/-- An acceptance decision. -/
def RngEvent.IsAccept : RngEvent G → Prop
  | .sample _ => False
  | .accept _ _ _ => True

/-- The random source after the events, in order. -/
def consume (events : List (RngEvent G)) (rng : G) : G :=
  events.foldl (fun rng event => event.run rng) rng

@[simp] theorem consume_nil (rng : G) : consume [] rng = rng := rfl

@[simp] theorem consume_append (events more : List (RngEvent G)) (rng : G) :
    consume (events ++ more) rng = consume more (consume events rng) :=
  List.foldl_append

@[simp] theorem consume_singleton (event : RngEvent G) (rng : G) :
    consume [event] rng = event.run rng := rfl

/-- The draw of a draft token that an event of the log is followed by. -/
def OpEvent.draftDraw : OpEvent G → Option (RngEvent G)
  | .mtpStep (some (.sampled q)) => some (.sample q)
  | _ => none

/-- The draws of the draft tokens of a round. -/
def draftDraws (log : List (OpEvent G)) : List (RngEvent G) := log.filterMap OpEvent.draftDraw

@[simp] theorem draftDraws_append (log more : List (OpEvent G)) :
    draftDraws (log ++ more) = draftDraws log ++ draftDraws more :=
  List.filterMap_append

/-- An acceptance decision at most. -/
def AtMostOneAccept (events : List (RngEvent G)) : Prop :=
  events.length ≤ 1 ∧ ∀ event ∈ events, event.IsAccept

theorem atMostOneAccept_nil : AtMostOneAccept ([] : List (RngEvent G)) := ⟨by simp, by simp⟩

theorem atMostOneAccept_accept (drafts : List TokenId) (q p : List (RowSampler.Row G)) :
    AtMostOneAccept [.accept drafts q p] := by
  refine ⟨by simp, ?_⟩
  intro event h
  rw [List.mem_singleton.1 h]
  trivial

end Rng

namespace RoundDriver

variable {O G : Type} [RowSampler G] [RoundOps O G]

/-- The driver over operations that are recorded from here on. -/
def recorded (d : RoundDriver O) : RoundDriver (Recorded O G) := Hooked.hooked d []

/-- Recording changes nothing. -/
theorem runRound_recorded (x : TokenId) (d : RoundDriver O) :
    runRound x d =
      ((runRound x (recorded d)).1, Hooked.plain (runRound x (recorded d)).2) := by
  have h := (Hooked.follows_runRound x (recorded d)).2 id
  have hmap : ∀ r : Except Exit RoundEnd, r.map id = r := by rintro (_ | _) <;> rfl
  rw [hmap] at h
  exact h

/-! ## Before the draw -/

/-- No successor has been selected, and the random source `rng` has served the draft draws of
the log and then the acceptance, which satisfies `A`. -/
structure Undrawn (A : List (RngEvent G) → Prop) (rng : G) (d : RoundDriver (Recorded O G)) :
    Prop where
  untraced : .traced .successorSelect ∉ d.ops.hook
  rng : ∃ acceptance, A acceptance ∧
    d.sampler.rng = consume (draftDraws d.ops.hook ++ acceptance) rng

section Undrawn

variable {A : List (RngEvent G) → Prop} {rng : G}

theorem undrawn_recorded {d : RoundDriver O} (h : A []) :
    Undrawn A d.sampler.rng (recorded d) :=
  ⟨List.not_mem_nil, [], h, rfl⟩

theorem Undrawn.same {d d' : RoundDriver (Recorded O G)} (h : Undrawn A rng d)
    (hops : d'.ops = d.ops) (hsampler : d'.sampler = d.sampler) : Undrawn A rng d' := by
  refine ⟨?_, ?_⟩
  · rw [hops]
    exact h.untraced
  · rw [hops, hsampler]
    exact h.rng

/-- An event that is no draw leaves a round undrawn. -/
theorem Undrawn.noted {d d' : RoundDriver (Recorded O G)} {event : OpEvent G}
    (h : Undrawn A rng d) (hlog : d'.ops.hook = d.ops.hook ++ [event])
    (hsampler : d'.sampler = d.sampler) (hne : event ≠ .traced .successorSelect)
    (hd : event.draftDraw = none) : Undrawn A rng d' := by
  refine ⟨?_, ?_⟩
  · rw [hlog]
    intro hmem
    rcases List.mem_append.1 hmem with hm | hm
    · exact h.untraced hm
    · exact hne (List.mem_singleton.1 hm).symm
  · obtain ⟨acceptance, hacc, hrng⟩ := h.rng
    refine ⟨acceptance, hacc, ?_⟩
    rw [hlog, hsampler, hrng]
    simp [draftDraws, hd]

theorem Undrawn.mono {B : List (RngEvent G) → Prop} {d : RoundDriver (Recorded O G)}
    (h : Undrawn A rng d) (hAB : ∀ events, A events → B events) : Undrawn B rng d := by
  obtain ⟨acceptance, hacc, hrng⟩ := h.rng
  exact ⟨h.untraced, acceptance, hAB acceptance hacc, hrng⟩

theorem keeps_verifyFeed (ids : List TokenId) :
    Keeps (Undrawn A rng) (verifyFeed (O := Recorded O G) ids) :=
  keeps_call fun _ h => h.noted rfl rfl nofun rfl

theorem keeps_replayFeed (ids : List TokenId) (want : Bool) :
    Keeps (Undrawn A rng) (replayFeed (O := Recorded O G) ids want) :=
  keeps_call fun _ h => h.noted rfl rfl nofun rfl

theorem keeps_mtpCommit (ids : List TokenId) (prevs : List (RoundOps.Hidden (Recorded O G))) :
    Keeps (Undrawn A rng) (mtpCommit (O := Recorded O G) ids prevs) :=
  keeps_call fun _ h => h.noted rfl rfl nofun rfl

theorem keeps_mtpTruncate (n : Nat) :
    Keeps (Undrawn A rng) (mtpTruncate (O := Recorded O G) n) :=
  keeps_call fun _ h => h.noted rfl rfl nofun rfl

theorem keeps_discardMtp : Keeps (Undrawn A rng) (discardMtp (O := Recorded O G)) :=
  keeps_modify fun _ h => h.noted rfl rfl nofun rfl

theorem keeps_restoreOrExit (snap : RoundOps.Snapshot (Recorded O G)) :
    Keeps (Undrawn A rng) (restoreOrExit (O := Recorded O G) snap) := by
  refine keeps_bind (keeps_call fun _ h => h.noted rfl rfl nofun rfl) ?_
  rintro (e | u)
  · exact keeps_throw _
  · exact keeps_pure _

theorem keeps_truncateOrExit (n : Nat) :
    Keeps (Undrawn A rng) (truncateOrExit (O := Recorded O G) n) := by
  refine keeps_bind (keeps_call fun _ h => h.noted rfl rfl nofun rfl) ?_
  rintro (e | u)
  · exact keeps_throw _
  · exact keeps_pure _

theorem keeps_restoreSome (snap : Option (RoundOps.Snapshot (Recorded O G))) :
    Keeps (Undrawn A rng) (restoreSome (O := Recorded O G) snap) := by
  cases snap with
  | none => exact keeps_pure _
  | some snap => exact keeps_restoreOrExit snap

theorem keeps_emit (id : TokenId) : Keeps (Undrawn A rng) (emit (O := Recorded O G) id) :=
  keeps_call fun _ h => h.same rfl rfl

theorem keeps_emitForced (id : TokenId) :
    Keeps (Undrawn A rng) (emitForced (O := Recorded O G) id) :=
  keeps_call fun _ h => h.same rfl rfl

theorem keeps_observe (rawText : Str) :
    Keeps (Undrawn A rng) (observe (O := Recorded O G) rawText) := by
  refine keeps_call fun d h => ?_
  cases d.budget with
  | none => exact h
  | some b => exact h.same rfl rfl

theorem keeps_countUsed : Keeps (Undrawn A rng) (countUsed (O := Recorded O G)) :=
  keeps_modify fun _ h => h.same rfl rfl

theorem keeps_commitLen (n : Nat) : Keeps (Undrawn A rng) (commitLen (O := Recorded O G) n) :=
  keeps_modify fun _ h => h.same rfl rfl

theorem keeps_setFrontier (frontier : Option (RoundOps.Hidden (Recorded O G))) :
    Keeps (Undrawn A rng) (setFrontier (O := Recorded O G) frontier) :=
  keeps_modify fun _ h => h.same rfl rfl

theorem keeps_armForcedClose (closeMarker : Str) :
    Keeps (Undrawn A rng) (armForcedClose (O := Recorded O G) closeMarker) :=
  keeps_modify fun _ h => h.same rfl rfl

theorem keeps_recordRound (accepted : Nat) :
    Keeps (Undrawn A rng) (recordRound (O := Recorded O G) accepted) :=
  keeps_modify fun _ h => h.same rfl rfl

/-! The dispositions of the MTP module, the emission loops and the reconciliation. -/

theorem keeps_recommit (entryPairs : Option Nat) (ids : List TokenId)
    (prevs : List (RoundOps.Hidden (Recorded O G)))
    (frontier : Option (RoundOps.Hidden (Recorded O G))) :
    Keeps (Undrawn A rng) (recommit (O := Recorded O G) entryPairs ids prevs frontier) := by
  have htruncate : Keeps (Undrawn A rng) (truncateSome (O := Recorded O G) entryPairs) := by
    cases entryPairs with
    | none => exact keeps_pure _
    | some n => exact keeps_mtpTruncate n
  refine keeps_bind htruncate fun truncated => ?_
  refine keeps_bind ?_ fun committed => ?_
  · cases truncated with
    | false => exact keeps_pure _
    | true => exact keeps_mtpCommit ids prevs
  · cases committed with
    | false => exact keeps_discardMtp
    | true => exact keeps_setFrontier frontier

theorem keeps_liveFrontier : Keeps (Undrawn A rng) (liveFrontier (O := Recorded O G)) := by
  refine keeps_bind keeps_get fun d => ?_
  cases d.frontier with
  | none => exact keeps_throw _
  | some frontier => exact keeps_pure _

theorem keeps_pairCommit (x : TokenId) (mode : MtpMode)
    (hiddens : List (RoundOps.Hidden (Recorded O G))) :
    Keeps (Undrawn A rng) (pairCommit (O := Recorded O G) x mode hiddens) :=
  keeps_bind keeps_liveFrontier fun _ => keeps_recommit _ _ _ _

theorem keeps_replayPairs (seq : List TokenId) (entryPairs : Nat)
    (hiddens : List (RoundOps.Hidden (Recorded O G))) :
    Keeps (Undrawn A rng) (replayPairs (O := Recorded O G) seq entryPairs hiddens) :=
  keeps_bind keeps_liveFrontier fun _ => keeps_recommit _ _ _ _

theorem keeps_emitClosePrefix : ∀ (closeIds : List TokenId) (accepted : Nat),
    Keeps (Undrawn A rng) (emitClosePrefix (O := Recorded O G) closeIds accepted)
  | [], _ => keeps_pure _
  | id :: closeIds, accepted => by
    refine keeps_bind (keeps_emitForced id) ?_
    rintro (e | ⟨rawText⟩ | _ | _)
    · exact keeps_pure _
    · exact keeps_emitClosePrefix closeIds (accepted + 1)
    · exact keeps_pure _
    · exact keeps_pure _

theorem keeps_emitDrafts : ∀ (drafts : List TokenId) (emittedDrafts : Nat),
    Keeps (Undrawn A rng) (emitDrafts (O := Recorded O G) drafts emittedDrafts)
  | [], _ => keeps_pure _
  | draft :: drafts, emittedDrafts => by
    refine keeps_bind (keeps_emit draft) ?_
    rintro (e | ⟨rawText⟩ | _ | _)
    · exact keeps_pure _
    · refine keeps_bind keeps_countUsed fun _ => keeps_bind (keeps_observe rawText) ?_
      rintro (_ | marker)
      · refine keeps_bind keeps_get fun d => ?_
        by_cases hd : d.used ≥ d.maxTokens
        · rw [if_pos hd]
          exact keeps_pure _
        · rw [if_neg hd]
          exact keeps_emitDrafts drafts (emittedDrafts + 1)
      · exact keeps_pure _
    · exact keeps_bind keeps_countUsed fun _ => keeps_pure _
    · exact keeps_bind keeps_countUsed fun _ => keeps_pure _

theorem keeps_fromVerifyRows (ctx : SpecCtx (Recorded O G)) (r : Nat) :
    Keeps (Undrawn A rng) (fromVerifyRows (O := Recorded O G) ctx r) :=
  keeps_bind (keeps_ofExcept _) fun _ => keeps_bind (keeps_ofExcept _) fun _ => keeps_pure _

theorem keeps_reconcile (ctx : SpecCtx (Recorded O G)) (r : Nat) :
    Keeps (Undrawn A rng) (reconcile (O := Recorded O G) ctx r) := by
  refine keeps_bind keeps_get fun d => ?_
  split
  · exact keeps_bind (keeps_truncateOrExit _) fun _ => keeps_fromVerifyRows ctx r
  split
  · exact keeps_fromVerifyRows ctx ctx.k
  cases ctx.postX with
  | none => exact keeps_throw _
  | some postX =>
    refine keeps_bind (keeps_restoreOrExit postX) fun _ => ?_
    refine keeps_bind (keeps_truncateOrExit _) fun _ => ?_
    split
    · exact keeps_fromVerifyRows ctx 0
    refine keeps_bind (keeps_replayFeed _ _) ?_
    rintro ((e | e | ⟨e, salvage⟩) | ⟨hiddens, dist⟩)
    · exact keeps_throw _
    · exact keeps_throw _
    · exact keeps_pure _
    · exact keeps_bind (keeps_ofExcept _) fun _ => keeps_bind (keeps_ofExcept _) fun _ =>
        keeps_bind (keeps_ofExcept _) fun _ => keeps_pure _

theorem keeps_reconcileAndCommit (x : TokenId) (ctx : SpecCtx (Recorded O G)) (r : Nat) :
    Keeps (Undrawn A rng) (reconcileAndCommit (O := Recorded O G) x ctx r) := by
  refine keeps_bind (keeps_reconcile ctx r) ?_
  rintro (⟨frontierH, prevs⟩ | _)
  · exact keeps_bind (keeps_commitLen _) fun _ => keeps_recommit _ _ _ _
  · exact keeps_bind (keeps_commitLen _) fun _ => keeps_discardMtp

theorem keeps_reconcileAndDiscard (ctx : SpecCtx (Recorded O G)) (r : Nat) :
    Keeps (Undrawn A rng) (reconcileAndDiscard (O := Recorded O G) ctx r) :=
  keeps_bind (keeps_reconcile ctx r) fun _ =>
    keeps_bind (keeps_commitLen _) fun _ => keeps_discardMtp

end Undrawn

/-! ## The end of a round -/

/-- How the draw of `dist` ends the round, from the random source `rng`. -/
def drawEnd (dist : Dist G) (rng : G) : Except Exit RoundEnd :=
  match dist with
  | .greedy t => .ok (.continue_ t)
  | .sampled p =>
    match (RowSampler.sampleFromProbs p rng).1 with
    | .ok t => .ok (.continue_ t)
    | .error e => .error (.exactPrefix e)

/-- What the draw of `dist` asks of the random source. -/
def successorDraws : Dist G → List (RngEvent G)
  | .greedy _ => []
  | .sampled p => [.sample p]

/-- The end of a round: it has not drawn and does not continue, or the draw was the last thing
it did, and decides how it ends. -/
inductive Drawn (A : List (RngEvent G) → Prop) (rng : G) :
    Except Exit RoundEnd → RoundDriver (Recorded O G) → Prop
  | not {r : Except Exit RoundEnd} {d : RoundDriver (Recorded O G)} (h : Undrawn A rng d)
      (hr : ∀ next, r ≠ .ok (.continue_ next)) : Drawn A rng r d
  | last {d d' : RoundDriver (Recorded O G)} (h : Undrawn A rng d) (dist : Dist G)
      (hlog : d'.ops.hook = d.ops.hook ++ [.traced .successorSelect])
      (hrng : d'.sampler.rng = consume (successorDraws dist) d.sampler.rng) :
      Drawn A rng (drawEnd dist d.sampler.rng) d'

section Drawn

variable {A : List (RngEvent G) → Prop} {rng : G}

theorem Drawn.error {e : Exit} {d : RoundDriver (Recorded O G)} (h : Undrawn A rng d) :
    Drawn A rng (.error e) d := .not h nofun

theorem Drawn.finished {d : RoundDriver (Recorded O G)} (h : Undrawn A rng d) :
    Drawn A rng (.ok .finished) d := .not h nofun

theorem Drawn.aborted {d : RoundDriver (Recorded O G)} (h : Undrawn A rng d) :
    Drawn A rng (.ok .aborted) d := .not h nofun

theorem Drawn.budget {d : RoundDriver (Recorded O G)} (h : Undrawn A rng d) :
    Drawn A rng (.ok .budget) d := .not h nofun

theorem Drawn.mono {B : List (RngEvent G) → Prop} {r : Except Exit RoundEnd}
    {d : RoundDriver (Recorded O G)} (h : Drawn A rng r d) (hAB : ∀ events, A events → B events) :
    Drawn B rng r d := by
  cases h with
  | not h hr => exact .not (h.mono hAB) hr
  | last h dist hlog hrng => exact .last (h.mono hAB) dist hlog hrng

/-- A round that ends with `m`, which starts undrawn. -/
abbrev Draws (A : List (RngEvent G) → Prop) (rng : G) (m : DriverM (Recorded O G) RoundEnd) :
    Prop := Ends (Undrawn A rng) (Drawn A rng) m

theorem draws_throw (e : Exit) : Draws (O := O) A rng (.throw e) := ends_throw fun _ => .error

theorem draws_seq {α : Type} {m : DriverM (Recorded O G) α}
    {f : α → DriverM (Recorded O G) RoundEnd} (hm : Keeps (Undrawn A rng) m)
    (hf : ∀ a, Draws A rng (f a)) : Draws A rng (m >>= f) :=
  ends_bind hm (fun _ _ => .error) hf

theorem draws_continueWith (dist : Dist G) : Draws (O := O) A rng (continueWith dist) := by
  intro d h
  cases dist with
  | greedy t => exact .last h (.greedy t) rfl rfl
  | sampled p =>
    have hlast := fun (d' : RoundDriver (Recorded O G)) hlog hrng =>
      (Drawn.last h (.sampled p) hlog hrng : Drawn A rng _ d')
    simp only [drawEnd] at hlast
    simp only [continueWith, draw, wp_bind, wp_modify, sampleFromProbs, wp_call,
      Sampler.sampleFromProbs]
    cases hr : (RowSampler.sampleFromProbs p d.sampler.rng).1 with
    | ok t =>
      rw [hr] at hlast
      exact hlast _ rfl rfl
    | error e =>
      rw [hr] at hlast
      exact hlast _ rfl rfl

theorem draws_continueFromSalvage (salvage : Option (Dist G)) (error : Error) :
    Draws (O := O) A rng (continueFromSalvage salvage error) := by
  cases salvage with
  | none => exact draws_throw _
  | some dist => exact draws_continueWith dist

theorem draws_feedXTargetOnly (x : TokenId) (mode : MtpMode) (drawSuccessor : Bool) :
    Draws (O := O) A rng (feedXTargetOnly x mode drawSuccessor) := by
  refine draws_seq keeps_get fun d => draws_seq (keeps_verifyFeed _) ?_
  rintro ((e | e | ⟨e, salvage⟩) | ⟨hiddens, dists⟩)
  · exact draws_throw _
  · exact draws_throw _
  · refine draws_seq (keeps_commitLen _) fun _ => draws_seq keeps_discardMtp fun _ => ?_
    cases drawSuccessor with
    | false => exact ends_pure fun _ => .budget
    | true => exact draws_continueFromSalvage _ _
  · refine draws_seq (keeps_commitLen _) fun _ => ?_
    refine draws_seq (keeps_when (keeps_pairCommit _ _ _)) fun _ => ?_
    cases drawSuccessor with
    | false => exact ends_pure fun _ => .budget
    | true => exact draws_continueFromSalvage _ _

theorem draws_finalSlot (x : TokenId) : Draws (O := O) A rng (finalSlot x) := by
  refine draws_seq keeps_get fun d => draws_seq (keeps_replayFeed _ _) ?_
  rintro ((e | e | ⟨e, salvage⟩) | ⟨hiddens, dists⟩)
  · exact draws_throw _
  · exact draws_throw _
  · exact draws_seq (keeps_commitLen _) fun _ => draws_seq keeps_discardMtp fun _ =>
      ends_pure fun _ => .budget
  · exact draws_seq (keeps_commitLen _) fun _ =>
      draws_seq (keeps_when (keeps_pairCommit _ _ _)) fun _ => ends_pure fun _ => .budget

theorem draws_closeReplay (seq : List TokenId) (close : ClosePrefix) (closeMarker : Str)
    (entryPairs : Nat) : Draws (O := O) A rng (closeReplay seq close closeMarker entryPairs) := by
  refine draws_seq keeps_get fun d => draws_seq (keeps_replayFeed _ _) ?_
  rintro ((e | e | ⟨e, salvage⟩) | ⟨hiddens, dists⟩)
  · exact draws_throw _
  · exact draws_throw _
  · refine draws_seq (keeps_commitLen _) fun _ => draws_seq keeps_discardMtp fun _ => ?_
    cases close.error with
    | some e => exact draws_throw _
    | none =>
      dsimp only
      split
      · exact ends_pure fun _ => .aborted
      split
      · exact ends_pure fun _ => .budget
      exact draws_seq (keeps_armForcedClose _) fun _ => draws_continueFromSalvage _ _
  · refine draws_seq (keeps_commitLen _) fun _ => ?_
    cases close.error with
    | some e => exact draws_seq keeps_discardMtp fun _ => draws_throw _
    | none =>
      refine draws_seq (keeps_when (keeps_replayPairs _ _ _)) fun _ => ?_
      split
      · exact ends_pure fun _ => .aborted
      split
      · exact ends_pure fun _ => .budget
      exact draws_seq (keeps_armForcedClose _) fun _ => draws_continueFromSalvage _ _

theorem draws_forcedCloseAtX (x : TokenId) (closeMarker : Str) :
    Draws (O := O) A rng (forcedCloseAtX x closeMarker) := by
  refine draws_seq keeps_get fun d => ?_
  cases d.emitter.encodeClose closeMarker with
  | error e => exact draws_throw _
  | ok closeIds =>
    dsimp only
    split
    · exact draws_feedXTargetOnly _ _ _
    · exact draws_seq (keeps_emitClosePrefix _ _) fun close => draws_seq keeps_get fun _ =>
        draws_closeReplay _ _ _ _

theorem draws_forcedCloseAtDraft (x : TokenId) (ctx : SpecCtx (Recorded O G)) (r : Nat)
    (closeMarker : Str) : Draws A rng (forcedCloseAtDraft x ctx r closeMarker) := by
  refine draws_seq keeps_get fun d => ?_
  cases d.emitter.encodeClose closeMarker with
  | error e => exact draws_seq (keeps_reconcileAndDiscard _ _) fun _ => draws_throw _
  | ok closeIds =>
    dsimp only
    split
    · refine draws_seq (keeps_reconcileAndCommit _ _ _) fun _ => draws_seq keeps_get fun d => ?_
      split
      · exact ends_pure fun _ => .budget
      · exact draws_continueFromSalvage _ _
    · exact draws_seq (keeps_emitClosePrefix _ _) fun close =>
        draws_seq (keeps_restoreOrExit _) fun _ => draws_closeReplay _ _ _ _

theorem draws_verifyHostRecovery (error : Error) (salvage : List (Dist G))
    (postX : Option (RoundOps.Snapshot (Recorded O G))) (entryPos : Nat) :
    Draws A rng (verifyHostRecovery error salvage postX entryPos) :=
  draws_seq (keeps_restoreSome _) fun _ => draws_seq (keeps_truncateOrExit _) fun _ =>
    draws_seq (keeps_commitLen _) fun _ => draws_seq keeps_discardMtp fun _ =>
      draws_continueFromSalvage _ _

theorem draws_invariantErrRecovery (x : TokenId) (entryPos entryPairs : Nat)
    (frontierEntry : RoundOps.Hidden (Recorded O G))
    (postX : Option (RoundOps.Snapshot (Recorded O G)))
    (hiddens : List (RoundOps.Hidden (Recorded O G))) (dists : List (Dist G)) :
    Draws A rng
      (invariantErrRecovery x entryPos entryPairs frontierEntry postX hiddens dists) :=
  draws_seq (keeps_restoreSome _) fun _ => draws_seq (keeps_truncateOrExit _) fun _ =>
    draws_seq (keeps_commitLen _) fun _ => draws_seq (keeps_recommit _ _ _ _) fun _ =>
      draws_continueFromSalvage _ _

theorem draws_finishSpeculative (x : TokenId) (ctx : SpecCtx (Recorded O G))
    (verdict : Verdict G) (r : Nat) (event : SpecEvent) :
    Draws A rng (finishSpeculative x ctx verdict r event) := by
  cases event with
  | close marker => exact draws_forcedCloseAtDraft _ _ _ _
  | emitErr e => exact draws_seq (keeps_reconcileAndDiscard _ _) fun _ => draws_throw _
  | none => exact draws_seq (keeps_reconcileAndCommit _ _ _) fun _ => draws_continueWith _
  | eos => exact draws_seq (keeps_reconcileAndCommit _ _ _) fun _ => ends_pure fun _ => .finished
  | cancel => exact draws_seq (keeps_reconcileAndCommit _ _ _) fun _ => ends_pure fun _ => .aborted
  | slot => exact draws_seq (keeps_reconcileAndCommit _ _ _) fun _ => ends_pure fun _ => .budget

end Drawn

/-! ## The speculative round -/

section Speculative

variable {rng : G}

/-- The draw of a draft token serves the event that the step has left. -/
theorem undrawn_draftDraw {d d' : RoundDriver (Recorded O G)} {dist : Dist G}
    (h : Undrawn (· = []) rng d) (hlog : d'.ops.hook = d.ops.hook ++ [.mtpStep (some dist)])
    (hsampler : d'.sampler = d.sampler) :
    wp (draftDraw dist) (fun _ => Undrawn (· = []) rng) (fun _ => Undrawn (· = []) rng) d' := by
  obtain ⟨_, rfl, hrng⟩ := h.rng
  have huntraced : OpEvent.traced .successorSelect ∉ d'.ops.hook := by
    rw [hlog]
    simpa using h.untraced
  cases dist with
  | greedy t =>
    have hdraws : draftDraws [OpEvent.mtpStep (some (Dist.greedy (G := G) t))] = [] := rfl
    refine ⟨huntraced, [], rfl, ?_⟩
    simp only [hlog, hsampler, hrng, draftDraws_append, hdraws, List.append_nil]
  | sampled q =>
    have hdraws : draftDraws [OpEvent.mtpStep (some (Dist.sampled q))] = [.sample q] := rfl
    refine ⟨huntraced, [], rfl, ?_⟩
    show (RowSampler.sampleFromProbs q d'.sampler.rng).2 =
      consume (draftDraws d'.ops.hook ++ []) rng
    rw [hlog, hsampler, hrng, draftDraws_append, hdraws]
    simp only [List.append_nil, consume_append, consume_singleton, RngEvent.run]

/-- A successful MTP step leaves its draw to be served; a failed one leaves none. -/
theorem wp_mtpStep_recorded {d : RoundDriver (Recorded O G)} (h : Undrawn (· = []) rng d) (id : TokenId)
    (prev : RoundOps.Hidden (Recorded O G)) {E : Exit → RoundDriver (Recorded O G) → Prop} :
    wp (mtpStep id prev) (fun r d' =>
      match r with
      | .error _ => Undrawn (· = []) rng d'
      | .ok a => d'.ops.hook = d.ops.hook ++ [.mtpStep (some a.2)] ∧ d'.sampler = d.sampler) E d := by
  show match (RoundOps.mtpStep d.ops.ops id prev d.sampler).1 with
    | .error _ => _
    | .ok a => _
  cases hstep : (RoundOps.mtpStep d.ops.ops id prev d.sampler).1 with
  | error e =>
    refine Undrawn.noted h (?_ : _ = _ ++ [.mtpStep none]) rfl nofun rfl
    exact congrArg (fun r => d.ops.hook ++ [OpEvent.mtpStep (Hooked.stepped r)]) hstep
  | ok a =>
    refine ⟨?_, rfl⟩
    exact congrArg (fun r => d.ops.hook ++ [OpEvent.mtpStep (Hooked.stepped r)]) hstep

/-- Drafting draws once for each step that succeeded. -/
theorem keeps_draft : ∀ (k : Nat) (prevId : TokenId) (prev : RoundOps.Hidden (Recorded O G))
    (drafts : List TokenId) (dists : List (Dist G)),
    Keeps (Undrawn (· = []) rng) (draft (O := Recorded O G) k prevId prev drafts dists)
  | 0, _, _, _, _ => keeps_pure _
  | k + 1, prevId, prev, drafts, dists => by
    intro d h
    rw [draft, wp_bind]
    refine wp_mono (wp_mtpStep_recorded h prevId prev (E := fun _ _ => False)) ?_ (fun _ _ h => h.elim)
    rintro ((e | e | ⟨e, salvage⟩) | ⟨recycle, dist⟩) d' hstep
    · exact hstep
    · exact hstep
    · exact hstep
    · obtain ⟨hlog, hsampler⟩ := hstep
      dsimp only
      rw [wp_bind]
      refine wp_mono (undrawn_draftDraw h hlog hsampler) ?_ (fun _ _ h => h)
      rintro (e | drafted) d'' h''
      · exact h''
      · refine keeps_bind (keeps_modify fun _ h => h.same rfl rfl) (fun _ => ?_) d'' h''
        exact keeps_draft k drafted recycle (drafts ++ [drafted]) (dists ++ [dist])

/-- The decision moves the random source by an acceptance at most. -/
theorem ends_decide (drafts : List TokenId) (draftDists dists : List (Dist G)) :
    Ends (Undrawn (· = []) rng) (fun _ => Undrawn AtMostOneAccept rng)
      (decide (O := Recorded O G) drafts draftDists dists) := by
  intro d h
  have hkept : Undrawn AtMostOneAccept rng d :=
    h.mono fun _ hnil => hnil ▸ atMostOneAccept_nil
  rw [decide, wp_bind, wp_get]
  split
  · cases greedyRows dists with
    | none => exact hkept
    | some targetArgmax =>
      dsimp only
      cases verifyGreedy drafts targetArgmax with
      | error e => exact hkept
      | ok v => exact hkept
  · cases sampledRows draftDists with
    | none => exact hkept
    | some q =>
      cases sampledRows dists with
      | none => exact hkept
      | some p =>
        obtain ⟨_, rfl, hrng⟩ := h.rng
        rw [List.append_nil] at hrng
        have hmoved : Undrawn AtMostOneAccept rng
            { d with sampler := (d.sampler.verifyAcceptTrusted drafts q p).2 } := by
          refine ⟨h.untraced, [.accept drafts q p], atMostOneAccept_accept _ _ _, ?_⟩
          rw [consume_append, ← hrng]
          rfl
        simp only [wp_bind, verifyAccept, wp_call]
        cases (d.sampler.verifyAcceptTrusted drafts q p).1 with
        | error e => exact hmoved
        | ok v => exact hmoved

/-- A verification ends the round, or leaves it undrawn. -/
def VerifyEnd (A : List (RngEvent G) → Prop) (rng : G) :
    Except Exit (Verified (Recorded O G)) → RoundDriver (Recorded O G) → Prop
  | .error e, d => Drawn A rng (.error e) d
  | .ok (.done roundEnd), d => Drawn A rng (.ok roundEnd) d
  | .ok (.ready _ _ _), d => Undrawn A rng d

theorem ends_verifyDone {A : List (RngEvent G) → Prop} (error : Error) (salvage : List (Dist G))
    (postX : Option (RoundOps.Snapshot (Recorded O G))) (entryPos : Nat) :
    Ends (Undrawn A rng) (VerifyEnd A rng)
      (verifyDone (O := Recorded O G) error salvage postX entryPos) := by
  intro d h
  rw [verifyDone, wp_bind]
  exact wp_mono (draws_verifyHostRecovery error salvage postX entryPos d h)
    (fun _ _ h => h) (fun _ _ h => h)

theorem ends_verify {A : List (RngEvent G) → Prop} (x : TokenId) (drafts : List TokenId)
    (entryPos : Nat) :
    Ends (Undrawn A rng) (VerifyEnd A rng) (verify (O := Recorded O G) x drafts entryPos) := by
  have hseq : ∀ {α : Type} {m : DriverM (Recorded O G) α}
      {f : α → DriverM (Recorded O G) (Verified (Recorded O G))}, Keeps (Undrawn A rng) m →
      (∀ a, Ends (Undrawn A rng) (VerifyEnd A rng) (f a)) →
      Ends (Undrawn A rng) (VerifyEnd A rng) (m >>= f) :=
    fun hm hf => ends_bind hm (fun _ _ h => Drawn.error h) hf
  refine hseq keeps_get fun d => ?_
  split
  · refine hseq (keeps_verifyFeed _) ?_
    rintro ((e | e | ⟨e, salvage⟩) | ⟨hiddens, dists⟩)
    · exact ends_throw fun _ => Drawn.error
    · exact ends_throw fun _ => Drawn.error
    · exact ends_verifyDone _ _ _ _
    · exact ends_pure fun _ h => h
  · refine hseq (keeps_verifyFeed _) ?_
    rintro ((e | e | ⟨e, salvage⟩) | ⟨hiddens, dists⟩)
    · exact ends_throw fun _ => Drawn.error
    · exact ends_throw fun _ => Drawn.error
    · exact ends_verifyDone _ _ _ _
    refine hseq keeps_get fun d => hseq (keeps_verifyFeed _) ?_
    rintro ((e | e | ⟨e, salvage⟩) | ⟨more, moreDists⟩)
    · exact ends_throw fun _ => Drawn.error
    · exact ends_throw fun _ => Drawn.error
    · exact ends_verifyDone _ _ _ _
    · exact ends_pure fun _ h => h

/-- What follows the decision, from an undrawn round that has accepted once at most. -/
theorem draws_speculativeRound (x : TokenId) (k : Nat) {d : RoundDriver (Recorded O G)}
    (h : Undrawn (· = []) rng d) :
    wp (speculativeRound x k) (fun roundEnd => Drawn AtMostOneAccept rng (.ok roundEnd))
      (fun e => Drawn AtMostOneAccept rng (.error e)) d := by
  have hnil : ∀ events : List (RngEvent G), events = [] → AtMostOneAccept events :=
    fun _ hnil => hnil ▸ atMostOneAccept_nil
  rw [speculativeRound, wp_bind, wp_get]
  cases d.frontier with
  | none => exact .error (h.mono hnil)
  | some frontierEntry =>
    dsimp only
    rw [wp_bind]
    refine wp_mono (keeps_draft k x frontierEntry [] [] d h) ?_ (fun _ _ h => .error (h.mono hnil))
    rintro (⟨drafts, draftDists⟩ | _ | _) d₁ h₁
    · dsimp only
      rw [wp_bind]
      refine wp_mono (ends_verify x drafts _ d₁ h₁) ?_ (fun _ _ h => h.mono hnil)
      rintro (⟨hiddens, dists, postX⟩ | roundEnd) d₂ h₂
      · dsimp only
        rw [wp_bind]
        refine wp_mono (ends_decide drafts draftDists dists d₂ h₂) ?_ (fun _ _ h => .error h)
        rintro (_ | verdict) d₃ h₃
        · exact draws_invariantErrRecovery _ _ _ _ _ _ _ d₃ h₃
        · refine draws_seq (keeps_recordRound _) (fun _ => ?_) d₃ h₃
          exact draws_seq (keeps_emitDrafts _ _) fun _ => draws_finishSpeculative _ _ _ _ _
      · exact Drawn.mono h₂ hnil
    · refine wp_mono (draws_seq keeps_discardMtp (fun _ => draws_feedXTargetOnly x .dead true)
        d₁ h₁) ?_ ?_
      · exact fun _ _ h => Drawn.mono h hnil
      · exact fun _ _ h => Drawn.mono h hnil
    · refine wp_mono (draws_feedXTargetOnly x (.resumeAt _) true d₁ h₁) ?_ ?_
      · exact fun _ _ h => Drawn.mono h hnil
      · exact fun _ _ h => Drawn.mono h hnil

end Speculative

/-! ## The round -/

theorem draws_continueRound {rng : G} (x : TokenId) {d : RoundDriver (Recorded O G)}
    (h : Undrawn (· = []) rng d) :
    wp (continueRound x) (fun roundEnd => Drawn AtMostOneAccept rng (.ok roundEnd))
      (fun e => Drawn AtMostOneAccept rng (.error e)) d := by
  have hacc : Undrawn AtMostOneAccept rng d := h.mono fun _ hnil => hnil ▸ atMostOneAccept_nil
  rw [continueRound, wp_bind, wp_get]
  split
  · exact draws_finalSlot x d hacc
  cases d.specDepth with
  | none => exact draws_feedXTargetOnly x _ true d hacc
  | some k =>
    dsimp only
    split
    · exact draws_feedXTargetOnly x _ true d hacc
    · exact draws_speculativeRound x k h

/-- A round that starts undrawn ends undrawn, or with the draw. -/
theorem drawn_runRound {rng : G} (x : TokenId) {d : RoundDriver (Recorded O G)}
    (h : Undrawn (· = []) rng d) :
    wp (runRound x) (fun roundEnd => Drawn AtMostOneAccept rng (.ok roundEnd))
      (fun e => Drawn AtMostOneAccept rng (.error e)) d := by
  have hnil : ∀ events : List (RngEvent G), events = [] → AtMostOneAccept events :=
    fun _ hnil => hnil ▸ atMostOneAccept_nil
  rw [runRound, wp_bind]
  refine wp_mono (keeps_emit x d h) ?_ (fun _ _ h => .error (h.mono hnil))
  rintro (e | ⟨rawText⟩ | _ | _) d₁ h₁
  · exact .error (h₁.mono hnil)
  · dsimp only
    rw [wp_bind]
    refine wp_mono (keeps_countUsed d₁ h₁) ?_ (fun _ _ h => .error (h.mono hnil))
    intro _ d₂ h₂
    rw [wp_bind]
    refine wp_mono (keeps_observe rawText d₂ h₂) ?_ (fun _ _ h => .error (h.mono hnil))
    rintro (_ | closeMarker) d₃ h₃
    · exact draws_continueRound x h₃
    · exact draws_forcedCloseAtX x closeMarker d₃ (h₃.mono hnil)
  · exact .finished (Undrawn.mono (keeps_countUsed d₁ h₁) hnil)
  · exact .aborted (Undrawn.mono (keeps_countUsed d₁ h₁) hnil)

/-- In every round, over whatever operations and in whatever state, with the log that recording
the round gives: the successor is selected once at most, and after it nothing is done to the
caches; it is selected exactly when the round continues, or leaves with the error of that very
draw; and the random source serves the draws of the draft tokens, in the order of the steps
that returned their rows, then one acceptance at most, then the draw of the successor. -/
theorem successor_draw_discipline (x : TokenId) (d : RoundDriver O) :
    ∃ log drawn acceptance successor,
      (runRound x (recorded d)).2.ops.hook = log ++ drawn ∧
      .traced .successorSelect ∉ log ∧
      (drawn = [] ∨ drawn = [.traced .successorSelect]) ∧
      (drawn ≠ [] ↔ (∃ next, (runRound x d).1 = .ok (.continue_ next)) ∨
        ∃ p e, successor = [.sample p] ∧
          (RowSampler.sampleFromProbs p
            (consume (draftDraws log ++ acceptance) d.sampler.rng)).1 = .error e ∧
          (runRound x d).1 = .error (.exactPrefix e)) ∧
      (runRound x d).2.sampler.rng =
        consume (draftDraws log ++ acceptance ++ successor) d.sampler.rng ∧
      AtMostOneAccept acceptance ∧
      (successor = [] ∨ ∃ p, drawn ≠ [] ∧ successor = [.sample p]) := by
  have hdrawn : Drawn AtMostOneAccept d.sampler.rng (runRound x (recorded d)).1
      (runRound x (recorded d)).2 := by
    have h := drawn_runRound x (undrawn_recorded (d := d) rfl)
    unfold wp at h
    rcases hr : runRound x (recorded d) with ⟨e | roundEnd, d'⟩ <;> rw [hr] at h
    · exact h
    · exact h
  rw [runRound_recorded x d]
  generalize (runRound x (recorded d)).1 = r at hdrawn ⊢
  generalize (runRound x (recorded d)).2 = d' at hdrawn ⊢
  cases hdrawn with
  | not hu hr =>
    obtain ⟨acceptance, hacc, hrng⟩ := hu.rng
    refine ⟨d'.ops.hook, [], acceptance, [], by simp, hu.untraced, .inl rfl, ?_, ?_, hacc,
      .inl rfl⟩
    · simp [hr]
    · rw [List.append_nil]
      exact hrng
  | @last d₀ _ hu dist hlog hrng =>
    obtain ⟨acceptance, hacc, hrng₀⟩ := hu.rng
    refine ⟨d₀.ops.hook, _, acceptance, successorDraws dist, hlog, hu.untraced, .inr rfl, ?_, ?_,
      hacc, ?_⟩
    · rw [← hrng₀]
      cases dist with
      | greedy t => simp [drawEnd]
      | sampled p =>
        cases hp : (RowSampler.sampleFromProbs p d₀.sampler.rng).1 with
        | ok t => simp [drawEnd, hp]
        | error e => simp [drawEnd, hp, successorDraws]
    · rw [consume_append (_ ++ _), ← hrng₀]
      exact hrng
    · cases dist with
      | greedy t => exact .inl rfl
      | sampled p => exact .inr ⟨p, by simp, rfl⟩

end RoundDriver

end Emelex

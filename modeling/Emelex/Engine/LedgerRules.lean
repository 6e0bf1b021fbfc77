import Emelex.Engine.RoundDriver

/-!
# The ledgers of the decode round, and one rule for each operation

The driver keeps four things in step: the target caches, the committed length, the MTP pairs
and the frontier.  `Aligned` says what they hold after a round, over the ledgers of an
implementation that honours the contract of `RoundOps`.  No assumption is made about which
operation fails when, what the hiddens are, or what the sampler draws.

* `Committed` — the target holds the prompt and the committed prefix of the emitted ledger.
* `MtpAligned` — frontier and pairs are those of the target rows, or both are absent.
* `Entry` — the round-entry invariant: aligned, and every emitted token is committed.

Principal results: `Resumable.extend` (which pairs newly fed rows call for), and the rules
`wp_verifyFeed`, `wp_replayFeed`, `wp_mtpStep`, `wp_mtpCommit`, `wp_mtpTruncate`,
`wp_restoreOrExit`, `wp_truncateOrExit`, `wp_emit`, `wp_draw`: what is left to prove after a
call into the operations, the emitter or the sampler, outcome by outcome.
-/

set_option autoImplicit false

namespace Emelex

open Program

section Alignment

variable {H : Type}

/-- The target caches hold `prompt ++ emitted[..committed]`. -/
structure Committed (prompt : List TokenId) (v : View H) (emitted : List TokenId)
    (committed : Nat) : Prop where
  tokens : v.attn.map Prod.fst = prompt ++ emitted.take committed
  le : committed ≤ emitted.length
  recur : v.hybrid = true → v.recur = v.attn

/-- The hidden of the last row. -/
def lastHidden (rows : List (FedRow H)) : Option H := (rows.getLast?.map Prod.snd).join

/-- Both the frontier and the MTP pairs are absent, or the frontier is the hidden of the last
row and the pairs are the shifted pairs of the rows. -/
def MtpAligned (v : View H) (frontier : Option H) : Prop :=
  match v.pairs, frontier with
  | none, none => True
  | some ps, some h =>
    lastHidden v.attn = some h ∧ ps.map (fun p => (p.1, some p.2)) = shifted v.attn
  | _, _ => False

/-- The first `n` pairs are the shifted pairs of `rows`, and the frontier is their last
hidden: what an MTP module needs to be brought back to `rows`. -/
structure Resumable (rows : List (FedRow H)) (ps : List (TokenId × H)) (frontier : H) :
    Prop where
  last : lastHidden rows = some frontier
  pairs : ps.map (fun p => (p.1, some p.2)) = shifted rows

theorem mtpAligned_some {v : View H} {ps : List (TokenId × H)} {h : H} (hp : v.pairs = some ps) :
    MtpAligned v (some h) ↔ Resumable v.attn ps h := by
  unfold MtpAligned
  rw [hp]
  exact ⟨fun h => ⟨h.1, h.2⟩, fun h => ⟨h.1, h.2⟩⟩

theorem mtpAligned_none {v : View H} (hp : v.pairs = none) : MtpAligned v none := by
  unfold MtpAligned
  rw [hp]
  trivial

theorem MtpAligned.alive {v : View H} {frontier : Option H} (h : MtpAligned v frontier)
    (ha : v.pairs.isSome = true) : ∃ ps f, v.pairs = some ps ∧ frontier = some f ∧
      Resumable v.attn ps f := by
  unfold MtpAligned at h
  split at h
  · rename_i hp; rw [hp] at ha; cases ha
  · rename_i ps f hp; exact ⟨ps, f, hp, rfl, h.1, h.2⟩
  · exact h.elim

theorem MtpAligned.dead {v : View H} {frontier : Option H} (h : MtpAligned v frontier)
    (ha : v.pairs = none) : frontier = none := by
  unfold MtpAligned at h
  rw [ha] at h
  cases frontier with
  | none => rfl
  | some f => exact h.elim

theorem Resumable.length {rows : List (FedRow H)} {ps : List (TokenId × H)} {f : H}
    (h : Resumable rows ps f) : ps.length = rows.length - 1 := by
  have := congrArg List.length h.pairs
  rwa [List.length_map, shifted_length] at this

/-- Committing the pairs of newly fed rows. -/
theorem Resumable.extend {rows : List (FedRow H)} {ps : List (TokenId × H)} {f h : H}
    (hr : Resumable rows ps f) {ids : List TokenId} {hs : List H} (hlen : hs.length = ids.length)
    (hlast : hs.getLast? = some h) :
    Resumable (rows ++ rowsOf ids hs) (ps ++ ids.zip (f :: hs.take (ids.length - 1))) h := by
  have hsnd : (rowsOf ids hs).map Prod.snd = hs.map some := rowsOf_snd hlen
  constructor
  · have hne : (rowsOf ids hs).getLast?.map Prod.snd = some (some h) := by
      rw [← List.getLast?_map, hsnd, List.getLast?_map, hlast]
      rfl
    cases hg : (rowsOf ids hs).getLast? with
    | none => rw [hg] at hne; cases hne
    | some r =>
      rw [hg] at hne
      unfold lastHidden
      rw [List.getLast?_append, hg]
      simpa using congrArg Option.join hne
  · have hf : rows.getLast?.map Prod.snd = some (some f) := by
      have := hr.last
      unfold lastHidden at this
      cases hg : rows.getLast?.map Prod.snd with
      | none => rw [hg] at this; cases this
      | some o => rw [hg] at this; exact congrArg some this
    rw [List.map_append, hr.pairs, shifted_append hf, rowsOf_fst, hsnd]
    congr 1
    -- the last hidden of the feed has no token after it
    have hz : ids.zip (some f :: hs.map some) = ids.zip (some f :: (hs.take (ids.length - 1)).map some) := by
      rw [List.zip_eq_zip_take_min, eq_comm, List.zip_eq_zip_take_min]
      cases ids with
      | nil => simp
      | cons id ids =>
        simp [hlen, List.take_take]
    rw [hz, ← List.map_cons, List.zip_map_right]
    rfl

theorem Committed.congr {prompt : List TokenId} {v v' : View H} {emitted : List TokenId}
    {c : Nat} (h : Committed prompt v emitted c) (ha : v'.attn = v.attn)
    (hr : v'.recur = v.recur) (hh : v'.hybrid = v.hybrid) : Committed prompt v' emitted c :=
  ⟨by rw [ha]; exact h.tokens, h.le, by rw [hh, hr, ha]; exact h.recur⟩

/-- The target after a round that retained `seq` of the tokens emitted since its entry. -/
theorem committed_of {prompt before : List TokenId} (seq : List TokenId) {rest : List TokenId}
    {v : View H}
    (hattn : v.attn.map Prod.fst = prompt ++ (before ++ seq))
    (hrec : v.hybrid = true → v.recur = v.attn) :
    Committed prompt v (before ++ seq ++ rest) (before.length + seq.length) := by
  refine ⟨?_, by simp, hrec⟩
  rw [hattn, ← List.length_append, List.take_left]

end Alignment

namespace RoundDriver

variable {O G : Type} [RowSampler G] [RoundOps O G]

/-- Some target operation can fail where it is used in range: a feed is `Invalid`, or a restore
or a truncation to rows that are held returns an error. -/
def TargetFails (L : Ledgers O) : Prop :=
  (∃ (o : O) (ids : List TokenId) (sampler : Sampler G) (e : Error),
      (RoundOps.verifyFeed o ids sampler).1 = .error (.invalid e)) ∨
    (∃ (o : O) (ids : List TokenId) (want : Bool) (sampler : Sampler G) (e : Error),
      (RoundOps.replayFeed o ids want sampler).1 = .error (.invalid e)) ∨
    (∃ (o : O) (s : RoundOps.Snapshot O) (e : OpError G), (L.snap s).1 ≤ (L.view o).attn.length ∧
      (RoundOps.restore o s).1 = .error e) ∨
    (∃ (o : O) (n : Nat) (e : OpError G), n ≤ (L.view o).attn.length ∧
      (RoundOps.truncateTarget o n).1 = .error e)

/-- The state after a round, for the ledgers `L`. -/
structure Aligned (L : Ledgers O) (prompt : List TokenId) (d : RoundDriver O) : Prop where
  committed : Committed prompt (L.view d.ops) d.emitter.emitted d.committedLen
  mtp : MtpAligned (L.view d.ops) d.frontier

/-- The round-entry invariant: aligned, and every emitted token is committed. -/
structure Entry (L : Ledgers O) (prompt : List TokenId) (d : RoundDriver O) : Prop
    extends Aligned L prompt d where
  all : d.committedLen = d.emitter.emitted.length

/-- What a returning round leaves. -/
def RoundPost (L : Ledgers O) (prompt : List TokenId) (r : RoundEnd) (d : RoundDriver O) : Prop :=
  Aligned L prompt d ∧ ∀ next, r = .continue_ next → d.committedLen = d.emitter.emitted.length

/-- What an error exit leaves; an invalid-cache exit is due to the target. -/
def ExitPost (L : Ledgers O) (prompt : List TokenId) (e : Exit) (d : RoundDriver O) : Prop :=
  match e with
  | .invalidCache _ => TargetFails L
  | .exactPrefix _ => Aligned L prompt d

theorem Entry.post {L : Ledgers O} {prompt : List TokenId} {d : RoundDriver O}
    (h : Entry L prompt d) (r : RoundEnd) : RoundPost L prompt r d :=
  ⟨h.toAligned, fun _ _ => h.all⟩

theorem Aligned.post {L : Ledgers O} {prompt : List TokenId} {d : RoundDriver O}
    (h : Aligned L prompt d) {r : RoundEnd} (hr : ∀ next, r ≠ .continue_ next) :
    RoundPost L prompt r d :=
  ⟨h, fun next hn => absurd hn (hr next)⟩

/-! ## Rules of the single operations -/

section Rules

variable {L : Ledgers O} {prompt : List TokenId} {d : RoundDriver O}
  {E : Exit → RoundDriver O → Prop}

theorem wp_verifyFeed (hL : Honours L) {ids : List TokenId} (hsync : (L.view d.ops).Synced)
    {Q : OpResult G (List (RoundOps.Hidden O) × List (Dist G)) → RoundDriver O → Prop}
    (hok : ∀ hs ds o' rows, rows.map Prod.fst = ids → L.view o' = (L.view d.ops).feed rows →
      ((L.view d.ops).pairs.isSome → hs.length = ids.length ∧ rows = rowsOf ids hs) →
      ds.length = ids.length → Q (.ok (hs, ds)) { d with ops := o' })
    (hhost : ∀ e salvage o' rows, rows.map Prod.fst = ids →
      L.view o' = (L.view d.ops).feed rows → Q (.error (.host e salvage)) { d with ops := o' })
    (hinv : TargetFails L → ∀ e o', Q (.error (.invalid e)) { d with ops := o' }) :
    wp (verifyFeed ids) Q E d := by
  have hc := hL.verifyFeed d.ops ids d.sampler hsync
  have hd := hL.verifyFeed_dists d.ops ids d.sampler
  show Q (RoundOps.verifyFeed d.ops ids d.sampler).1
    { d with ops := (RoundOps.verifyFeed d.ops ids d.sampler).2 }
  rcases hr : RoundOps.verifyFeed d.ops ids d.sampler with ⟨r, o'⟩
  rw [hr] at hc hd
  rcases r with (e | e | ⟨e, salvage⟩) | ⟨hs, ds⟩
  · exact hinv (Or.inl ⟨d.ops, ids, d.sampler, e, by rw [hr]⟩) e o'
  · exact hc.elim
  · obtain ⟨rows, hrows, hv⟩ := hc
    exact hhost e salvage o' rows hrows hv
  · obtain ⟨rows, hrows, hv, halive⟩ := hc
    exact hok hs ds o' rows hrows hv halive (hd hs ds rfl)

theorem wp_replayFeed (hL : Honours L) {ids : List TokenId} {want : Bool}
    (hsync : (L.view d.ops).Synced)
    {Q : OpResult G (List (RoundOps.Hidden O) × Option (Dist G)) → RoundDriver O → Prop}
    (hok : ∀ hs dist o' rows, rows.map Prod.fst = ids → L.view o' = (L.view d.ops).feed rows →
      ((L.view d.ops).pairs.isSome → hs.length = ids.length ∧ rows = rowsOf ids hs) →
      Q (.ok (hs, dist)) { d with ops := o' })
    (hhost : ∀ e salvage o' rows, rows.map Prod.fst = ids →
      L.view o' = (L.view d.ops).feed rows → Q (.error (.host e salvage)) { d with ops := o' })
    (hinv : TargetFails L → ∀ e o', Q (.error (.invalid e)) { d with ops := o' }) :
    wp (replayFeed ids want) Q E d := by
  have hc := hL.replayFeed d.ops ids want d.sampler hsync
  show Q (RoundOps.replayFeed d.ops ids want d.sampler).1
    { d with ops := (RoundOps.replayFeed d.ops ids want d.sampler).2 }
  rcases hr : RoundOps.replayFeed d.ops ids want d.sampler with ⟨r, o'⟩
  rw [hr] at hc
  rcases r with (e | e | ⟨e, salvage⟩) | ⟨hs, dist⟩
  · exact hinv (Or.inr (Or.inl ⟨d.ops, ids, want, d.sampler, e, by rw [hr]⟩)) e o'
  · exact hc.elim
  · obtain ⟨rows, hrows, hv⟩ := hc
    exact hhost e salvage o' rows hrows hv
  · obtain ⟨rows, hrows, hv, halive⟩ := hc
    exact hok hs dist o' rows hrows hv halive

theorem wp_mtpStep (hL : Honours L) {id : TokenId} {prev : RoundOps.Hidden O}
    {Q : OpResult G (RoundOps.Hidden O × Dist G) → RoundDriver O → Prop}
    (hok : ∀ a o', L.view o' =
      { L.view d.ops with pairs := (L.view d.ops).pairs.map (· ++ [(id, prev)]) } →
      Q (.ok a) { d with ops := o' })
    (hhost : ∀ e salvage o' more, L.view o' =
      { L.view d.ops with pairs := (L.view d.ops).pairs.map (· ++ more) } →
      Q (.error (.host e salvage)) { d with ops := o' })
    (hmtp : ∀ e o' ps, L.view o' = { L.view d.ops with pairs := ps } →
      Q (.error (.mtpForward e)) { d with ops := o' })
    (hinv : ∀ e o' ps, L.view o' = { L.view d.ops with pairs := ps } →
      Q (.error (.invalid e)) { d with ops := o' }) :
    wp (mtpStep id prev) Q E d := by
  have hc := hL.mtpStep d.ops id prev d.sampler
  show Q (RoundOps.mtpStep d.ops id prev d.sampler).1
    { d with ops := (RoundOps.mtpStep d.ops id prev d.sampler).2 }
  rcases hr : RoundOps.mtpStep d.ops id prev d.sampler with ⟨r, o'⟩
  rw [hr] at hc
  rcases r with (e | e | ⟨e, salvage⟩) | a
  · obtain ⟨ps, hps⟩ := hc
    exact hinv e o' ps hps
  · obtain ⟨ps, hps⟩ := hc
    exact hmtp e o' ps hps
  · obtain ⟨more, hmore⟩ := hc
    exact hhost e salvage o' more hmore
  · exact hok a o' hc

theorem wp_mtpCommit (hL : Honours L) {ids : List TokenId} {prevs : List (RoundOps.Hidden O)}
    {Q : Bool → RoundDriver O → Prop}
    (hok : ∀ o', L.view o' =
      { L.view d.ops with pairs := (L.view d.ops).pairs.map (· ++ ids.zip prevs) } →
      Q true { d with ops := o' })
    (herr : ∀ o' ps, L.view o' = { L.view d.ops with pairs := ps } → Q false { d with ops := o' }) :
    wp (mtpCommit ids prevs) Q E d := by
  have hc := hL.mtpCommit d.ops ids prevs
  show Q (RoundOps.mtpCommit d.ops ids prevs).1.isOk
    { d with ops := (RoundOps.mtpCommit d.ops ids prevs).2 }
  rcases hr : RoundOps.mtpCommit d.ops ids prevs with ⟨r, o'⟩
  rw [hr] at hc
  rcases r with (e | e | ⟨e, salvage⟩) | a
  · obtain ⟨ps, hps⟩ := hc
    exact herr o' ps hps
  · obtain ⟨ps, hps⟩ := hc
    exact herr o' ps hps
  · obtain ⟨more, hmore⟩ := hc
    exact herr o' _ hmore
  · exact hok o' hc

theorem wp_mtpTruncate (hL : Honours L) {n : Nat} {Q : Bool → RoundDriver O → Prop}
    (hok : ∀ o', L.view o' =
      { L.view d.ops with pairs := (L.view d.ops).pairs.map (·.take n) } →
      Q true { d with ops := o' })
    (herr : ∀ o' ps, L.view o' = { L.view d.ops with pairs := ps } → Q false { d with ops := o' }) :
    wp (mtpTruncate n) Q E d := by
  have hc := hL.mtpTruncate d.ops n
  show Q (RoundOps.mtpTruncate d.ops n).1.isOk
    { d with ops := (RoundOps.mtpTruncate d.ops n).2 }
  rcases hr : RoundOps.mtpTruncate d.ops n with ⟨r, o'⟩
  rw [hr] at hc
  rcases r with (e | e | ⟨e, salvage⟩) | a
  · obtain ⟨ps, hps⟩ := hc
    exact herr o' ps hps
  · obtain ⟨ps, hps⟩ := hc
    exact herr o' ps hps
  · obtain ⟨more, hmore⟩ := hc
    exact herr o' _ hmore
  · exact hok o' hc

theorem wp_discardMtp (hL : Honours L) {Q : Unit → RoundDriver O → Prop}
    (h : ∀ o', L.view o' = { L.view d.ops with pairs := none } →
      Q () { d with ops := o', frontier := none }) :
    wp discardMtp Q E d :=
  h _ (hL.mtpDiscard d.ops)

theorem wp_restoreOrExit (hL : Honours L) {snap : RoundOps.Snapshot O}
    {Q : Unit → RoundDriver O → Prop}
    (hok : ∀ o', (L.view d.ops).Cut (L.snap snap).1 (L.snap snap).2 (L.view o') →
      Q () { d with ops := o' })
    (hin : (L.snap snap).1 ≤ (L.view d.ops).attn.length)
    (herr : TargetFails L → ∀ e o', E (.invalidCache e) { d with ops := o' }) :
    wp (restoreOrExit snap) Q E d := by
  have hc := hL.restore d.ops snap
  unfold restoreOrExit
  rw [wp_bind, wp_call]
  rcases hr : RoundOps.restore d.ops snap with ⟨e | ⟨⟨⟩⟩, o'⟩
  · exact herr (Or.inr (Or.inr (Or.inl ⟨d.ops, snap, e, hin, by rw [hr]⟩))) _ o'
  · rw [hr] at hc
    exact hok o' (hc rfl)

theorem wp_truncateOrExit (hL : Honours L) {n : Nat} {Q : Unit → RoundDriver O → Prop}
    (hok : ∀ o', (L.view d.ops).Cut n (L.view d.ops).recur (L.view o') →
      Q () { d with ops := o' })
    (hin : n ≤ (L.view d.ops).attn.length)
    (herr : TargetFails L → ∀ e o', E (.invalidCache e) { d with ops := o' }) :
    wp (truncateOrExit n) Q E d := by
  have hc := hL.truncateTarget d.ops n
  unfold truncateOrExit
  rw [wp_bind, wp_call]
  rcases hr : RoundOps.truncateTarget d.ops n with ⟨e | ⟨⟨⟩⟩, o'⟩
  · exact herr (Or.inr (Or.inr (Or.inr ⟨d.ops, n, e, hin, by rw [hr]⟩))) _ o'
  · rw [hr] at hc
    exact hok o' (hc rfl)

theorem wp_emit_eq {id : TokenId} {Q : Except Error Emit → RoundDriver O → Prop} :
    wp (emit id) Q E d =
      Q (d.emitter.emit id).2 { d with emitter := (d.emitter.emit id).1 } := rfl

theorem wp_emitForced_eq {id : TokenId} {Q : Except Error Emit → RoundDriver O → Prop} :
    wp (emitForced id) Q E d =
      Q (d.emitter.emitForced id).2 { d with emitter := (d.emitter.emitForced id).1 } := rfl

theorem wp_emit {id : TokenId} {Q : Except Error Emit → RoundDriver O → Prop}
    (hok : ∀ r e', e'.emitted = d.emitter.emitted ++ [id] → Q (.ok r) { d with emitter := e' })
    (herr : ∀ e e', e'.emitted = d.emitter.emitted → Q (.error e) { d with emitter := e' }) :
    wp (emit id) Q E d := by
  have hp := d.emitter.emit_spec id
  rw [wp_emit_eq]
  rcases hr : d.emitter.emit id with ⟨e', _ | r⟩ <;> rw [hr] at hp
  · exact herr _ e' hp
  · exact hok r e' hp

theorem wp_emitForced {id : TokenId} {Q : Except Error Emit → RoundDriver O → Prop}
    (hok : ∀ r e', e'.emitted = d.emitter.emitted ++ [id] → Q (.ok r) { d with emitter := e' })
    (herr : ∀ e e', e'.emitted = d.emitter.emitted → Q (.error e) { d with emitter := e' }) :
    wp (emitForced id) Q E d := by
  have hp := d.emitter.emitForced_spec id
  rw [wp_emitForced_eq]
  rcases hr : d.emitter.emitForced id with ⟨e', _ | r⟩ <;> rw [hr] at hp
  · exact herr _ e' hp
  · exact hok r e' hp

theorem wp_observe {rawText : Str} {Q : Option Str → RoundDriver O → Prop}
    (h : ∀ r b, Q r { d with budget := b }) : wp (observe rawText) Q E d := by
  unfold observe
  rw [wp_call]
  split
  · exact h none d.budget
  · exact h _ _

/-- The stage-4 draw touches the trace and the random source only. -/
theorem wp_draw (hL : Honours L) {dist : Dist G} {Q : TokenId → RoundDriver O → Prop}
    (hok : ∀ next o' s', L.view o' = L.view d.ops → Q next { d with ops := o', sampler := s' })
    (herr : ∀ e o' s', L.view o' = L.view d.ops →
      E (.exactPrefix e) { d with ops := o', sampler := s' }) :
    wp (draw dist) Q E d := by
  have ht := hL.trace d.ops .successorSelect
  unfold draw
  rw [wp_bind, wp_modify]
  cases dist with
  | greedy t => exact hok t _ d.sampler ht
  | sampled p =>
    show wp (sampleFromProbs p >>= _) _ _ _
    rw [wp_bind]
    unfold sampleFromProbs
    rw [wp_call]
    split
    · exact hok _ _ _ ht
    · exact herr _ _ _ ht

theorem Aligned.of_view {d d' : RoundDriver O} (h : Aligned L prompt d)
    (hv : L.view d'.ops = L.view d.ops) (he : d'.emitter.emitted = d.emitter.emitted)
    (hc : d'.committedLen = d.committedLen) (hf : d'.frontier = d.frontier) :
    Aligned L prompt d' :=
  ⟨by rw [hv, he, hc]; exact h.committed, by rw [hv, hf]; exact h.mtp⟩

theorem wp_continueWith (hL : Honours L) (h : Entry L prompt d) (dist : Dist G) :
    wp (continueWith dist) (RoundPost L prompt) (ExitPost L prompt) d := by
  unfold continueWith
  rw [wp_bind]
  refine wp_draw hL ?_ ?_
  · intro next o' s' hv
    exact ⟨h.toAligned.of_view hv rfl rfl rfl, fun _ _ => h.all⟩
  · intro e o' s' hv
    exact h.toAligned.of_view hv rfl rfl rfl

theorem wp_continueFromSalvage (hL : Honours L) (h : Entry L prompt d)
    (salvage : Option (Dist G)) (error : Error) :
    wp (continueFromSalvage salvage error) (RoundPost L prompt) (ExitPost L prompt) d := by
  unfold continueFromSalvage
  cases salvage with
  | none => exact h.toAligned
  | some dist => exact wp_continueWith hL h dist

end Rules

end RoundDriver

end Emelex

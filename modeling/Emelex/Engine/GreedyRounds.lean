import Emelex.Engine.TwoLedger

/-!
# What a greedy round returns

`BatchInvariant` is a target whose rows depend on the fed prefix alone: whatever the batch, the
row after a prefix is the argmax `next` of that prefix.  Its target operations do not fail; the
MTP module stays arbitrary, its operations may fail, and its predictions may be anything.

The rules of `TwoLedger` say what a round does to the ledgers.  The rules here say what it
returns and what a caller sees of the state it leaves, for a greedy sampler.

Principal results: `wp_feedXTargetOnly_next`, `wp_finalSlot_next`, `wp_forcedCloseAtX_next` (a
round that emits one token ends as the plain round does), `agrees_of_take` (drafts that coincide
with the argmax rows are the tokens of plain decoding).
-/

set_option autoImplicit false

namespace Emelex

open Program

/-- What `next` says after each of `ids`, fed one by one on top of `pre`. -/
def successors {α : Type} (next : List TokenId → α) (pre : List TokenId) : List TokenId → List α
  | [] => []
  | id :: ids => next (pre ++ [id]) :: successors next (pre ++ [id]) ids

/-- The tokens that greedy decoding emits one after the other. -/
def Agrees (next : List TokenId → TokenId) (pre : List TokenId) : List TokenId → Prop
  | [] => True
  | t :: ts => t = next pre ∧ Agrees next (pre ++ [t]) ts

section Successors

variable {α : Type} {next : List TokenId → α}

@[simp] theorem successors_length (pre ids : List TokenId) :
    (successors next pre ids).length = ids.length := by
  induction ids generalizing pre with
  | nil => rfl
  | cons id ids ih => simp [successors, ih]

theorem successors_getElem? {pre ids : List TokenId} {i : Nat} (h : i < ids.length) :
    (successors next pre ids)[i]? = some (next (pre ++ ids.take (i + 1))) := by
  induction ids generalizing pre i with
  | nil => simp at h
  | cons id ids ih =>
    cases i with
    | zero => simp [successors]
    | succ i => simp [successors, ih (by simpa using h)]

/-- Drafts that coincide with the argmax rows are the tokens of greedy decoding. -/
theorem agrees_of_take {next : List TokenId → TokenId} {x : TokenId} {drafts : List TokenId} {pre : List TokenId} {a : Nat}
    (h : drafts.take a = (successors next pre (x :: drafts)).take a) :
    Agrees next (pre ++ [x]) (drafts.take a) := by
  induction drafts generalizing x pre a with
  | nil => simp [Agrees]
  | cons t ts ih =>
    cases a with
    | zero => trivial
    | succ a =>
      rw [successors, List.take_succ_cons, List.take_succ_cons] at h
      obtain ⟨ht, hts⟩ := List.cons.inj h
      exact ⟨ht, ih hts⟩

end Successors

/-! ## The target -/

namespace RoundDriver

variable {O G : Type} [RowSampler G] [RoundOps O G]

/-- The row of a fed token depends only on the prefix up to it, and no target operation fails
where it is used in range. -/
structure BatchInvariant (L : Ledgers O) (next : List TokenId → TokenId) : Prop where
  verifyFeed_ok : ∀ (o : O) ids (sampler : Sampler G),
    ∃ a, (RoundOps.verifyFeed o ids sampler).1 = .ok a
  replayFeed_ok : ∀ (o : O) ids want (sampler : Sampler G),
    ∃ a, (RoundOps.replayFeed o ids want sampler).1 = .ok a
  restore_ok : ∀ (o : O) s, (L.snap s).1 ≤ (L.view o).attn.length →
    (RoundOps.restore o s).1 = .ok ()
  truncateTarget_ok : ∀ (o : O) n, n ≤ (L.view o).attn.length →
    (RoundOps.truncateTarget o n).1 = .ok ()
  verifyFeed_rows : ∀ (o : O) ids (sampler : Sampler G) hs ds, sampler.isGreedy = true →
    ((L.view o).hybrid = true → (L.view o).recur = (L.view o).attn) →
    (RoundOps.verifyFeed o ids sampler).1 = .ok (hs, ds) →
    ds = (successors next ((L.view o).attn.map Prod.fst) ids).map .greedy
  replayFeed_row : ∀ (o : O) ids (sampler : Sampler G) hs d, sampler.isGreedy = true →
    ((L.view o).hybrid = true → (L.view o).recur = (L.view o).attn) → ids ≠ [] →
    (RoundOps.replayFeed o ids true sampler).1 = .ok (hs, d) →
    d = some (.greedy (next ((L.view o).attn.map Prod.fst ++ ids)))

variable {L : Ledgers O} {next : List TokenId → TokenId} {prompt before : List TokenId}
  {d : RoundDriver O}

theorem BatchInvariant.target (hB : BatchInvariant L next) : ¬ TargetFails L := by
  rintro (⟨o, ids, sampler, e, h⟩ | ⟨o, ids, want, sampler, e, h⟩ | ⟨o, s, e, hin, h⟩ |
    ⟨o, n, e, hin, h⟩)
  · obtain ⟨a, ha⟩ := hB.verifyFeed_ok o ids sampler
    rw [ha] at h
    cases h
  · obtain ⟨a, ha⟩ := hB.replayFeed_ok o ids want sampler
    rw [ha] at h
    cases h
  · rw [hB.restore_ok o s hin] at h
    cases h
  · rw [hB.truncateTarget_ok o n hin] at h
    cases h

/-! ## What a caller sees -/

/-- The part of the state that a caller of the decode loop sees. -/
def visible (d : RoundDriver O) : Visible :=
  ⟨d.emitter, d.budget, d.committedLen, d.reasoningForcedClosed, d.used⟩

/-- The state with another visible part, other operations and another frontier. -/
def showing (d : RoundDriver O) (v : Visible) (o : O) (f : Option (RoundOps.Hidden O)) :
    RoundDriver O :=
  { d with
    ops := o, frontier := f
    emitter := v.emitter, budget := v.budget, committedLen := v.committedLen
    reasoningForcedClosed := v.reasoningForcedClosed, used := v.used }

@[simp] theorem showing_visible (d : RoundDriver O) (v : Visible) (o : O)
    (f : Option (RoundOps.Hidden O)) : (d.showing v o f).visible = v := rfl

@[simp] theorem showing_maxTokens (d : RoundDriver O) (v : Visible) (o : O)
    (f : Option (RoundOps.Hidden O)) : (d.showing v o f).maxTokens = d.maxTokens := rfl

@[simp] theorem showing_sampler (d : RoundDriver O) (v : Visible) (o : O)
    (f : Option (RoundOps.Hidden O)) : (d.showing v o f).sampler = d.sampler := rfl

section Rules

variable {E : Exit → RoundDriver O → Prop}

/-! ## Rules of the feeds and of the draw -/

theorem wp_verifyFeed_next (hL : Honours L) (hB : BatchInvariant L next) {ids tokens : List TokenId}
    {Q : OpResult G (List (RoundOps.Hidden O) × List (Dist G)) → RoundDriver O → Prop}
    (hg : d.sampler.isGreedy = true) (htok : (L.view d.ops).attn.map Prod.fst = tokens)
    (hsync : (L.view d.ops).hybrid = true → (L.view d.ops).recur = (L.view d.ops).attn)
    (hQ : ∀ hs o' rows, rows.map Prod.fst = ids → L.view o' = (L.view d.ops).feed rows →
      Q (.ok (hs, (successors next tokens ids).map .greedy)) { d with ops := o' }) :
    wp (verifyFeed ids) Q E d := by
  have hc := hL.verifyFeed d.ops ids d.sampler hsync
  obtain ⟨⟨hs, ds⟩, hok⟩ := hB.verifyFeed_ok d.ops ids d.sampler
  have hrows := hB.verifyFeed_rows d.ops ids d.sampler hs ds hg hsync hok
  show Q (RoundOps.verifyFeed d.ops ids d.sampler).1
    { d with ops := (RoundOps.verifyFeed d.ops ids d.sampler).2 }
  rw [hok] at hc ⊢
  rw [hrows, htok]
  obtain ⟨rows, hfst, hv, -⟩ := hc
  exact hQ hs _ rows hfst hv

theorem wp_replayFeed_next (hL : Honours L) (hB : BatchInvariant L next) {ids tokens : List TokenId}
    {want : Bool} {Q : OpResult G (List (RoundOps.Hidden O) × Option (Dist G)) →
      RoundDriver O → Prop}
    (hg : d.sampler.isGreedy = true) (htok : (L.view d.ops).attn.map Prod.fst = tokens)
    (hsync : (L.view d.ops).hybrid = true → (L.view d.ops).recur = (L.view d.ops).attn)
    (hQ : ∀ hs dist o' rows, rows.map Prod.fst = ids → L.view o' = (L.view d.ops).feed rows →
      (want = true → ids ≠ [] → dist = some (.greedy (next (tokens ++ ids)))) →
      Q (.ok (hs, dist)) { d with ops := o' }) :
    wp (replayFeed ids want) Q E d := by
  have hc := hL.replayFeed d.ops ids want d.sampler hsync
  obtain ⟨⟨hs, dist⟩, hok⟩ := hB.replayFeed_ok d.ops ids want d.sampler
  have hrow : want = true → ids ≠ [] → dist = some (.greedy (next (tokens ++ ids))) := by
    rintro rfl hne
    rw [← htok]
    exact hB.replayFeed_row d.ops ids d.sampler hs dist hg hsync hne hok
  show Q (RoundOps.replayFeed d.ops ids want d.sampler).1
    { d with ops := (RoundOps.replayFeed d.ops ids want d.sampler).2 }
  rw [hok] at hc ⊢
  obtain ⟨rows, hfst, hv, -⟩ := hc
  exact hQ hs dist _ rows hfst hv hrow

theorem wp_continueWith_greedy {t : TokenId} {Q : RoundEnd → RoundDriver O → Prop}
    (hQ : ∀ o', Q (.continue_ t) { d with ops := o' }) :
    wp (continueWith (.greedy t)) Q E d :=
  hQ _

theorem wp_continueFromSalvage_greedy {t : TokenId} {error : Error}
    {Q : RoundEnd → RoundDriver O → Prop} (hQ : ∀ o', Q (.continue_ t) { d with ops := o' }) :
    wp (continueFromSalvage (some (.greedy t)) error) Q E d :=
  hQ _

/-! ## The MTP disposition is not visible -/

theorem wp_recommit_frame {n : Option Nat} {ids : List TokenId}
    {prevs : List (RoundOps.Hidden O)} {f : Option (RoundOps.Hidden O)}
    {Q : Unit → RoundDriver O → Prop}
    (hQ : ∀ o' f', Q () { d with ops := o', frontier := f' }) :
    wp (recommit n ids prevs f) Q E d := by
  have hset : ∀ (committed : Bool) (o : O),
      wp (if committed = true then setFrontier f else discardMtp) Q E { d with ops := o } := by
    intro committed o
    cases committed with
    | true => exact hQ o f
    | false => exact hQ _ none
  have hcommit : ∀ (truncated : Bool) (o : O),
      wp (commitIf truncated ids prevs)
        (fun committed d' => wp (if committed = true then setFrontier f else discardMtp) Q E d') E
        { d with ops := o } := by
    intro truncated o
    cases truncated with
    | true => exact hset _ _
    | false => exact hset false o
  unfold recommit
  simp only [wp_bind]
  cases n with
  | none => exact hcommit true d.ops
  | some n => exact hcommit _ _

theorem wp_pairCommit_frame {x : TokenId} {mode : MtpMode} {hs : List (RoundOps.Hidden O)}
    {f : RoundOps.Hidden O} (hf : d.frontier = some f) {Q : Unit → RoundDriver O → Prop}
    (hQ : ∀ o' f', Q () { d with ops := o', frontier := f' }) :
    wp (pairCommit x mode hs) Q E d := by
  unfold pairCommit
  rw [wp_bind]
  exact wp_liveFrontier hf (wp_recommit_frame hQ)

theorem wp_replayPairs_frame {seq : List TokenId} {entryPairs : Nat}
    {hs : List (RoundOps.Hidden O)} {f : RoundOps.Hidden O} (hf : d.frontier = some f)
    {Q : Unit → RoundDriver O → Prop} (hQ : ∀ o' f', Q () { d with ops := o', frontier := f' }) :
    wp (replayPairs seq entryPairs hs) Q E d := by
  unfold replayPairs
  rw [wp_bind]
  exact wp_liveFrontier hf (wp_recommit_frame hQ)

/-! ## The target-only round -/

theorem wp_feedXTargetOnly_next (hL : Honours L) (hB : BatchInvariant L next) {x : TokenId}
    {mode : MtpMode} {drawSuccessor : Bool} (hg : d.sampler.isGreedy = true)
    (h : Within L prompt before [x] d) (hm : MtpReady (L.view d.ops) d.frontier mode)
    {Q : RoundEnd → RoundDriver O → Prop}
    (hQ : ∀ o f, Q (if drawSuccessor = true then .continue_ (next (prompt ++ d.emitter.emitted))
      else .budget) (d.showing (d.visible.commit 1) o f)) :
    wp (feedXTargetOnly x mode drawSuccessor) Q E d := by
  have hend : ∀ o f, wp (if drawSuccessor = true then
        continueFromSalvage ((successors next (prompt ++ before) [x]).map Dist.greedy).head?
          (internal "verify feed returned no dist")
      else pure .budget) Q E (d.showing (d.visible.commit 1) o f) := by
    intro o f
    cases drawSuccessor with
    | true =>
      show wp (continueFromSalvage (some (.greedy (next (prompt ++ before ++ [x]))))
        (internal "verify feed returned no dist")) Q E _
      rw [List.append_assoc, ← h.emitted]
      exact wp_continueFromSalvage_greedy fun o' => hQ o' f
    | false => exact hQ o f
  unfold feedXTargetOnly
  rw [wp_bind, wp_get, wp_bind]
  refine wp_verifyFeed_next hL hB hg h.tokens h.recur ?_
  intro hs o' rows _ _
  simp only [wp_bind, commitLen, wp_modify, hL.mtpAlive]
  refine wp_when ?_ ?_
  · intro halive
    obtain ⟨ps, f, -, hf, -⟩ := hm.some halive
    apply wp_pairCommit_frame (f := f)
    · exact hf
    · exact hend
  · intro _
    exact hend o' d.frontier

theorem wp_finalSlot_next (hL : Honours L) (hB : BatchInvariant L next) {x : TokenId}
    (hg : d.sampler.isGreedy = true) (h : Within L prompt before [x] d)
    (hm : MtpAligned (L.view d.ops) d.frontier) {Q : RoundEnd → RoundDriver O → Prop}
    (hQ : ∀ o f, Q .budget (d.showing (d.visible.commit 1) o f)) :
    wp (finalSlot x) Q E d := by
  unfold finalSlot
  rw [wp_bind, wp_get, wp_bind]
  refine wp_replayFeed_next hL hB hg h.tokens h.recur ?_
  intro hs dist o' rows _ _ _
  simp only [wp_bind, commitLen, wp_modify, hL.mtpAlive]
  refine wp_when ?_ ?_
  · intro halive
    obtain ⟨ps, f, -, hf, -⟩ := hm.alive halive
    apply wp_pairCommit_frame (f := f)
    · exact hf
    · exact hQ
  · intro _
    exact hQ o' d.frontier

/-! ## Forced close -/

theorem wp_closeReplay_next (hL : Honours L) (hB : BatchInvariant L next) {seq : List TokenId}
    (rest : List TokenId) {close : ClosePrefix} {closeMarker : Str} {entryPairs : Nat}
    (hg : d.sampler.isGreedy = true) (h : Within L prompt before (seq ++ rest) d)
    (hne : seq ≠ []) (hrest : close.error = none → close.cancelled = false → rest = [])
    (hm : MtpHeld (L.view d.ops) d.frontier entryPairs) {Q : RoundEnd → RoundDriver O → Prop}
    (hQ : ∀ r v o f, closeEnd next prompt d.maxTokens close closeMarker
      (d.visible.commit seq.length) = (.ok r, v) → Q r (d.showing v o f))
    (hE : ∀ e v o f, closeEnd next prompt d.maxTokens close closeMarker
      (d.visible.commit seq.length) = (.error e, v) → E e (d.showing v o f)) :
    wp (closeReplay seq close closeMarker entryPairs) Q E d := by
  -- what is left once the MTP module is settled
  have hend : ∀ (dist : Option (Dist G)) o f, close.error = none →
      (close.cancelled = false → d.used < d.maxTokens →
        dist = some (.greedy (next (prompt ++ before ++ seq)))) →
      wp (if close.cancelled = true then pure .aborted
        else if d.used ≥ d.maxTokens then pure .budget
        else do
          armForcedClose closeMarker
          continueFromSalvage dist (internal "close replay returned no dist"))
        Q E (d.showing (d.visible.commit seq.length) o f) := by
    intro dist o f herr hdist
    unfold closeEnd at hQ
    rw [herr] at hQ
    dsimp only at hQ
    split
    · rename_i hc
      rw [if_pos hc] at hQ
      exact hQ _ _ o f rfl
    · rename_i hc
      rw [if_neg hc] at hQ
      have hc : close.cancelled = false := by simpa using hc
      split
      · rename_i hover
        rw [if_pos (by exact hover)] at hQ
        exact hQ _ _ o f rfl
      · rename_i hover
        rw [if_neg (by exact hover)] at hQ
        have htokens : prompt ++ before ++ seq = prompt ++ d.emitter.emitted := by
          rw [h.emitted, hrest herr hc, List.append_nil, List.append_assoc]
        rw [hdist hc (by omega), htokens]
        simp only [wp_bind, armForcedClose, wp_modify]
        apply wp_continueFromSalvage_greedy
        intro o'
        exact hQ (.continue_ (next (prompt ++ d.emitter.emitted))) _ o' f rfl
  unfold closeReplay
  rw [wp_bind, wp_get, wp_bind]
  refine wp_replayFeed_next hL hB hg h.tokens h.recur ?_
  intro hs dist o' rows _ _ hdist
  simp only [wp_bind, commitLen, wp_modify]
  cases herr : close.error with
  | some e =>
    simp only [wp_bind]
    unfold closeEnd at hE
    rw [herr] at hE
    exact hE _ _ _ none rfl
  | none =>
    have hdist : close.cancelled = false → d.used < d.maxTokens →
        dist = some (.greedy (next (prompt ++ before ++ seq))) := by
      intro hc hlt
      refine hdist ?_ hne
      rw [herr, hc]
      simpa using hlt
    simp only [wp_bind, hL.mtpAlive]
    refine wp_when ?_ ?_
    · intro halive
      rcases hm with ⟨hps, -⟩ | ⟨ps, f, -, hf, -⟩
      · rw [hps] at halive; cases halive
      · apply wp_replayPairs_frame (f := f)
        · exact hf
        · intro o'' f'
          exact hend dist o'' f' herr hdist
    · intro _
      exact hend dist o' d.frontier herr hdist

theorem wp_forcedCloseAtX_next (hL : Honours L) (hB : BatchInvariant L next) {x : TokenId}
    {closeMarker : Str} (hg : d.sampler.isGreedy = true) (h : Within L prompt before [x] d)
    (hm : MtpAligned (L.view d.ops) d.frontier) {Q : RoundEnd → RoundDriver O → Prop}
    (hQ : ∀ r v o f, plainClose next prompt d.maxTokens d.visible closeMarker = (.ok r, v) →
      Q r (d.showing v o f))
    (hE : ∀ e v o f, plainClose next prompt d.maxTokens d.visible closeMarker = (.error e, v) →
      E e (d.showing v o f)) :
    wp (forcedCloseAtX x closeMarker) Q E d := by
  unfold forcedCloseAtX
  rw [wp_bind, wp_get]
  cases hclose : d.emitter.encodeClose closeMarker with
  | error e =>
    refine hE _ d.visible d.ops d.frontier ?_
    unfold plainClose
    rw [show d.visible.emitter = d.emitter from rfl, hclose]
  | ok closeIds =>
    simp only
    split
    · rename_i hnil
      apply wp_feedXTargetOnly_next hL hB hg h (ordinaryMode_ready hL hm)
      intro o f
      refine hQ _ _ o f ?_
      unfold plainClose plainEnd
      rw [show d.visible.emitter = d.emitter from rfl, hclose]
      simp only [if_pos hnil]
      by_cases hlt : d.used < d.maxTokens
      · rw [if_neg (by simpa [visible] using hlt)]
        simp [hlt, visible]
      · rw [if_pos (by simpa [visible] using hlt)]
        simp [hlt]
    · rename_i hne
      rw [wp_bind]
      apply wp_emitClosePrefix_run
      obtain ⟨j, rest, hj, hacc, hem, hrest⟩ := closePrefix_spec closeIds 0 d.emitter
      rw [Nat.zero_add] at hacc
      rw [plainClose_eq (v := d.visible) hclose hne] at hQ hE
      generalize hcl : closePrefix closeIds 0 d.emitter = p at *
      rw [show d.visible.emitter = d.emitter from rfl, hcl] at hQ hE
      have hlen : (x :: closeIds.take p.1.accepted).length = 1 + p.1.accepted := by
        rw [List.length_cons, List.length_take, hacc]
        omega
      rw [wp_bind, wp_get]
      apply wp_closeReplay_next hL hB rest
      · exact hg
      · refine ⟨?_, h.committed, h.tokens, h.recur⟩
        show p.2.emitted = _
        rw [hem, h.emitted, hacc]
        simp
      · exact List.cons_ne_nil _ _
      · exact hrest
      · show MtpHeld (L.view d.ops) d.frontier _
        cases hps : (L.view d.ops).pairs with
        | none => exact Or.inl ⟨hps, hm.dead hps⟩
        | some ps =>
          obtain ⟨ps', f, hps', hf, hr⟩ := hm.alive (by rw [hps]; rfl)
          refine Or.inr ⟨ps', f, hps', hf, ?_⟩
          rw [hL.mtpPairs d.ops ps' hps', List.take_length]
          exact hr
      · rw [hlen]
        exact hQ
      · rw [hlen]
        exact hE

end Rules

end RoundDriver

end Emelex

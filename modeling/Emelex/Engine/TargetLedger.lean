import Emelex.Engine.LedgerRules
import Emelex.Engine.PlainDecoding

/-!
# The ledgers after a target-only round and after a forced close

What every exit path of the target-only round and of the close replay leaves of the target
caches, the committed length, the MTP pairs and the frontier.  `Within` is the state inside a
round, where the target still holds what it held at entry and some tokens have been emitted
since.

Principal results: `wp_recommit` (truncate, commit, move the frontier), `wp_feedXTargetOnly`,
`wp_finalSlot`, `wp_closeReplay`, `wp_forcedCloseAtX`.
-/

set_option autoImplicit false

namespace Emelex

open Program

namespace RoundDriver

variable {O G : Type} [RowSampler G] [RoundOps O G]

/-- Inside a round: the target holds `prompt ++ before`, `seq` has been emitted since entry. -/
structure Within (L : Ledgers O) (prompt before seq : List TokenId) (d : RoundDriver O) :
    Prop where
  emitted : d.emitter.emitted = before ++ seq
  committed : d.committedLen = before.length
  tokens : (L.view d.ops).attn.map Prod.fst = prompt ++ before
  recur : (L.view d.ops).hybrid = true → (L.view d.ops).recur = (L.view d.ops).attn

/-- What the mode of a target-only round expects of the MTP module. -/
def MtpReady {H : Type} (v : View H) (frontier : Option H) (mode : MtpMode) : Prop :=
  match mode with
  | .dead => v.pairs = none ∧ frontier = none
  | mode => ∃ ps f, v.pairs = some ps ∧ frontier = some f ∧
      Resumable v.attn (mode.truncateTo.elim ps ps.take) f

section Rounds

variable {L : Ledgers O} {prompt before : List TokenId} {d : RoundDriver O}

/-! ## MTP disposition -/

/-- Truncate, commit, move the frontier: aligned with the fed rows, or discarded. -/
theorem wp_recommit (hL : Honours L) {n : Option Nat} {ids : List TokenId}
    (hs : List (RoundOps.Hidden O)) {f h : RoundOps.Hidden O}
    {rows : List (FedRow (RoundOps.Hidden O))} {ps : List (TokenId × RoundOps.Hidden O)}
    {Q : Unit → RoundDriver O → Prop} {E : Exit → RoundDriver O → Prop}
    (hattn : (L.view d.ops).attn = rows ++ rowsOf ids hs) (hlen : hs.length = ids.length)
    (hlast : hs.getLast? = some h) (hps : (L.view d.ops).pairs = some ps)
    (hr : Resumable rows (n.elim ps ps.take) f)
    (hQ : ∀ o' f', (∃ ps', L.view o' = { L.view d.ops with pairs := ps' }) →
      MtpAligned (L.view o') f' → Q () { d with ops := o', frontier := f' }) :
    wp (recommit n ids (f :: hs.take (ids.length - 1)) (some h)) Q E d := by
  have hdiscard : ∀ o, (∃ ps', L.view o = { L.view d.ops with pairs := ps' }) →
      wp discardMtp Q E { d with ops := o } := by
    rintro o ⟨ps', hv⟩
    refine wp_discardMtp hL ?_
    intro o' ho'
    have hview : L.view o' = { L.view d.ops with pairs := none } := by rw [ho', hv]
    exact hQ o' none ⟨none, hview⟩ (mtpAligned_none (by rw [hview]))
  have hcommit : ∀ o, L.view o = { L.view d.ops with pairs := some (n.elim ps ps.take) } →
      wp (mtpCommit ids (f :: hs.take (ids.length - 1)))
        (fun committed d' =>
          wp (if committed = true then setFrontier (some h) else discardMtp) Q E d') E
        { d with ops := o } := by
    intro o hv
    refine wp_mtpCommit hL ?_ ?_
    · intro o' ho'
      have hview : L.view o' = { L.view d.ops with
          pairs := some (n.elim ps ps.take ++ ids.zip (f :: hs.take (ids.length - 1))) } := by
        rw [ho', hv]; rfl
      refine hQ o' (some h) ⟨_, hview⟩ ?_
      rw [mtpAligned_some (by rw [hview]), hview, hattn]
      exact hr.extend hlen hlast
    · intro o' ps' ho'
      exact hdiscard o' ⟨ps', by rw [ho', hv]⟩
  unfold recommit
  rw [wp_bind]
  cases n with
  | none =>
    show wp (commitIf true _ _ >>= _) _ _ _
    rw [wp_bind]
    exact hcommit d.ops (by rw [Option.elim_none, ← hps])
  | some n =>
    refine wp_mtpTruncate hL ?_ ?_
    · intro o' ho'
      rw [hps] at ho'
      rw [wp_bind]
      exact hcommit o' ho'
    · intro o' ps' ho'
      rw [wp_bind]
      exact hdiscard o' ⟨ps', ho'⟩

/-- The MTP disposition after `ids` have been fed on top of the entry state. -/
theorem wp_recommit_fed (hL : Honours L) {o : O} {c : Nat} {n : Option Nat} {ids : List TokenId}
    {hs : List (RoundOps.Hidden O)} {ps : List (TokenId × RoundOps.Hidden O)}
    {f : RoundOps.Hidden O} (hv : L.view o = (L.view d.ops).feed (rowsOf ids hs))
    (hc : Committed prompt (L.view o) d.emitter.emitted c) (hne : ids ≠ [])
    (hlen : hs.length = ids.length) (hps : (L.view d.ops).pairs = some ps)
    (hr : Resumable (L.view d.ops).attn (n.elim ps ps.take) f)
    {Q : Unit → RoundDriver O → Prop} {E : Exit → RoundDriver O → Prop}
    (hQ : ∀ o' f', Aligned L prompt { d with ops := o', committedLen := c, frontier := f' } →
      Q () { d with ops := o', committedLen := c, frontier := f' }) :
    wp (recommit n ids (f :: hs.take (ids.length - 1)) hs.getLast?) Q E
      { d with ops := o, committedLen := c } := by
  obtain ⟨h, hh⟩ : ∃ h, hs.getLast? = some h := by
    cases hg : hs.getLast? with
    | some h => exact ⟨h, rfl⟩
    | none =>
      rw [List.getLast?_eq_none_iff] at hg
      rw [hg] at hlen
      exact absurd (List.length_eq_zero_iff.1 hlen.symm) hne
  rw [hh]
  apply wp_recommit hL hs
  · show (L.view o).attn = _
    rw [hv]
    rfl
  · exact hlen
  · exact hh
  · show (L.view o).pairs = _
    rw [hv]
    exact hps
  · exact hr
  · rintro o' f' ⟨ps', ho'⟩ hm
    refine hQ o' f' ⟨?_, hm⟩
    show Committed prompt (L.view o') d.emitter.emitted c
    rw [ho']
    exact hc.congr rfl rfl rfl

theorem wp_liveFrontier {f : RoundOps.Hidden O} {d : RoundDriver O} (hf : d.frontier = some f)
    {Q : RoundOps.Hidden O → RoundDriver O → Prop} {E : Exit → RoundDriver O → Prop}
    (h : Q f d) : wp liveFrontier Q E d := by
  unfold liveFrontier
  rw [wp_bind, wp_get, hf]
  exact h

/-- A target that is committed, with the MTP module discarded. -/
theorem wp_discard_entry (hL : Honours L) {Q : Unit → RoundDriver O → Prop}
    {E : Exit → RoundDriver O → Prop}
    (hc : Committed prompt (L.view d.ops) d.emitter.emitted d.committedLen)
    (hQ : ∀ o', Aligned L prompt { d with ops := o', frontier := none } →
      Q () { d with ops := o', frontier := none }) :
    wp discardMtp Q E d := by
  refine wp_discardMtp hL ?_
  intro o' ho'
  refine hQ o' ⟨?_, ?_⟩
  · rw [ho']; exact hc.congr rfl rfl rfl
  · exact mtpAligned_none (by rw [ho'])

theorem ordinaryMode_ready (hL : Honours L)
    (hm : MtpAligned (L.view d.ops) d.frontier) :
    MtpReady (L.view d.ops) d.frontier d.ordinaryMode := by
  unfold ordinaryMode
  rw [hL.mtpAlive]
  split
  · rename_i ha
    obtain ⟨ps, f, hps, hf, hr⟩ := hm.alive ha
    exact ⟨ps, f, hps, hf, hr⟩
  · rename_i ha
    have hps : (L.view d.ops).pairs = none := by simpa using ha
    exact ⟨hps, hm.dead hps⟩

/-! ## The target-only round -/

/-- The target after `seq` has been fed on top of the rows held at entry. -/
theorem Within.committed_feed (seq rest : List TokenId) {rows : List (FedRow (RoundOps.Hidden O))}
    (h : Within L prompt before (seq ++ rest) d) {v : View (RoundOps.Hidden O)}
    (hrows : rows.map Prod.fst = seq) (hv : v = (L.view d.ops).feed rows) :
    Committed prompt v d.emitter.emitted (d.committedLen + seq.length) := by
  rw [h.emitted, h.committed, ← List.append_assoc]
  subst hv
  apply committed_of seq
  · rw [View.feed_attn, List.map_append, h.tokens, hrows, List.append_assoc]
  · intro hh
    rw [View.feed_recur, View.feed_attn, h.recur hh]

theorem MtpReady.none {H : Type} {v : View H} {frontier : Option H} {mode : MtpMode}
    (h : MtpReady v frontier mode) (hd : (v.pairs.isSome && mode ≠ .dead) = false) :
    v.pairs = none ∧ frontier = none := by
  cases mode with
  | dead => exact h
  | commit => obtain ⟨ps, f, hps, -⟩ := h; rw [hps] at hd; cases hd
  | resumeAt n => obtain ⟨ps, f, hps, -⟩ := h; rw [hps] at hd; cases hd

theorem MtpReady.some {H : Type} {v : View H} {frontier : Option H} {mode : MtpMode}
    (h : MtpReady v frontier mode) (hd : (v.pairs.isSome && mode ≠ .dead) = true) :
    ∃ ps f, v.pairs = some ps ∧ frontier = some f ∧
      Resumable v.attn (mode.truncateTo.elim ps ps.take) f := by
  cases mode with
  | dead => simp at hd
  | commit => exact h
  | resumeAt n => exact h

/-- The pair commit after `x` has been fed and committed. -/
theorem wp_pairCommit (hL : Honours L) {o : O} {c : Nat} {x : TokenId} {mode : MtpMode}
    {hs : List (RoundOps.Hidden O)} {ps : List (TokenId × RoundOps.Hidden O)}
    {f : RoundOps.Hidden O} (hv : L.view o = (L.view d.ops).feed (rowsOf [x] hs))
    (hc : Committed prompt (L.view o) d.emitter.emitted c) (hlen : hs.length = 1)
    (hps : (L.view d.ops).pairs = some ps) (hf : d.frontier = some f)
    (hr : Resumable (L.view d.ops).attn (mode.truncateTo.elim ps ps.take) f)
    {Q : Unit → RoundDriver O → Prop} {E : Exit → RoundDriver O → Prop}
    (hQ : ∀ o' f', Aligned L prompt { d with ops := o', committedLen := c, frontier := f' } →
      Q () { d with ops := o', committedLen := c, frontier := f' }) :
    wp (pairCommit x mode hs) Q E { d with ops := o, committedLen := c } := by
  obtain ⟨h, rfl⟩ := List.length_eq_one_iff.1 hlen
  unfold pairCommit
  rw [wp_bind]
  refine wp_liveFrontier (f := f) ?_ ?_
  · exact hf
  · exact wp_recommit_fed hL hv hc (List.cons_ne_nil _ _) rfl hps hr hQ

theorem wp_feedXTargetOnly (hL : Honours L) {x : TokenId} {mode : MtpMode} {drawSuccessor : Bool}
    (h : Within L prompt before [x] d) (hm : MtpReady (L.view d.ops) d.frontier mode) :
    wp (feedXTargetOnly x mode drawSuccessor) (RoundPost L prompt) (ExitPost L prompt) d := by
  have hall : d.committedLen + 1 = d.emitter.emitted.length := by
    rw [h.emitted, h.committed]; simp
  have hend : ∀ (d' : RoundDriver O) (salvage : Option (Dist G)) (error : Error),
      Aligned L prompt d' → d'.emitter = d.emitter → d'.committedLen = d.committedLen + 1 →
      wp (if drawSuccessor = true then continueFromSalvage salvage error else pure .budget)
        (RoundPost L prompt) (ExitPost L prompt) d' := by
    intro d' salvage error ha he hc
    have hentry : Entry L prompt d' := ⟨ha, by rw [hc, he]; exact hall⟩
    split
    · exact wp_continueFromSalvage hL hentry _ _
    · exact hentry.post _
  unfold feedXTargetOnly
  rw [wp_bind, wp_get, wp_bind]
  refine wp_verifyFeed hL h.recur ?_ ?_ ?_
  · intro hs ds o' rows hrows hv hlive _
    have hc := h.committed_feed [x] [] hrows hv
    simp only [wp_bind, commitLen, wp_modify, hL.mtpAlive]
    refine wp_when ?_ ?_
    · intro halive
      obtain ⟨ps, f, hps, hf, hr⟩ := hm.some halive
      obtain ⟨hlen, rfl⟩ := hlive (by rw [hps]; rfl)
      refine wp_pairCommit hL hv hc hlen hps hf hr ?_
      intro o'' f' ha
      exact hend _ _ _ ha rfl rfl
    · intro halive
      obtain ⟨hps, hf⟩ := hm.none halive
      refine hend _ _ _ ⟨hc, ?_⟩ rfl rfl
      show MtpAligned (L.view o') d.frontier
      rw [hf]
      exact mtpAligned_none (by rw [hv]; exact hps)
  · intro e salvage o' rows hrows hv
    have hc := h.committed_feed [x] [] hrows hv
    simp only [wp_bind, commitLen, wp_modify]
    refine wp_discard_entry hL hc ?_
    intro o'' ha
    exact hend _ _ _ ha rfl rfl
  · intro hfails e o'
    exact hfails

theorem wp_finalSlot (hL : Honours L) {x : TokenId} (h : Within L prompt before [x] d)
    (hm : MtpAligned (L.view d.ops) d.frontier) :
    wp (finalSlot x) (RoundPost L prompt) (ExitPost L prompt) d := by
  have hbudget : ∀ d' : RoundDriver O, Aligned L prompt d' → RoundPost L prompt .budget d' :=
    fun d' ha => ha.post (by simp)
  unfold finalSlot
  rw [wp_bind, wp_get, wp_bind]
  refine wp_replayFeed hL h.recur ?_ ?_ ?_
  · intro hs dist o' rows hrows hv hlive
    have hc := h.committed_feed [x] [] hrows hv
    simp only [wp_bind, commitLen, wp_modify, hL.mtpAlive]
    refine wp_when ?_ ?_
    · intro halive
      obtain ⟨ps, f, hps, hf, hr⟩ := hm.alive halive
      have hr : Resumable (L.view d.ops).attn (MtpMode.commit.truncateTo.elim ps ps.take) f := hr
      obtain ⟨hlen, rfl⟩ := hlive (by rw [hps]; rfl)
      refine wp_pairCommit hL hv hc hlen hps hf hr ?_
      intro o'' f' ha
      exact hbudget _ ha
    · intro halive
      have hps : (L.view d.ops).pairs = none := by simpa using halive
      refine hbudget _ ⟨hc, ?_⟩
      show MtpAligned (L.view o') d.frontier
      rw [hm.dead hps]
      exact mtpAligned_none (by rw [hv]; exact hps)
  · intro e salvage o' rows hrows hv
    have hc := h.committed_feed [x] [] hrows hv
    simp only [wp_bind, commitLen, wp_modify]
    refine wp_discard_entry hL hc ?_
    intro o'' ha
    exact hbudget _ ha
  · intro hfails e o'
    exact hfails

/-! ## Forced close -/

theorem wp_observe_run {rawText : Str} {Q : Option Str → RoundDriver O → Prop}
    {E : Exit → RoundDriver O → Prop}
    (h : Q (observed d.budget rawText).1 { d with budget := (observed d.budget rawText).2 }) :
    wp (observe rawText) Q E d := by
  unfold observe
  rw [wp_call]
  cases hb : d.budget with
  | none =>
    rw [hb] at h
    show Q none d
    obtain ⟨ops, emitter, budget, sampler⟩ := d
    cases hb
    exact h
  | some b =>
    rw [hb] at h
    exact h

/-- The loop touches the emitter only. -/
theorem wp_emitClosePrefix_run {Q : ClosePrefix → RoundDriver O → Prop}
    {E : Exit → RoundDriver O → Prop} : ∀ (closeIds : List TokenId) (accepted : Nat)
      (d : RoundDriver O),
      Q (closePrefix closeIds accepted d.emitter).1
        { d with emitter := (closePrefix closeIds accepted d.emitter).2 } →
      wp (emitClosePrefix closeIds accepted) Q E d
  | [], _, _, hQ => hQ
  | id :: closeIds, accepted, d, hQ => by
    unfold closePrefix at hQ
    unfold emitClosePrefix
    rw [wp_bind]
    rw [wp_emitForced_eq]
    rcases hr : d.emitter.emitForced id with ⟨e', err | (rawText | _ | _)⟩ <;> rw [hr] at hQ
    · exact hQ
    · exact wp_emitClosePrefix_run closeIds (accepted + 1) { d with emitter := e' } hQ
    · exact hQ
    · exact hQ

/-- The close tokens emitted so far were accepted; at most one more was emitted. -/
theorem wp_emitClosePrefix {Q : ClosePrefix → RoundDriver O → Prop}
    {E : Exit → RoundDriver O → Prop} (closeIds : List TokenId) (d : RoundDriver O)
    (hQ : ∀ close e' rest, e'.emitted = d.emitter.emitted ++ (closeIds.take close.accepted ++ rest) →
      (close.error = none → close.cancelled = false → rest = []) →
      Q close { d with emitter := e' }) :
    wp (emitClosePrefix closeIds 0) Q E d := by
  obtain ⟨j, rest, hj, hacc, hem, hrest⟩ := closePrefix_spec closeIds 0 d.emitter
  rw [Nat.zero_add] at hacc
  apply wp_emitClosePrefix_run
  exact hQ _ _ rest (by rw [hem, hacc]) hrest

/-- What a replay from entry expects of the MTP module. -/
def MtpHeld {H : Type} (v : View H) (frontier : Option H) (entryPairs : Nat) : Prop :=
  (v.pairs = none ∧ frontier = none) ∨
    ∃ ps f, v.pairs = some ps ∧ frontier = some f ∧ Resumable v.attn (ps.take entryPairs) f

theorem wp_closeReplay (hL : Honours L) {seq : List TokenId} (rest : List TokenId) {close : ClosePrefix}
    {closeMarker : Str} {entryPairs : Nat} (h : Within L prompt before (seq ++ rest) d)
    (hne : seq ≠ []) (hrest : close.error = none → close.cancelled = false → rest = [])
    (hm : MtpHeld (L.view d.ops) d.frontier entryPairs) :
    wp (closeReplay seq close closeMarker entryPairs) (RoundPost L prompt)
      (ExitPost L prompt) d := by
  -- what is left once both ledgers and the MTP module are settled
  have hend : ∀ (d' : RoundDriver O) (salvage : Option (Dist G)) (error : Error),
      close.error = none → Aligned L prompt d' → d'.emitter = d.emitter →
      d'.committedLen = d.committedLen + seq.length →
      wp (if close.cancelled = true then pure .aborted
        else if d.used ≥ d.maxTokens then pure .budget
        else do
          armForcedClose closeMarker
          continueFromSalvage salvage error)
        (RoundPost L prompt) (ExitPost L prompt) d' := by
    intro d' salvage error herr ha he hc
    split
    · exact ha.post (by simp)
    · rename_i hcancel
      split
      · exact ha.post (by simp)
      · simp only [wp_bind, armForcedClose, wp_modify]
        apply wp_continueFromSalvage hL
        refine ⟨⟨ha.committed, ha.mtp⟩, ?_⟩
        have hr := hrest herr (by simpa using hcancel)
        show d'.committedLen = d'.emitter.emitted.length
        rw [hc, he, h.emitted, h.committed, hr, List.append_nil, List.length_append]
  unfold closeReplay
  rw [wp_bind, wp_get, wp_bind]
  refine wp_replayFeed hL h.recur ?_ ?_ ?_
  · intro hs dist o' rows hrows hv hlive
    have hc := h.committed_feed seq rest hrows hv
    simp only [wp_bind, commitLen, wp_modify]
    cases herr : close.error with
    | some e =>
      simp only [wp_bind]
      refine wp_discard_entry hL hc ?_
      intro o'' ha
      exact ha
    | none =>
      simp only [wp_bind, hL.mtpAlive]
      refine wp_when ?_ ?_
      · intro halive
        rcases hm with ⟨hps, -⟩ | ⟨ps, f, hps, hf, hr⟩
        · rw [hps] at halive; cases halive
        · unfold replayPairs
          rw [wp_bind]
          refine wp_liveFrontier (f := f) ?_ ?_
          · exact hf
          · obtain ⟨hlen, rfl⟩ := hlive (by rw [hps]; rfl)
            refine wp_recommit_fed (n := some entryPairs) hL hv hc hne hlen hps hr ?_
            intro o'' f' ha
            exact hend _ _ _ herr ha rfl rfl
      · intro hdead
        have hfr : (L.view d.ops).pairs = none ∧ d.frontier = none := by
          rcases hm with hd | ⟨ps, f, hps, -⟩
          · exact hd
          · rw [hps] at hdead; cases hdead
        refine hend _ _ _ herr ⟨hc, ?_⟩ rfl rfl
        show MtpAligned (L.view o') d.frontier
        rw [hfr.2]
        exact mtpAligned_none (by rw [hv]; exact hfr.1)
  · intro e salvage o' rows hrows hv
    have hc := h.committed_feed seq rest hrows hv
    simp only [wp_bind, commitLen, wp_modify]
    refine wp_discard_entry hL hc ?_
    intro o'' ha
    cases herr : close.error with
    | some e => exact ha
    | none => exact hend _ _ _ herr ha rfl rfl
  · intro hfails e o'
    exact hfails

theorem wp_forcedCloseAtX (hL : Honours L) {x : TokenId} {closeMarker : Str}
    (h : Within L prompt before [x] d) (hm : MtpAligned (L.view d.ops) d.frontier)
    (ha : Aligned L prompt d) :
    wp (forcedCloseAtX x closeMarker) (RoundPost L prompt) (ExitPost L prompt) d := by
  unfold forcedCloseAtX
  rw [wp_bind, wp_get]
  cases hclose : d.emitter.encodeClose closeMarker with
  | error e => exact ha
  | ok closeIds =>
    simp only
    split
    · exact wp_feedXTargetOnly hL h (ordinaryMode_ready hL hm)
    · rw [wp_bind]
      refine wp_emitClosePrefix closeIds d ?_
      intro close e' rest hem hrest
      rw [wp_bind, wp_get]
      refine wp_closeReplay hL rest ⟨?_, h.committed, h.tokens, h.recur⟩ (by simp)
        hrest ?_
      · rw [hem, h.emitted]; simp
      · cases hps : (L.view d.ops).pairs with
        | none => exact Or.inl ⟨hps, hm.dead hps⟩
        | some ps =>
          obtain ⟨ps', f, hps', hf, hr⟩ := hm.alive (by rw [hps]; rfl)
          refine Or.inr ⟨ps', f, hps', hf, ?_⟩
          rw [hL.mtpPairs d.ops ps' hps', List.take_length]
          exact hr

end Rounds

end RoundDriver

end Emelex

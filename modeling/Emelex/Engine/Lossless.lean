import Emelex.Engine.GreedyRounds

/-!
# Greedy speculative decoding is lossless

Every round of the driver, target-only or speculative, is a run of plain rounds: the round on
`x` emits `x` and the accepted drafts, and one plain round for each of them emits the same, with
the same end.  The draft predictions, the failures of the MTP module, the window verdicts and
the kind of the caches decide only how many plain rounds one driver round stands for.

* `EmissionLands` — where plain decoding is after the emission of the accepted drafts.
* `Simulates` — what a round, or the loop, leaves: the end of a run of plain rounds.

Principal results: `wp_emitDrafts_lands` (one plain round for each emitted draft),
`runRound_simulates`, `decodeLoop_simulates`, `speculation_lossless` (two runs of the decode loop
on one prompt end alike, whatever their speculation depths).
-/

set_option autoImplicit false

namespace Emelex

open Program

namespace RoundDriver

variable {O G : Type} [RowSampler G] [RoundOps O G]

section Rounds

variable {L : Ledgers O} {next : List TokenId → TokenId} {prompt before : List TokenId}
  {maxTokens : Nat} {d : RoundDriver O} {E : Exit → RoundDriver O → Prop}

/-! ## Verify and decide -/

theorem wp_verify_rows (hL : Honours L) (hB : BatchInvariant L next) {x : TokenId}
    {drafts tokens : List TokenId} {entryPos : Nat} (hg : d.sampler.isGreedy = true)
    (htok : (L.view d.ops).attn.map Prod.fst = tokens)
    (hsync : (L.view d.ops).hybrid = true → (L.view d.ops).recur = (L.view d.ops).attn) :
    wp (verify x drafts entryPos)
      (fun r _ => ∃ hs post, r =
        .ready hs ((successors next tokens (x :: drafts)).map .greedy) post)
      (fun _ _ => False) d := by
  unfold verify
  rw [wp_bind, wp_get]
  split
  · rw [wp_bind]
    refine wp_verifyFeed_next hL hB hg htok hsync ?_
    intro hs o' rows _ _
    exact ⟨hs, none, rfl⟩
  · rw [wp_bind]
    refine wp_verifyFeed_next hL hB hg htok hsync ?_
    intro h0 o' rows hfst ho'
    simp only [wp_bind, wp_get]
    refine wp_verifyFeed_next hL hB hg (?_ : (L.view o').attn.map Prod.fst = tokens ++ [x]) ?_ ?_
    · show (L.view o').attn.map Prod.fst = _
      rw [ho', View.feed_attn, List.map_append, htok, hfst]
    · show (L.view o').hybrid = true → (L.view o').recur = (L.view o').attn
      intro hh
      rw [ho'] at hh ⊢
      rw [View.feed_recur, View.feed_attn, hsync hh]
    · intro hs o'' rows' _ _
      exact ⟨h0 ++ hs, some (RoundOps.capture o'), rfl⟩

theorem greedyRows_map : ∀ ts : List TokenId,
    greedyRows (ts.map (Dist.greedy (G := G))) = some ts
  | [] => rfl
  | t :: ts => by
    rw [List.map_cons, greedyRows, greedyRows_map ts]
    rfl

/-- The accepted drafts are the tokens of plain decoding, and so is the successor. -/
theorem wp_decide_next {x : TokenId} {drafts : List TokenId} {draftDists : List (Dist G)}
    {pre : List TokenId} {Q : Option (Verdict G) → RoundDriver O → Prop}
    (hg : d.sampler.isGreedy = true)
    (hQ : ∀ a, a ≤ drafts.length → Agrees next (pre ++ [x]) (drafts.take a) →
      Q (some ⟨a, .greedy (next (pre ++ [x] ++ drafts.take a))⟩) d) :
    wp (decide drafts draftDists ((successors next pre (x :: drafts)).map .greedy)) Q E d := by
  obtain ⟨v, hv, hle, htake, hnext, -⟩ :=
    verifyGreedy_spec (by simp : (successors next pre (x :: drafts)).length = drafts.length + 1)
  have hsucc : v.next = next (pre ++ [x] ++ drafts.take v.accepted) := by
    rw [successors_getElem? (by rw [List.length_cons]; omega)] at hnext
    rw [← Option.some.inj hnext, List.take_succ_cons, List.append_assoc]
    rfl
  unfold decide
  rw [wp_bind, wp_get, hg, greedyRows_map]
  simp only [if_true, hv]
  rw [hsucc]
  exact hQ v.accepted hle (agrees_of_take htake)

/-! ## The sequential emission -/

/-- Where plain decoding is after the emission of the accepted drafts, which shows `v`: at the
next token, at its end, or inside the round whose budget closes the reasoning. -/
def EmissionLands (next : List TokenId → TokenId) (prompt : List TokenId) (maxTokens : Nat)
    (x : TokenId) (v₀ v : Visible) : SpecEvent → Prop
  | .none => Lands next prompt maxTokens x v₀
      (.ok (.continue_ (next (prompt ++ v.emitter.emitted)))) v
  | .eos => Lands next prompt maxTokens x v₀ (.ok .finished) v
  | .cancel => Lands next prompt maxTokens x v₀ (.ok .aborted) v
  | .slot => Lands next prompt maxTokens x v₀ (.ok .budget) v
  | .emitErr e => Lands next prompt maxTokens x v₀ (.error (.exactPrefix e)) v
  | .close marker => ∀ r w,
      plainClose next prompt maxTokens { v with committedLen := v.committedLen - 1 } marker =
        (r, w) → Lands next prompt maxTokens x v₀ r w

/-- The visible part, with the committed length that plain decoding has reached. -/
def visibleAt (d : RoundDriver O) (c : Nat) : Visible := { d.visible with committedLen := c }

/-- One plain round for each emitted draft.  The driver commits them later, at once; `c` is the
committed length of plain decoding. -/
theorem wp_emitDrafts_lands {x : TokenId} {v₀ : Visible}
    {Q : Nat × SpecEvent → RoundDriver O → Prop} (drafts : List TokenId) (n c : Nat)
    (d : RoundDriver O) (hmax : d.maxTokens = maxTokens)
    (hagree : Agrees next (prompt ++ d.emitter.emitted) drafts)
    (hland : Lands next prompt maxTokens x v₀
      (.ok (.continue_ (next (prompt ++ d.emitter.emitted)))) (d.visibleAt c))
    (hQ : ∀ j event d', (event = .none → j = drafts.length) →
      EmissionLands next prompt maxTokens x v₀ (d'.visibleAt (c + j)) event →
      Q (n + j, event) d') : wp (emitDrafts drafts n) Q E d := by
  induction drafts generalizing n c d with
  | nil => exact hQ 0 .none d (fun _ => rfl) hland
  | cons t drafts ih =>
    obtain ⟨ht, hagree⟩ := hagree
    -- the plain round on this draft
    have hround : ∀ r w, plainRound next prompt maxTokens t (d.visibleAt c) = (r, w) →
        Lands next prompt maxTokens x v₀ r w := by
      intro r w hr
      rw [ht] at hr
      exact hland.trans (.last hr)
    have hp := d.emitter.emit_spec t
    unfold plainRound at hround
    unfold emitDrafts
    rw [wp_bind, wp_emit_eq]
    rw [show (d.visibleAt c).emitter = d.emitter from rfl] at hround
    rcases hr : d.emitter.emit t with ⟨e, err | (rawText | _ | _)⟩ <;> rw [hr] at hround hp
    · refine hQ 0 (.emitErr err) _ (by simp) ?_
      exact hround _ _ rfl
    · simp only [wp_bind, countUsed, wp_modify]
      apply wp_observe_run
      dsimp only [plainContinue] at hround
      rw [show (d.visibleAt c).budget = d.budget from rfl] at hround
      dsimp only
      rcases ho : observed d.budget rawText with ⟨_ | marker, b⟩ <;> rw [ho] at hround
      · simp only [wp_bind, wp_get]
        split
        · rename_i hover
          refine hQ 1 .slot _ (by simp) ?_
          refine hround _ _ ?_
          show (Except.ok (plainEnd next prompt maxTokens _), _) = _
          rw [plainEnd_over (by rw [← hmax]; exact hover)]
          rfl
        · rename_i hover
          have hp : e.emitted = d.emitter.emitted ++ [t] := hp
          apply ih (n + 1) (c + 1)
          · exact hmax
          · show Agrees next (prompt ++ e.emitted) drafts
            rw [hp, ← List.append_assoc]
            exact hagree
          · refine hround _ _ ?_
            show (Except.ok (plainEnd next prompt maxTokens _), _) = _
            rw [plainEnd_under (by rw [← hmax]; exact hover)]
            rfl
          · intro j event d' hnone hev
            rw [Nat.add_assoc, Nat.add_comm 1 j] at hev ⊢
            exact hQ (j + 1) event d' (fun h => congrArg Nat.succ (hnone h)) hev
      · refine hQ 1 (.close marker) _ (by simp) ?_
        exact hround
    · refine hQ 0 .eos _ (by simp) ?_
      exact hround _ _ rfl
    · refine hQ 0 .cancel _ (by simp) ?_
      exact hround _ _ rfl

/-- The emission of the accepted drafts: what it does to the ledger, and where plain decoding
is after it. -/
theorem wp_emission {x : TokenId} {v₀ : Visible} {drafts : List TokenId} {a : Nat}
    (hem : d.emitter.emitted = before ++ [x]) (hle : a ≤ drafts.length)
    (hmax : d.maxTokens = maxTokens)
    (hagree : Agrees next (prompt ++ before ++ [x]) (drafts.take a))
    (hland : Lands next prompt maxTokens x v₀
      (.ok (.continue_ (next (prompt ++ d.emitter.emitted)))) (d.visibleAt (before.length + 1)))
    {Q : Nat × SpecEvent → RoundDriver O → Prop}
    (hQ : ∀ r event e b u rest, r ≤ drafts.length →
      e.emitted = before ++ (x :: drafts.take r) ++ rest →
      (event ≠ .eos → event ≠ .cancel → rest = []) → (event = .none → r = a) →
      EmissionLands next prompt maxTokens x v₀
        (({ d with emitter := e, budget := b, used := u } : RoundDriver O).visibleAt
          (before.length + 1 + r)) event →
      Q (r, event) { d with emitter := e, budget := b, used := u }) :
    wp (emitDrafts (drafts.take a) 0) Q E d := by
  have hledger : wp (emitDrafts (drafts.take a) 0)
      (fun p d' => ∃ e b u rest, d' = { d with emitter := e, budget := b, used := u } ∧
        p.1 ≤ drafts.length ∧ e.emitted = before ++ (x :: drafts.take p.1) ++ rest ∧
        (p.2 ≠ .eos → p.2 ≠ .cancel → rest = []))
      E d := by
    refine wp_emitDrafts _ 0 d ?_
    intro j event e b u rest hj hem' hrest
    rw [List.length_take] at hj
    rw [Nat.zero_add]
    refine ⟨e, b, u, rest, rfl, ?_, ?_, hrest⟩
    · show j ≤ drafts.length
      omega
    · rw [hem', hem, List.take_take, Nat.min_eq_left (by omega)]
      simp
  have hlands : wp (emitDrafts (drafts.take a) 0)
      (fun p d' => (p.2 = .none → p.1 = a) ∧ EmissionLands next prompt maxTokens x v₀
        (d'.visibleAt (before.length + 1 + p.1)) p.2)
      E d := by
    apply wp_emitDrafts_lands _ 0 (before.length + 1) d hmax
    · rw [hem, ← List.append_assoc]
      exact hagree
    · exact hland
    · intro j event d' hnone hev
      rw [Nat.zero_add]
      refine ⟨fun h => ?_, hev⟩
      rw [hnone h, List.length_take, Nat.min_eq_left hle]
  refine wp_mono (wp_and hledger hlands) ?_ (fun e d' h => h.1)
  rintro ⟨r, event⟩ d' ⟨⟨e, b, u, rest, rfl, hr, hem', hrest⟩, hnone, hev⟩
  exact hQ r event e b u rest hr hem' hrest hnone hev

/-! ## What a round leaves -/

/-- The round returns `r`, and so does a run of plain rounds from `x`, which shows the same. -/
structure Simulates (next : List TokenId → TokenId) (prompt : List TokenId) (maxTokens : Nat)
    (x : TokenId) (v₀ : Visible) (r : RoundEnd) (d' : RoundDriver O) : Prop where
  slots : d'.maxTokens = maxTokens
  greedy : d'.sampler.isGreedy = true
  lands : Lands next prompt maxTokens x v₀ (.ok r) d'.visible

/-- So does a run of plain rounds; only a close marker that cannot be encoded may leave another
committed length, since the driver has then committed the draft that triggered the close. -/
def SimulatesExit (next : List TokenId → TokenId) (prompt : List TokenId) (maxTokens : Nat)
    (x : TokenId) (v₀ : Visible) (e : Exit) (d' : RoundDriver O) : Prop :=
  match e with
  | .exactPrefix e => ∃ c,
      Lands next prompt maxTokens x v₀ (.error (.exactPrefix e)) (d'.visibleAt c) ∧
        (c = d'.committedLen ∨ ∃ closeMarker, d'.emitter.encodeClose closeMarker = .error e)
  | .invalidCache _ => False

theorem wp_forcedCloseAtDraft_lands (hL : Honours L) (hB : BatchInvariant L next)
    {v : View (RoundOps.Hidden O)} {ps : List (TokenId × RoundOps.Hidden O)} {x : TokenId}
    {v₀ : Visible} {ctx : SpecCtx O} {r : Nat} {closeMarker : Str} (he : Entered L v ps ctx)
    (hf : Fed L v ps x ctx.drafts ctx.hiddens ctx.postX (L.view d.ops))
    (hr : r ≤ ctx.drafts.length) (hrows : v.attn.map Prod.fst = prompt ++ before)
    (hem : d.emitter.emitted = before ++ (x :: ctx.drafts.take r))
    (hcl : d.committedLen = before.length) (hfr : d.frontier = some ctx.frontierEntry)
    (hg : d.sampler.isGreedy = true) (hmax : d.maxTokens = maxTokens)
    (hdists : ctx.dists = (successors next (prompt ++ before) (x :: ctx.drafts)).map .greedy)
    (hplain : ∀ r' w, plainClose next prompt maxTokens (d.visibleAt (before.length + r))
      closeMarker = (r', w) → Lands next prompt maxTokens x v₀ r' w) :
    wp (forcedCloseAtDraft x ctx r closeMarker) (Simulates next prompt maxTokens x v₀)
      (SimulatesExit next prompt maxTokens x v₀) d := by
  have hem' : d.emitter.emitted = before ++ (x :: ctx.drafts.take r) ++ [] := by
    rw [hem, List.append_nil]
  have hfails : TargetFails L → ∀ e (d' : RoundDriver O),
      SimulatesExit next prompt maxTokens x v₀ (.invalidCache e) d' :=
    fun h => absurd h hB.target
  unfold forcedCloseAtDraft
  rw [wp_bind, wp_get]
  cases hclose : d.emitter.encodeClose closeMarker with
  | error e =>
    simp only [wp_bind]
    refine wp_reconcileAndDiscard hL [] he hf hr hrows hem' hcl hfails ?_
    intro o' _
    refine ⟨before.length + r, hplain _ _ ?_, Or.inr ⟨closeMarker, hclose⟩⟩
    unfold plainClose
    rw [show (d.visibleAt (before.length + r)).emitter = d.emitter from rfl, hclose]
    rfl
  | ok closeIds =>
    simp only
    split
    · rename_i hnil
      simp only [wp_bind, wp_get]
      refine wp_reconcileAndCommit hL [] he hf hr hrows hem' hcl hfails ?_
      intro o' f' _
      have hcommit : before.length + (1 + r) = before.length + r + 1 := by omega
      have hend : Lands next prompt maxTokens x v₀
          (.ok (plainEnd next prompt maxTokens (d.visibleAt (before.length + (1 + r)))))
          (d.visibleAt (before.length + (1 + r))) := by
        apply hplain
        unfold plainClose
        rw [show (d.visibleAt (before.length + r)).emitter = d.emitter from rfl, hclose, hcommit]
        simp only [if_pos hnil]
        rfl
      split
      · rename_i hover
        rw [plainEnd_over (by rw [← hmax]; exact hover)] at hend
        exact ⟨hmax, hg, hend⟩
      · rename_i hover
        rw [plainEnd_under (by rw [← hmax]; exact hover)] at hend
        have hrow : ctx.dists[r]? = some (.greedy (next (prompt ++ d.emitter.emitted))) := by
          rw [hdists, List.getElem?_map, successors_getElem? (by rw [List.length_cons]; omega),
            hem, List.append_assoc]
          rfl
        rw [hrow]
        apply wp_continueFromSalvage_greedy
        intro o''
        exact ⟨hmax, hg, hend⟩
    · rename_i hne
      simp only [wp_bind]
      apply wp_emitClosePrefix_run
      obtain ⟨j, rest, hj, hacc, hem'', hrest⟩ := closePrefix_spec closeIds 0 d.emitter
      rw [Nat.zero_add] at hacc
      rw [plainClose_eq (v := d.visibleAt (before.length + r)) hclose hne] at hplain
      rw [show (d.visibleAt (before.length + r)).emitter = d.emitter from rfl] at hplain
      generalize closePrefix closeIds 0 d.emitter = p at *
      have hlen : (x :: (ctx.drafts.take r ++ closeIds.take p.1.accepted)).length =
          r + (1 + p.1.accepted) := by
        rw [List.length_cons, List.length_append, List.length_take, List.length_take, hacc]
        omega
      refine wp_restoreOrExit hL ?_ ?_ ?_
      · intro o' ho'
        obtain ⟨hattn, hrec, hheld⟩ := he.restored hf ho'
        have hw : ∀ r' w, closeEnd next prompt d.maxTokens p.1 closeMarker
            (({ d with emitter := p.2 } : RoundDriver O).visible.commit (r + (1 + p.1.accepted))) =
              (r', w) → Lands next prompt maxTokens x v₀ r' w := by
          intro r' w hend
          refine hplain r' w ?_
          rw [← hmax, ← hend]
          unfold visibleAt Visible.commit
          rw [Nat.add_assoc, ← hcl]
          rfl
        have hwithin : Within L prompt before
            (x :: (ctx.drafts.take r ++ closeIds.take p.1.accepted) ++ rest)
            { d with ops := o', emitter := p.2 } := by
          refine ⟨?_, hcl, ?_, hrec⟩
          · show p.2.emitted = _
            rw [hem'', hem, hacc]
            simp
          · show (L.view o').attn.map Prod.fst = _
            rw [hattn, hrows]
        refine wp_closeReplay_next (d := { d with ops := o', emitter := p.2 }) hL hB rest hg hwithin
          (List.cons_ne_nil _ _) hrest ?_ ?_ ?_
        · show MtpHeld (L.view o') d.frontier _
          rw [hfr]
          exact hheld
        · rw [hlen]
          intro r' w o f hend
          exact ⟨hmax, hg, hw _ _ hend⟩
        · rw [hlen]
          intro e w o f hend
          obtain ⟨err, rfl⟩ := closeEnd_exact hend
          exact ⟨w.committedLen, hw _ _ hend, Or.inl rfl⟩
      · rw [he.entrySnap]
        show v.attn.length ≤ (L.view d.ops).attn.length
        rw [hf.attn, List.length_append]
        omega
      · intro hfail
        exact absurd hfail hB.target

theorem wp_finishSpeculative_lands (hL : Honours L) (hB : BatchInvariant L next)
    {v : View (RoundOps.Hidden O)} {ps : List (TokenId × RoundOps.Hidden O)} {x t : TokenId}
    {v₀ : Visible} {ctx : SpecCtx O} {r a : Nat} {event : SpecEvent} (rest : List TokenId)
    (he : Entered L v ps ctx)
    (hf : Fed L v ps x ctx.drafts ctx.hiddens ctx.postX (L.view d.ops))
    (hr : r ≤ ctx.drafts.length) (hrows : v.attn.map Prod.fst = prompt ++ before)
    (hem : d.emitter.emitted = before ++ (x :: ctx.drafts.take r) ++ rest)
    (hrest : event ≠ .eos → event ≠ .cancel → rest = [])
    (hcl : d.committedLen = before.length) (hfr : d.frontier = some ctx.frontierEntry)
    (hg : d.sampler.isGreedy = true) (hmax : d.maxTokens = maxTokens)
    (hdists : ctx.dists = (successors next (prompt ++ before) (x :: ctx.drafts)).map .greedy)
    (ht : event = .none → t = next (prompt ++ d.emitter.emitted))
    (hland : EmissionLands next prompt maxTokens x v₀ (d.visibleAt (before.length + 1 + r))
      event) :
    wp (finishSpeculative x ctx ⟨a, .greedy t⟩ r event) (Simulates next prompt maxTokens x v₀)
      (SimulatesExit next prompt maxTokens x v₀) d := by
  have hfails : TargetFails L → ∀ e (d' : RoundDriver O),
      SimulatesExit next prompt maxTokens x v₀ (.invalidCache e) d' :=
    fun h => absurd h hB.target
  rw [Nat.add_assoc] at hland
  -- the rounds that end with the emission
  have hcommit : ∀ end_, Lands next prompt maxTokens x v₀ (.ok end_)
        (d.visibleAt (before.length + (1 + r))) →
      wp (reconcileAndCommit x ctx r) (fun _ d' => Simulates next prompt maxTokens x v₀ end_ d')
        (SimulatesExit next prompt maxTokens x v₀) d := by
    intro end_ hend
    refine wp_reconcileAndCommit hL rest he hf hr hrows hem hcl hfails ?_
    intro o' f' _
    exact ⟨hmax, hg, hend⟩
  cases event with
  | close marker =>
    rw [hrest (by simp) (by simp), List.append_nil] at hem
    apply wp_forcedCloseAtDraft_lands hL hB he hf hr hrows hem hcl hfr hg hmax hdists
    intro r' w hw
    refine hland r' w ?_
    rw [← hw, show before.length + r = before.length + (1 + r) - 1 by omega]
    rfl
  | emitErr e =>
    show wp (reconcileAndDiscard ctx r >>= _) _ _ _
    rw [wp_bind]
    refine wp_reconcileAndDiscard hL rest he hf hr hrows hem hcl hfails ?_
    intro o' _
    exact ⟨before.length + (1 + r), hland, Or.inl rfl⟩
  | none =>
    show wp (reconcileAndCommit x ctx r >>= _) _ _ _
    rw [wp_bind]
    refine wp_reconcileAndCommit hL rest he hf hr hrows hem hcl hfails ?_
    intro o' f' _
    apply wp_continueWith_greedy
    intro o''
    rw [ht rfl]
    exact ⟨hmax, hg, hland⟩
  | eos =>
    show wp (reconcileAndCommit x ctx r >>= _) _ _ _
    rw [wp_bind]
    exact hcommit .finished hland
  | cancel =>
    show wp (reconcileAndCommit x ctx r >>= _) _ _ _
    rw [wp_bind]
    exact hcommit .aborted hland
  | slot =>
    show wp (reconcileAndCommit x ctx r >>= _) _ _ _
    rw [wp_bind]
    exact hcommit .budget hland

/-! ## The speculative round -/

theorem wp_speculativeRound_lands (hL : Honours L) (hB : BatchInvariant L next) {x : TokenId}
    {k : Nat} {v₀ : Visible} (h : Within L prompt before [x] d)
    {ps : List (TokenId × RoundOps.Hidden O)} {f : RoundOps.Hidden O}
    (hps : (L.view d.ops).pairs = some ps) (hfr : d.frontier = some f)
    (hres : Resumable (L.view d.ops).attn ps f) (hg : d.sampler.isGreedy = true)
    (hmax : d.maxTokens = maxTokens)
    (hland : Lands next prompt maxTokens x v₀
      (.ok (.continue_ (next (prompt ++ d.emitter.emitted)))) (d.visible.commit 1)) :
    wp (speculativeRound x k) (Simulates next prompt maxTokens x v₀)
      (SimulatesExit next prompt maxTokens x v₀) d := by
  generalize hv : L.view d.ops = v at *
  have hview : L.view d.ops = { v with pairs := some (ps ++ []) } := by
    rw [hv, List.append_nil, ← hps]
  have hpos : RoundOps.targetPos d.ops = v.attn.length := by rw [hL.targetPos, hv]
  have hmp : RoundOps.mtpPairs d.ops = ps.length := hL.mtpPairs d.ops ps (by rw [hv]; exact hps)
  have hsnap : L.snap (RoundOps.capture d.ops) = (v.attn.length, v.recur) := by
    rw [hL.capture, hv]
  have hrows : v.attn.map Prod.fst = prompt ++ before := by rw [← hv]; exact h.tokens
  have hrec : v.hybrid = true → v.recur = v.attn := by rw [← hv]; exact h.recur
  -- a target-only round after a draft phase that left the target alone
  have hfeed : ∀ (o : O) (s : Sampler G) (t : SpeculationStats) (fr : Option (RoundOps.Hidden O))
      (mode : MtpMode) (ps' : Option (List (TokenId × RoundOps.Hidden O))),
      L.view o = { v with pairs := ps' } → MtpReady { v with pairs := ps' } fr mode →
      s.config = d.sampler.config →
      wp (feedXTargetOnly x mode true) (Simulates next prompt maxTokens x v₀)
        (SimulatesExit next prompt maxTokens x v₀)
        { d with ops := o, sampler := s, stats := t, frontier := fr } := by
    intro o s t fr mode ps' ho hm hs
    have hg' : s.isGreedy = true := by rw [← hg]; unfold Sampler.isGreedy; rw [hs]
    have hwithin : Within L prompt before [x]
        { d with ops := o, sampler := s, stats := t, frontier := fr } := by
      refine ⟨h.emitted, h.committed, ?_, ?_⟩
      · show (L.view o).attn.map Prod.fst = _
        rw [ho]
        exact hrows
      · show (L.view o).hybrid = true → (L.view o).recur = (L.view o).attn
        rw [ho]
        exact hrec
    apply wp_feedXTargetOnly_next hL hB hg' hwithin
    · show MtpReady (L.view o) fr mode
      rw [ho]
      exact hm
    · intro o' f'
      exact ⟨hmax, hg', hland⟩
  unfold speculativeRound
  rw [wp_bind, wp_get, hpos, hmp]
  simp only [hfr, wp_bind]
  refine wp_draft hL k x f [] [] [] _ hview ?_ ?_ ?_
  · intro drafts qs o s t junk hlen hs ho
    have hg' : s.isGreedy = true := by rw [← hg]; unfold Sampler.isGreedy; rw [hs]
    simp only [wp_bind]
    -- the ledgers of the verify feed, and its rows
    have hfed : wp (verify x drafts v.attn.length)
        (fun r d' => ∀ hs ds post, r = .ready hs ds post →
          ∃ o', d' = { d with ops := o', sampler := s, stats := t } ∧
            Fed L v ps x drafts hs post (L.view o'))
        (ExitPost L prompt) { d with ops := o, sampler := s, stats := t } := by
      apply wp_verify hL
      · exact h.emitted
      · exact h.committed
      · exact ho
      · exact hrows
      · exact hrec
      · intro hs ds post o' hfed _ hs' ds' post' heq
        cases heq
        exact ⟨o', rfl, hfed⟩
      · intro e d' _ hs ds post heq
        cases heq
    have hrowsfed : wp (verify x drafts v.attn.length)
        (fun r _ => ∃ hs post, r =
          .ready hs ((successors next (prompt ++ before) (x :: drafts)).map .greedy) post)
        (fun _ _ => False) { d with ops := o, sampler := s, stats := t } := by
      apply wp_verify_rows hL hB hg'
      · show (L.view o).attn.map Prod.fst = _
        rw [ho]
        exact hrows
      · show (L.view o).hybrid = true → (L.view o).recur = (L.view o).attn
        rw [ho]
        exact hrec
    refine wp_mono (wp_and hfed hrowsfed) ?_ (fun e d' h => h.2.elim)
    rintro r d' ⟨hready, hs, post, rfl⟩
    obtain ⟨o', rfl, hfed⟩ := hready _ _ _ rfl
    simp only [wp_bind]
    apply wp_decide_next
    · exact hg'
    · intro a hle hagree
      simp only [wp_bind, recordRound, wp_modify]
      apply wp_emission
      · exact h.emitted
      · exact hle
      · exact hmax
      · exact hagree
      · rw [← h.committed]
        exact hland
      · intro r event e b u rest hr hem hrest hnone hev
        refine wp_finishSpeculative_lands hL hB rest (?_ : Entered L v ps _) hfed hr hrows hem
          hrest h.committed hfr hg' hmax rfl ?_ ?_
        · exact ⟨rfl, rfl, hsnap, by rw [hlen]; simp, hres, hrec⟩
        · rintro rfl
          show _ = next (prompt ++ e.emitted)
          rw [hem, hrest (by simp) (by simp), hnone rfl]
          simp
        · exact hev
  · intro o s t junk hs ho
    refine hfeed o s t d.frontier (.resumeAt ps.length) _ ho ⟨ps ++ junk, f, rfl, hfr, ?_⟩ hs
    show Resumable v.attn ((ps ++ junk).take ps.length) f
    rw [List.take_left]
    exact hres
  · intro o s t ps' hs ho
    simp only [wp_bind]
    refine wp_discardMtp hL ?_
    intro o' ho'
    have hview' : L.view o' = { v with pairs := none } := by
      rw [ho']
      show { L.view o with pairs := none } = _
      rw [ho]
    exact hfeed o' s t none .dead none hview' ⟨rfl, rfl⟩ hs

/-! ## A round, and the decode loop -/

theorem wp_continueRound_lands (hL : Honours L) (hB : BatchInvariant L next) {x : TokenId}
    {v₀ : Visible} (h : Within L prompt before [x] d) (hm : MtpAligned (L.view d.ops) d.frontier)
    (hg : d.sampler.isGreedy = true) (hmax : d.maxTokens = maxTokens)
    (hland : Lands next prompt maxTokens x v₀
      (.ok (plainEnd next prompt maxTokens (d.visible.commit 1))) (d.visible.commit 1)) :
    wp (continueRound x) (Simulates next prompt maxTokens x v₀)
      (SimulatesExit next prompt maxTokens x v₀) d := by
  unfold continueRound
  rw [wp_bind, wp_get]
  split
  · rename_i hover
    rw [plainEnd_over (by rw [← hmax]; exact hover)] at hland
    exact wp_finalSlot_next hL hB hg h hm (fun o f => ⟨hmax, hg, hland⟩)
  · rename_i hover
    rw [plainEnd_under (by rw [← hmax]; exact hover)] at hland
    have hordinary : wp (feedXTargetOnly x d.ordinaryMode true)
        (Simulates next prompt maxTokens x v₀) (SimulatesExit next prompt maxTokens x v₀) d :=
      wp_feedXTargetOnly_next hL hB hg h (ordinaryMode_ready hL hm)
        (fun o f => ⟨hmax, hg, hland⟩)
    split
    · rename_i k hk
      split
      · exact hordinary
      · obtain ⟨ps, f, hps, hf, hr⟩ := hm.alive (specDepth_alive hL hk)
        exact wp_speculativeRound_lands hL hB h hps hf hr hg hmax hland
    · exact hordinary

/-- A round is a run of plain rounds. -/
theorem runRound_simulates (hL : Honours L) (hB : BatchInvariant L next) (h : Entry L prompt d)
    (hg : d.sampler.isGreedy = true) (x : TokenId) :
    wp (runRound x) (Simulates next prompt d.maxTokens x d.visible)
      (SimulatesExit next prompt d.maxTokens x d.visible) d := by
  have hround : ∀ r w, plainRound next prompt d.maxTokens x d.visible = (r, w) →
      Lands next prompt d.maxTokens x d.visible r w := fun r w hr => .last hr
  have hp := d.emitter.emit_spec x
  unfold plainRound at hround
  unfold runRound
  rw [wp_bind, wp_emit_eq]
  rw [show d.visible.emitter = d.emitter from rfl] at hround
  rcases hr : d.emitter.emit x with ⟨e, err | (rawText | _ | _)⟩ <;> rw [hr] at hround hp
  · exact ⟨d.committedLen, hround _ _ rfl, Or.inl rfl⟩
  · have hp : e.emitted = d.emitter.emitted ++ [x] := hp
    simp only [wp_bind, countUsed, wp_modify]
    apply wp_observe_run
    dsimp only [plainContinue] at hround
    rw [show d.visible.budget = d.budget from rfl] at hround
    have hwithin : ∀ b, Within L prompt d.emitter.emitted [x]
        { d with emitter := e, budget := b, used := d.used + 1 } := by
      intro b
      refine ⟨hp, h.all, ?_, h.committed.recur⟩
      show (L.view d.ops).attn.map Prod.fst = _
      rw [h.committed.tokens, h.all, List.take_length]
    dsimp only
    rcases ho : observed d.budget rawText with ⟨_ | closeMarker, b⟩ <;> rw [ho] at hround
    · exact wp_continueRound_lands hL hB (hwithin b) h.mtp hg rfl (hround _ _ rfl)
    · apply wp_forcedCloseAtX_next hL hB
      · exact hg
      · exact hwithin b
      · exact h.mtp
      · intro r v o f hr
        exact ⟨rfl, hg, hround _ _ hr⟩
      · intro err v o f hr
        obtain ⟨err, rfl⟩ := plainClose_exact hr
        exact ⟨v.committedLen, hround _ _ hr, Or.inl rfl⟩
  · exact ⟨rfl, hg, hround _ _ rfl⟩
  · exact ⟨rfl, hg, hround _ _ rfl⟩

/-- With a free slot at entry and fuel for the slots left, the loop is a run of plain rounds to
its end. -/
theorem decodeLoop_simulates (hL : Honours L) (hB : BatchInvariant L next) :
    ∀ (fuel : Nat) (x : TokenId) (d : RoundDriver O), Entry L prompt d →
      d.sampler.isGreedy = true → d.used < d.maxTokens → d.maxTokens - d.used ≤ fuel →
      wp (decodeLoop fuel x)
        (fun r d' => ∃ e, r = some e ∧ (∀ y, e ≠ .continue_ y) ∧
          Lands next prompt d.maxTokens x d.visible (.ok e) d'.visible)
        (SimulatesExit next prompt d.maxTokens x d.visible) d
  | 0, x, d, _, _, hslot, hfuel => by omega
  | fuel + 1, x, d, h, hg, hslot, hfuel => by
    unfold decodeLoop
    rw [wp_bind, wp_get, if_pos hslot, wp_bind]
    refine wp_mono (wp_and (runRound_aligned hL h x) (runRound_simulates hL hB h hg x)) ?_
      (fun e d' he => he.2)
    rintro r d' ⟨⟨haligned, hall⟩, hsim⟩
    cases r with
    | continue_ y =>
      obtain ⟨hmax, hg', hland⟩ := hsim
      have hused : d.used < d'.used ∧ d'.used < d.maxTokens := hland.used
      have hloop := decodeLoop_simulates hL hB fuel y d' ⟨haligned, hall y rfl⟩ hg'
        (by omega) (by omega)
      refine wp_mono hloop ?_ ?_
      · rintro _ d'' ⟨e, rfl, hne, hend⟩
        rw [hmax] at hend
        exact ⟨e, rfl, hne, hland.trans hend⟩
      · intro e d'' he
        cases e with
        | invalidCache e => exact he
        | exactPrefix e =>
          obtain ⟨c, hc, hwhy⟩ := he
          rw [hmax] at hc
          exact ⟨c, hland.trans hc, hwhy⟩
    | finished => exact ⟨.finished, rfl, by simp, hsim.lands⟩
    | aborted => exact ⟨.aborted, rfl, by simp, hsim.lands⟩
    | budget => exact ⟨.budget, rfl, by simp, hsim.lands⟩

/-- Where the decode loop of a fresh driver ends: nowhere when there is no slot, else at the end
of a run of plain rounds. -/
theorem decodeLoop_new (hL : Honours L) (hB : BatchInvariant L next) {fuel : Nat}
    (hfresh : d = new d.ops d.emitter d.budget d.sampler d.maxTokens d.specK d.frontier)
    (h : Entry L prompt d) (hg : d.sampler.isGreedy = true) (hslots : 0 < d.maxTokens)
    (hfuel : d.maxTokens ≤ fuel) (x : TokenId) :
    ∃ e c, (decodeLoop fuel x d).1 = e.map some ∧ (∀ y, e ≠ .ok (.continue_ y)) ∧
      Lands next prompt d.maxTokens x d.visible e ((decodeLoop fuel x d).2.visibleAt c) ∧
      (c = (decodeLoop fuel x d).2.committedLen ∨ ∃ closeMarker err, e = .error (.exactPrefix err) ∧
        (decodeLoop fuel x d).2.emitter.encodeClose closeMarker = .error err) := by
  have hused : d.used = 0 := by rw [hfresh]; rfl
  have hsim := decodeLoop_simulates hL hB fuel x d h hg (by omega) (by omega)
  unfold wp at hsim
  rcases hr : decodeLoop fuel x d with ⟨(err | err) | r, d'⟩ <;> rw [hr] at hsim
  · exact hsim.elim
  · obtain ⟨c, hc, hwhy⟩ := hsim
    refine ⟨.error (.exactPrefix err), c, rfl, by simp, hc, ?_⟩
    rcases hwhy with hc | ⟨closeMarker, hm⟩
    · exact Or.inl hc
    · exact Or.inr ⟨closeMarker, err, rfl, hm⟩
  · obtain ⟨e, rfl, hne, hend⟩ := hsim
    exact ⟨.ok e, d'.committedLen, rfl, fun y hy => hne y (Except.ok.inj hy), hend, Or.inl rfl⟩

end Rounds

/-- Speculation at any depth is not visible: on one prompt, from one first token, the decode loop
with `spec_k = Some(k)` and the one with `None` return the same end (and none only without a
slot) and leave the same emitter (so the same emitted tokens and the same calls of the
callback), the same budget, the same slots used and the same forced-close flag; the committed
length is the same unless the loop ended because a close marker could not be encoded.  The two
runs may have different caches, MTP modules and frontiers. -/
theorem speculation_lossless {L : Ledgers O} {next : List TokenId → TokenId} (hL : Honours L)
    (hB : BatchInvariant L next) {prompt : List TokenId} {ops plainOps : O}
    {emitter : TokenEmitter} {budget : Option ReasoningBudget} {sampler plainSampler : Sampler G}
    {maxTokens k fuel plainFuel : Nat} {frontier plainFrontier : Option (RoundOps.Hidden O)}
    (hentry : Entry L prompt (new ops emitter budget sampler maxTokens (some k) frontier))
    (hplain : Entry L prompt (new plainOps emitter budget plainSampler maxTokens none plainFrontier))
    (hg : sampler.isGreedy = true) (hg' : plainSampler.isGreedy = true)
    (hfuel : maxTokens ≤ fuel) (hfuel' : maxTokens ≤ plainFuel) (x : TokenId) :
    let spec := decodeLoop fuel x (new ops emitter budget sampler maxTokens (some k) frontier)
    let plain := decodeLoop plainFuel x
      (new plainOps emitter budget plainSampler maxTokens none plainFrontier)
    spec.1 = plain.1 ∧ (spec.1 = .ok none ↔ maxTokens = 0) ∧
      spec.2.emitter = plain.2.emitter ∧ spec.2.budget = plain.2.budget ∧
      spec.2.used = plain.2.used ∧
      spec.2.reasoningForcedClosed = plain.2.reasoningForcedClosed ∧
      (spec.2.committedLen = plain.2.committedLen ∨ ∃ closeMarker err,
        spec.1 = .error (.exactPrefix err) ∧
        spec.2.emitter.encodeClose closeMarker = .error err) := by
  intro spec plain
  by_cases hslots : 0 < maxTokens
  · obtain ⟨e, c, he, hne, hland, hwhy⟩ :=
      decodeLoop_new hL hB rfl hentry hg hslots hfuel x
    obtain ⟨e', c', he', hne', hland', hwhy'⟩ :=
      decodeLoop_new hL hB rfl hplain hg' hslots hfuel' x
    obtain ⟨rfl, hv⟩ := hland.unique hland' hne hne'
    have hem : spec.2.emitter = plain.2.emitter := congrArg Visible.emitter hv
    have hcommitted : c = c' := congrArg Visible.committedLen hv
    refine ⟨he.trans he'.symm, ?_, hem, congrArg Visible.budget hv, congrArg Visible.used hv,
      congrArg Visible.reasoningForcedClosed hv, ?_⟩
    · refine ⟨fun hnone => ?_, fun h0 => absurd h0 (by omega)⟩
      rw [show spec.1 = e.map some from he] at hnone
      cases e <;> cases hnone
    · rcases hwhy with hc | ⟨closeMarker, err, rfl, hm⟩
      · rcases hwhy' with hc' | ⟨closeMarker, err, rfl, hm⟩
        · exact Or.inl (hc.symm.trans (hcommitted.trans hc'))
        · exact Or.inr ⟨closeMarker, err, he, by rw [hem]; exact hm⟩
      · exact Or.inr ⟨closeMarker, err, he, hm⟩
  · obtain rfl : maxTokens = 0 := by omega
    have hloop : ∀ (fuel : Nat) (o : O) (s : Sampler G) (kk : Option Nat)
        (f : Option (RoundOps.Hidden O)),
        decodeLoop fuel x (new o emitter budget s 0 kk f) =
          (.ok none, new o emitter budget s 0 kk f) := by
      intro fuel o s kk f
      cases fuel with
      | zero => rfl
      | succ fuel => rfl
    have hspec : spec = (.ok none, new ops emitter budget sampler 0 (some k) frontier) :=
      hloop _ _ _ _ _
    have hpl : plain = (.ok none, new plainOps emitter budget plainSampler 0 none plainFrontier) :=
      hloop _ _ _ _ _
    rw [hspec, hpl]
    exact ⟨rfl, ⟨fun _ => rfl, fun _ => rfl⟩, rfl, rfl, rfl, rfl, Or.inl rfl⟩

end RoundDriver

end Emelex

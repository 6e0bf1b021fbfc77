import Emelex.Engine.TargetLedger

/-!
# The two ledgers after every round

The exit paths of the speculative round, from the entry state `v` (a view) through the draft
steps, the verify feed, the sequential emission and the reconciliation, and with them every
exit path of a round.

Principal results: `wp_reconcile` (the rows the target holds after a reconciliation),
`runRound_aligned` (every exit of a round but the invalid-cache one leaves the ledgers aligned),
`ledgers_aligned_after_round` (so does every round of every run).
-/

set_option autoImplicit false

namespace Emelex

open Program

namespace RoundDriver

variable {O G : Type} [RowSampler G] [RoundOps O G]

section Rounds

variable {L : Ledgers O} {prompt before : List TokenId} {d : RoundDriver O}

/-! ## Draft and verify -/

/-- What `draft` does with a drawn draft. -/
def afterDraw (k : Nat) (recycle : RoundOps.Hidden O) (drafts : List TokenId)
    (dists : List (Dist G)) (dist : Dist G) :
    Except Error TokenId → DriverM O (DraftOutcome G)
  | .error _ => pure .resume
  | .ok drafted => do
    Prog.modify fun d => { d with stats := d.stats.recordDrafted 1 }
    draft k drafted recycle (drafts ++ [drafted]) (dists ++ [dist])

/-- The draft steps add pairs, or lose the MTP module; the target is not touched. -/
theorem wp_draft (hL : Honours L) {v : View (RoundOps.Hidden O)}
    {ps : List (TokenId × RoundOps.Hidden O)} {E : Exit → RoundDriver O → Prop}
    {Q : DraftOutcome G → RoundDriver O → Prop} (k : Nat) (prevId : TokenId)
    (prev : RoundOps.Hidden O) (drafts : List TokenId) (dists : List (Dist G))
    (junk : List (TokenId × RoundOps.Hidden O)) (d : RoundDriver O)
    (hv : L.view d.ops = { v with pairs := some (ps ++ junk) })
    (hd : ∀ ds qs o s t junk, ds.length = drafts.length + k → s.config = d.sampler.config →
      L.view o = { v with pairs := some (ps ++ junk) } →
      Q (.drafted ds qs) { d with ops := o, sampler := s, stats := t })
    (hres : ∀ o s t junk, s.config = d.sampler.config →
      L.view o = { v with pairs := some (ps ++ junk) } →
      Q .resume { d with ops := o, sampler := s, stats := t })
    (hdis : ∀ o s t ps', s.config = d.sampler.config → L.view o = { v with pairs := ps' } →
      Q .discard { d with ops := o, sampler := s, stats := t }) :
    wp (draft k prevId prev drafts dists) Q E d := by
  induction k generalizing prevId prev drafts dists junk d with
  | zero => exact hd drafts dists d.ops d.sampler d.stats junk rfl rfl hv
  | succ k ih =>
    unfold draft
    rw [wp_bind]
    refine wp_mtpStep hL ?_ ?_ ?_ ?_
    · rintro ⟨recycle, dist⟩ o' ho'
      have hview : L.view o' = { v with pairs := some (ps ++ (junk ++ [(prevId, prev)])) } := by
        rw [ho', hv]
        simp
      simp only [wp_bind]
      -- the draw changes the random source only
      have hdraw : ∀ (r : Except Error TokenId) (s : Sampler G), s.config = d.sampler.config →
          wp (afterDraw k recycle drafts dists dist r) Q E { d with ops := o', sampler := s } := by
        intro r s hs
        cases r with
        | error e => exact hres o' s d.stats _ hs hview
        | ok drafted =>
          simp only [afterDraw, wp_bind, wp_modify]
          refine ih drafted recycle _ _ _ _ hview ?_ ?_ ?_
          · intro ds qs o s' t junk hlen hs' ho
            refine hd ds qs o s' t junk ?_ (hs'.trans hs) ho
            rw [hlen, List.length_append, List.length_singleton]
            omega
          · intro o s' t junk hs' ho
            exact hres o s' t junk (hs'.trans hs) ho
          · intro o s' t ps' hs' ho
            exact hdis o s' t ps' (hs'.trans hs) ho
      cases dist with
      | greedy t => exact hdraw (.ok t) d.sampler rfl
      | sampled q => exact hdraw _ _ rfl
    · intro e salvage o' more ho'
      refine hres o' d.sampler d.stats (junk ++ more) rfl ?_
      rw [ho', hv]
      simp
    · intro e o' ps' ho'
      exact hdis o' d.sampler d.stats ps' rfl (by rw [ho', hv])
    · intro e o' ps' ho'
      exact hdis o' d.sampler d.stats ps' rfl (by rw [ho', hv])

/-- Back to the row of `x`: the snapshot taken after it, if any, then the truncation. -/
theorem wp_backToX (hL : Honours L) {rows more : List (FedRow (RoundOps.Hidden O))}
    {r : FedRow (RoundOps.Hidden O)} {postX : Option (RoundOps.Snapshot O)}
    (hattn : (L.view d.ops).attn = rows ++ r :: more)
    (hsome : ∀ s, postX = some s → L.snap s = (rows.length + 1, rows ++ [r]))
    (hnone : postX = none → (L.view d.ops).hybrid = true → (L.view d.ops).recur = rows ++ [r])
    {Q : Unit → RoundDriver O → Prop} {E : Exit → RoundDriver O → Prop}
    (hE : TargetFails L → ∀ e d', E (.invalidCache e) d')
    (hQ : ∀ o', (L.view o').attn = rows ++ [r] → (L.view o').hybrid = (L.view d.ops).hybrid →
      (L.view o').pairs = (L.view d.ops).pairs →
      ((L.view o').hybrid = true → (L.view o').recur = (L.view o').attn) →
      Q () { d with ops := o' }) :
    wp (restoreSome postX) (fun _ d' => wp (truncateOrExit (rows.length + 1)) Q E d') E d := by
  have htake : (rows ++ r :: more).take (rows.length + 1) = rows ++ [r] := by
    rw [List.take_length_add_append]
    rfl
  have hin : rows.length + 1 ≤ (L.view d.ops).attn.length := by
    rw [hattn]
    simp
  cases postX with
  | none =>
    refine wp_truncateOrExit hL ?_ hin ?_
    · intro o' ho'
      refine hQ o' ?_ ho'.hybrid ho'.pairs ?_
      · rw [ho'.attn, hattn]; exact htake
      · intro hh
        rw [ho'.hybrid] at hh
        rw [ho'.recur hh, ho'.attn, hattn, htake]
        exact hnone rfl hh
    · intro hfails e o'
      exact hE hfails e _
  | some s =>
    have hs := hsome s rfl
    refine wp_restoreOrExit hL ?_ (by rw [hs]; exact hin) ?_
    · intro o' ho'
      rw [hs] at ho'
      have hattn' : (L.view o').attn = rows ++ [r] := by rw [ho'.attn, hattn, htake]
      refine wp_truncateOrExit hL ?_ (by rw [hattn']; simp) ?_
      · intro o'' ho''
        have hattn'' : (L.view o'').attn = rows ++ [r] := by
          rw [ho''.attn, hattn', List.take_of_length_le (by simp)]
        refine hQ o'' hattn'' (ho''.hybrid.trans ho'.hybrid) (ho''.pairs.trans ho'.pairs) ?_
        intro hh
        have hh' : (L.view o').hybrid = true := ho''.hybrid.symm.trans hh
        rw [hattn'', ho''.recur hh']
        exact ho'.recur (ho'.hybrid.symm.trans hh')
      · intro hfails e o''
        exact hE hfails e _
    · intro hfails e o'
      exact hE hfails e _

/-- The target at `x`, with `x` committed. -/
theorem committed_at_x {x : TokenId} (rest : List TokenId) {r : FedRow (RoundOps.Hidden O)}
    {rows : List (FedRow (RoundOps.Hidden O))} {v : View (RoundOps.Hidden O)}
    (hrows : rows.map Prod.fst = prompt ++ before) (hr : r.1 = x) (hattn : v.attn = rows ++ [r])
    (hrec : v.hybrid = true → v.recur = v.attn) :
    Committed prompt v (before ++ [x] ++ rest) (before.length + 1) := by
  apply committed_of [x] _ hrec
  rw [hattn, List.map_append, hrows, List.append_assoc, List.map_singleton, hr]

theorem wp_verifyHostRecovery (hL : Honours L) {x : TokenId} {error : Error}
    {salvage : List (Dist G)} {rows : List (FedRow (RoundOps.Hidden O))}
    (r : FedRow (RoundOps.Hidden O)) (more : List (FedRow (RoundOps.Hidden O))) {postX : Option (RoundOps.Snapshot O)}
    (hem : d.emitter.emitted = before ++ [x]) (hcl : d.committedLen = before.length)
    (hrows : rows.map Prod.fst = prompt ++ before) (hr : r.1 = x)
    (hattn : (L.view d.ops).attn = rows ++ r :: more)
    (hsome : ∀ s, postX = some s → L.snap s = (rows.length + 1, rows ++ [r]))
    (hnone : postX = none → (L.view d.ops).hybrid = true → (L.view d.ops).recur = rows ++ [r]) :
    wp (verifyHostRecovery error salvage postX rows.length) (RoundPost L prompt)
      (ExitPost L prompt) d := by
  unfold verifyHostRecovery
  simp only [wp_bind]
  refine wp_backToX hL hattn hsome hnone (fun h _ _ => h) ?_
  intro o' ha _ _ hrec
  have hc := committed_at_x [] hrows hr ha hrec
  rw [List.append_nil, ← hem, ← hcl] at hc
  simp only [commitLen, wp_modify]
  refine wp_discard_entry hL hc ?_
  intro o'' ha
  refine wp_continueFromSalvage hL ⟨ha, ?_⟩ _ _
  show d.committedLen + 1 = d.emitter.emitted.length
  rw [hcl, hem, List.length_append, List.length_singleton]

/-- The state `w` after `[x, d1..dk]` has been fed on top of the entry state `v`, whose MTP
pairs `ps` the draft steps have extended. -/
structure Fed (L : Ledgers O) (v : View (RoundOps.Hidden O))
    (ps : List (TokenId × RoundOps.Hidden O)) (x : TokenId) (drafts : List TokenId)
    (hiddens : List (RoundOps.Hidden O)) (postX : Option (RoundOps.Snapshot O))
    (w : View (RoundOps.Hidden O)) : Prop where
  hybrid : w.hybrid = v.hybrid
  attn : w.attn = v.attn ++ rowsOf (x :: drafts) hiddens
  recur : w.hybrid = true → w.recur = w.attn
  pairs : ∃ junk, w.pairs = some (ps ++ junk)
  hiddens_length : hiddens.length = drafts.length + 1
  postX_some : ∀ s, postX = some s →
    L.snap s = (v.attn.length + 1, v.attn ++ [(x, hiddens.head?)])
  postX_hybrid : postX = none → w.hybrid = false

theorem wp_verify (hL : Honours L) {v : View (RoundOps.Hidden O)}
    {ps junk : List (TokenId × RoundOps.Hidden O)} {x : TokenId} {drafts : List TokenId}
    {Q : Verified O → RoundDriver O → Prop}
    (hem : d.emitter.emitted = before ++ [x]) (hcl : d.committedLen = before.length)
    (hv : L.view d.ops = { v with pairs := some (ps ++ junk) })
    (hrows : v.attn.map Prod.fst = prompt ++ before) (hrec : v.hybrid = true → v.recur = v.attn)
    (hready : ∀ hs ds post o', Fed L v ps x drafts hs post (L.view o') →
      ds.length = drafts.length + 1 → Q (.ready hs ds post) { d with ops := o' })
    (hdone : ∀ e d', RoundPost L prompt e d' → Q (.done e) d') :
    wp (verify x drafts v.attn.length) Q (ExitPost L prompt) d := by
  have halive : (L.view d.ops).pairs.isSome := by rw [hv]; rfl
  have hrecovery : ∀ (o' : O) (error : Error) (salvage : List (Dist G))
      (postX : Option (RoundOps.Snapshot O)) (r : FedRow (RoundOps.Hidden O)) more,
      r.1 = x → (L.view o').attn = v.attn ++ r :: more →
      (∀ s, postX = some s → L.snap s = (v.attn.length + 1, v.attn ++ [r])) →
      (postX = none → (L.view o').hybrid = true → (L.view o').recur = v.attn ++ [r]) →
      wp (verifyDone error salvage postX v.attn.length) Q (ExitPost L prompt)
        { d with ops := o' } := by
    intro o' error salvage postX r more hr hattn hsome hnone
    unfold verifyDone
    rw [wp_bind]
    refine wp_mono (wp_verifyHostRecovery hL r more ?_ ?_ hrows hr ?_ hsome ?_)
      (fun e d' he => hdone e d' he) (fun e d' he => he)
    · exact hem
    · exact hcl
    · exact hattn
    · exact hnone
  unfold verify
  rw [wp_bind, wp_get, hL.isHybrid]
  cases hh : (L.view d.ops).hybrid with
  | false =>
    simp only [Bool.not_false, if_true, wp_bind]
    refine wp_verifyFeed hL (fun h => by rw [hh] at h; cases h) ?_ ?_ ?_
    · intro hs ds o' rows _ ho' hlive hds
      obtain ⟨hlen, rfl⟩ := hlive halive
      refine hready hs ds none o' ⟨?_, ?_, ?_, ⟨junk, ?_⟩, hlen, by simp, ?_⟩ hds
      · rw [ho', hv]; rfl
      · rw [ho', hv]; rfl
      · intro h'; rw [ho', View.feed_hybrid, hh] at h'; cases h'
      · rw [ho', hv]; rfl
      · intro _; rw [ho', View.feed_hybrid, hh]
    · intro e salvage o' rows hfst ho'
      obtain ⟨r, more, rfl, hr, -⟩ := List.map_eq_cons_iff.1 hfst
      refine hrecovery o' e salvage none r more hr ?_ (by simp) ?_
      · rw [ho', hv]; rfl
      · intro _ h'; rw [ho', View.feed_hybrid, hh] at h'; cases h'
    · intro hfails e o'
      exact hfails
  | true =>
    simp only [Bool.not_true, Bool.false_eq_true, if_false, wp_bind]
    have hvh : v.hybrid = true := by rw [← hh, hv]
    refine wp_verifyFeed hL (by rw [hv]; exact hrec) ?_ ?_ ?_
    · intro h0 d0 o' rows _ ho' hlive hd0
      obtain ⟨hlen0, rfl⟩ := hlive halive
      obtain ⟨h, rfl⟩ := List.length_eq_one_iff.1 hlen0
      have hview : L.view o' = ({ v with pairs := some (ps ++ junk) } : View _).feed [(x, some h)] := by
        rw [ho', hv]; rfl
      have hsnap : L.snap (RoundOps.capture o') = (v.attn.length + 1, v.attn ++ [(x, some h)]) := by
        rw [hL.capture, hview]
        simp [hrec hvh]
      simp only [wp_bind, wp_get]
      refine wp_verifyFeed hL ?_ ?_ ?_ ?_
      · intro h'
        show (L.view o').recur = (L.view o').attn
        rw [hview, View.feed_recur, View.feed_attn]
        exact congrArg (· ++ _) (hrec hvh)
      · intro hr dr o'' rows _ ho'' hlive hdr
        obtain ⟨hlenr, rfl⟩ := hlive (by rw [hview]; rfl)
        rw [show L.view ({ d with ops := o' } : RoundDriver O).ops = L.view o' from rfl, hview,
          View.feed_feed] at ho''
        refine hready _ _ _ o'' ⟨?_, ?_, ?_, ⟨junk, ?_⟩, ?_, ?_, by simp⟩ ?_
        · rw [ho'']; rfl
        · rw [ho'']; rfl
        · intro _
          rw [ho'']
          simp [hrec hvh]
        · rw [ho'']; rfl
        · simp [hlenr]
        · intro s hs
          rw [← Option.some.inj hs, hsnap]
          rfl
        · simp only [List.length_append, hd0, hdr, List.length_singleton]
          omega
      · intro e salvage o'' rows _ ho''
        rw [show L.view ({ d with ops := o' } : RoundDriver O).ops = L.view o' from rfl, hview,
          View.feed_feed] at ho''
        refine hrecovery o'' e d0 _ (x, some h) rows rfl ?_ ?_ (by simp)
        · rw [ho'']; rfl
        · intro s hs
          rw [← Option.some.inj hs, hsnap]
      · intro hfails e o''
        exact hfails
    · intro e salvage o' rows hfst ho'
      obtain ⟨r, rfl, hr⟩ := List.map_eq_singleton_iff.1 hfst
      have hview : L.view o' = ({ v with pairs := some (ps ++ junk) } : View _).feed [r] := by
        rw [ho', hv]
      refine hrecovery o' e salvage none r [] hr ?_ (by simp) ?_
      · rw [hview]; rfl
      · intro _ _
        rw [hview]
        show v.recur ++ _ = _
        rw [hrec hvh]
    · intro hfails e o'
      exact hfails

theorem wp_decide {drafts : List TokenId} {draftDists dists : List (Dist G)}
    {Q : Option (Verdict G) → RoundDriver O → Prop} {E : Exit → RoundDriver O → Prop}
    (hQ : ∀ r s, Q r { d with sampler := s }) :
    wp (decide drafts draftDists dists) Q E d := by
  unfold decide
  rw [wp_bind, wp_get]
  split
  · split
    · exact hQ none d.sampler
    · split
      · exact hQ none d.sampler
      · exact hQ _ d.sampler
  · split
    · rw [wp_bind, verifyAccept, wp_call]
      split
      · exact hQ none _
      · exact hQ _ _
    · exact hQ none d.sampler

/-- The first `j` accepted drafts were emitted, and the stop token or the cancelled one. -/
theorem wp_emitDrafts {Q : Nat × SpecEvent → RoundDriver O → Prop}
    {E : Exit → RoundDriver O → Prop} : ∀ (drafts : List TokenId) (n : Nat) (d : RoundDriver O),
      (∀ j event e b u rest, j ≤ drafts.length →
        e.emitted = d.emitter.emitted ++ (drafts.take j ++ rest) →
        (event ≠ .eos → event ≠ .cancel → rest = []) →
        Q (n + j, event) { d with emitter := e, budget := b, used := u }) →
      wp (emitDrafts drafts n) Q E d
  | [], n, d, hQ => hQ 0 .none d.emitter d.budget d.used [] (Nat.le_refl _) (by simp)
      (fun _ _ => rfl)
  | draft :: drafts, n, d, hQ => by
    unfold emitDrafts
    rw [wp_bind]
    refine wp_emit ?_ ?_
    · intro r e he
      have hstop : ∀ event, (event = .eos ∨ event = .cancel) →
          Q (n, event) { d with emitter := e, used := d.used + 1 } := by
        intro event hevent
        refine hQ 0 event e d.budget (d.used + 1) [draft] (Nat.zero_le _) (by simp [he]) ?_
        rcases hevent with rfl | rfl
        · exact fun h => absurd rfl h
        · exact fun _ h => absurd rfl h
      cases r with
      | eos => exact hstop .eos (Or.inl rfl)
      | cancelled => exact hstop .cancel (Or.inr rfl)
      | continue_ rawText =>
        simp only [wp_bind, countUsed, wp_modify]
        refine wp_observe ?_
        intro close b
        have hone : ∀ event, Q (n + 1, event)
            { d with emitter := e, budget := b, used := d.used + 1 } := by
          intro event
          exact hQ 1 event e b (d.used + 1) [] (by simp) (by simp [he]) (fun _ _ => rfl)
        cases close with
        | some marker => exact hone _
        | none =>
          simp only [wp_bind, wp_get]
          split
          · exact hone _
          · refine wp_emitDrafts drafts (n + 1) _ ?_
            intro j event e' b' u rest hj hem hrest
            have := hQ (j + 1) event e' b' u rest (by simpa using hj) (by rw [hem, he]; simp) hrest
            rwa [Nat.add_assoc, Nat.add_comm 1 j]
    · intro err e he
      exact hQ 0 (.emitErr err) e d.budget d.used [] (Nat.zero_le _) (by simp [he])
        (fun _ _ => rfl)

/-! ## Reconciliation -/

theorem wp_fromVerifyRows {ctx : SpecCtx O} {r : Nat} (hr : r < ctx.hiddens.length)
    {Q : Reconciled (RoundOps.Hidden O) → RoundDriver O → Prop}
    {E : Exit → RoundDriver O → Prop}
    (hQ : ∀ h, (ctx.hiddens.take (r + 1)).getLast? = some h →
      Q (.committed h (ctx.frontierEntry :: (ctx.hiddens.take (r + 1)).take r)) d) :
    wp (fromVerifyRows ctx r) Q E d := by
  obtain ⟨h, hh⟩ : ∃ h, ctx.hiddens[r]? = some h := ⟨_, List.getElem?_eq_getElem hr⟩
  unfold fromVerifyRows rowAt firstRows
  simp only [wp_bind, hh, wp_ofExcept_ok, if_pos (Nat.le_of_lt hr), wp_pure]
  have hQ := hQ h (by rw [List.getLast?_take, if_neg (by omega), Nat.add_sub_cancel, hh]; rfl)
  rwa [List.take_take, Nat.min_eq_left (Nat.le_succ r)] at hQ

/-- The retained rows as the feed of the retained tokens. -/
theorem Fed.take_rows {H : Type} {x : TokenId} {drafts : List TokenId} {hiddens : List H} (r : Nat) :
    (rowsOf (x :: drafts) hiddens).take (r + 1) =
      rowsOf (x :: drafts.take r) (hiddens.take (r + 1)) := by
  rw [rowsOf_take]
  rfl

/-- What the context of a speculative round keeps of its entry state `v`. -/
structure Entered (L : Ledgers O) (v : View (RoundOps.Hidden O))
    (ps : List (TokenId × RoundOps.Hidden O)) (ctx : SpecCtx O) : Prop where
  entryPos : ctx.entryPos = v.attn.length
  entryPairs : ctx.entryPairs = ps.length
  entrySnap : L.snap ctx.entrySnap = (v.attn.length, v.recur)
  k : ctx.k = ctx.drafts.length
  resumable : Resumable v.attn ps ctx.frontierEntry
  recur : v.hybrid = true → v.recur = v.attn

/-- The entry snapshot brings the target, and with the entry frontier the MTP module, back to
the state at entry. -/
theorem Entered.restored {v w w' : View (RoundOps.Hidden O)}
    {ps : List (TokenId × RoundOps.Hidden O)} {x : TokenId} {ctx : SpecCtx O}
    (he : Entered L v ps ctx) (hf : Fed L v ps x ctx.drafts ctx.hiddens ctx.postX w)
    (hw : w.Cut (L.snap ctx.entrySnap).1 (L.snap ctx.entrySnap).2 w') :
    w'.attn = v.attn ∧ (w'.hybrid = true → w'.recur = w'.attn) ∧
      MtpHeld w' (some ctx.frontierEntry) ctx.entryPairs := by
  rw [he.entrySnap] at hw
  have hattn : w'.attn = v.attn := by
    rw [hw.attn, hf.attn, List.take_left]
  obtain ⟨junk, hj⟩ := hf.pairs
  refine ⟨hattn, ?_, Or.inr ⟨ps ++ junk, ctx.frontierEntry, ?_, rfl, ?_⟩⟩
  · intro hh
    have hh : w.hybrid = true := hw.hybrid.symm.trans hh
    rw [hattn, hw.recur hh]
    exact he.recur (hf.hybrid.symm.trans hh)
  · rw [hw.pairs]
    exact hj
  · rw [hattn, he.entryPairs, List.take_left]
    exact he.resumable

/-- The target is brought to `[x, d1..dr]`; the rows it holds then are those whose hiddens the
MTP module is to be given. -/
theorem wp_reconcile (hL : Honours L) {v : View (RoundOps.Hidden O)}
    {ps : List (TokenId × RoundOps.Hidden O)} {x : TokenId} {ctx : SpecCtx O} {r : Nat}
    (he : Entered L v ps ctx)
    (hf : Fed L v ps x ctx.drafts ctx.hiddens ctx.postX (L.view d.ops))
    (hr : r ≤ ctx.drafts.length)
    {Q : Reconciled (RoundOps.Hidden O) → RoundDriver O → Prop}
    {E : Exit → RoundDriver O → Prop} (hE : TargetFails L → ∀ e d', E (.invalidCache e) d')
    (hcommitted : ∀ hs h o', hs.length = r + 1 → hs.getLast? = some h →
      (L.view o').attn = v.attn ++ rowsOf (x :: ctx.drafts.take r) hs →
      (L.view o').pairs = (L.view d.ops).pairs →
      ((L.view o').hybrid = true → (L.view o').recur = (L.view o').attn) →
      Q (.committed h (ctx.frontierEntry :: hs.take r)) { d with ops := o' })
    (hdetach : ∀ o', (L.view o').attn.map Prod.fst =
        v.attn.map Prod.fst ++ (x :: ctx.drafts.take r) →
      ((L.view o').hybrid = true → (L.view o').recur = (L.view o').attn) →
      Q .detachFailed { d with ops := o' }) :
    wp (reconcile ctx r) Q E d := by
  have hlen := hf.hiddens_length
  -- rows taken from the verify feed
  have hverify : ∀ (o' : O), (L.view o').attn = v.attn ++ (rowsOf (x :: ctx.drafts) ctx.hiddens).take (r + 1) →
      (L.view o').pairs = (L.view d.ops).pairs →
      ((L.view o').hybrid = true → (L.view o').recur = (L.view o').attn) →
      wp (fromVerifyRows ctx r) Q E { d with ops := o' } := by
    intro o' hattn hpairs hrec
    refine wp_fromVerifyRows (by omega) ?_
    intro h hh
    refine hcommitted _ h o' (by rw [List.length_take]; omega) hh ?_ hpairs hrec
    rw [hattn, Fed.take_rows]
  unfold reconcile
  rw [wp_bind, wp_get, hL.isHybrid]
  cases hh : (L.view d.ops).hybrid with
  | false =>
    simp only [Bool.not_false, if_true, wp_bind]
    refine wp_truncateOrExit hL ?_ ?_ ?_
    · intro o' ho'
      refine hverify o' ?_ ho'.pairs ?_
      · rw [ho'.attn, hf.attn, he.entryPos, Nat.add_assoc, Nat.add_comm 1 r]
        exact List.take_length_add_append _
      · intro h'
        rw [ho'.hybrid, hh] at h'
        cases h'
    · rw [hf.attn, he.entryPos, List.length_append, rowsOf_length, List.length_cons]
      omega
    · intro hfails e o'
      exact hE hfails e _
  | true =>
    simp only [Bool.not_true, Bool.false_eq_true, if_false]
    split
    · rename_i hk
      rw [← hk]
      refine hverify d.ops ?_ rfl hf.recur
      rw [hf.attn, List.take_of_length_le]
      rw [rowsOf_length, List.length_cons, hk, he.k]
    · rename_i hk
      have hk : r < ctx.drafts.length := by
        rw [he.k] at hk
        omega
      cases hpost : ctx.postX with
      | none =>
        have := hf.postX_hybrid hpost
        rw [hh] at this
        cases this
      | some postX =>
        simp only [wp_bind]
        show wp (restoreSome (some postX)) _ _ _
        rw [he.entryPos]
        have hattn : (L.view d.ops).attn = v.attn ++ (x, ctx.hiddens.head?) ::
            rowsOf ctx.drafts ctx.hiddens.tail := hf.attn
        refine wp_backToX hL hattn (fun s hs => hf.postX_some s (hpost.trans hs)) (by simp) hE ?_
        intro o' hattn' hhy' hpairs' hrec'
        split
        · rename_i hr0
          subst hr0
          refine hverify o' ?_ hpairs' hrec'
          rw [hattn']
          rfl
        · rename_i hr0
          have htake : (ctx.drafts.take r).length = r := by rw [List.length_take]; omega
          obtain ⟨h0, hh0⟩ : ∃ h, ctx.hiddens[0]? = some h :=
            ⟨_, List.getElem?_eq_getElem (by omega)⟩
          have hhead : ctx.hiddens.head? = some h0 := by
            rw [List.head?_eq_getElem?]; exact hh0
          simp only [wp_bind]
          refine wp_replayFeed hL ?_ ?_ ?_ ?_
          · exact hrec'
          · intro rhs dist o'' rows _ ho'' hlive
            have halive : (L.view o').pairs.isSome := by
              obtain ⟨junk, hj⟩ := hf.pairs
              rw [hpairs', hj]
              rfl
            obtain ⟨hlen, rfl⟩ := hlive halive
            have hlenr : rhs.length = r := hlen.trans htake
            obtain ⟨h, hh⟩ : ∃ h, rhs[r - 1]? = some h :=
              ⟨_, List.getElem?_eq_getElem (by omega)⟩
            unfold rowAt firstRows
            simp only [wp_bind, hh0, hh, wp_ofExcept_ok, if_pos (show r - 1 ≤ rhs.length by omega),
              wp_pure]
            have hprevs : h0 :: rhs.take (r - 1) = (h0 :: rhs).take r := by
              obtain ⟨n, rfl⟩ := Nat.exists_eq_succ_of_ne_zero hr0
              rfl
            rw [hprevs]
            refine hcommitted (h0 :: rhs) h o'' (by simp [hlenr]) ?_ ?_ ?_ ?_
            · rw [List.getLast?_eq_getElem?, List.length_cons, Nat.add_sub_cancel, hlenr]
              obtain ⟨n, rfl⟩ := Nat.exists_eq_succ_of_ne_zero hr0
              exact hh
            · rw [ho'']
              show (L.view o').attn ++ _ = _
              rw [hattn', hhead, List.append_assoc]
              rfl
            · rw [ho'']
              exact hpairs'
            · intro h'
              rw [ho''] at h' ⊢
              show (L.view o').recur ++ _ = (L.view o').attn ++ _
              rw [hrec' h']
          · intro e salvage o'' rows hfst ho''
            refine hdetach o'' ?_ ?_
            · rw [ho'']
              show ((L.view o').attn ++ _).map Prod.fst = _
              rw [hattn', List.map_append, List.map_append, hfst, List.append_assoc]
              rfl
            · intro h'
              rw [ho''] at h' ⊢
              show (L.view o').recur ++ _ = (L.view o').attn ++ _
              rw [hrec' h']
          · intro hfails e o''
            exact hE hfails e _

/-- Stages 1 to 3: both ledgers and the MTP module at the retained prefix. -/
theorem wp_reconcileAndCommit (hL : Honours L) {v : View (RoundOps.Hidden O)}
    {ps : List (TokenId × RoundOps.Hidden O)} {x : TokenId} {ctx : SpecCtx O} {r : Nat}
    (rest : List TokenId) (he : Entered L v ps ctx)
    (hf : Fed L v ps x ctx.drafts ctx.hiddens ctx.postX (L.view d.ops))
    (hr : r ≤ ctx.drafts.length) (hrows : v.attn.map Prod.fst = prompt ++ before)
    (hem : d.emitter.emitted = before ++ (x :: ctx.drafts.take r) ++ rest)
    (hcl : d.committedLen = before.length) {Q : Unit → RoundDriver O → Prop}
    {E : Exit → RoundDriver O → Prop} (hE : TargetFails L → ∀ e d', E (.invalidCache e) d')
    (hQ : ∀ o' f',
      Aligned L prompt { d with ops := o', committedLen := before.length + (1 + r), frontier := f' } →
      Q () { d with ops := o', committedLen := before.length + (1 + r), frontier := f' }) :
    wp (reconcileAndCommit x ctx r) Q E d := by
  have hseq : (x :: ctx.drafts.take r).length = 1 + r := by
    rw [List.length_cons, List.length_take]
    omega
  have hcommit : ∀ w : View (RoundOps.Hidden O),
      w.attn.map Prod.fst = v.attn.map Prod.fst ++ (x :: ctx.drafts.take r) →
      (w.hybrid = true → w.recur = w.attn) →
      Committed prompt w d.emitter.emitted (d.committedLen + (1 + r)) := by
    intro w hw hrec
    rw [hem, hcl, ← hseq]
    exact committed_of _ (by rw [hw, hrows, List.append_assoc]) hrec
  unfold reconcileAndCommit
  rw [wp_bind]
  refine wp_reconcile hL he hf hr hE ?_ ?_
  · intro hs h o' hlen hlast hattn hpairs hrec
    have hc := hcommit (L.view o') (by rw [hattn, List.map_append, rowsOf_fst]) hrec
    simp only [wp_bind, commitLen, wp_modify]
    obtain ⟨junk, hj⟩ := hf.pairs
    have hids : (x :: ctx.drafts.take r).length - 1 = r := by omega
    have hprevs : hs.take r = hs.take ((x :: ctx.drafts.take r).length - 1) := by rw [hids]
    rw [hprevs]
    refine wp_recommit (n := some ctx.entryPairs) hL hs hattn (by rw [hlen, hseq, Nat.add_comm])
      hlast (hpairs.trans hj) ?_ ?_
    · show Resumable v.attn ((ps ++ junk).take ctx.entryPairs) ctx.frontierEntry
      rw [he.entryPairs, List.take_left]
      exact he.resumable
    · rintro o'' f' ⟨ps', ho''⟩ hm
      rw [hcl] at hc ⊢
      refine hQ o'' f' ⟨?_, hm⟩
      show Committed prompt (L.view o'') _ _
      rw [ho'']
      exact hc.congr rfl rfl rfl
  · intro o' hattn hrec
    have hc := hcommit (L.view o') hattn hrec
    simp only [wp_bind, commitLen, wp_modify]
    rw [hcl] at hc ⊢
    refine wp_discard_entry hL hc ?_
    intro o'' ha
    exact hQ o'' none ha

/-- The same with the MTP module discarded. -/
theorem wp_reconcileAndDiscard (hL : Honours L) {v : View (RoundOps.Hidden O)}
    {ps : List (TokenId × RoundOps.Hidden O)} {x : TokenId} {ctx : SpecCtx O} {r : Nat}
    (rest : List TokenId) (he : Entered L v ps ctx)
    (hf : Fed L v ps x ctx.drafts ctx.hiddens ctx.postX (L.view d.ops))
    (hr : r ≤ ctx.drafts.length) (hrows : v.attn.map Prod.fst = prompt ++ before)
    (hem : d.emitter.emitted = before ++ (x :: ctx.drafts.take r) ++ rest)
    (hcl : d.committedLen = before.length) {Q : Unit → RoundDriver O → Prop}
    {E : Exit → RoundDriver O → Prop} (hE : TargetFails L → ∀ e d', E (.invalidCache e) d')
    (hQ : ∀ o',
      Aligned L prompt { d with ops := o', committedLen := before.length + (1 + r), frontier := none } →
      Q () { d with ops := o', committedLen := before.length + (1 + r), frontier := none }) :
    wp (reconcileAndDiscard ctx r) Q E d := by
  have hseq : (x :: ctx.drafts.take r).length = 1 + r := by
    rw [List.length_cons, List.length_take]
    omega
  have hdiscard : ∀ o' : O,
      (L.view o').attn.map Prod.fst = v.attn.map Prod.fst ++ (x :: ctx.drafts.take r) →
      ((L.view o').hybrid = true → (L.view o').recur = (L.view o').attn) →
      wp discardMtp Q E
        { d with ops := o', committedLen := d.committedLen + (1 + r) } := by
    intro o' hw hrec
    have hc : Committed prompt (L.view o') d.emitter.emitted (d.committedLen + (1 + r)) := by
      rw [hem, hcl, ← hseq]
      exact committed_of _ (by rw [hw, hrows, List.append_assoc]) hrec
    rw [hcl] at hc ⊢
    exact wp_discard_entry hL hc hQ
  unfold reconcileAndDiscard
  rw [wp_bind]
  refine wp_reconcile hL he hf hr hE ?_ ?_
  · intro hs h o' _ _ hattn _ hrec
    simp only [wp_bind, commitLen, wp_modify]
    exact hdiscard o' (by rw [hattn, List.map_append, rowsOf_fst]) hrec
  · intro o' hattn hrec
    simp only [wp_bind, commitLen, wp_modify]
    exact hdiscard o' hattn hrec

/-! ## The whole speculative round -/

theorem wp_forcedCloseAtDraft (hL : Honours L) {v : View (RoundOps.Hidden O)}
    {ps : List (TokenId × RoundOps.Hidden O)} {x : TokenId} {ctx : SpecCtx O} {r : Nat}
    {closeMarker : Str} (he : Entered L v ps ctx)
    (hf : Fed L v ps x ctx.drafts ctx.hiddens ctx.postX (L.view d.ops))
    (hr : r ≤ ctx.drafts.length) (hrows : v.attn.map Prod.fst = prompt ++ before)
    (hem : d.emitter.emitted = before ++ (x :: ctx.drafts.take r))
    (hcl : d.committedLen = before.length) (hfr : d.frontier = some ctx.frontierEntry) :
    wp (forcedCloseAtDraft x ctx r closeMarker) (RoundPost L prompt) (ExitPost L prompt) d := by
  unfold forcedCloseAtDraft
  rw [wp_bind, wp_get]
  cases hclose : d.emitter.encodeClose closeMarker with
  | error e =>
    simp only [wp_bind]
    exact wp_reconcileAndDiscard hL [] he hf hr hrows (by rw [hem, List.append_nil]) hcl
      (fun h _ _ => h) (fun o' ha => ha)
  | ok closeIds =>
    simp only
    split
    · simp only [wp_bind, wp_get]
      refine wp_reconcileAndCommit hL [] he hf hr hrows
        (by rw [hem, List.append_nil]) hcl (fun h _ _ => h) ?_
      intro o' f' ha
      split
      · exact ha.post (by simp)
      · refine wp_continueFromSalvage hL ⟨ha, ?_⟩ _ _
        show before.length + (1 + r) = d.emitter.emitted.length
        rw [hem]
        simp only [List.length_append, List.length_cons, List.length_take]
        omega
    · simp only [wp_bind]
      refine wp_emitClosePrefix closeIds d ?_
      intro close e' rest hem' hrest
      refine wp_restoreOrExit hL ?_ ?_ ?_
      · intro o' ho'
        obtain ⟨hattn, hrec, hheld⟩ := he.restored hf ho'
        refine wp_closeReplay hL rest ⟨?_, hcl, ?_, hrec⟩ (by simp) hrest ?_
        · show e'.emitted = _
          rw [hem', hem]
          simp
        · show (L.view o').attn.map Prod.fst = _
          rw [hattn, hrows]
        · show MtpHeld (L.view o') d.frontier _
          rw [hfr]
          exact hheld
      · rw [he.entrySnap]
        show v.attn.length ≤ (L.view d.ops).attn.length
        rw [hf.attn, List.length_append]
        omega
      · intro hfails e o'
        exact hfails

theorem wp_finishSpeculative (hL : Honours L) {v : View (RoundOps.Hidden O)}
    {ps : List (TokenId × RoundOps.Hidden O)} {x : TokenId} {ctx : SpecCtx O} {r : Nat}
    {verdict : Verdict G} {event : SpecEvent} (rest : List TokenId) (he : Entered L v ps ctx)
    (hf : Fed L v ps x ctx.drafts ctx.hiddens ctx.postX (L.view d.ops))
    (hr : r ≤ ctx.drafts.length) (hrows : v.attn.map Prod.fst = prompt ++ before)
    (hem : d.emitter.emitted = before ++ (x :: ctx.drafts.take r) ++ rest)
    (hrest : event ≠ .eos → event ≠ .cancel → rest = [])
    (hcl : d.committedLen = before.length) (hfr : d.frontier = some ctx.frontierEntry) :
    wp (finishSpeculative x ctx verdict r event) (RoundPost L prompt) (ExitPost L prompt) d := by
  have hcommit : ∀ (end_ : RoundEnd), (∀ next, end_ ≠ .continue_ next) →
      wp (reconcileAndCommit x ctx r) (fun _ d' => RoundPost L prompt end_ d')
        (ExitPost L prompt) d := by
    intro end_ hend
    exact wp_reconcileAndCommit hL rest he hf hr hrows hem hcl (fun h _ _ => h)
      (fun o' f' ha => ha.post hend)
  cases event with
  | close marker =>
    have hnil := hrest (by simp) (by simp)
    rw [hnil, List.append_nil] at hem
    exact wp_forcedCloseAtDraft hL he hf hr hrows hem hcl hfr
  | emitErr e =>
    show wp (reconcileAndDiscard ctx r >>= _) _ _ _
    rw [wp_bind]
    exact wp_reconcileAndDiscard hL rest he hf hr hrows hem hcl (fun h _ _ => h) (fun o' ha => ha)
  | none =>
    show wp (reconcileAndCommit x ctx r >>= _) _ _ _
    rw [wp_bind]
    refine wp_reconcileAndCommit hL rest he hf hr hrows hem hcl (fun h _ _ => h) ?_
    intro o' f' ha
    refine wp_continueWith hL ⟨ha, ?_⟩ _
    show before.length + (1 + r) = d.emitter.emitted.length
    rw [hem, hrest (by simp) (by simp)]
    simp only [List.append_nil, List.length_append, List.length_cons, List.length_take]
    omega
  | eos =>
    show wp (reconcileAndCommit x ctx r >>= _) _ _ _
    rw [wp_bind]
    exact hcommit .finished (by simp)
  | cancel =>
    show wp (reconcileAndCommit x ctx r >>= _) _ _ _
    rw [wp_bind]
    exact hcommit .aborted (by simp)
  | slot =>
    show wp (reconcileAndCommit x ctx r >>= _) _ _ _
    rw [wp_bind]
    exact hcommit .budget (by simp)

theorem wp_invariantErrRecovery (hL : Honours L) {v : View (RoundOps.Hidden O)}
    {ps : List (TokenId × RoundOps.Hidden O)} {x : TokenId} {drafts : List TokenId}
    {hiddens : List (RoundOps.Hidden O)} {dists : List (Dist G)}
    {postX : Option (RoundOps.Snapshot O)} {frontierEntry : RoundOps.Hidden O}
    (hres : Resumable v.attn ps frontierEntry) (hrows : v.attn.map Prod.fst = prompt ++ before)
    (hf : Fed L v ps x drafts hiddens postX (L.view d.ops))
    (hem : d.emitter.emitted = before ++ [x]) (hcl : d.committedLen = before.length) :
    wp (invariantErrRecovery x v.attn.length ps.length frontierEntry postX hiddens dists)
      (RoundPost L prompt) (ExitPost L prompt) d := by
  have hattn : (L.view d.ops).attn = v.attn ++ (x, hiddens.head?) :: rowsOf drafts hiddens.tail :=
    hf.attn
  unfold invariantErrRecovery
  simp only [wp_bind]
  refine wp_backToX hL hattn hf.postX_some ?_ (fun h _ _ => h) ?_
  · intro hnone hh
    rw [hf.postX_hybrid hnone] at hh
    cases hh
  · intro o' hattn' _ hpairs' hrec'
    obtain ⟨h0, hh0⟩ : ∃ h, hiddens[0]? = some h :=
      ⟨_, List.getElem?_eq_getElem (by have := hf.hiddens_length; omega)⟩
    have hhead : hiddens.head? = some h0 := by
      rw [List.head?_eq_getElem?]; exact hh0
    have hc := committed_at_x [] hrows (r := (x, hiddens.head?)) rfl hattn' hrec'
    rw [List.append_nil, ← hem, ← hcl] at hc
    obtain ⟨junk, hj⟩ := hf.pairs
    simp only [commitLen, wp_modify]
    rw [hhead] at hattn' ⊢
    refine wp_recommit (n := some ps.length) hL [h0] hattn' rfl rfl
      (hpairs'.trans hj) ?_ ?_
    · show Resumable v.attn ((ps ++ junk).take ps.length) frontierEntry
      rw [List.take_left]
      exact hres
    · rintro o'' f' ⟨ps', ho''⟩ hm
      apply wp_continueFromSalvage hL
      refine ⟨⟨?_, hm⟩, ?_⟩
      · show Committed prompt (L.view o'') _ _
        rw [ho'']
        exact hc.congr rfl rfl rfl
      · show d.committedLen + 1 = d.emitter.emitted.length
        rw [hcl, hem, List.length_append, List.length_singleton]

theorem wp_speculativeRound (hL : Honours L) {x : TokenId} {k : Nat}
    (h : Within L prompt before [x] d) {ps : List (TokenId × RoundOps.Hidden O)}
    {f : RoundOps.Hidden O} (hps : (L.view d.ops).pairs = some ps) (hfr : d.frontier = some f)
    (hres : Resumable (L.view d.ops).attn ps f) :
    wp (speculativeRound x k) (RoundPost L prompt) (ExitPost L prompt) d := by
  generalize hv : L.view d.ops = v at *
  have hview : L.view d.ops = { v with pairs := some (ps ++ []) } := by
    rw [hv, List.append_nil, ← hps]
  have hpos : RoundOps.targetPos d.ops = v.attn.length := by rw [hL.targetPos, hv]
  have hmp : RoundOps.mtpPairs d.ops = ps.length := hL.mtpPairs d.ops ps (by rw [hv]; exact hps)
  have hsnap : L.snap (RoundOps.capture d.ops) = (v.attn.length, v.recur) := by
    rw [hL.capture, hv]
  have hrows : v.attn.map Prod.fst = prompt ++ before := by rw [← hv]; exact h.tokens
  have hrec : v.hybrid = true → v.recur = v.attn := by rw [← hv]; exact h.recur
  -- a target-only round after a draft phase that left the target alone
  have hfeed : ∀ (o : O) (s : Sampler G) (t : SpeculationStats) (fr : Option (RoundOps.Hidden O))
      (mode : MtpMode) (ps' : Option (List (TokenId × RoundOps.Hidden O))),
      L.view o = { v with pairs := ps' } → MtpReady { v with pairs := ps' } fr mode →
      wp (feedXTargetOnly x mode true) (RoundPost L prompt) (ExitPost L prompt)
        { d with ops := o, sampler := s, stats := t, frontier := fr } := by
    intro o s t fr mode ps' ho hm
    apply wp_feedXTargetOnly hL
    · refine ⟨h.emitted, h.committed, ?_, ?_⟩
      · show (L.view o).attn.map Prod.fst = _
        rw [ho]
        exact hrows
      · show (L.view o).hybrid = true → (L.view o).recur = (L.view o).attn
        rw [ho]
        exact hrec
    · show MtpReady (L.view o) fr mode
      rw [ho]
      exact hm
  unfold speculativeRound
  rw [wp_bind, wp_get, hpos, hmp]
  simp only [hfr, wp_bind]
  refine wp_draft hL k x f [] [] [] _ hview ?_ ?_ ?_
  · intro drafts qs o s t junk hlen _ ho
    simp only [wp_bind]
    apply wp_verify hL
    · exact h.emitted
    · exact h.committed
    · exact ho
    · exact hrows
    · exact hrec
    · intro hs ds post o' hfed hds
      simp only [wp_bind]
      refine wp_decide ?_
      intro verdict s'
      cases verdict with
      | none => exact wp_invariantErrRecovery hL hres hrows hfed h.emitted h.committed
      | some verdict =>
        simp only [wp_bind, recordRound, wp_modify]
        refine wp_emitDrafts _ 0 _ ?_
        intro j event e b u rest hj hem hrest
        have hj' : j ≤ verdict.accepted ∧ j ≤ drafts.length := by
          rw [List.length_take] at hj
          omega
        rw [List.take_take, Nat.min_eq_left hj'.1] at hem
        simp only [Nat.zero_add]
        apply wp_finishSpeculative hL (v := v) rest
        · exact ⟨rfl, rfl, hsnap, by rw [hlen]; simp, hres, hrec⟩
        · exact hfed
        · exact hj'.2
        · exact hrows
        · show e.emitted = _
          rw [hem, h.emitted]
          simp
        · exact hrest
        · exact h.committed
        · exact hfr
    · intro e d' hpost
      exact hpost
  · intro o s t junk _ ho
    refine hfeed o s t d.frontier (.resumeAt ps.length) _ ho ⟨ps ++ junk, f, rfl, hfr, ?_⟩
    show Resumable v.attn ((ps ++ junk).take ps.length) f
    rw [List.take_left]
    exact hres
  · intro o s t ps' _ ho
    simp only [wp_bind]
    refine wp_discardMtp hL ?_
    intro o' ho'
    have hview' : L.view o' = { v with pairs := none } := by
      rw [ho']
      show { L.view o with pairs := none } = _
      rw [ho]
    exact hfeed o' s t none .dead none hview' ⟨rfl, rfl⟩

/-! ## A round, and every run -/

theorem specDepth_alive (hL : Honours L) {k : Nat} (hk : d.specDepth = some k) :
    (L.view d.ops).pairs.isSome = true := by
  unfold specDepth at hk
  split at hk
  · cases hk
  · split at hk
    · cases hk
    · rename_i hcond
      rw [← hL.mtpAlive]
      simp only [Bool.or_eq_true, not_or, Bool.not_eq_true] at hcond
      simpa using hcond.1

theorem wp_continueRound (hL : Honours L) {x : TokenId} (h : Within L prompt before [x] d)
    (hm : MtpAligned (L.view d.ops) d.frontier) :
    wp (continueRound x) (RoundPost L prompt) (ExitPost L prompt) d := by
  have hordinary : wp (feedXTargetOnly x d.ordinaryMode true) (RoundPost L prompt)
      (ExitPost L prompt) d := wp_feedXTargetOnly hL h (ordinaryMode_ready hL hm)
  unfold continueRound
  rw [wp_bind, wp_get]
  split
  · exact wp_finalSlot hL h hm
  · split
    · rename_i k hk
      split
      · exact hordinary
      · obtain ⟨ps, f, hps, hf, hr⟩ := hm.alive (specDepth_alive hL hk)
        exact wp_speculativeRound hL h hps hf hr
    · exact hordinary

/-- One round from a state that meets the round-entry invariant. -/
theorem runRound_aligned (hL : Honours L) (h : Entry L prompt d) (x : TokenId) :
    wp (runRound x) (RoundPost L prompt) (ExitPost L prompt) d := by
  have hlen := h.all
  have hattn : (L.view d.ops).attn.map Prod.fst = prompt ++ d.emitter.emitted := by
    rw [h.committed.tokens, hlen, List.take_length]
  -- x emitted, nothing fed yet
  have hwithin : ∀ e b u, e.emitted = d.emitter.emitted ++ [x] →
      Within L prompt d.emitter.emitted [x] { d with emitter := e, budget := b, used := u } :=
    fun e b u he => ⟨he, hlen, hattn, h.committed.recur⟩
  have haligned : ∀ e b u rest, e.emitted = d.emitter.emitted ++ rest →
      Aligned L prompt { d with emitter := e, budget := b, used := u } := by
    intro e b u rest he
    refine ⟨⟨?_, ?_, h.committed.recur⟩, h.mtp⟩
    · show _ = prompt ++ e.emitted.take d.committedLen
      rw [he, hlen, List.take_left]
      exact hattn
    · show d.committedLen ≤ e.emitted.length
      rw [he, hlen, List.length_append]
      omega
  unfold runRound
  rw [wp_bind]
  refine wp_emit ?_ ?_
  · intro r e he
    cases r with
    | eos => exact (haligned e d.budget (d.used + 1) [x] he).post (by simp)
    | cancelled => exact (haligned e d.budget (d.used + 1) [x] he).post (by simp)
    | continue_ rawText =>
      simp only [wp_bind, countUsed, wp_modify]
      refine wp_observe ?_
      intro close b
      cases close with
      | none => exact wp_continueRound hL (hwithin e b _ he) h.mtp
      | some marker =>
        exact wp_forcedCloseAtX hL (hwithin e b _ he) h.mtp (haligned e b _ [x] he)
  · intro err e he
    exact haligned e d.budget d.used [] (by rw [he, List.append_nil])

end Rounds

/-- The end of a round that lets the decode loop go on. -/
def Continues (r : RoundEnd) : Prop := ∃ next, r = .continue_ next

/-- Every round of every run: an invalid-cache exit is due to an `Invalid` target operation or a
failed restore or truncation; when the round returns, and on every other error exit, the target caches hold exactly the prompt and the committed prefix of the
emitted ledger, the frontier is there exactly when the MTP module is alive and is then the
hidden of the last committed token, and the pairs are the shifted pairs of all committed
tokens. -/
theorem ledgers_aligned_after_round {L : Ledgers O} (hL : Honours L) {prompt : List TokenId}
    {start d : RoundDriver O} (hstart : Entry L prompt start)
    (hrun : Reached runRound Continues start d) (x : TokenId) :
    match runRound x d with
    | (.error (.invalidCache _), _) => TargetFails L
    | (_, d') =>
      (L.view d'.ops).attn.map Prod.fst =
          prompt ++ d'.emitter.emitted.take d'.committedLen ∧
        ((L.view d'.ops).hybrid = true → (L.view d'.ops).recur = (L.view d'.ops).attn) ∧
        d'.committedLen ≤ d'.emitter.emitted.length ∧
        (d'.frontier.isSome = RoundOps.mtpAlive d'.ops) ∧
        ∀ ps f, (L.view d'.ops).pairs = some ps → d'.frontier = some f →
          lastHidden (L.view d'.ops).attn = some f ∧
          ps.map (fun p => (p.1, some p.2)) = shifted (L.view d'.ops).attn ∧
          RoundOps.mtpPairs d'.ops = prompt.length + d'.committedLen - 1 := by
  have hentry : Entry L prompt d := by
    refine hrun.invariant hstart ?_
    intro i s hs
    refine wp_mono (runRound_aligned hL hs i) ?_ (fun _ _ _ => trivial)
    rintro a s' ⟨ha, hall⟩ ⟨next, rfl⟩
    exact ⟨ha, hall next rfl⟩
  have hwp := runRound_aligned hL hentry x
  have hfields : ∀ d' : RoundDriver O, Aligned L prompt d' →
      (L.view d'.ops).attn.map Prod.fst =
          prompt ++ d'.emitter.emitted.take d'.committedLen ∧
        ((L.view d'.ops).hybrid = true → (L.view d'.ops).recur = (L.view d'.ops).attn) ∧
        d'.committedLen ≤ d'.emitter.emitted.length ∧
        (d'.frontier.isSome = RoundOps.mtpAlive d'.ops) ∧
        ∀ ps f, (L.view d'.ops).pairs = some ps → d'.frontier = some f →
          lastHidden (L.view d'.ops).attn = some f ∧
          ps.map (fun p => (p.1, some p.2)) = shifted (L.view d'.ops).attn ∧
          RoundOps.mtpPairs d'.ops = prompt.length + d'.committedLen - 1 := by
    intro d' ha
    refine ⟨ha.committed.tokens, ha.committed.recur, ha.committed.le, ?_, ?_⟩
    · rw [hL.mtpAlive]
      cases hps : (L.view d'.ops).pairs with
      | none => rw [ha.mtp.dead hps]; rfl
      | some ps =>
        obtain ⟨_, f, _, hf, _⟩ := ha.mtp.alive (by rw [hps]; rfl)
        rw [hf]
        rfl
    · intro ps f hps hf
      have hm := ha.mtp
      rw [hf, mtpAligned_some hps] at hm
      refine ⟨hm.last, hm.pairs, ?_⟩
      have hlen := congrArg List.length ha.committed.tokens
      rw [List.length_map, List.length_append, List.length_take,
        Nat.min_eq_left ha.committed.le] at hlen
      rw [hL.mtpPairs d'.ops ps hps, hm.length, hlen]
  unfold wp at hwp
  rcases hr : runRound x d with ⟨(e | e) | r, d'⟩ <;> rw [hr] at hwp
  · exact hwp
  · exact hfields d' hwp
  · exact hfields d' hwp.1

end RoundDriver

end Emelex

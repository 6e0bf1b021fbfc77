import Emelex.Engine.LedgerRules
import Emelex.Engine.SpeculativeSampling

/-!
# The sampled decode round runs the sampler's programs

The driver holds a random source and passes it from call to call; `speculate` is one program over
ideal uniforms.  On a stream of numbers the stages of the driver are the stages of that program:
drafting is ancestral sampling of the draft rows, the decision is the acceptance program, and the
successor is drawn by `sample_from_probs`.

Principal results: `wp_draft_sampled`, `wp_decide_sampled`, `wp_draw_sampled`.
-/

set_option autoImplicit false

namespace Emelex

open Program ExactSampling

namespace RoundDriver

variable {K : Type} [Field K] [LinearOrder K] [ToString K] {O : Type} [RoundOps O (Uniforms K)]
  {d : RoundDriver O} {E : Exit → RoundDriver O → Prop}

/-- The stream that is left of the random source. -/
def stream (d : RoundDriver O) : Nat → K := d.sampler.rng.stream

/-- The state with another stream. -/
def withStream (d : RoundDriver O) (g : Nat → K) : RoundDriver O :=
  { d with sampler := { d.sampler with rng := ⟨g⟩ } }

theorem sampleFromProbs_run (s : Sampler (Uniforms K)) (row : List K) :
    Sampler.sampleFromProbs s row = (((ExactSampling.sampleFromProbs row).run s.rng.stream).1,
      { s with rng := ⟨((ExactSampling.sampleFromProbs row).run s.rng.stream).2⟩ }) := rfl

theorem verifyAcceptTrusted_run (s : Sampler (Uniforms K)) (drafts : List TokenId)
    (q p : List (List K)) :
    Sampler.verifyAcceptTrusted s drafts q p =
      (((verifyAcceptInner false drafts q p).run s.rng.stream).1.map
          fun v => (v.accepted, v.successorDist),
        { s with rng := ⟨((verifyAcceptInner false drafts q p).run s.rng.stream).2⟩ }) := rfl

theorem wp_sampleFromProbs {row : List K} {Q : Except Error TokenId → RoundDriver O → Prop}
    (hQ : ∀ r g, (ExactSampling.sampleFromProbs row).run d.stream = (r, g) →
      Q r (d.withStream g)) :
    wp (RoundDriver.sampleFromProbs (O := O) (G := Uniforms K) row) Q E d :=
  hQ _ _ rfl

theorem wp_draw_sampled {row : List K} {Q : TokenId → RoundDriver O → Prop}
    (hok : ∀ t g, (ExactSampling.sampleFromProbs row).run d.stream = (.ok t, g) →
      Q t { d.withStream g with ops := RoundOps.trace d.ops .successorSelect })
    (herr : ∀ e g, (ExactSampling.sampleFromProbs row).run d.stream = (.error e, g) →
      E (.exactPrefix e) { d.withStream g with ops := RoundOps.trace d.ops .successorSelect }) :
    wp (draw (.sampled row)) Q E d := by
  unfold draw
  rw [wp_bind, wp_modify]
  simp only [wp_bind]
  apply wp_sampleFromProbs
  intro r g hr
  cases r with
  | error e => exact herr e g hr
  | ok t => exact hok t g hr

theorem sampledRows_map : ∀ rows : List (List K),
    sampledRows (rows.map (Dist.sampled (G := Uniforms K))) = some rows
  | [] => rfl
  | row :: rows => by
    rw [List.map_cons, sampledRows, sampledRows_map rows]
    rfl

theorem wp_decide_sampled {drafts : List TokenId} {q p : List (List K)}
    {Q : Option (Verdict (Uniforms K)) → RoundDriver O → Prop} (hg : d.sampler.isGreedy = false)
    (hok : ∀ v g, (verifyAcceptInner false drafts q p).run d.stream = (.ok v, g) →
      Q (some ⟨v.accepted, .sampled v.successorDist⟩) (d.withStream g))
    (herr : ∀ e g, (verifyAcceptInner false drafts q p).run d.stream = (.error e, g) →
      Q none (d.withStream g)) :
    wp (decide drafts (q.map .sampled) (p.map .sampled)) Q E d := by
  unfold decide
  rw [wp_bind, wp_get, hg, sampledRows_map, sampledRows_map]
  simp only [Bool.false_eq_true, if_false, wp_bind]
  unfold verifyAccept
  rw [wp_call, verifyAcceptTrusted_run]
  rcases hr : (verifyAcceptInner false drafts q p).run d.sampler.rng.stream with ⟨e | v, g⟩
  · exact herr e g hr
  · exact hok v g hr

theorem ancestral_run_error {q : List TokenId → List K} {emitted : List TokenId} {g g' : Nat → K}
    {e : Error} (k : Nat) (h : (ExactSampling.sampleFromProbs (q emitted)).run g = (.error e, g')) :
    (ancestral q (k + 1) emitted).run g = (.error e, g') := by
  rw [ancestral, Draws.Draw.run_bind, h]
  rfl

theorem ancestral_run_ok {q : List TokenId → List K} {emitted : List TokenId} {g g' : Nat → K}
    {t : TokenId} (k : Nat) (h : (ExactSampling.sampleFromProbs (q emitted)).run g = (.ok t, g')) :
    (ancestral q (k + 1) emitted).run g = (ancestral q k (emitted ++ [t])).run g' := by
  rw [ancestral, Draws.Draw.run_bind, h]

/-- The draft rows `q` of an MTP module whose steps do not fail: after `ids` have been drafted,
the next step returns the row `q ids`. -/
def Drafts (q : List TokenId → List K) (I : List TokenId → O → Prop) : Prop :=
  ∀ (o : O) (ids : List TokenId) (id : TokenId) (prev : RoundOps.Hidden O) (s : Sampler (Uniforms K)),
    I ids o → ∃ h o', RoundOps.mtpStep o id prev s = (.ok (h, .sampled (q ids)), o') ∧
      ∀ t, I (ids ++ [t]) o'

theorem wp_draft_sampled {q : List TokenId → List K} {I : List TokenId → O → Prop}
    (hI : Drafts q I) {Q : DraftOutcome (Uniforms K) → RoundDriver O → Prop} :
    ∀ (k : Nat) (prevId : TokenId) (prev : RoundOps.Hidden O) (drafts : List TokenId)
      (d : RoundDriver O), I drafts d.ops →
      (∀ ids g o t, (ancestral q k drafts).run d.stream = (.ok ids, g) →
        Q (.drafted ids ((rowsAlong q [] ids).map .sampled))
          { d.withStream g with ops := o, stats := t }) →
      (∀ e g o t, (ancestral q k drafts).run d.stream = (.error e, g) →
        Q .resume { d.withStream g with ops := o, stats := t }) →
      wp (draft k prevId prev drafts ((rowsAlong q [] drafts).map .sampled)) Q E d
  | 0, _, _, drafts, d, _, hok, _ => hok drafts d.stream d.ops d.stats rfl
  | k + 1, prevId, prev, drafts, d, hinv, hok, herr => by
    obtain ⟨h, o', hstep, hnext⟩ := hI d.ops drafts prevId prev d.sampler hinv
    unfold draft
    rw [wp_bind]
    unfold mtpStep
    rw [wp_call, hstep]
    unfold draftDraw
    simp only [wp_bind]
    apply wp_sampleFromProbs
    intro r g hr
    cases r with
    | error e => exact herr e g _ d.stats (ancestral_run_error k hr)
    | ok t =>
      simp only [wp_bind, wp_modify]
      have hrows : (rowsAlong q [] drafts).map (Dist.sampled (G := Uniforms K)) ++
          [.sampled (q drafts)] =
            (rowsAlong q [] (drafts ++ [t])).map (Dist.sampled (G := Uniforms K)) := by
        rw [rowsAlong_append, List.map_append]
        rfl
      rw [hrows]
      have hrun : (ancestral q (k + 1) drafts).run d.stream =
          (ancestral q k (drafts ++ [t])).run g := ancestral_run_ok k hr
      rw [hrun] at hok herr
      exact wp_draft_sampled hI k t h (drafts ++ [t]) _ (hnext t)
        (fun ids g' o s => hok ids g' o s) (fun e g' o s => herr e g' o s)

end RoundDriver

end Emelex

import Mathlib.Data.Rat.Defs
import Emelex.Engine.TokenEmitter

/-!
# Token selection as the decode round uses it (`engine/sampling.rs`)

The greedy half of the sampler, and the interface of the sampled half.  Probability rows are
floating-point data that the decode round passes through without looking at them, so their type
and the two operations that read them belong to the random source (`RowSampler`); the exact
arithmetic of these operations is a module of its own.

Principal results: `verifyGreedy_spec` (the accepted drafts are the longest prefix that agrees
with the argmax row by row, and the successor is the first argmax after it).
-/

set_option autoImplicit false

namespace Emelex

/-- A random source with its probability rows. -/
class RowSampler (G : Type) where
  /-- One normalized probability row. -/
  Row : Type
  /-- `sample_from_probs`. -/
  sampleFromProbs : Row → G → Except Error TokenId × G
  /-- `verify_accept_trusted`: the acceptance depth and the undrawn successor row. -/
  verifyAcceptTrusted : List TokenId → List Row → List Row → G → Except Error (Nat × Row) × G

/-- `SamplingConfig`, the part that chooses between greedy and sampled decoding. -/
structure SamplingConfig where
  temperature : Rat
  deriving DecidableEq, Repr

/-- `Sampler`. -/
structure Sampler (G : Type) where
  config : SamplingConfig
  rng : G

/-- `SpecVerdict`. -/
structure SpecVerdict where
  accepted : Nat
  next : TokenId
  deriving DecidableEq, Repr

/-- `spec_err`. -/
def specErr (msg : String) : Error := .model ("sampling: " ++ msg)

namespace Sampler

variable {G : Type}

/-- `is_greedy`. -/
def isGreedy (s : Sampler G) : Bool := s.config.temperature ≤ 0

variable [RowSampler G]

/-- `sample_from_probs`. -/
def sampleFromProbs (s : Sampler G) (probs : RowSampler.Row G) :
    Except Error TokenId × Sampler G :=
  let r := RowSampler.sampleFromProbs probs s.rng
  (r.1, { s with rng := r.2 })

/-- `verify_accept_trusted`. -/
def verifyAcceptTrusted (s : Sampler G) (drafts : List TokenId)
    (draftProbs target : List (RowSampler.Row G)) :
    Except Error (Nat × RowSampler.Row G) × Sampler G :=
  let r := RowSampler.verifyAcceptTrusted drafts draftProbs target s.rng
  (r.1, { s with rng := r.2 })

@[simp] theorem sampleFromProbs_isGreedy (s : Sampler G) (probs : RowSampler.Row G) :
    (s.sampleFromProbs probs).2.isGreedy = s.isGreedy := rfl

end Sampler

/-- The loop of `verify_greedy`: position of the first draft that differs from its argmax. -/
def greedyMismatch : List TokenId → List TokenId → Nat
  | d :: drafts, t :: target => if d ≠ t then 0 else greedyMismatch drafts target + 1
  | _, _ => 0

/-- `verify_greedy`. -/
def verifyGreedy (drafts targetArgmax : List TokenId) : Except Error SpecVerdict :=
  if targetArgmax.length ≠ drafts.length + 1 then
    let entries := targetArgmax.length
    let count := drafts.length
    .error (specErr s!"verify_greedy() expects target_argmax.len() == drafts.len() + 1, got {entries} argmax entries for {count} drafts")
  else
    let i := greedyMismatch drafts targetArgmax
    .ok ⟨i, targetArgmax.getD i 0⟩

theorem greedyMismatch_le : ∀ drafts target : List TokenId,
    greedyMismatch drafts target ≤ drafts.length
  | [], _ => by simp [greedyMismatch]
  | d :: drafts, [] => by simp [greedyMismatch]
  | d :: drafts, t :: target => by
    have := greedyMismatch_le drafts target
    unfold greedyMismatch
    split
    · simp
    · simpa using this

/-- Before the mismatch the drafts are the argmax rows; at it, if it is a draft, they differ. -/
theorem greedyMismatch_spec : ∀ drafts target : List TokenId, drafts.length ≤ target.length →
    drafts.take (greedyMismatch drafts target) = target.take (greedyMismatch drafts target) ∧
      (greedyMismatch drafts target < drafts.length →
        drafts[greedyMismatch drafts target]? ≠ target[greedyMismatch drafts target]?)
  | [], _, _ => by simp [greedyMismatch]
  | d :: drafts, [], h => by simp at h
  | d :: drafts, t :: target, h => by
    obtain ⟨h1, h2⟩ := greedyMismatch_spec drafts target (by simpa using h)
    unfold greedyMismatch
    split
    · rename_i hne
      exact ⟨by simp, fun _ => by simpa using hne⟩
    · rename_i heq
      have heq := not_not.1 heq
      subst heq
      refine ⟨by simp [h1], ?_⟩
      intro hlt
      simpa using h2 (by simpa using hlt)

/-- The accepted drafts are the longest prefix that agrees with the argmax of every row, and
the successor is the argmax of the row after it. -/
theorem verifyGreedy_spec {drafts target : List TokenId}
    (h : target.length = drafts.length + 1) :
    ∃ v, verifyGreedy drafts target = .ok v ∧ v.accepted ≤ drafts.length ∧
      drafts.take v.accepted = target.take v.accepted ∧ target[v.accepted]? = some v.next ∧
      (v.accepted < drafts.length → drafts[v.accepted]? ≠ some v.next) := by
  have hle := greedyMismatch_le drafts target
  obtain ⟨h1, h2⟩ := greedyMismatch_spec drafts target (by omega)
  obtain ⟨t, ht⟩ : ∃ t, target[greedyMismatch drafts target]? = some t :=
    ⟨_, List.getElem?_eq_getElem (by omega)⟩
  refine ⟨⟨greedyMismatch drafts target, t⟩, ?_, hle, h1, ht, ?_⟩
  · unfold verifyGreedy
    rw [if_neg (not_not.2 h)]
    simp [ht]
  · intro hlt
    rw [← ht]
    exact h2 hlt

end Emelex

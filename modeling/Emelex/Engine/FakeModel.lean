import Emelex.Engine.CacheTransparency
import Emelex.Engine.FakeOps

/-!
# A model without arithmetic

The hidden of a row is the prefix that ends at it, the token after a prefix is `counting`, and
the MTP module predicts by `guessing`; the caches are the tokens fed.

Principal results: `FakeModel.prefixModel` (its forward is a function of the fed prefix), and a
conversation of three calls for prompt caching.
-/

set_option autoImplicit false

namespace Emelex

open ExactSampling

/-- The target caches: the tokens of the attention layers and of the recurrent state. -/
structure FakeCaches where
  attn : List TokenId
  recur : List TokenId
  deriving DecidableEq, Repr

/-- The MTP caches: the pairs fed. -/
structure FakeMtp where
  pairs : List (TokenId × List TokenId)
  deriving DecidableEq, Repr

namespace FakeModel

open FakeOps

/-- The caches after a feed. -/
def fed (c : FakeCaches) (ids : List TokenId) : FakeCaches := ⟨c.attn ++ ids, c.recur ++ ids⟩

/-- The error of an operation out of range. -/
def outOfRange : Error := .mlx "out of range"

instance : ModelOps FakeCaches FakeMtp Source where
  Hidden := List TokenId
  Logits := List TokenId
  Rollback := Nat × List TokenId
  Image := Unit
  Audio := Unit
  newCaches := ⟨[], []⟩
  newMtpCaches := ⟨[]⟩
  isPristine c := c.attn.isEmpty
  isHybrid _ := true
  offset c := c.attn.length
  wouldTrim _ _ := false
  rollbackState c := (c.attn.length, c.recur)
  rollback c s := (.ok (), ⟨c.attn.take s.1, s.2⟩)
  truncateTo c n :=
    if n ≤ c.attn.length then (.ok (), { c with attn := c.attn.take n }) else (.error outOfRange, c)
  forward ids c := (.ok (successors counting c.attn ids), fed c ids)
  forwardHidden ids c := (.ok (successors id c.attn ids, successors counting c.attn ids), fed c ids)
  forwardWithMedia ids _ _ c := (.ok (successors counting c.attn ids), fed c ids)
  forwardMtp ids prevs m :=
    (.ok (prevs, ids.map fun t => guessing (m.pairs.map Prod.fst ++ [t])),
      ⟨m.pairs ++ ids.zip prevs⟩)
  pairsFed m := m.pairs.length
  truncateMtp m n :=
    if n ≤ m.pairs.length then (.ok (), ⟨m.pairs.take n⟩) else (.error outOfRange, m)
  contiguous := .ok
  evalHidden _ := .ok ()
  evalLastLogits _ := .ok ()
  sampleLast logits sampler :=
    (logits.getLast?.elim (.error outOfRange) .ok, sampler)
  materializeDists logits _ := .ok (logits.map .greedy)
  rowDist logits row _ := logits[row]?.elim (.error outOfRange) fun t => .ok (.greedy t)

/-- What the caches hold. -/
def ledger : CacheLedger FakeCaches FakeMtp where
  attn := FakeCaches.attn
  recur := FakeCaches.recur
  pairs := FakeMtp.pairs
  snap s := s
  rows := List.length

/-- Its forward is a function of the fed prefix. -/
theorem prefixModel : PrefixModel ledger (fun ids => ids) where
  newCaches := ⟨rfl, rfl⟩
  newCaches_pristine := rfl
  newMtpCaches := rfl
  plain _ h := (by cases h)
  offset _ := rfl
  pairsFed _ := rfl
  forward ids c logits h := by
    obtain rfl := Except.ok.inj h
    exact ⟨⟨rfl, rfl, rfl⟩, successors_length _ _⟩
  forwardHidden ids c hs logits h := by
    obtain ⟨rfl, rfl⟩ := Prod.mk.inj (Except.ok.inj h)
    exact ⟨⟨rfl, rfl, rfl⟩, successors_length _ _, fun _ => rfl⟩
  forwardMtp _ _ _ _ _ := rfl
  rollbackState _ := rfl
  rollback _ _ _ := ⟨rfl, rfl, fun _ => rfl⟩
  truncateTo c n h := by
    show ledger.Cuts n c.recur c (if n ≤ c.attn.length then
      ((.ok () : Except Error Unit), { c with attn := c.attn.take n }) else (.error outOfRange, c)).2
    by_cases hn : n ≤ c.attn.length
    · rw [if_pos hn]
      exact ⟨rfl, rfl, fun _ => rfl⟩
    · have h : (if n ≤ c.attn.length then
        ((.ok () : Except Error Unit), { c with attn := c.attn.take n })
          else (.error outOfRange, c)).1 = .ok () := h
      rw [if_neg hn] at h
      cases h
  truncateMtp m n := by
    show (if n ≤ m.pairs.length then ((.ok () : Except Error Unit), (⟨m.pairs.take n⟩ : FakeMtp))
        else (.error outOfRange, m)).2.pairs =
      if (if n ≤ m.pairs.length then ((.ok () : Except Error Unit), (⟨m.pairs.take n⟩ : FakeMtp))
        else (.error outOfRange, m)).1.isOk then m.pairs.take n else m.pairs
    by_cases hn : n ≤ m.pairs.length
    · rw [if_pos hn]
      rfl
    · rw [if_neg hn]
      rfl
  contiguous _ _ h := (Except.ok.inj h).symm
  materializeDists logits _ ds h := by
    obtain rfl := Except.ok.inj h
    exact List.length_map _

/-! ## A conversation -/

/-- A session with one letter for each token. -/
def session : Session := ⟨letters, [2], .none, true, none⟩

/-- One turn: its prompt, the boundary of the transcript, and two drafts a round or none. -/
def turn (ids : List TokenId) (boundaryIds : Option (List TokenId)) (speculativeTokens : Option Nat) :
    Call FakeCaches FakeMtp where
  encoded := .ok (ids, ⟨[], []⟩, none)
  boundaryIds := boundaryIds
  options := ⟨6, 100, ⟨0⟩, none, none, speculativeTokens⟩
  cancellation := .disabled
  promptProgress := true
  prefillProgress := true
  onToken _ := true
  rng := ⟨fun _ => 0⟩
  clock := ⟨0, 0, 0, 0⟩

theorem turn_textOnly (ids : List TokenId) (boundaryIds : Option (List TokenId))
    (speculativeTokens : Option Nat) :
    Session.TextOnly (turn ids boundaryIds speculativeTokens) := by
  intro ids' media pending h
  obtain ⟨-, hmedia⟩ := Prod.mk.inj (Except.ok.inj h)
  obtain ⟨rfl, -⟩ := Prod.mk.inj hmedia
  rfl

/-- The pool. -/
def config : PromptCacheConfig := ⟨4, 1000, 10, 2⟩

/-- The first turn. -/
def opening : Call FakeCaches FakeMtp := turn [1, 5] none (some 2)

/-- The second turn extends the first by its reply and two tokens. -/
def followUp : Call FakeCaches FakeMtp :=
  turn [1, 5, 10, 13, 0, 3, 6, 9, 7, 8] (some [1, 5, 10, 13, 0, 3, 6, 9, 7]) (some 2)

/-- The second turn is served the eight tokens of the first. -/
example : (Session.generateCachedInner session followUp
    (Session.runCalls session [opening] ⟨.fromConfig config, 0⟩)).1.toOption.map
      (fun reply => reply.usage.cachedTokens) = some 8 := by
  decide +kernel

end FakeModel

end Emelex

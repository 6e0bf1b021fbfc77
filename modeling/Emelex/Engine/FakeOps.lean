import Emelex.Engine.Lossless
import Emelex.Engine.SampledRound

/-!
# The fake of the driver's tests (`engine/spec.rs`, `mod fake`)

`FakeOps` has no model: the hidden of a row is the prefix that ends at it, the token after a
prefix is given by a function, and the draft model is another function.  It keeps the ledgers
themselves (the source keeps one fed sequence, for attention and recurrent state alike), and has
neither the fault slots nor the event log of the tests.

Principal results: `FakeOps.honours` (it meets the error contract), `FakeOps.batchInvariant` (it
is batch-size invariant), and one run each of the two-ledger invariant and of lossless
speculation.
-/

set_option autoImplicit false

namespace Emelex

open RoundDriver ExactSampling

/-- `FakeOps`, with the functions of the target and of the draft model. -/
structure FakeOps (targetTok draftTok : List TokenId → TokenId) where
  vocab : Nat
  held : View (List TokenId)
  windowTrim : Bool

namespace FakeOps

variable {targetTok draftTok : List TokenId → TokenId}

/-- The random source of the fake. -/
abbrev Source := Uniforms Rat

/-- `one_hot`. -/
def oneHot (vocab : Nat) (t : TokenId) : List Rat :=
  (List.range vocab).map fun i => if i = t then 1 else 0

/-- `dist_for`. -/
def distFor (o : FakeOps targetTok draftTok) (greedy : Bool) (t : TokenId) : Dist Source :=
  if greedy then .greedy t else .sampled (oneHot o.vocab t)

/-- The tokens the target has been fed. -/
def fed (o : FakeOps targetTok draftTok) : List TokenId := o.held.attn.map Prod.fst

/-- `feed`. -/
def feed (o : FakeOps targetTok draftTok) (ids : List TokenId) (greedy : Bool) :
    (List (List TokenId) × List (Dist Source)) × FakeOps targetTok draftTok :=
  let hiddens := if o.held.pairs.isSome then successors id o.fed ids else []
  ((hiddens, (successors targetTok o.fed ids).map (o.distFor greedy)),
    { o with held := o.held.feed (rowsOf ids hiddens) })

/-- The error of a dead MTP module. -/
def dead : OpError Source := .mtpForward (internal "fake fault")

/-- `truncate_target`. -/
def truncateTarget (o : FakeOps targetTok draftTok) (n : Nat) :
    OpResult Source Unit × FakeOps targetTok draftTok :=
  if n ≤ o.held.attn.length then
    (.ok (), { o with held := { o.held with attn := o.held.attn.take n } })
  else (.error (.invalid (internal "fake fault")), o)

/-- `mtp_step`. -/
def mtpStep (o : FakeOps targetTok draftTok) (id : TokenId) (prev : List TokenId)
    (greedy : Bool) : OpResult Source (List TokenId × Dist Source) × FakeOps targetTok draftTok :=
  match o.held.pairs with
  | none => (.error dead, o)
  | some ps =>
    (.ok (id :: prev, o.distFor greedy (draftTok (ps.map Prod.fst ++ [id]))),
      { o with held := { o.held with pairs := some (ps ++ [(id, prev)]) } })

/-- `mtp_commit` and `mtp_truncate`: change the pairs of a live module. -/
def mtpUpdate (o : FakeOps targetTok draftTok)
    (f : List (TokenId × List TokenId) → List (TokenId × List TokenId)) :
    OpResult Source Unit × FakeOps targetTok draftTok :=
  match o.held.pairs with
  | none => (.error dead, o)
  | some ps => (.ok (), { o with held := { o.held with pairs := some (f ps) } })

instance : RoundOps (FakeOps targetTok draftTok) Source where
  Hidden := List TokenId
  Snapshot := Nat × List (FedRow (List TokenId))
  isHybrid o := o.held.hybrid
  targetPos o := o.held.attn.length
  windowWouldTrim o _ := o.windowTrim
  verifyFeed o ids sampler :=
    let r := o.feed ids sampler.isGreedy
    (.ok r.1, r.2)
  replayFeed o ids want sampler :=
    let r := o.feed ids sampler.isGreedy
    (.ok (r.1.1, if want then r.1.2.getLast? else none), r.2)
  capture o := (o.held.attn.length, o.held.recur)
  restore o snap := (.ok (), { o with held :=
    { o.held with attn := o.held.attn.take snap.1, recur := snap.2 } })
  truncateTarget := truncateTarget
  mtpAlive o := o.held.pairs.isSome
  mtpPairs o := (o.held.pairs.getD []).length
  mtpStep o id prev sampler := o.mtpStep id prev sampler.isGreedy
  mtpCommit o ids prevs := o.mtpUpdate (· ++ ids.zip prevs)
  mtpTruncate o n := o.mtpUpdate (·.take n)
  mtpDiscard o := { o with held := { o.held with pairs := none } }
  trace o _ := o

/-- The ledgers are the state. -/
def ledgers : Ledgers (FakeOps targetTok draftTok) where
  view o := o.held
  snap s := s

theorem feed_hiddens (o : FakeOps targetTok draftTok) (ids : List TokenId) (greedy : Bool)
    (halive : o.held.pairs.isSome = true) : (o.feed ids greedy).1.1.length = ids.length := by
  unfold feed
  rw [if_pos halive]
  exact successors_length _ _

theorem truncateTarget_spec (o : FakeOps targetTok draftTok) (n : Nat) :
    ((truncateTarget o n).1 = .ok () →
        o.held.Cut n o.held.recur (truncateTarget o n).2.held) ∧
      (n ≤ o.held.attn.length → (truncateTarget o n).1 = .ok ()) := by
  unfold truncateTarget
  split
  · exact ⟨fun _ => ⟨rfl, rfl, rfl, fun _ => rfl⟩, fun _ => rfl⟩
  · rename_i hn
    exact ⟨fun h => (by cases h), fun h => absurd h hn⟩

theorem mtpStep_spec (o : FakeOps targetTok draftTok) (id : TokenId) (prev : List TokenId)
    (greedy : Bool) : MtpContract o.held (o.held.pairs.map (· ++ [(id, prev)]))
      (o.mtpStep id prev greedy).1 (o.mtpStep id prev greedy).2.held := by
  obtain ⟨vocab, ⟨hybrid, attn, recur, pairs⟩, windowTrim⟩ := o
  cases pairs with
  | none => exact ⟨none, rfl⟩
  | some ps => rfl

theorem mtpUpdate_spec (o : FakeOps targetTok draftTok)
    (f : List (TokenId × List TokenId) → List (TokenId × List TokenId)) :
    MtpContract o.held (o.held.pairs.map f) (o.mtpUpdate f).1 (o.mtpUpdate f).2.held := by
  obtain ⟨vocab, ⟨hybrid, attn, recur, pairs⟩, windowTrim⟩ := o
  cases pairs with
  | none => exact ⟨none, rfl⟩
  | some ps => rfl

/-- The fake meets the error contract. -/
theorem honours : Honours (ledgers : Ledgers (FakeOps targetTok draftTok)) where
  isHybrid _ := rfl
  targetPos _ := rfl
  mtpAlive _ := rfl
  mtpPairs o ps h := by
    show (o.held.pairs.getD []).length = _
    rw [show o.held.pairs = some ps from h]
    rfl
  verifyFeed o ids sampler _ :=
    ⟨_, rowsOf_fst _ _, rfl, fun halive => ⟨o.feed_hiddens ids _ halive, rfl⟩⟩
  verifyFeed_dists o ids sampler hs ds h := by
    have hds : (o.feed ids sampler.isGreedy).1.2 = ds := congrArg Prod.snd (Except.ok.inj h)
    rw [← hds]
    unfold feed
    rw [List.length_map, successors_length]
  replayFeed o ids want sampler _ :=
    ⟨_, rowsOf_fst _ _, rfl, fun halive => ⟨o.feed_hiddens ids sampler.isGreedy halive, rfl⟩⟩
  capture _ := rfl
  restore _ _ _ := ⟨rfl, rfl, rfl, fun _ => rfl⟩
  truncateTarget o n := (truncateTarget_spec o n).1
  mtpStep o id prev sampler := o.mtpStep_spec id prev _
  mtpCommit o ids prevs := o.mtpUpdate_spec _
  mtpTruncate o n := o.mtpUpdate_spec _
  mtpDiscard _ := rfl
  trace _ _ := rfl

/-- Its rows depend on the fed prefix alone. -/
theorem batchInvariant :
    BatchInvariant (ledgers : Ledgers (FakeOps targetTok draftTok)) targetTok where
  verifyFeed_ok _ _ _ := ⟨_, rfl⟩
  replayFeed_ok _ _ _ _ := ⟨_, rfl⟩
  restore_ok _ _ _ := rfl
  truncateTarget_ok o n h := (truncateTarget_spec o n).2 h
  verifyFeed_rows o ids sampler hs ds hg _ h := by
    have hds : (o.feed ids sampler.isGreedy).1.2 = ds := congrArg Prod.snd (Except.ok.inj h)
    rw [← hds, hg]
    rfl
  replayFeed_row o ids sampler hs d hg _ hne h := by
    have hd : (o.feed ids sampler.isGreedy).1.2.getLast? = d := congrArg Prod.snd (Except.ok.inj h)
    have hpos : 0 < ids.length := List.length_pos_iff.2 hne
    rw [← hd, hg]
    show ((successors targetTok o.fed ids).map Dist.greedy).getLast? = _
    rw [List.getLast?_map, List.getLast?_eq_getElem?, successors_length,
      successors_getElem? (by omega), Nat.sub_add_cancel hpos, List.take_length]
    rfl

/-! ## A run -/

/-- One letter for each token. -/
def letters : Tokenizer where
  encode text := .ok (text.map fun c => c.toNat - 97)
  decode ids := .ok (ids.map fun id => Char.ofNat (id + 97))
  decodeRaw ids := .ok (ids.map fun id => Char.ofNat (id + 97))

/-- A target and a draft model that agree on two prefixes out of three. -/
def counting (ids : List TokenId) : TokenId := (3 * ids.length + 4) % 16

/-- The draft model. -/
def guessing (ids : List TokenId) : TokenId :=
  if ids.length % 3 = 2 then 0 else counting (0 :: ids)

/-- A driver after the prompt `[1, 5]`, with a callback that cancels at its tenth call. -/
def fresh (specK : Option Nat) : RoundDriver (FakeOps counting guessing) :=
  new
    ⟨16, ⟨true, rowsOf [1, 5] [[1], [1, 5]], rowsOf [1, 5] [[1], [1, 5]], some [(5, [1])]⟩, false⟩
    (TokenEmitter.new letters [2] (.new .none) fun calls => calls.length < 10)
    none ⟨⟨0⟩, ⟨fun _ => 0⟩⟩ 8 specK (some [1, 5])

theorem fresh_entry (specK : Option Nat) : Entry ledgers [1, 5] (fresh specK) where
  committed := ⟨rfl, Nat.le_refl _, fun _ => rfl⟩
  mtp := ⟨rfl, rfl⟩
  all := rfl

theorem fresh_greedy (specK : Option Nat) : (fresh specK).sampler.isGreedy = true := by
  unfold fresh new Sampler.isGreedy
  simp

/-- The two-ledger invariant after the first round. -/
theorem ledgers_aligned_fresh :
    match runRound 10 (fresh (some 2)) with
    | (.error (.invalidCache _), _) => TargetFails (ledgers : Ledgers (FakeOps counting guessing))
    | (_, d) =>
      (ledgers.view d.ops).attn.map Prod.fst = [1, 5] ++ d.emitter.emitted.take d.committedLen ∧
        ((ledgers.view d.ops).hybrid = true → (ledgers.view d.ops).recur = (ledgers.view d.ops).attn) ∧
        d.committedLen ≤ d.emitter.emitted.length ∧
        (d.frontier.isSome = RoundOps.mtpAlive d.ops) ∧
        ∀ ps f, (ledgers.view d.ops).pairs = some ps → d.frontier = some f →
          lastHidden (ledgers.view d.ops).attn = some f ∧
          ps.map (fun p => (p.1, some p.2)) = shifted (ledgers.view d.ops).attn ∧
          RoundOps.mtpPairs d.ops = [1, 5].length + d.committedLen - 1 :=
  ledgers_aligned_after_round honours (fresh_entry (some 2)) .start 10

/-- Two drafts a round, or none: the same run. -/
theorem speculation_lossless_fresh :
    (decodeLoop 8 10 (fresh (some 2))).1 = (decodeLoop 8 10 (fresh none)).1 ∧
      (decodeLoop 8 10 (fresh (some 2))).2.emitter = (decodeLoop 8 10 (fresh none)).2.emitter := by
  have h := speculation_lossless honours batchInvariant (fresh_entry (some 2)) (fresh_entry none)
    (fresh_greedy (some 2)) (fresh_greedy none) (Nat.le_refl 8) (Nat.le_refl 8) 10
  obtain ⟨hend, -, hemitter, -⟩ := h
  unfold fresh
  exact ⟨hend, hemitter⟩

end FakeOps

end Emelex

import Emelex.Engine.Sampling

/-!
# The seam between the round driver and the model (`engine/spec.rs`)

`RoundOps` is the trait as the source declares it: a state type with its operations.  An
operation returns its `OpResult` and the state it leaves.

The error contract of the trait speaks about what the caches hold.  `Ledgers` names that: the
rows the attention layers hold, the rows the recurrent state has absorbed, the pairs of the MTP
module, and what a snapshot stands for.  A row is a fed token with the hidden that the feed
returned for it (`none` when it returned none).  `Honours` is the contract: what each operation
does to the ledgers on success and on a host failure; after `Invalid` nothing is promised.

Principal results: `View.feed_feed` (two feeds are one), `rowsOf_append`, `shifted_append` (the
pairs a longer ledger calls for).
-/

set_option autoImplicit false

namespace Emelex

/-- `Dist`: what is known about the token after a row. -/
inductive Dist (G : Type) [RowSampler G] where
  | greedy (t : TokenId)
  | sampled (p : RowSampler.Row G)

/-- `OpError`. -/
inductive OpError (G : Type) [RowSampler G] where
  /-- A target forward failed mid-mutation. -/
  | invalid (e : Error)
  /-- The MTP forward failed. -/
  | mtpForward (e : Error)
  /-- A host-side operation failed after every structural cache mutation of the call. -/
  | host (error : Error) (salvage : List (Dist G))

/-- `OpError::into_error`. -/
def OpError.intoError {G : Type} [RowSampler G] : OpError G → Error
  | .invalid e => e
  | .mtpForward e => e
  | .host e _ => e

/-- `OpResult`. -/
abbrev OpResult (G : Type) [RowSampler G] (α : Type) := Except (OpError G) α

/-- `TraceEvent`. -/
inductive TraceEvent where
  | successorSelect
  deriving DecidableEq, Repr

/-- `RoundOps`. -/
class RoundOps (O : Type) (G : outParam Type) [RowSampler G] where
  Hidden : Type
  Snapshot : Type
  isHybrid : O → Bool
  targetPos : O → Nat
  windowWouldTrim : O → Nat → Bool
  verifyFeed : O → List TokenId → Sampler G → OpResult G (List Hidden × List (Dist G)) × O
  replayFeed : O → List TokenId → Bool → Sampler G →
    OpResult G (List Hidden × Option (Dist G)) × O
  capture : O → Snapshot
  restore : O → Snapshot → OpResult G Unit × O
  truncateTarget : O → Nat → OpResult G Unit × O
  mtpAlive : O → Bool
  mtpPairs : O → Nat
  mtpStep : O → TokenId → Hidden → Sampler G → OpResult G (Hidden × Dist G) × O
  mtpCommit : O → List TokenId → List Hidden → OpResult G Unit × O
  mtpTruncate : O → Nat → OpResult G Unit × O
  mtpDiscard : O → O
  trace : O → TraceEvent → O

/-! ## Ledgers -/

section Ledger

variable {H : Type}

/-- A fed token with the hidden its feed returned. -/
abbrev FedRow (H : Type) := TokenId × Option H

/-- The rows that a feed of `ids` adds, given the hiddens it returned. -/
def rowsOf : List TokenId → List H → List (FedRow H)
  | [], _ => []
  | id :: ids, hs => (id, hs.head?) :: rowsOf ids hs.tail

/-- The shifted pairs of a ledger: token `i` with the hidden of row `i - 1`. -/
def shifted (rows : List (FedRow H)) : List (TokenId × Option H) :=
  (rows.tail.map Prod.fst).zip (rows.map Prod.snd)

/-- What the caches hold. -/
structure View (H : Type) where
  hybrid : Bool
  /-- Rows the attention layers hold. -/
  attn : List (FedRow H)
  /-- Rows the recurrent state has absorbed. -/
  recur : List (FedRow H)
  /-- Pairs of the MTP module, `none` when it is dead. -/
  pairs : Option (List (TokenId × H))

/-- The recurrent state is in step with the attention layers. -/
def View.Synced (v : View H) : Prop := v.hybrid = true → v.recur = v.attn

/-- The target caches after a feed. -/
def View.feed (v : View H) (rows : List (FedRow H)) : View H :=
  { v with attn := v.attn ++ rows, recur := v.recur ++ rows }

@[simp] theorem View.feed_hybrid (v : View H) (rows : List (FedRow H)) :
    (v.feed rows).hybrid = v.hybrid := rfl

@[simp] theorem View.feed_attn (v : View H) (rows : List (FedRow H)) :
    (v.feed rows).attn = v.attn ++ rows := rfl

@[simp] theorem View.feed_recur (v : View H) (rows : List (FedRow H)) :
    (v.feed rows).recur = v.recur ++ rows := rfl

@[simp] theorem View.feed_pairs (v : View H) (rows : List (FedRow H)) :
    (v.feed rows).pairs = v.pairs := rfl

theorem View.feed_feed (v : View H) (a b : List (FedRow H)) :
    (v.feed a).feed b = v.feed (a ++ b) := by
  simp [View.feed]

@[simp] theorem rowsOf_nil (hs : List H) : rowsOf [] hs = [] := rfl

@[simp] theorem rowsOf_fst (ids : List TokenId) (hs : List H) :
    (rowsOf ids hs).map Prod.fst = ids := by
  induction ids generalizing hs with
  | nil => rfl
  | cons id ids ih => simp [rowsOf, ih]

@[simp] theorem rowsOf_length (ids : List TokenId) (hs : List H) :
    (rowsOf ids hs).length = ids.length := by
  have := congrArg List.length (rowsOf_fst ids hs)
  rwa [List.length_map] at this

theorem rowsOf_snd {ids : List TokenId} {hs : List H} (h : hs.length = ids.length) :
    (rowsOf ids hs).map Prod.snd = hs.map some := by
  induction ids generalizing hs with
  | nil => cases hs <;> simp_all
  | cons id ids ih =>
    cases hs with
    | nil => simp at h
    | cons x hs => simp [rowsOf, ih (by simpa using h)]

theorem rowsOf_append {a b : List TokenId} {x y : List H} (h : x.length = a.length) :
    rowsOf (a ++ b) (x ++ y) = rowsOf a x ++ rowsOf b y := by
  induction a generalizing x with
  | nil => cases x <;> simp_all
  | cons id a ih =>
    cases x with
    | nil => simp at h
    | cons h0 x => simp [rowsOf, ih (by simpa using h)]

theorem rowsOf_take {ids : List TokenId} {hs : List H} (n : Nat) :
    (rowsOf ids hs).take n = rowsOf (ids.take n) (hs.take n) := by
  induction ids generalizing hs n with
  | nil => simp
  | cons id ids ih =>
    cases n with
    | zero => simp
    | succ n =>
      cases hs <;> simp [rowsOf, ih]

/-- The pairs of a longer ledger: the new tokens with the hiddens before them. -/
theorem shifted_append {rows new : List (FedRow H)} {h : Option H}
    (hl : rows.getLast?.map Prod.snd = some h) :
    shifted (rows ++ new) =
      shifted rows ++ (new.map Prod.fst).zip (h :: new.map Prod.snd) := by
  induction rows with
  | nil => simp at hl
  | cons r rows ih =>
    cases rows with
    | nil =>
      have : r.2 = h := by simpa using hl
      cases new <;> simp [shifted, this]
    | cons r' rows =>
      have ih := ih (by simpa using hl)
      simp only [shifted, List.cons_append, List.tail_cons, List.map_cons, List.zip_cons_cons]
        at ih ⊢
      simp only [ih]

theorem shifted_length (rows : List (FedRow H)) : (shifted rows).length = rows.length - 1 := by
  simp [shifted]

end Ledger

/-! ## The error contract -/

section Contract

variable {O G : Type} [RowSampler G] [RoundOps O G]

/-- What the state of an implementation and its snapshots stand for. -/
structure Ledgers (O : Type) {G : Type} [RowSampler G] [RoundOps O G] where
  view : O → View (RoundOps.Hidden O)
  /-- Attention offset and recurrent rows of a snapshot. -/
  snap : RoundOps.Snapshot O → Nat × List (FedRow (RoundOps.Hidden O))

/-- What a target feed promises of caches in step: the tokens become rows of the target, also before a host
failure; on success, while the MTP module is alive, the rows are those of the returned hiddens,
one each; a target feed runs no MTP forward. -/
def FeedContract {α H : Type} (v : View H) (ids : List TokenId) (hiddens : α → List H)
    (r : OpResult G α) (v' : View H) : Prop :=
  v.Synced → match r with
  | .ok a => ∃ rows, rows.map Prod.fst = ids ∧ v' = v.feed rows ∧
      (v.pairs.isSome → (hiddens a).length = ids.length ∧ rows = rowsOf ids (hiddens a))
  | .error (.host _ _) => ∃ rows, rows.map Prod.fst = ids ∧ v' = v.feed rows
  | .error (.invalid _) => True
  | .error (.mtpForward _) => False

/-- `v'` is `v` with the attention layers cut to `n` rows, and with `recur` absorbed where there
is a recurrent state. -/
structure View.Cut {H : Type} (v : View H) (n : Nat) (recur : List (FedRow H)) (v' : View H) :
    Prop where
  attn : v'.attn = v.attn.take n
  hybrid : v'.hybrid = v.hybrid
  pairs : v'.pairs = v.pairs
  recur : v.hybrid = true → v'.recur = recur

/-- What an MTP operation promises: the target is left alone; on success the pairs become `ps`,
and a host failure loses no pair. -/
def MtpContract {α H : Type} (v : View H) (ps : Option (List (TokenId × H)))
    (r : OpResult G α) (v' : View H) : Prop :=
  match r with
  | .ok _ => v' = { v with pairs := ps }
  | .error (.host _ _) => ∃ more, v' = { v with pairs := v.pairs.map (· ++ more) }
  | .error _ => ∃ ps', v' = { v with pairs := ps' }

/-- The documented contract of `RoundOps`, over the ledgers `L`. -/
structure Honours (L : Ledgers O) : Prop where
  isHybrid : ∀ o : O, RoundOps.isHybrid o = (L.view o).hybrid
  targetPos : ∀ o : O, RoundOps.targetPos o = (L.view o).attn.length
  mtpAlive : ∀ o : O, RoundOps.mtpAlive o = (L.view o).pairs.isSome
  mtpPairs : ∀ (o : O) ps, (L.view o).pairs = some ps → RoundOps.mtpPairs o = ps.length
  verifyFeed : ∀ (o : O) ids sampler,
    FeedContract (L.view o) ids (fun a => a.1) (RoundOps.verifyFeed o ids sampler).1
      (L.view (RoundOps.verifyFeed o ids sampler).2)
  verifyFeed_dists : ∀ (o : O) ids sampler hs ds,
    (RoundOps.verifyFeed o ids sampler).1 = .ok (hs, ds) → ds.length = ids.length
  replayFeed : ∀ (o : O) ids want sampler,
    FeedContract (L.view o) ids (fun a => a.1) (RoundOps.replayFeed o ids want sampler).1
      (L.view (RoundOps.replayFeed o ids want sampler).2)
  capture : ∀ o : O, L.snap (RoundOps.capture o) = ((L.view o).attn.length, (L.view o).recur)
  /-- Attention rolls back by its offset, the recurrent state by value. -/
  restore : ∀ (o : O) s, (RoundOps.restore o s).1 = .ok () →
    (L.view o).Cut (L.snap s).1 (L.snap s).2 (L.view (RoundOps.restore o s).2)
  truncateTarget : ∀ (o : O) n, (RoundOps.truncateTarget o n).1 = .ok () →
    (L.view o).Cut n (L.view o).recur (L.view (RoundOps.truncateTarget o n).2)
  mtpStep : ∀ (o : O) id prev sampler,
    MtpContract (L.view o) ((L.view o).pairs.map (· ++ [(id, prev)]))
      (RoundOps.mtpStep o id prev sampler).1 (L.view (RoundOps.mtpStep o id prev sampler).2)
  mtpCommit : ∀ (o : O) ids prevs,
    MtpContract (L.view o) ((L.view o).pairs.map (· ++ ids.zip prevs))
      (RoundOps.mtpCommit o ids prevs).1 (L.view (RoundOps.mtpCommit o ids prevs).2)
  mtpTruncate : ∀ (o : O) n,
    MtpContract (L.view o) ((L.view o).pairs.map (·.take n))
      (RoundOps.mtpTruncate o n).1 (L.view (RoundOps.mtpTruncate o n).2)
  mtpDiscard : ∀ o : O, L.view (RoundOps.mtpDiscard o) = { L.view o with pairs := none }
  trace : ∀ (o : O) event, L.view (RoundOps.trace o event) = L.view o

end Contract

end Emelex

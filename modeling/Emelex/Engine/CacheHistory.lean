import Emelex.Engine.KvCache
import Emelex.Lib.Machine
import Mathlib.Algebra.Order.Ring.Nat

/-!
# A cache against the history it was fed

The specification of a `KvCache` is the plain list of the rows fed to it: an append extends the
list, `truncate_to(n)` cuts it to length `n`.

* `Op`, `step` — the operations on a cache, in range; `history` — the specification.
* `Inv.truncateTo` — a rollback keeps the invariant of the cache, for the shorter history.
* `Tracks` — what holds of the cache after every run of operations.

Principal results: `cache_refines_history` (after every run the cache shows the history, and every
operation in range succeeds).
-/

set_option autoImplicit false

namespace Emelex

open Machine

namespace KvCache

variable {κ ν : Type}

/-! ## Operations -/

/-- An operation that changes a cache. -/
inductive Op (κ ν : Type) where
  | append (chunk : KvChunk κ ν)
  | truncate (n : Nat)

/-- The rows of the history after an operation. -/
def Op.apply (H : List (κ × ν)) : Op κ ν → List (κ × ν)
  | .append chunk => H ++ chunk.rows
  | .truncate n => H.take n

/-- The logical history after a list of operations. -/
def history (ops : List (Op κ ν)) : List (κ × ν) := ops.foldl Op.apply []

/-- An operation in range: a chunk is not empty, a rollback goes to a retained position. -/
def InRange (c : KvCache κ ν) : Op κ ν → Prop
  | .append chunk => 0 < chunk.added
  | .truncate n => c.start ≤ n ∧ n ≤ c.offset

/-- One operation on the cache; `none` when it returns an error. -/
def step [Zero κ] [Zero ν] (c : KvCache κ ν) : Op κ ν → Option (KvCache κ ν)
  | .append chunk => (c.updateAndFetch chunk).toOption.map Prod.fst
  | .truncate n => (c.truncateTo n).toOption

/-- A cache that was just made, with or without a window. -/
def Fresh (c : KvCache κ ν) : Prop := c = new ∨ ∃ window, c = windowed window

/-! ## What a cache shows of a history -/

/-- The cache stands for the history `H`. -/
structure Shows (H : List (κ × ν)) (c : KvCache κ ν) : Prop where
  offset : c.offset = H.length
  start : c.start ≤ c.offset
  keys : slice (c.keys.getD []) 0 (c.offset - c.start) = (slice H c.start c.offset).map Prod.fst
  values : slice (c.values.getD []) 0 (c.offset - c.start) =
    (slice H c.start c.offset).map Prod.snd
  unwindowed : c.window = none → c.start = 0

/-- What an append that leads to the history `H` and the cache `c` returns: the last rows of the
history, at least the `added` new ones; and what the cache retains. -/
structure Fetched (H : List (κ × ν)) (c : KvCache κ ν) (added : Nat) (keys : List κ)
    (values : List ν) : Prop where
  keys_eq : keys = (slice H (H.length - keys.length) H.length).map Prod.fst
  values_eq : values = (slice H (H.length - keys.length) H.length).map Prod.snd
  added_le : added ≤ keys.length
  whole : c.window = none → keys = H.map Prod.fst ∧ values = H.map Prod.snd
  bounded : ∀ window, c.window = some window →
    c.offset - c.start ≤ window + KV_GROWTH_STEP

theorem slice_length_eq {α : Type} (a : List α) (i : Nat) : slice a i a.length = a.drop i := by
  unfold slice
  exact List.take_of_length_le (by simp)

theorem Inv.shows {H : List (κ × ν)} {c : KvCache κ ν} (h : Inv H c)
    (hwindow : c.window = none → c.start = 0) : Shows H c := by
  have hoffset := h.offset_eq
  obtain ⟨restK, hk⟩ := h.keys
  obtain ⟨restV, hv⟩ := h.values
  have hlenK : ((H.drop c.start).map Prod.fst).length = c.offset - c.start := by simp [hoffset]
  have hlenV : ((H.drop c.start).map Prod.snd).length = c.offset - c.start := by simp [hoffset]
  refine ⟨hoffset, h.start_le, ?_, ?_, hwindow⟩
  · rw [slice_zero, hk, ← hlenK, List.take_left, hoffset, slice_length_eq]
  · rw [slice_zero, hv, ← hlenV, List.take_left, hoffset, slice_length_eq]

/-- A rollback leaves the rows below the new offset where they are. -/
theorem Holds.take {α : Type} {b : Option (List α)} {rows : List α} (h : Holds b rows) (n : Nat) :
    Holds b (rows.take n) := by
  obtain ⟨rest, hrest⟩ := h
  exact ⟨rows.drop n ++ rest, by rw [hrest, ← List.append_assoc, List.take_append_drop]⟩

theorem Inv.truncateTo {H : List (κ × ν)} {c : KvCache κ ν} (h : Inv H c) {n : Nat}
    (hstart : c.start ≤ n) (hn : n ≤ c.offset) :
    c.truncateTo n = .ok { c with offset := n } ∧ Inv (H.take n) { c with offset := n } := by
  have hoffset := h.offset_eq
  have hdrop : (H.take n).drop c.start = (H.drop c.start).take (n - c.start) :=
    List.drop_take
  refine ⟨?_, ?_, hstart, ?_, ?_, h.same_capacity⟩
  · unfold KvCache.truncateTo
    rw [if_neg (by omega), if_neg (by omega)]
  · rw [List.length_take]
    show n = _
    omega
  · show Holds c.keys (((H.take n).drop c.start).map Prod.fst)
    rw [hdrop, List.map_take]
    exact h.keys.take _
  · show Holds c.values (((H.take n).drop c.start).map Prod.snd)
    rw [hdrop, List.map_take]
    exact h.values.take _

/-- Without a window nothing is dropped. -/
theorem trimDrop_unwindowed {c : KvCache κ ν} (hwindow : c.window = none) (added : Nat) :
    c.trimDrop added = 0 := by
  unfold trimDrop
  rw [hwindow]

/-- What holds of the cache after a run of operations. -/
structure Tracks (c₀ : KvCache κ ν) (H : List (κ × ν)) (c : KvCache κ ν) : Prop where
  inv : Inv H c
  window : c.window = c₀.window
  unwindowed : c.window = none → c.start = 0

theorem tracks_fresh {c₀ : KvCache κ ν} (hfresh : Fresh c₀) : Tracks c₀ [] c₀ := by
  rcases hfresh with rfl | ⟨window, rfl⟩
  · exact ⟨inv_new, rfl, fun _ => rfl⟩
  · exact ⟨inv_windowed window, rfl, fun _ => rfl⟩

theorem Tracks.truncateTo {c₀ : KvCache κ ν} {H : List (κ × ν)} {c : KvCache κ ν}
    (h : Tracks c₀ H c) {n : Nat} (hstart : c.start ≤ n) (hn : n ≤ c.offset) :
    ∃ c', c.truncateTo n = .ok c' ∧ Tracks c₀ (H.take n) c' ∧ c'.offset = n ∧
      c'.start = c.start := by
  obtain ⟨htruncate, hinv⟩ := h.inv.truncateTo hstart hn
  exact ⟨_, htruncate, ⟨hinv, h.window, h.unwindowed⟩, rfl, rfl⟩

section Run

variable [Zero κ] [Zero ν]

/-- After a trim for no new rows the cache retains at most its window and the growth slack. -/
theorem retained_trimToWindow {c : KvCache κ ν} {window : Nat} (hwindow : c.window = some window) :
    (c.trimToWindow 0).offset - (c.trimToWindow 0).start ≤ window + KV_GROWTH_STEP := by
  rw [trimToWindow_offset, trimToWindow_start]
  unfold trimDrop retained
  rw [hwindow]
  simp only
  split <;> omega

/-- An append succeeds, and returns the last rows of the longer history. -/
theorem Tracks.updateAndFetch {c₀ : KvCache κ ν} {H : List (κ × ν)} {c : KvCache κ ν}
    (h : Tracks c₀ H c) (chunk : KvChunk κ ν) (hadd : 0 < chunk.added) :
    ∃ c' keys values, c.updateAndFetch chunk = .ok (c', keys, values) ∧
      Tracks c₀ (H ++ chunk.rows) c' ∧ Fetched (H ++ chunk.rows) c' chunk.added keys values := by
  obtain ⟨c', hfetch, hinv, hwindow, hstart, hoffset⟩ := updateAndFetch_spec h.inv chunk hadd
  have hlength : (H ++ chunk.rows).length = c.offset + chunk.added := by
    rw [List.length_append, chunk.rows_length, h.inv.offset_eq]
  have hdropped : c.start + c.trimDrop chunk.added ≤ c.offset := by
    have hle := c.trimDrop_le chunk.added
    have hstart := h.inv.start_le
    unfold retained at hle
    omega
  have htracks : Tracks c₀ (H ++ chunk.rows) (c'.trimToWindow 0) := by
    refine ⟨hinv.trimToWindow 0, ?_, fun hnone => ?_⟩
    · rw [trimToWindow_window, hwindow, h.window]
    · rw [trimToWindow_window] at hnone
      have hsame : c.window = none := hwindow ▸ hnone
      rw [trimToWindow_start, hstart, trimDrop_unwindowed hnone, trimDrop_unwindowed hsame,
        h.unwindowed hsame]
  refine ⟨_, _, _, hfetch, htracks, ?_⟩
  have hkeys : (((H ++ chunk.rows).drop (c.start + c.trimDrop chunk.added)).map Prod.fst).length =
      (H ++ chunk.rows).length - (c.start + c.trimDrop chunk.added) := by simp
  have hback : (H ++ chunk.rows).length - ((H ++ chunk.rows).length -
      (c.start + c.trimDrop chunk.added)) = c.start + c.trimDrop chunk.added := by omega
  refine ⟨?_, ?_, ?_, fun hnone => ?_, fun window hw => ?_⟩
  · rw [hkeys, hback, slice_length_eq]
  · rw [hkeys, hback, slice_length_eq]
  · rw [hkeys, hlength]
    omega
  · rw [trimToWindow_window] at hnone
    have hsame : c.window = none := hwindow ▸ hnone
    rw [trimDrop_unwindowed hsame, h.unwindowed hsame]
    exact ⟨rfl, rfl⟩
  · rw [trimToWindow_window] at hw
    exact retained_trimToWindow hw

theorem Tracks.step {c₀ : KvCache κ ν} {H : List (κ × ν)} {c c' : KvCache κ ν} {op : Op κ ν}
    (h : Tracks c₀ H c) (hrange : InRange c op) (hstep : step c op = some c') :
    Tracks c₀ (op.apply H) c' := by
  cases op with
  | append chunk =>
    obtain ⟨d, keys, values, hfetch, htracks, -⟩ := h.updateAndFetch chunk hrange
    rw [KvCache.step, hfetch] at hstep
    cases hstep
    exact htracks
  | truncate n =>
    obtain ⟨d, htruncate, htracks, -⟩ := h.truncateTo hrange.1 hrange.2
    rw [KvCache.step, htruncate] at hstep
    cases hstep
    exact htracks

/-- The induction over a run, from any history. -/
theorem Tracks.run {c₀ : KvCache κ ν} {H : List (κ × ν)} {c c' : KvCache κ ν}
    {ops : List (Op κ ν)} (hrun : Run KvCache.step InRange c ops c') (h : Tracks c₀ H c) :
    Tracks c₀ (ops.foldl Op.apply H) c' := by
  induction hrun generalizing H with
  | nil => exact h
  | cons hrange hstep _ ih => exact ih (h.step hrange hstep)

/-- **A cache refines the history it was fed.**  After every run of operations in range it stands
for the history; the next append succeeds and returns the last rows of the history, and so does
every rollback to a retained position. -/
theorem cache_refines_history {c₀ c : KvCache κ ν} {ops : List (Op κ ν)} (hfresh : Fresh c₀)
    (hrun : Run step InRange c₀ ops c) :
    Shows (history ops) c ∧
      (∀ chunk, 0 < chunk.added → ∃ c' keys values,
        c.updateAndFetch chunk = .ok (c', keys, values) ∧
          Shows (history ops ++ chunk.rows) c' ∧
          Fetched (history ops ++ chunk.rows) c' chunk.added keys values) ∧
      ∀ n, c.start ≤ n → n ≤ c.offset → ∃ c', c.truncateTo n = .ok c' ∧
        Shows ((history ops).take n) c' ∧ c'.offset = n := by
  have h : Tracks c₀ (history ops) c := (tracks_fresh hfresh).run hrun
  refine ⟨h.inv.shows h.unwindowed, fun chunk hadd => ?_, fun n hstart hn => ?_⟩
  · obtain ⟨c', keys, values, hfetch, htracks, hfetched⟩ := h.updateAndFetch chunk hadd
    exact ⟨c', keys, values, hfetch, htracks.inv.shows htracks.unwindowed, hfetched⟩
  · obtain ⟨c', htruncate, htracks, hoffset, -⟩ := h.truncateTo hstart hn
    exact ⟨c', htruncate, htracks.inv.shows htracks.unwindowed, hoffset⟩

/-- A cache with a window of two rows: three rows are appended, one is taken back. -/
theorem cache_refines_history_windowed : ∃ c : KvCache Nat Nat,
    Run step InRange (windowed 2) [.append ⟨[1, 2, 3], [4, 5, 6], rfl⟩, .truncate 2] c ∧
    Shows [(1, 4), (2, 5)] c := by
  obtain ⟨c, hc⟩ : ∃ c : KvCache Nat Nat,
    step (windowed 2) (.append ⟨[1, 2, 3], [4, 5, 6], rfl⟩) = some c := ⟨_, rfl⟩
  have hstart : c.start = 0 := by cases hc; rfl
  have hoffset : c.offset = 3 := by cases hc; rfl
  have hback : InRange c (.truncate 2) := ⟨by omega, by omega⟩
  obtain ⟨d, hd⟩ : ∃ d, step c (.truncate 2) = some d := by
    cases hc
    exact ⟨_, rfl⟩
  have hadd : InRange (windowed 2 : KvCache Nat Nat) (.append ⟨[1, 2, 3], [4, 5, 6], rfl⟩) :=
    show 0 < 3 by decide
  have hrun := Run.cons hadd hc (Run.single hback hd)
  exact ⟨d, hrun, (cache_refines_history (.inr ⟨2, rfl⟩) hrun).1⟩

end Run

end KvCache

end Emelex

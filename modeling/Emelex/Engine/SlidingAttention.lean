import Emelex.Engine.KvCache
import Mathlib.Tactic.Linarith

/-!
# Sliding-window attention over a windowed cache

`Attention::forward` of `engine/models/laguna.rs` and `engine/models/gemma3.rs`: the offset is
read before the append, `key_start = cache.start()` after it, and the additive mask of
`ops::sliding_window_mask` (`engine/ops.rs`) selects the key rows of each query.  Projections,
per-head norms and rope are functions of one token and its absolute position; a masked softmax
is a function of the query and of the key/value rows its mask leaves visible.

* `forward` — one call of a layer; `run` — a whole sequence of calls on one cache.
* `exactQueries` — the specification: query `q` sees the rows of positions
  `max(0, q - W + 1)..=q` of the token history.

Principal results: `run_new` (an unwindowed cache with the same mask meets the specification on
every run), `forwardRows_exact_iff` (one call on a windowed cache meets it exactly when the
call is `stepKeepsWindow`: no trim fires, or one token is appended, or the window is a single
position and the chunk stays within the growth slack) and `sliding_attention_exact_iff` (the same
for whole runs, `keepsWindow`).
-/

set_option autoImplicit false

namespace Emelex

/-- `ops::sliding_window_mask`, row `i`: `true` where key `j` may be attended. -/
def slidingWindowMask (seqLen kvLen offset keyStart window : Nat) : List (List Bool) :=
  (List.range seqLen).map fun i =>
    (List.range kvLen).map fun j =>
      let diff : Int := ((offset + i : Nat) : Int) - ((keyStart + j : Nat) : Int)
      decide (0 ≤ diff) && decide (diff < (window : Int))

/-- The key/value rows a mask row leaves visible. -/
def visibleRows {κ ν : Type} (mask : List Bool) (keys : List κ) (values : List ν) : List (κ × ν) :=
  ((keys.zip values).zip mask).filterMap fun p => if p.2 then some p.1 else none

/-- One sliding attention layer: what it computes per token and per query. -/
structure Attention (X Q κ ν O : Type) where
  /-- `q_proj`, per-head norm and rope at the absolute position. -/
  query : X → Nat → Q
  /-- `k_proj`, per-head norm and rope at the absolute position. -/
  key : X → Nat → κ
  /-- `v_proj`. -/
  value : X → ν
  /-- Softmax attention of one query over its visible rows. -/
  attend : Q → List (κ × ν) → O
  slidingWindow : Nat

/-- The tokens of one forward call; a forward pass is never empty. -/
structure Chunk (X : Type) where
  tokens : List X
  nonempty : tokens ≠ []

def Chunk.length {X : Type} (c : Chunk X) : Nat := c.tokens.length

theorem Chunk.length_pos {X : Type} (c : Chunk X) : 0 < c.length :=
  List.length_pos_iff.mpr c.nonempty

namespace Attention

variable {X Q κ ν O : Type}

/-- The key/value rows of `tokens` when the first one stands at position `offset`. -/
def chunkRows (a : Attention X Q κ ν O) (offset : Nat) (tokens : List X) : KvChunk κ ν where
  keys := tokens.mapIdx fun i x => a.key x (offset + i)
  values := tokens.map a.value
  same_length := by simp

/-- The sliding branch of `Attention::forward`, up to the softmax: the new cache and, for every
    query of the call, the query and the rows it attends to. -/
def forwardRows [Zero κ] [Zero ν] (a : Attention X Q κ ν O) (cache : KvCache κ ν) (x : Chunk X) :
    Except Error (KvCache κ ν × List (Q × List (κ × ν))) := do
  let l := x.length
  let offset := cache.offset
  let q := x.tokens.mapIdx fun i x => a.query x (offset + i)
  let (cache, k, v) ← cache.updateAndFetch (a.chunkRows offset x.tokens)
  let kvLen := k.length
  let mask := slidingWindowMask l kvLen offset cache.start a.slidingWindow
  return (cache, q.zip (mask.map fun row => visibleRows row k v))

/-- `Attention::forward`. -/
def forward [Zero κ] [Zero ν] (a : Attention X Q κ ν O) (cache : KvCache κ ν) (x : Chunk X) :
    Except Error (KvCache κ ν × List O) := do
  let (cache, rows) ← a.forwardRows cache x
  return (cache, rows.map fun p => a.attend p.1 p.2)

/-- Successive calls on one cache, with the queries of all of them in order. -/
def run [Zero κ] [Zero ν] (a : Attention X Q κ ν O) (cache : KvCache κ ν) :
    List (Chunk X) → Except Error (KvCache κ ν × List (Q × List (κ × ν)))
  | [] => .ok (cache, [])
  | x :: xs => do
    let (cache, rows) ← a.forwardRows cache x
    let (cache, rest) ← a.run cache xs
    return (cache, rows ++ rest)

/-! ## The specification -/

/-- The rows of a token history, by absolute position. -/
def historyRows (a : Attention X Q κ ν O) (tokens : List X) : List (κ × ν) :=
  tokens.mapIdx fun i x => (a.key x i, a.value x)

/-- Rows of the positions `max(0, q - window + 1)..=q`. -/
def windowRows (rows : List (κ × ν)) (window q : Nat) : List (κ × ν) :=
  (rows.take (q + 1)).drop (q + 1 - window)

/-- What the queries of positions `from..` of the history have to see. -/
def exactQueries (a : Attention X Q κ ν O) (window : Nat) (before tokens : List X) :
    List (Q × List (κ × ν)) :=
  tokens.mapIdx fun i x =>
    (a.query x (before.length + i),
      windowRows (a.historyRows (before ++ tokens)) window (before.length + i))

@[simp] theorem historyRows_length (a : Attention X Q κ ν O) (tokens : List X) :
    (a.historyRows tokens).length = tokens.length := by simp [historyRows]

theorem historyRows_append (a : Attention X Q κ ν O) (xs ys : List X) :
    a.historyRows (xs ++ ys) = a.historyRows xs ++ (a.chunkRows xs.length ys).rows := by
  unfold historyRows chunkRows KvChunk.rows
  rw [List.mapIdx_append]
  congr 1
  apply List.ext_getElem
  · simp
  · intro i h₁ h₂
    simp [Nat.add_comm]

theorem windowRows_append (rows more : List (κ × ν)) (window q : Nat) (hq : q < rows.length) :
    windowRows (rows ++ more) window q = windowRows rows window q := by
  unfold windowRows
  rw [List.take_append_of_le_length (by omega)]

/-- The specification of a history fed in two parts. -/
theorem exactQueries_append (a : Attention X Q κ ν O) (window : Nat) (before xs ys : List X) :
    a.exactQueries window before (xs ++ ys) =
      a.exactQueries window before xs ++ a.exactQueries window (before ++ xs) ys := by
  unfold exactQueries
  rw [List.mapIdx_append]
  congr 1
  · apply List.ext_getElem
    · simp
    · intro i h₁ h₂
      simp only [List.length_mapIdx] at h₁
      have hw := windowRows_append (a.historyRows (before ++ xs))
        (a.chunkRows (before ++ xs).length ys).rows window (before.length + i) (by simpa using h₁)
      rw [← historyRows_append, List.append_assoc] at hw
      simp [hw]
  · apply List.ext_getElem
    · simp
    · intro i h₁ h₂
      simp [Nat.add_comm, Nat.add_left_comm]

/-! ## One call -/

/-- A mask row that is an interval of key indices selects that interval of rows. -/
theorem filterMap_interval {α : Type} : ∀ (rows : List α) (lo hi : Nat),
    ((rows.zip ((List.range rows.length).map fun j => decide (lo ≤ j) && decide (j < hi))).filterMap
      fun p => if p.2 then some p.1 else none) = (rows.take hi).drop lo
  | [], _, _ => by simp
  | r :: rows, lo, hi => by
    have htail : (List.range rows.length).map ((fun j => decide (lo ≤ j) && decide (j < hi)) ∘ Nat.succ) =
        (List.range rows.length).map fun j => decide (lo - 1 ≤ j) && decide (j < hi - 1) := by
      apply List.map_congr_left
      intro j _
      have h₁ : (lo ≤ j + 1) ↔ (lo - 1 ≤ j) := by omega
      have h₂ : (j + 1 < hi) ↔ (j < hi - 1) := by omega
      simp only [Function.comp_apply, Nat.succ_eq_add_one, h₁, h₂]
    rw [List.length_cons, List.range_succ_eq_map, List.map_cons, List.map_map, htail,
      List.zip_cons_cons, List.filterMap_cons]
    rw [filterMap_interval rows (lo - 1) (hi - 1)]
    cases hi with
    | zero => simp
    | succ hi =>
      cases lo with
      | zero => simp
      | succ lo => simp

/-- What query `i` of a call sees, when the fetched views are the rows from `viewStart` on and
    the mask is built from `keyStart`. -/
theorem visibleRows_mask (view : List (κ × ν)) {l offset keyStart window i : Nat} (hi : i < l) :
    ((slidingWindowMask l view.length offset keyStart window).map fun row =>
        visibleRows row (view.map Prod.fst) (view.map Prod.snd))[i]? =
      some ((view.take (offset + i + 1 - keyStart)).drop (offset + i + 1 - window - keyStart)) := by
  have hzip : (view.map Prod.fst).zip (view.map Prod.snd) = view := by
    rw [List.zip_map']; simp
  have hrow : (List.range view.length).map (fun j =>
      decide (0 ≤ ((offset + i : Nat) : Int) - ((keyStart + j : Nat) : Int)) &&
        decide (((offset + i : Nat) : Int) - ((keyStart + j : Nat) : Int) < (window : Int))) =
      (List.range view.length).map fun j =>
        decide (offset + i + 1 - window - keyStart ≤ j) && decide (j < offset + i + 1 - keyStart) := by
    apply List.map_congr_left
    intro j _
    have h₁ : (0 ≤ ((offset + i : Nat) : Int) - ((keyStart + j : Nat) : Int)) ↔
        j < offset + i + 1 - keyStart := by omega
    have h₂ : (((offset + i : Nat) : Int) - ((keyStart + j : Nat) : Int) < (window : Int)) ↔
        offset + i + 1 - window - keyStart ≤ j := by omega
    simp only [h₁, h₂, Bool.and_comm]
  simp only [slidingWindowMask, List.map_map, List.getElem?_map, List.getElem?_range hi,
    Option.map_some, Function.comp_apply, visibleRows, hzip]
  rw [hrow, filterMap_interval]

/-- Rows dropped by the trim after the append. -/
def postDrop (cache : KvCache κ ν) (l : Nat) : Nat :=
  match cache.window with
  | none => 0
  | some window =>
    let retained := cache.retained - cache.trimDrop l + l
    if retained ≤ window + KV_GROWTH_STEP then 0 else retained - min window retained

/-- **One call**: the views start at the position the first trim left, the mask is built from the
    position the second trim left, and the invariant is kept. -/
theorem forwardRows_spec [Zero κ] [Zero ν] (a : Attention X Q κ ν O) {tokens : List X}
    {cache : KvCache κ ν} (h : cache.Inv (a.historyRows tokens)) (x : Chunk X) :
    ∃ cache', a.forwardRows cache x = .ok (cache',
        x.tokens.mapIdx fun i t => (a.query t (tokens.length + i),
          (((a.historyRows (tokens ++ x.tokens)).drop (cache.start + cache.trimDrop x.length)).take
            (tokens.length + i + 1 - (cache.start + cache.trimDrop x.length + postDrop cache x.length))).drop
            (tokens.length + i + 1 - a.slidingWindow -
              (cache.start + cache.trimDrop x.length + postDrop cache x.length)))) ∧
      cache'.Inv (a.historyRows (tokens ++ x.tokens)) ∧ cache'.window = cache.window ∧
      cache'.start = cache.start + cache.trimDrop x.length + postDrop cache x.length ∧
      cache'.offset = cache.offset + x.length := by
  have hoff : cache.offset = tokens.length := by simpa using h.offset_eq
  have hle := h.start_le
  have hret : cache.retained = cache.offset - cache.start := rfl
  have hd := cache.trimDrop_le x.length
  have hadd : (a.chunkRows cache.offset x.tokens).added = x.length := by
    simp [chunkRows, KvChunk.added, Chunk.length]
  have hpos := x.length_pos
  obtain ⟨c', hok, hinv, hwin, hstart, hoffset⟩ :=
    KvCache.updateAndFetch_spec h (a.chunkRows cache.offset x.tokens) (by omega)
  rw [hadd] at hok hstart hoffset
  rw [hoff, ← historyRows_append] at hok hinv
  have hret' : c'.retained = cache.retained - cache.trimDrop x.length + x.length := by
    simp only [KvCache.retained] at *; omega
  have hpost : c'.trimDrop 0 = postDrop cache x.length := by
    unfold KvCache.trimDrop postDrop
    rw [hwin, hret']
    cases cache.window <;> rfl
  have hs : (c'.trimToWindow 0).start =
      cache.start + cache.trimDrop x.length + postDrop cache x.length := by
    rw [KvCache.trimToWindow_start, hstart, hpost]
  refine ⟨c'.trimToWindow 0, ?_, hinv.trimToWindow 0, by simpa using hwin, hs, by simpa using hoffset⟩
  unfold forwardRows
  simp only [hoff, hok, bind, Except.bind, pure, Except.pure]
  obtain ⟨view, hview⟩ : ∃ view, view = (a.historyRows (tokens ++ x.tokens)).drop
    (cache.start + cache.trimDrop x.length) := ⟨_, rfl⟩
  rw [← hview, List.length_map, hs]
  congr 2
  apply List.ext_getElem?
  intro i
  by_cases hi : i < x.length
  · obtain ⟨t, hq⟩ : ∃ t, x.tokens[i]? = some t := ⟨_, List.getElem?_eq_getElem hi⟩
    rw [List.zip, List.getElem?_zipWith, visibleRows_mask view hi]
    simp [List.getElem?_mapIdx, hq]
  · have hn : x.tokens.length ≤ i := Nat.le_of_not_lt hi
    rw [List.getElem?_eq_none (by simp; omega), List.getElem?_eq_none (by simp; omega)]

/-! ## Which calls are exact -/

/-- Rows a windowed cache retains after appending `l` rows to `retained` ones. -/
def retainedAfter (window retained l : Nat) : Nat :=
  if retained + l ≤ window + KV_GROWTH_STEP then retained + l
  else if max window l ≤ window + KV_GROWTH_STEP then max window l
  else window

/-- A call that keeps every row its queries need: no trim fires, or one token is appended, or the
    window is one position and the chunk fits the growth slack. -/
def stepKeepsWindow (window retained l : Nat) : Bool :=
  decide (retained + l ≤ window + KV_GROWTH_STEP) || decide (l ≤ 1) ||
    (decide (window = 1) && decide (l ≤ 1 + KV_GROWTH_STEP))

/-- Chunk lengths all of whose calls keep the window, from `retained` rows on. -/
def keepsWindow (window : Nat) : Nat → List Nat → Bool
  | _, [] => true
  | retained, l :: ls =>
    stepKeepsWindow window retained l && keepsWindow window (retainedAfter window retained l) ls

/-- States a windowed cache reaches by appends. -/
structure Reached (window : Nat) (H : List (κ × ν)) (cache : KvCache κ ν) : Prop where
  inv : cache.Inv H
  window_eq : cache.window = some window
  full : cache.start = 0 ∨ window ≤ cache.retained
  bounded : cache.retained ≤ window + KV_GROWTH_STEP

theorem reached_windowed {window : Nat} (hw : 1 ≤ window) :
    Reached window ([] : List (κ × ν)) (KvCache.windowed window) :=
  ⟨KvCache.inv_windowed window, by simp [KvCache.windowed]; omega, .inl rfl, by
    simp [KvCache.retained, KvCache.windowed]⟩

/-- What a call of `l` tokens leaves retained, and when its two trims are harmless. -/
theorem Reached.trims {window l : Nat} {H : List (κ × ν)} {cache : KvCache κ ν}
    (h : Reached window H cache) (hw : 1 ≤ window) (hl : 0 < l) :
    cache.retained - cache.trimDrop l + l - postDrop cache l =
        retainedAfter window cache.retained l ∧
      (cache.start + cache.trimDrop l + postDrop cache l = 0 ∨
        window ≤ retainedAfter window cache.retained l) ∧
      retainedAfter window cache.retained l ≤ window + KV_GROWTH_STEP ∧
      (postDrop cache l = 0 ∨
        cache.offset < cache.start + cache.trimDrop l + postDrop cache l) ∧
      (stepKeepsWindow window cache.retained l = true ↔
        postDrop cache l = 0 ∧
          (cache.start + cache.trimDrop l = 0 ∨
            cache.start + cache.trimDrop l + window ≤ cache.offset + 1)) := by
  have hle := h.inv.start_le
  have hfull := h.full
  have hb := h.bounded
  have hret : cache.retained = cache.offset - cache.start := rfl
  have htd : cache.trimDrop l = if cache.retained + l ≤ window + KV_GROWTH_STEP then 0
      else cache.retained - min (window - l) cache.retained := by
    unfold KvCache.trimDrop; rw [h.window_eq]
  have hpd : postDrop cache l =
      if cache.retained - cache.trimDrop l + l ≤ window + KV_GROWTH_STEP then 0
      else cache.retained - cache.trimDrop l + l -
        min window (cache.retained - cache.trimDrop l + l) := by
    unfold postDrop; rw [h.window_eq]
  unfold retainedAfter stepKeepsWindow KV_GROWTH_STEP at *
  simp only [Bool.or_eq_true, Bool.and_eq_true, decide_eq_true_eq]
  by_cases hfit : cache.retained + l ≤ window + 256
  · rw [if_pos hfit] at htd ⊢
    rw [htd, if_pos (by omega)] at hpd
    omega
  · rw [if_neg hfit] at htd ⊢
    by_cases hsmall : l ≤ window + 256
    · rw [if_pos (by omega)] at hpd
      rw [if_pos (by omega)]
      omega
    · rw [if_neg (by omega)] at hpd
      rw [if_neg (by omega)]
      omega

/-- **One call on a windowed cache is exact exactly when it keeps the window.** -/
theorem forwardRows_exact_iff [Zero κ] [Zero ν] (a : Attention X Q κ ν O) (hw : 1 ≤ a.slidingWindow)
    {tokens : List X} {cache : KvCache κ ν}
    (h : Reached a.slidingWindow (a.historyRows tokens) cache) (x : Chunk X) :
    ∃ cache' rows, a.forwardRows cache x = .ok (cache', rows) ∧ rows.length = x.length ∧
      Reached a.slidingWindow (a.historyRows (tokens ++ x.tokens)) cache' ∧
      cache'.retained = retainedAfter a.slidingWindow cache.retained x.length ∧
      (rows = a.exactQueries a.slidingWindow tokens x.tokens ↔
        stepKeepsWindow a.slidingWindow cache.retained x.length = true) := by
  obtain ⟨cache', hok, hinv, hwin, hstart, hoffset⟩ := a.forwardRows_spec h.inv x
  have hpos := x.length_pos
  obtain ⟨hra, hfull, hbound, hfar, hkeep⟩ := h.trims hw hpos
  have hd := cache.trimDrop_le x.length
  have hle := h.inv.start_le
  have hret : cache.retained = cache.offset - cache.start := rfl
  have hret' : cache'.retained = retainedAfter a.slidingWindow cache.retained x.length := by
    rw [← hra]; simp only [KvCache.retained] at *; omega
  have hoff : cache.offset = tokens.length := by simpa using h.inv.offset_eq
  have hlen : (a.historyRows (tokens ++ x.tokens)).length = tokens.length + x.length := by
    simp [Chunk.length]
  refine ⟨cache', _, hok, by simp [Chunk.length], ⟨hinv, by rw [hwin, h.window_eq], ?_, by omega⟩,
    hret', ?_⟩
  · rw [hret', hstart]; exact hfull
  rw [hkeep]
  constructor
  · -- the first query of the call already fails when rows it needs are gone or shifted
    intro heq
    have h0 := congrArg (fun l => l[0]?) heq
    obtain ⟨t, ht⟩ : ∃ t, x.tokens[0]? = some t := ⟨_, List.getElem?_eq_getElem hpos⟩
    simp only [exactQueries, List.getElem?_mapIdx, ht, Option.map_some, Option.some.injEq,
      Prod.mk.injEq, true_and, windowRows, Nat.add_zero] at h0
    have hlen0 := congrArg List.length h0
    simp only [List.length_drop, List.length_take, hlen] at hlen0
    omega
  · rintro ⟨hpost, hs⟩
    rw [hpost]
    unfold exactQueries
    apply List.ext_getElem?
    intro i
    rw [List.getElem?_mapIdx, List.getElem?_mapIdx]
    congr 1
    funext t
    congr 1
    unfold windowRows
    rw [Nat.add_zero, List.take_drop, List.drop_drop]
    congr 2 <;> omega

/-! ## Whole runs -/

/-- The token history of a run. -/
def allTokens (chunks : List (Chunk X)) : List X := (chunks.map Chunk.tokens).flatten

/-- **A run on a windowed cache** never fails, and all its queries are exact exactly when each of
    its chunk lengths keeps the window. -/
theorem run_exact_iff [Zero κ] [Zero ν] (a : Attention X Q κ ν O) (hw : 1 ≤ a.slidingWindow) :
    ∀ (chunks : List (Chunk X)) {tokens : List X} {cache : KvCache κ ν},
      Reached a.slidingWindow (a.historyRows tokens) cache →
      ∃ cache' rows, a.run cache chunks = .ok (cache', rows) ∧
        (rows = a.exactQueries a.slidingWindow tokens (allTokens chunks) ↔
          keepsWindow a.slidingWindow cache.retained (chunks.map Chunk.length) = true) := by
  intro chunks
  induction chunks with
  | nil =>
    intro tokens cache _
    exact ⟨cache, [], rfl, by simp [allTokens, exactQueries, keepsWindow]⟩
  | cons x chunks ih =>
    intro tokens cache h
    obtain ⟨cache₁, rows₁, hok₁, hlen, hreach, hret, hiff₁⟩ := a.forwardRows_exact_iff hw h x
    obtain ⟨cache₂, rows₂, hok₂, hiff₂⟩ := ih hreach
    refine ⟨cache₂, rows₁ ++ rows₂, ?_, ?_⟩
    · simp [run, hok₁, hok₂, bind, Except.bind, pure, Except.pure]
    · have hsplit : allTokens (x :: chunks) = x.tokens ++ allTokens chunks := by simp [allTokens]
      rw [hsplit, exactQueries_append, List.map_cons, keepsWindow, Bool.and_eq_true, ← hret,
        ← hiff₁, ← hiff₂]
      constructor
      · intro heq
        exact List.append_inj heq (by rw [hlen]; simp [exactQueries, Chunk.length])
      · rintro ⟨h₁, h₂⟩
        rw [h₁, h₂]

/-- One call on an unwindowed cache is exact. -/
theorem forwardRows_new [Zero κ] [Zero ν] (a : Attention X Q κ ν O) {tokens : List X}
    {cache : KvCache κ ν} (h : cache.Inv (a.historyRows tokens)) (hwin : cache.window = none)
    (hs : cache.start = 0) (x : Chunk X) :
    ∃ cache', a.forwardRows cache x =
        .ok (cache', a.exactQueries a.slidingWindow tokens x.tokens) ∧
      cache'.Inv (a.historyRows (tokens ++ x.tokens)) ∧ cache'.window = none ∧
      cache'.start = 0 := by
  obtain ⟨cache', hok, hinv, hwin', hstart, -⟩ := a.forwardRows_spec h x
  have htd : cache.trimDrop x.length = 0 := by unfold KvCache.trimDrop; rw [hwin]
  have hpd : postDrop cache x.length = 0 := by unfold postDrop; rw [hwin]
  simp only [htd, hpd, hs, Nat.add_zero, Nat.sub_zero, List.drop_zero] at hok hstart
  exact ⟨cache', hok, hinv, by rw [hwin', hwin], hstart⟩

/-- **A run on an unwindowed cache with the same mask is exact.** -/
theorem run_new [Zero κ] [Zero ν] (a : Attention X Q κ ν O) :
    ∀ (chunks : List (Chunk X)) {tokens : List X} {cache : KvCache κ ν},
      cache.Inv (a.historyRows tokens) → cache.window = none → cache.start = 0 →
      ∃ cache', a.run cache chunks =
        .ok (cache', a.exactQueries a.slidingWindow tokens (allTokens chunks)) := by
  intro chunks
  induction chunks with
  | nil =>
    intro tokens cache _ _ _
    exact ⟨cache, by simp [run, allTokens, exactQueries]⟩
  | cons x chunks ih =>
    intro tokens cache h hwin hs
    obtain ⟨cache₁, hok₁, hinv, hwin₁, hs₁⟩ := a.forwardRows_new h hwin hs x
    obtain ⟨cache₂, hok₂⟩ := ih hinv hwin₁ hs₁
    have hsplit : allTokens (x :: chunks) = x.tokens ++ allTokens chunks := by simp [allTokens]
    refine ⟨cache₂, ?_⟩
    rw [hsplit, exactQueries_append]
    simp [run, hok₁, hok₂, bind, Except.bind, pure, Except.pure]

/-- **Sliding attention over a windowed cache.**  With the same mask an unwindowed cache always
    shows every query exactly its window; the windowed cache does so on a run exactly when every
    chunk length of the run keeps the window. -/
theorem sliding_attention_exact_iff [Zero κ] [Zero ν] (a : Attention X Q κ ν O)
    (hw : 1 ≤ a.slidingWindow) (chunks : List (Chunk X)) :
    (∃ cache, a.run KvCache.new chunks =
        .ok (cache, a.exactQueries a.slidingWindow [] (allTokens chunks))) ∧
      ∃ cache rows, a.run (KvCache.windowed a.slidingWindow) chunks = .ok (cache, rows) ∧
        (rows = a.exactQueries a.slidingWindow [] (allTokens chunks) ↔
          keepsWindow a.slidingWindow 0 (chunks.map Chunk.length) = true) := by
  refine ⟨a.run_new chunks KvCache.inv_new rfl rfl, ?_⟩
  exact a.run_exact_iff hw chunks (reached_windowed hw)

/-- A layer whose queries, keys and values are the tokens themselves. -/
def echo (window : Nat) : Attention Nat Nat Nat Nat (List (Nat × Nat)) :=
  ⟨fun x _ => x, fun x _ => x, id, fun _ rows => rows, window⟩

/-- A call of `n + 1` equal tokens. -/
def repeated (n : Nat) : Chunk Nat := ⟨List.replicate (n + 1) 7, by simp⟩

theorem repeated_length (n : Nat) : (repeated n).length = n + 1 := List.length_replicate

/-- Decoding single tokens after a first chunk stays exact, also once the cache trims. -/
theorem sliding_attention_exact_decode :
    (∃ cache, (echo 2).run KvCache.new [repeated 257, repeated 0] =
        .ok (cache, (echo 2).exactQueries 2 [] (allTokens [repeated 257, repeated 0]))) ∧
      ∃ cache rows, (echo 2).run (KvCache.windowed 2) [repeated 257, repeated 0] =
          .ok (cache, rows) ∧
        (rows = (echo 2).exactQueries 2 [] (allTokens [repeated 257, repeated 0]) ↔
          keepsWindow 2 0 ([repeated 257, repeated 0].map Chunk.length) = true) :=
  sliding_attention_exact_iff (echo 2) (by decide) [repeated 257, repeated 0]

/-- Two prefill chunks of 512 tokens over a window of 512: the second call drops rows its first
    queries need. -/
theorem prefill_chunks_lose_rows :
    ¬ ∃ cache, (echo 512).run (KvCache.windowed 512) [repeated 511, repeated 511] =
      .ok (cache, (echo 512).exactQueries 512 [] (allTokens [repeated 511, repeated 511])) := by
  rintro ⟨cache, hrun⟩
  have hstart : Reached 512 ((echo 512).historyRows []) (KvCache.windowed 512) :=
    reached_windowed (by decide)
  obtain ⟨cache', rows, hok, hiff⟩ :=
    (echo 512).run_exact_iff (by decide) [repeated 511, repeated 511] hstart
  rw [hrun] at hok
  cases hok
  have hlens : [repeated 511, repeated 511].map Chunk.length = [512, 512] := by
    rw [List.map_cons, List.map_cons, repeated_length]; rfl
  have hkeep := hiff.mp rfl
  rw [hlens] at hkeep
  exact absurd (show keepsWindow 512 0 [512, 512] = true from hkeep) (by decide)

end Attention

end Emelex

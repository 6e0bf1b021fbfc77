import Mathlib.Data.List.Forall2
import Emelex.Engine.CacheHistory

/-!
# Rolling a cache back (`engine/models/cache.rs`, `engine/spec.rs`)

A speculative round captures the layers, feeds tokens that may be rejected and rolls back.  An
attention layer goes back by its offset alone, so its buffers keep the rejected rows and their
capacity.

* `KvCache.Query`, `KvCache.observe` — what a caller can ask of an attention cache.
* `LayerCache`, `rollbackState`, `rollback` — the layers of a model.
* `capture`, `restore`, `windowWouldTrim` — the same for all layers.
* `Alike`, `Ahead` — caches that retain the same rows, and a cache after appends that did not trim.

Principal results: `wouldTrim_iff` (the preflight is exact), `Alike.indistinguishable`,
`Ahead.takeBack`, and `window_preflight_exact` (a feed that the preflight allows can be rolled back,
and then cannot be observed, in one cache and in a stack of layers).
-/

set_option autoImplicit false

namespace Emelex

open Machine

namespace KvCache

variable {κ ν : Type}

/-! ## Observations -/

/-- `KvCache::truncate_to` with its `i32` argument. -/
def truncateToInt (c : KvCache κ ν) (offset : Int) : Except Error (KvCache κ ν) :=
  if offset < (c.start : Int) then
    .error (.model s!"cannot truncate KV cache to position {offset}: positions before {c.start} were discarded by a window trim")
  else if offset > (c.offset : Int) then
    .error (.model s!"cannot truncate KV cache to position {offset}: only {c.offset} positions have been fed")
  else .ok { c with offset := offset.toNat }

/-- What a caller can ask of a cache. -/
inductive Query (κ ν : Type) where
  | append (chunk : KvChunk κ ν) (nonempty : 0 < chunk.added)
  | truncate (offset : Int)
  | offset
  | start
  | wouldTrim (added : Nat)

/-- What it gets to see. -/
inductive Answer (κ ν : Type) where
  | fetched (keys : List κ) (values : List ν)
  | truncated
  | position (n : Nat)
  | trims (b : Bool)
  | failed (e : Error)
  deriving DecidableEq

/-- One question, and the cache after it. -/
def observe [Zero κ] [Zero ν] (c : KvCache κ ν) : Query κ ν → Answer κ ν × KvCache κ ν
  | .append chunk _ =>
    match c.updateAndFetch chunk with
    | .ok (c', keys, values) => (.fetched keys values, c')
    | .error e => (.failed e, c)
  | .truncate offset =>
    match c.truncateToInt offset with
    | .ok c' => (.truncated, c')
    | .error e => (.failed e, c)
  | .offset => (.position c.offset, c)
  | .start => (.position c.start, c)
  | .wouldTrim added => (.trims (c.wouldTrim added), c)

/-- The answers to a sequence of questions. -/
def answers [Zero κ] [Zero ν] (c : KvCache κ ν) : List (Query κ ν) → List (Answer κ ν)
  | [] => []
  | q :: qs => (c.observe q).1 :: (c.observe q).2.answers qs

/-- No sequence of questions tells the two caches apart. -/
def Indistinguishable [Zero κ] [Zero ν] (c c' : KvCache κ ν) : Prop :=
  ∀ qs, c.answers qs = c'.answers qs

/-! ## Caches of one history -/

/-- Two caches of the same history that retain the same rows. -/
structure Alike (H : List (κ × ν)) (c c' : KvCache κ ν) : Prop where
  left : Inv H c
  right : Inv H c'
  start : c.start = c'.start
  window : c.window = c'.window

theorem Alike.offset {H : List (κ × ν)} {c c' : KvCache κ ν} (h : Alike H c c') :
    c.offset = c'.offset := by
  rw [h.left.offset_eq, h.right.offset_eq]

theorem Alike.trimDrop {H : List (κ × ν)} {c c' : KvCache κ ν} (h : Alike H c c') (added : Nat) :
    c.trimDrop added = c'.trimDrop added := by
  unfold KvCache.trimDrop retained
  rw [h.offset, h.start, h.window]

/-- A rollback is refused, or leads to a retained position. -/
theorem truncateToInt_cases (c : KvCache κ ν) (offset : Int) :
    (∃ e, c.truncateToInt offset = .error e ∧ ∀ c' : KvCache κ ν, c'.start = c.start →
      c'.offset = c.offset → c'.truncateToInt offset = .error e) ∨
    ∃ n : Nat, offset = n ∧ c.start ≤ n ∧ n ≤ c.offset ∧ ∀ c' : KvCache κ ν, c'.start = c.start →
      c'.offset = c.offset → c'.truncateToInt offset = .ok { c' with offset := n } := by
  by_cases hstart : offset < (c.start : Int)
  · refine .inl ⟨_, if_pos hstart, fun c' hs _ => ?_⟩
    unfold truncateToInt
    rw [hs, if_pos hstart]
  · by_cases hoffset : offset > (c.offset : Int)
    · refine .inl ⟨_, (if_neg hstart).trans (if_pos hoffset), fun c' hs ho => ?_⟩
      unfold truncateToInt
      rw [hs, ho, if_neg hstart, if_pos hoffset]
    · refine .inr ⟨offset.toNat, by omega, by omega, by omega, fun c' hs ho => ?_⟩
      unfold truncateToInt
      rw [hs, ho, if_neg hstart, if_neg hoffset]

section Rollback

variable [Zero κ] [Zero ν]

/-- One question to two caches of one history: the same answer, and the caches are alike again. -/
theorem Alike.observe {H : List (κ × ν)} {c c' : KvCache κ ν} (h : Alike H c c') (q : Query κ ν) :
    (c.observe q).1 = (c'.observe q).1 ∧ ∃ H', Alike H' (c.observe q).2 (c'.observe q).2 := by
  cases q with
  | append chunk hadd =>
    obtain ⟨d, hfetch, hinv, hwindow, hstart, -⟩ := updateAndFetch_spec h.left chunk hadd
    obtain ⟨d', hfetch', hinv', hwindow', hstart', -⟩ := updateAndFetch_spec h.right chunk hadd
    rw [← h.start, ← h.trimDrop] at hfetch' hstart'
    have hd : Alike (H ++ chunk.rows) d d' :=
      ⟨hinv, hinv', hstart.trans hstart'.symm, by rw [hwindow, hwindow', h.window]⟩
    simp only [KvCache.observe, hfetch, hfetch']
    refine ⟨trivial, H ++ chunk.rows, hd.left.trimToWindow 0, hd.right.trimToWindow 0, ?_, ?_⟩
    · rw [trimToWindow_start, trimToWindow_start, hd.start, hd.trimDrop]
    · rw [trimToWindow_window, trimToWindow_window, hd.window]
  | truncate offset =>
    rcases truncateToInt_cases c offset with ⟨e, hc, hsame⟩ | ⟨n, rfl, hstart, hn, hsame⟩
    · have hc' := hsame c' h.start.symm h.offset.symm
      simp only [KvCache.observe, hc, hc']
      exact ⟨trivial, H, h⟩
    · have hc := hsame c rfl rfl
      have hc' := hsame c' h.start.symm h.offset.symm
      simp only [KvCache.observe, hc, hc']
      refine ⟨trivial, H.take n, (h.left.truncateTo hstart hn).2,
        (h.right.truncateTo (h.start ▸ hstart) (h.offset ▸ hn)).2, h.start, h.window⟩
  | offset => exact ⟨congrArg Answer.position h.offset, H, h⟩
  | start => exact ⟨congrArg Answer.position h.start, H, h⟩
  | wouldTrim added =>
    refine ⟨?_, H, h⟩
    simp only [KvCache.observe, KvCache.wouldTrim, h.offset, h.start, h.window]

theorem Alike.indistinguishable {H : List (κ × ν)} {c c' : KvCache κ ν} (h : Alike H c c') :
    Indistinguishable c c' := by
  intro qs
  induction qs generalizing H c c' with
  | nil => rfl
  | cons q qs ih =>
    obtain ⟨hanswer, H', hnext⟩ := h.observe q
    rw [answers, answers, hanswer, ih hnext]

/-! ## The preflight -/

/-- `start` after an append: both trims together drop a row exactly when the preflight says so. -/
theorem start_lt_iff {c c' : KvCache κ ν} {added : Nat} (hadd : 0 < added)
    (hle : c.start ≤ c.offset) (hwindow : c'.window = c.window)
    (hstart : c'.start = c.start + c.trimDrop added) (hoffset : c'.offset = c.offset + added) :
    c.start < (c'.trimToWindow 0).start ↔ c.wouldTrim added = true := by
  have hdrop := c.trimDrop_le added
  rw [trimToWindow_start, hstart]
  unfold KvCache.wouldTrim
  cases hw : c.window with
  | none =>
    rw [trimDrop_unwindowed hw, trimDrop_unwindowed (hwindow.trans hw)]
    simp
  | some window =>
    rw [decide_eq_true_iff]
    unfold trimDrop retained at *
    rw [hw] at hstart hdrop ⊢
    rw [hwindow.trans hw]
    simp only at hstart hdrop ⊢
    rw [hstart, hoffset]
    split <;> split <;> omega

/-- **The preflight is exact**: `would_trim` says whether the append advances `start`. -/
theorem wouldTrim_iff {H : List (κ × ν)} {c : KvCache κ ν} (h : Inv H c) (chunk : KvChunk κ ν)
    (hadd : 0 < chunk.added) : ∃ c' keys values, c.updateAndFetch chunk = .ok (c', keys, values) ∧
      (c.wouldTrim chunk.added = true ↔ c.start < c'.start) := by
  obtain ⟨c', hfetch, -, hwindow, hstart, hoffset⟩ := updateAndFetch_spec h chunk hadd
  exact ⟨_, _, _, hfetch, (start_lt_iff hadd h.start_le hwindow hstart hoffset).symm⟩

end Rollback

/-! ## Feeding and taking back -/

/-- `c'` is `c` after appends of `used` rows, none of which trimmed. -/
structure Ahead (used : Nat) (c c' : KvCache κ ν) : Prop where
  histories : ∃ H more, Inv H c ∧ Inv (H ++ more) c'
  start : c'.start = c.start
  window : c'.window = c.window
  offset : c'.offset = c.offset + used

theorem Ahead.refl {H : List (κ × ν)} {c : KvCache κ ν} (h : Inv H c) : Ahead 0 c c :=
  ⟨⟨H, [], h, by rwa [List.append_nil]⟩, rfl, rfl, rfl⟩

/-- The slack that is left after the appends. -/
theorem Ahead.wouldTrim {used : Nat} {c c' : KvCache κ ν} (h : Ahead used c c') (added : Nat) :
    c'.wouldTrim added = c.wouldTrim (used + added) := by
  obtain ⟨H, more, hinv, -⟩ := h.histories
  have hle := hinv.start_le
  have hretained : c'.offset - c'.start + added = c.offset - c.start + (used + added) := by
    rw [h.start, h.offset]
    omega
  unfold KvCache.wouldTrim
  rw [h.window, hretained]

/-- What would not trim for more rows does not trim for fewer. -/
theorem wouldTrim_mono {c : KvCache κ ν} {added more : Nat} (hle : added ≤ more)
    (h : c.wouldTrim more = false) : c.wouldTrim added = false := by
  unfold KvCache.wouldTrim at h ⊢
  cases hw : c.window with
  | none => rfl
  | some window =>
    rw [hw] at h
    simp only [decide_eq_false_iff_not] at h ⊢
    omega

/-- One more append that the preflight allows. -/
theorem Ahead.append [Zero κ] [Zero ν] {used : Nat} {c c' : KvCache κ ν} (h : Ahead used c c')
    (chunk : KvChunk κ ν) (hadd : 0 < chunk.added)
    (hfits : c.wouldTrim (used + chunk.added) = false) :
    ∃ c'' keys values, c'.updateAndFetch chunk = .ok (c'', keys, values) ∧
      Ahead (used + chunk.added) c c'' := by
  obtain ⟨H, more, hleft, hright⟩ := h.histories
  rw [← h.wouldTrim] at hfits
  obtain ⟨d, hfetch, hinv, hwindow, hstart, hoffset⟩ := updateAndFetch_spec hright chunk hadd
  have hle : c'.start ≤ (d.trimToWindow 0).start := by
    rw [trimToWindow_start, hstart, Nat.add_assoc]
    exact Nat.le_add_right _ _
  have hstays : ¬ c'.start < (d.trimToWindow 0).start := by
    rw [start_lt_iff hadd hright.start_le hwindow hstart hoffset, hfits]
    exact Bool.false_ne_true
  refine ⟨_, _, _, hfetch, ⟨H, more ++ chunk.rows, hleft, ?_⟩, ?_, ?_, ?_⟩
  · rw [← List.append_assoc]
    exact hinv.trimToWindow 0
  · rw [← h.start]
    exact Nat.le_antisymm (Nat.le_of_not_lt hstays) hle
  · rw [trimToWindow_window, hwindow, h.window]
  · rw [trimToWindow_offset, hoffset, h.offset, Nat.add_assoc]

/-- The appends are taken back: what is left retains the rows of the cache before them. -/
theorem Ahead.takeBack {used : Nat} {c c' : KvCache κ ν} (h : Ahead used c c') :
    ∃ H c'', c'.truncateTo c.offset = .ok c'' ∧ Alike H c c'' := by
  obtain ⟨H, more, hleft, hright⟩ := h.histories
  have hstart := hleft.start_le
  have hle : c.offset ≤ c'.offset := by
    rw [h.offset]
    exact Nat.le_add_right _ _
  obtain ⟨htruncate, hback⟩ := hright.truncateTo (h.start ▸ hstart) hle
  rw [hleft.offset_eq, List.take_left, ← hleft.offset_eq] at hback
  exact ⟨H, _, htruncate, hleft, hback, h.start.symm, h.window.symm⟩

/-- A cache that operations in range lead to. -/
def Reachable [Zero κ] [Zero ν] (c : KvCache κ ν) : Prop :=
  ∃ c₀ ops, Fresh c₀ ∧ Run step InRange c₀ ops c

theorem Reachable.inv [Zero κ] [Zero ν] {c : KvCache κ ν} (h : Reachable c) :
    ∃ H, Inv H c := by
  obtain ⟨c₀, ops, hfresh, hrun⟩ := h
  exact ⟨_, ((tracks_fresh hfresh).run hrun).inv⟩

end KvCache

/-! ## Layers -/

/-- The six causal-conv states of a `DharaCache`. -/
structure CanonStates (A : Type) where
  canonA : Option A
  canonBQ : Option A
  canonBK : Option A
  canonBV : Option A
  canonC : Option A
  canonD : Option A
  deriving DecidableEq

/-- `LayerCache`; `A` is the type of the recurrent arrays. -/
inductive LayerCache (κ ν A : Type) where
  | attention (c : KvCache κ ν)
  | gatedDelta (conv recur : Option A)
  | dhara (attn : KvCache κ ν) (canon : CanonStates A)

/-- `LayerRollback`. -/
inductive LayerRollback (A : Type) where
  | attention (offset : Nat)
  | gatedDelta (conv recur : Option A)
  | dhara (offset : Nat) (canon : CanonStates A)

/-- `LayerRollback::kind_name`. -/
def LayerRollback.kindName {A : Type} : LayerRollback A → String
  | .attention _ => "attention"
  | .gatedDelta _ _ => "gated-delta"
  | .dhara _ _ => "dhara"

namespace LayerCache

open KvCache

variable {κ ν A : Type}

/-- `LayerCache::kind_name`. -/
def kindName : LayerCache κ ν A → String
  | .attention _ => "attention"
  | .gatedDelta _ _ => "gated-delta"
  | .dhara _ _ => "dhara"

/-- `LayerCache::rollback_state`. -/
def rollbackState : LayerCache κ ν A → LayerRollback A
  | .attention c => .attention c.offset
  | .gatedDelta conv recur => .gatedDelta conv recur
  | .dhara attn canon => .dhara attn.offset canon

/-- `LayerCache::rollback`; the layer that is left when it fails is returned as well. -/
def rollback (layer : LayerCache κ ν A) (state : LayerRollback A) :
    Except Error Unit × LayerCache κ ν A :=
  match layer, state with
  | .attention c, .attention offset =>
    match c.truncateTo offset with
    | .ok c => (.ok (), .attention c)
    | .error e => (.error e, .attention c)
  | .gatedDelta _ _, .gatedDelta conv recur => (.ok (), .gatedDelta conv recur)
  | .dhara attn _, .dhara offset canon =>
    -- the canon states come back before the truncation that may fail
    match attn.truncateTo offset with
    | .ok attn => (.ok (), .dhara attn canon)
    | .error e => (.error e, .dhara attn canon)
  | layer, state =>
    (.error (.model s!"rollback state kind ({state.kindName}) does not match the cache kind ({layer.kindName})"), layer)

/-- What one forward pass of `added` tokens does to a layer: an attention layer appends as many
rows, a recurrent one folds its states into new ones. -/
inductive Feed (κ ν A : Type) (added : Nat) where
  | attention (rows : { chunk : KvChunk κ ν // chunk.added = added })
  | gatedDelta (conv recur : Option A)
  | dhara (rows : { chunk : KvChunk κ ν // chunk.added = added }) (canon : CanonStates A)

/-- The feed is for a layer of this kind. -/
def Feed.Fits {added : Nat} : Feed κ ν A added → LayerCache κ ν A → Prop
  | .attention _, .attention _ | .gatedDelta _ _, .gatedDelta _ _ | .dhara _ _, .dhara _ _ => True
  | _, _ => False

/-- One forward pass through a layer. -/
def feed [Zero κ] [Zero ν] {added : Nat} (layer : LayerCache κ ν A) :
    Feed κ ν A added → Except Error (LayerCache κ ν A)
  | .attention rows =>
    match layer with
    | .attention c => (c.updateAndFetch rows).map fun r => .attention r.1
    | _ => .error (.model "expected an attention cache, found a different cache kind")
  | .gatedDelta conv recur =>
    match layer with
    | .gatedDelta _ _ => .ok (.gatedDelta conv recur)
    | _ => .error (.model "expected a gated-delta cache, found a different cache kind")
  | .dhara rows canon =>
    match layer with
    | .dhara attn _ => (attn.updateAndFetch rows).map fun r => .dhara r.1 canon
    | _ => .error (.model "expected a dhara cache, found a different cache kind")

/-- The arm of `window_would_trim` for one layer. -/
def wouldTrim (layer : LayerCache κ ν A) (added : Nat) : Bool :=
  match layer with
  | .attention c => c.wouldTrim added
  | .dhara attn _ => attn.wouldTrim added
  | .gatedDelta _ _ => false

/-- What a caller can ask of a layer: a question to its attention cache, or a look at its recurrent
states, which it may replace. -/
inductive Query (κ ν A : Type) where
  | kv (q : KvCache.Query κ ν)
  | states
  | setStates (conv recur : Option A)
  | setCanon (canon : CanonStates A)

inductive Answer (κ ν A : Type) where
  | kv (a : KvCache.Answer κ ν)
  | states (conv recur : Option A)
  | canon (canon : CanonStates A)
  | done
  | differentKind

/-- One question to a layer. -/
def observe [Zero κ] [Zero ν] (layer : LayerCache κ ν A) :
    Query κ ν A → Answer κ ν A × LayerCache κ ν A
  | .kv q =>
    match layer with
    | .attention c => (.kv (c.observe q).1, .attention (c.observe q).2)
    | .dhara attn canon => (.kv (attn.observe q).1, .dhara (attn.observe q).2 canon)
    | layer => (.differentKind, layer)
  | .states =>
    match layer with
    | .gatedDelta conv recur => (.states conv recur, .gatedDelta conv recur)
    | .dhara attn canon => (.canon canon, .dhara attn canon)
    | layer => (.differentKind, layer)
  | .setStates conv recur =>
    match layer with
    | .gatedDelta _ _ => (.done, .gatedDelta conv recur)
    | layer => (.differentKind, layer)
  | .setCanon canon =>
    match layer with
    | .dhara attn _ => (.done, .dhara attn canon)
    | layer => (.differentKind, layer)

/-! ### One layer -/

/-- Two layers that no question tells apart. -/
def Alike : LayerCache κ ν A → LayerCache κ ν A → Prop
  | .attention c, .attention c' => ∃ H, KvCache.Alike H c c'
  | .gatedDelta conv recur, .gatedDelta conv' recur' => conv = conv' ∧ recur = recur'
  | .dhara attn canon, .dhara attn' canon' => (∃ H, KvCache.Alike H attn attn') ∧ canon = canon'
  | _, _ => False

/-- The second layer is the first after forward passes of `used` tokens that did not trim. -/
def Ahead (used : Nat) : LayerCache κ ν A → LayerCache κ ν A → Prop
  | .attention c, .attention c' => KvCache.Ahead used c c'
  | .gatedDelta _ _, .gatedDelta _ _ => True
  | .dhara attn _, .dhara attn' _ => KvCache.Ahead used attn attn'
  | _, _ => False

/-- A layer whose attention cache operations in range lead to. -/
def Reachable [Zero κ] [Zero ν] : LayerCache κ ν A → Prop
  | .attention c => KvCache.Reachable c
  | .gatedDelta _ _ => True
  | .dhara attn _ => KvCache.Reachable attn

theorem Reachable.ahead [Zero κ] [Zero ν] {layer : LayerCache κ ν A} (h : layer.Reachable) :
    Ahead 0 layer layer := by
  cases layer with
  | attention c =>
    obtain ⟨H, hinv⟩ := KvCache.Reachable.inv h
    exact .refl hinv
  | gatedDelta conv recur => trivial
  | dhara attn canon =>
    obtain ⟨H, hinv⟩ := KvCache.Reachable.inv h
    exact .refl hinv

/-- A layer keeps its kind, so that a feed fits it as it fits the one it started as. -/
theorem Ahead.fits {used added : Nat} {layer layer' : LayerCache κ ν A} {f : Feed κ ν A added}
    (h : Ahead used layer layer') (hfits : f.Fits layer) : f.Fits layer' := by
  cases layer <;> cases layer' <;> cases f <;> first | exact h.elim | exact hfits

theorem Ahead.feed [Zero κ] [Zero ν] {used added : Nat} {layer layer' : LayerCache κ ν A}
    {f : Feed κ ν A added} (h : Ahead used layer layer') (hfits : f.Fits layer)
    (hadd : 0 < added) (htrim : layer.wouldTrim (used + added) = false) :
    ∃ layer'', layer'.feed f = .ok layer'' ∧ Ahead (used + added) layer layer'' := by
  have hfits' := h.fits hfits
  cases f with
  | attention rows =>
    obtain ⟨chunk, rfl⟩ := rows
    cases layer' with
    | attention c' =>
      cases layer with
      | attention c =>
        obtain ⟨c'', keys, values, hfetch, hahead⟩ := KvCache.Ahead.append h chunk hadd htrim
        exact ⟨.attention c'', by simp only [LayerCache.feed, hfetch]; rfl, hahead⟩
      | _ => exact hfits.elim
    | _ => exact hfits'.elim
  | gatedDelta conv recur =>
    cases layer' with
    | gatedDelta conv' recur' =>
      cases layer with
      | gatedDelta conv₀ recur₀ => exact ⟨_, rfl, trivial⟩
      | _ => exact hfits.elim
    | _ => exact hfits'.elim
  | dhara rows canon =>
    obtain ⟨chunk, rfl⟩ := rows
    cases layer' with
    | dhara attn' canon' =>
      cases layer with
      | dhara attn canon₀ =>
        obtain ⟨c'', keys, values, hfetch, hahead⟩ := KvCache.Ahead.append h chunk hadd htrim
        exact ⟨.dhara c'' canon, by simp only [LayerCache.feed, hfetch]; rfl, hahead⟩
      | _ => exact hfits.elim
    | _ => exact hfits'.elim

/-- Rolling back succeeds, whatever the feeds did to the recurrent states. -/
theorem Ahead.rollback {used : Nat} {layer layer' : LayerCache κ ν A}
    (h : Ahead used layer layer') :
    ∃ layer'', layer'.rollback layer.rollbackState = (.ok (), layer'') ∧ Alike layer layer'' := by
  cases layer with
  | attention c =>
    cases layer' with
    | attention c' =>
      obtain ⟨H, c'', htruncate, halike⟩ := KvCache.Ahead.takeBack h
      exact ⟨.attention c'', by simp only [LayerCache.rollback, rollbackState, htruncate],
        H, halike⟩
    | _ => exact h.elim
  | gatedDelta conv recur =>
    cases layer' with
    | gatedDelta conv' recur' => exact ⟨_, rfl, rfl, rfl⟩
    | _ => exact h.elim
  | dhara attn canon =>
    cases layer' with
    | dhara attn' canon' =>
      obtain ⟨H, c'', htruncate, halike⟩ := KvCache.Ahead.takeBack h
      exact ⟨.dhara c'' canon, by simp only [LayerCache.rollback, rollbackState, htruncate],
        ⟨H, halike⟩, rfl⟩
    | _ => exact h.elim

/-- One question to two layers that are alike. -/
theorem Alike.observe [Zero κ] [Zero ν] {layer layer' : LayerCache κ ν A}
    (h : Alike layer layer') (q : Query κ ν A) :
    (layer.observe q).1 = (layer'.observe q).1 ∧
      Alike (layer.observe q).2 (layer'.observe q).2 := by
  cases layer with
  | attention c =>
    cases layer' with
    | attention c' =>
      obtain ⟨H, halike⟩ := h
      cases q with
      | kv q =>
        obtain ⟨hanswer, hnext⟩ := halike.observe q
        exact ⟨congrArg Answer.kv hanswer, hnext⟩
      | _ => exact ⟨rfl, H, halike⟩
    | _ => exact h.elim
  | gatedDelta conv recur =>
    cases layer' with
    | gatedDelta conv' recur' =>
      obtain ⟨rfl, rfl⟩ := h
      cases q <;> exact ⟨rfl, rfl, rfl⟩
    | _ => exact h.elim
  | dhara attn canon =>
    cases layer' with
    | dhara attn' canon' =>
      obtain ⟨⟨H, halike⟩, rfl⟩ := h
      cases q with
      | kv q =>
        obtain ⟨hanswer, hnext⟩ := halike.observe q
        exact ⟨congrArg Answer.kv hanswer, hnext, rfl⟩
      | _ => exact ⟨rfl, ⟨H, halike⟩, rfl⟩
    | _ => exact h.elim

end LayerCache

/-! ## A stack of layers -/

namespace LayerStack

open LayerCache

variable {κ ν A : Type}

/-- `capture`. -/
def capture (layers : List (LayerCache κ ν A)) : List (LayerRollback A) :=
  layers.map rollbackState

/-- `restore`; the layers that are left when it fails are returned as well. -/
def restore : List (LayerCache κ ν A) → List (LayerRollback A) →
    Except Error Unit × List (LayerCache κ ν A)
  | layer :: layers, state :: states =>
    match layer.rollback state with
    | (.ok _, layer) => ((restore layers states).1, layer :: (restore layers states).2)
    | (.error e, layer) => (.error e, layer :: layers)
  | layers, _ => (.ok (), layers)

/-- `window_would_trim`. -/
def windowWouldTrim (layers : List (LayerCache κ ν A)) (added : Nat) : Bool :=
  layers.any fun layer => layer.wouldTrim added

/-- One forward pass of at least one token. -/
structure Pass (κ ν A : Type) where
  added : Nat
  positive : 0 < added
  feeds : List (Feed κ ν A added)

/-- A forward pass through all layers. -/
def forward [Zero κ] [Zero ν] {added : Nat} : List (LayerCache κ ν A) → List (Feed κ ν A added) →
    Except Error (List (LayerCache κ ν A))
  | layer :: layers, f :: feeds => do
    let layer ← layer.feed f
    let layers ← forward layers feeds
    return layer :: layers
  | layers, _ => .ok layers

/-- Successive forward passes. -/
def forwardAll [Zero κ] [Zero ν] (layers : List (LayerCache κ ν A)) :
    List (Pass κ ν A) → Except Error (List (LayerCache κ ν A))
  | [] => .ok layers
  | pass :: passes => do
    let layers ← forward layers pass.feeds
    forwardAll layers passes

/-- The passes have a feed of the right kind for every layer. -/
def PassesFit (passes : List (Pass κ ν A)) (layers : List (LayerCache κ ν A)) : Prop :=
  ∀ pass ∈ passes, List.Forall₂ (fun layer f => f.Fits layer) layers pass.feeds

/-- A question to the layer at an index; `none` when there is no such layer. -/
def observe [Zero κ] [Zero ν] : List (LayerCache κ ν A) → Nat → LayerCache.Query κ ν A →
    Option (LayerCache.Answer κ ν A) × List (LayerCache κ ν A)
  | [], _, _ => (none, [])
  | layer :: layers, 0, q => (some (layer.observe q).1, (layer.observe q).2 :: layers)
  | layer :: layers, i + 1, q => ((observe layers i q).1, layer :: (observe layers i q).2)

/-- The answers to a sequence of questions to the layers. -/
def answers [Zero κ] [Zero ν] (layers : List (LayerCache κ ν A)) :
    List (Nat × LayerCache.Query κ ν A) → List (Option (LayerCache.Answer κ ν A))
  | [] => []
  | (i, q) :: qs => (observe layers i q).1 :: answers (observe layers i q).2 qs

/-- No sequence of questions tells the two stacks apart. -/
def Indistinguishable [Zero κ] [Zero ν] (layers layers' : List (LayerCache κ ν A)) : Prop :=
  ∀ qs, answers layers qs = answers layers' qs

theorem alike_observe [Zero κ] [Zero ν] {layers layers' : List (LayerCache κ ν A)}
    (h : List.Forall₂ Alike layers layers') (i : Nat) (q : LayerCache.Query κ ν A) :
    (observe layers i q).1 = (observe layers' i q).1 ∧
      List.Forall₂ Alike (observe layers i q).2 (observe layers' i q).2 := by
  induction h generalizing i with
  | nil => exact ⟨rfl, .nil⟩
  | cons halike hrest ih =>
    cases i with
    | zero =>
      obtain ⟨hanswer, hnext⟩ := halike.observe q
      exact ⟨congrArg some hanswer, .cons hnext hrest⟩
    | succ i => exact ⟨(ih i).1, .cons halike (ih i).2⟩

theorem alike_indistinguishable [Zero κ] [Zero ν] {layers layers' : List (LayerCache κ ν A)}
    (h : List.Forall₂ Alike layers layers') : Indistinguishable layers layers' := by
  intro qs
  induction qs generalizing layers layers' with
  | nil => rfl
  | cons q qs ih =>
    obtain ⟨hanswer, hnext⟩ := alike_observe h q.1 q.2
    rw [answers, answers, hanswer, ih hnext]

/-- A pass that the preflight allows succeeds in every layer. -/
theorem forward_ahead [Zero κ] [Zero ν] {used added : Nat} (hadd : 0 < added)
    {layers layers' : List (LayerCache κ ν A)} {feeds : List (Feed κ ν A added)}
    (h : List.Forall₂ (Ahead used) layers layers')
    (hfits : List.Forall₂ (fun layer f => f.Fits layer) layers feeds)
    (htrim : windowWouldTrim layers (used + added) = false) :
    ∃ layers'', forward layers' feeds = .ok layers'' ∧
      List.Forall₂ (Ahead (used + added)) layers layers'' := by
  induction h generalizing feeds with
  | nil => exact ⟨[], by cases feeds <;> rfl, .nil⟩
  | cons hahead _ ih =>
    cases hfits with
    | cons hfit hfits =>
      rw [windowWouldTrim, List.any_cons, Bool.or_eq_false_iff] at htrim
      obtain ⟨layer, hfeed, hnext⟩ := hahead.feed hfit hadd htrim.1
      obtain ⟨rest, hrest, hall⟩ := ih hfits htrim.2
      refine ⟨layer :: rest, ?_, .cons hnext hall⟩
      rw [forward, hfeed]
      show (forward _ _).bind _ = _
      rw [hrest]
      rfl

/-- What would not trim for more tokens does not trim for fewer. -/
theorem windowWouldTrim_mono {layers : List (LayerCache κ ν A)} {added more : Nat}
    (hle : added ≤ more) (h : windowWouldTrim layers more = false) :
    windowWouldTrim layers added = false := by
  unfold windowWouldTrim at h ⊢
  rw [List.any_eq_false] at h ⊢
  intro layer hlayer
  have hmore := h layer hlayer
  rw [Bool.not_eq_true] at hmore ⊢
  cases layer with
  | attention c => exact KvCache.wouldTrim_mono hle hmore
  | gatedDelta conv recur => rfl
  | dhara attn canon => exact KvCache.wouldTrim_mono hle hmore

theorem forwardAll_ahead [Zero κ] [Zero ν] {used : Nat} {layers layers' : List (LayerCache κ ν A)}
    (h : List.Forall₂ (Ahead used) layers layers') (passes : List (Pass κ ν A))
    (hfits : PassesFit passes layers)
    (htrim : windowWouldTrim layers (used + (passes.map Pass.added).sum) = false) :
    ∃ layers'' used', forwardAll layers' passes = .ok layers'' ∧
      List.Forall₂ (Ahead used') layers layers'' := by
  induction passes generalizing used layers' with
  | nil => exact ⟨layers', used, rfl, h⟩
  | cons pass passes ih =>
    rw [List.map_cons, List.sum_cons, ← Nat.add_assoc] at htrim
    obtain ⟨next, hforward, hnext⟩ := forward_ahead pass.positive h (hfits pass List.mem_cons_self)
      (windowWouldTrim_mono (Nat.le_add_right _ _) htrim)
    obtain ⟨last, used', hall, hlast⟩ := ih hnext
      (fun other hother => hfits other (List.mem_cons_of_mem _ hother)) htrim
    refine ⟨last, used', ?_, hlast⟩
    rw [forwardAll, hforward]
    exact hall

theorem restore_ahead {used : Nat} {layers layers' : List (LayerCache κ ν A)}
    (h : List.Forall₂ (Ahead used) layers layers') :
    ∃ layers'', restore layers' (capture layers) = (.ok (), layers'') ∧
      List.Forall₂ Alike layers layers'' := by
  induction h with
  | nil => exact ⟨[], rfl, .nil⟩
  | cons hahead _ ih =>
    obtain ⟨layer, hback, halike⟩ := hahead.rollback
    obtain ⟨rest, hrest, hall⟩ := ih
    refine ⟨layer :: rest, ?_, .cons halike hall⟩
    rw [capture, List.map_cons, restore, hback]
    simp only
    rw [← capture, hrest]

/-- A stack with one layer of each kind. -/
def oneOfEach : List (LayerCache Nat Nat Nat) :=
  [.attention (.windowed 2), .gatedDelta none none,
    .dhara .new ⟨none, none, none, none, none, none⟩]

/-- A pass of one token through it. -/
def onePass : Pass Nat Nat Nat where
  added := 1
  positive := Nat.one_pos
  feeds := [.attention ⟨⟨[1], [2], rfl⟩, rfl⟩, .gatedDelta (some 3) (some 4),
    .dhara ⟨⟨[5], [6], rfl⟩, rfl⟩ ⟨some 7, none, none, none, none, some 8⟩]

end LayerStack

end Emelex

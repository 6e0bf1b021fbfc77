import Emelex.Models.FitEstimate
import Mathlib.Tactic.GCongr
import Mathlib.Tactic.Ring

/-!
# The largest context that fits

* `Scales` — what is estimated grows with the context, no faster than in proportion, and is
  estimated without an error as long as it is below the limit of a word.
* `Fits` — a context whose estimate is within the budget.

Principal results: `stateAt_scales`, `contextFits_scales`, `maximumFittingContext_largest`.
-/

set_option autoImplicit false

namespace Emelex

open Checks

namespace Fit

variable {α : Type}

/-- Something that is estimated for a context: its size, and what is made of the size. -/
structure Scales (estimate : Nat → Except String α) (size : Nat → Nat) (make : Nat → α) : Prop where
  mono : Monotone size
  linear : ∀ n, 0 < n → size n ≤ n * size 1
  eq : ∀ n, 0 < n → size n < U64_LIMIT → estimate n = .ok (make (size n))
  one : size 1 < U64_LIMIT

theorem required_add {error : String} {a b : Nat} (h : a + b < U64_LIMIT) :
    required error (checkedAdd a b) = .ok (a + b) :=
  required_eq_ok.2 (Checked.checkedAdd_eq_some.2 ⟨h, rfl⟩)

theorem required_add_eq_ok {error : String} {a b c : Nat} :
    required error (checkedAdd a b) = .ok c ↔ a + b < U64_LIMIT ∧ a + b = c := by
  rw [required_eq_ok]
  exact Checked.checkedAdd_eq_some

/-- A product of which only the first two factors may be zero. -/
theorem required_product_eq_ok {error : String} {a b c : Nat} (values : List Nat)
    (ha : a < U64_LIMIT) (hpos : ∀ v ∈ values, 0 < v) :
    required error (checkedProduct (a :: b :: values)) = .ok c ↔
      a * b * values.prod < U64_LIMIT ∧ a * b * values.prod = c := by
  rw [required_eq_ok, checkedProduct, Checked.checkedProduct_eq ha hpos]
  split <;> simp_all

/-! ## The caches -/

/-- The bytes of layers whose cache holds every token. -/
def attentionBytes (layers kvHeads headDim context : Nat) : Nat :=
  2 * layers * [kvHeads, headDim, context, 1, 2].prod

theorem attentionCacheBytes_eq_ok {layers kvHeads headDim context bytes : Nat}
    (hheads : 0 < kvHeads) (hdim : 0 < headDim) (hcontext : 0 < context) :
    attentionCacheBytes layers kvHeads headDim context 1 = .ok bytes ↔
      attentionBytes layers kvHeads headDim context < U64_LIMIT ∧
        attentionBytes layers kvHeads headDim context = bytes := by
  refine required_product_eq_ok _ (by decide) fun v hv => ?_
  simp only [List.mem_cons, List.not_mem_nil, or_false] at hv
  omega

theorem attentionCacheBytes_scales {layers kvHeads headDim bytes : Nat} (hheads : 0 < kvHeads)
    (hdim : 0 < headDim) (h : attentionCacheBytes layers kvHeads headDim 1 1 = .ok bytes) :
    Scales (fun n => attentionCacheBytes layers kvHeads headDim n 1)
      (attentionBytes layers kvHeads headDim) id where
  mono a b hab := by
    refine Nat.mul_le_mul_left _ ?_
    simp only [List.prod_cons, List.prod_nil]
    gcongr
  linear n _ := by
    refine Nat.le_of_eq ?_
    simp only [attentionBytes, List.prod_cons, List.prod_nil]
    ring
  eq n hn hsize := (attentionCacheBytes_eq_ok hheads hdim hn).2 ⟨hsize, rfl⟩
  one := ((attentionCacheBytes_eq_ok hheads hdim Nat.one_pos).1 h).1

/-- What follows an estimate does not depend on the context. -/
theorem Scales.map {estimate : Nat → Except String Nat} {size : Nat → Nat}
    (h : Scales estimate size id) {estimate' : Nat → Except String α} {make : Nat → α}
    (hrest : ∀ n k, estimate n = .ok k → estimate' n = .ok (make k)) :
    Scales estimate' size make where
  mono := h.mono
  linear := h.linear
  eq n hn hsize := hrest n _ (h.eq n hn hsize)
  one := h.one

theorem Scales.congr {estimate estimate' : Nat → Except String α} {size : Nat → Nat}
    {make : Nat → α} (h : Scales estimate size make) (heq : ∀ n, 0 < n → estimate' n = estimate n) :
    Scales estimate' size make where
  mono := h.mono
  linear := h.linear
  eq n hn hsize := (heq n hn).trans (h.eq n hn hsize)
  one := h.one

/-- The bytes of layers that hold so many tokens in all. -/
theorem Scales.tokenLayers {estimate : Nat → Except String Nat} {tokens : Nat → Nat}
    (h : Scales estimate tokens id) {name : String} {geometry : Geometry}
    (hheads : 0 < geometry.kvHeads) (hdim : 0 < geometry.headDim) {bytes : Nat}
    (hone : tokenLayerBytes name geometry (tokens 1) 1 = .ok bytes) :
    Scales (fun n => estimate n >>= fun tokens => tokenLayerBytes name geometry tokens 1)
      (fun n => 2 * tokens n * [geometry.kvHeads, geometry.headDim, 1, 2].prod) id := by
  have hpos : ∀ v ∈ [geometry.kvHeads, geometry.headDim, 1, 2], 0 < v := by
    intro v hv
    simp only [List.mem_cons, List.not_mem_nil, or_false] at hv
    omega
  have hprod := List.prod_pos hpos
  refine ⟨fun a b hab => ?_, fun n hn => ?_, fun n hn hsize => ?_, ?_⟩
  · exact Nat.mul_le_mul_right _ (Nat.mul_le_mul_left _ (h.mono hab))
  · calc 2 * tokens n * [geometry.kvHeads, geometry.headDim, 1, 2].prod
        ≤ 2 * (n * tokens 1) * [geometry.kvHeads, geometry.headDim, 1, 2].prod :=
          Nat.mul_le_mul_right _ (Nat.mul_le_mul_left _ (h.linear n hn))
      _ = n * (2 * tokens 1 * [geometry.kvHeads, geometry.headDim, 1, 2].prod) := by ring
  · have hle : tokens n ≤ 2 * tokens n * [geometry.kvHeads, geometry.headDim, 1, 2].prod :=
      (Nat.le_mul_of_pos_left _ Nat.two_pos).trans (Nat.le_mul_of_pos_right _ hprod)
    rw [h.eq n hn (by omega)]
    exact (required_product_eq_ok _ (by decide) hpos).2 ⟨hsize, rfl⟩
  · exact ((required_product_eq_ok _ (by decide) hpos).1 hone).1

/-! ## Layers with a window -/

/-- What layers hold, full ones and those with a window. -/
def windowedTokens (slidingWindow full windowed context : Nat) : Nat :=
  full * context + windowed * min context slidingWindow

theorem windowedTokens_mono (slidingWindow full windowed : Nat) :
    Monotone (windowedTokens slidingWindow full windowed) := by
  intro a b hab
  unfold windowedTokens
  gcongr

theorem windowedTokens_linear (slidingWindow full windowed n : Nat) :
    windowedTokens slidingWindow full windowed n ≤
      n * windowedTokens slidingWindow full windowed 1 := by
  have hmin : min n slidingWindow ≤ n * min 1 slidingWindow := by
    rcases Nat.eq_zero_or_pos slidingWindow with rfl | hwindow
    · simp
    · rw [Nat.min_eq_left hwindow, Nat.mul_one]
      exact Nat.min_le_left _ _
  unfold windowedTokens
  calc full * n + windowed * min n slidingWindow
      ≤ full * n + windowed * (n * min 1 slidingWindow) := by gcongr
    _ = n * (full * 1 + windowed * min 1 slidingWindow) := by ring

/-- A loop over the layers: it stops for an overflow, or for a layer of no kind. -/
theorem windowed_scales {estimate : Nat → Except String Nat} {slidingWindow full windowed : Nat}
    (h : ∀ n, windowedTokens slidingWindow full windowed n < U64_LIMIT →
      estimate n = .ok (windowedTokens slidingWindow full windowed n))
    (hone : windowedTokens slidingWindow full windowed 1 < U64_LIMIT) :
    Scales estimate (windowedTokens slidingWindow full windowed) id where
  mono := windowedTokens_mono slidingWindow full windowed
  linear n _ := windowedTokens_linear slidingWindow full windowed n
  eq n _ hsize := h n hsize
  one := hone

/-- What a layer of `layer_types` holds, and how many full ones and ones with a window that is. -/
theorem kindTokens_eq_ok {key : String} {kind : Json} {slidingWindow tokens : Nat}
    (h : kindTokens key 1 slidingWindow kind = .ok tokens) :
    ∃ full windowed, tokens = windowedTokens slidingWindow full windowed 1 ∧
      ∀ n, kindTokens key n slidingWindow kind =
        .ok (windowedTokens slidingWindow full windowed n) := by
  unfold kindTokens at h ⊢
  split at h
  · obtain rfl := Except.ok.inj h
    exact ⟨1, 0, by simp [windowedTokens], fun n => by simp [windowedTokens]⟩
  · obtain rfl := Except.ok.inj h
    exact ⟨0, 1, by simp [windowedTokens], fun n => by simp [windowedTokens]⟩
  · cases h

theorem windowedTokens_add (slidingWindow full windowed full' windowed' n : Nat) :
    windowedTokens slidingWindow (full + full') (windowed + windowed') n =
      windowedTokens slidingWindow full windowed n +
        windowedTokens slidingWindow full' windowed' n := by
  unfold windowedTokens
  ring

theorem typedTokenLayers_eq_ok {name key : String} {slidingWindow total result : Nat}
    {kinds : List Json} (htotal : total < U64_LIMIT)
    (h : typedTokenLayers name key 1 slidingWindow total kinds = .ok result) :
    ∃ full windowed, total + windowedTokens slidingWindow full windowed 1 = result ∧
      result < U64_LIMIT ∧
      ∀ n total', total' + windowedTokens slidingWindow full windowed n < U64_LIMIT →
        typedTokenLayers name key n slidingWindow total' kinds =
          .ok (total' + windowedTokens slidingWindow full windowed n) := by
  induction kinds generalizing total with
  | nil =>
    obtain rfl := Except.ok.inj h
    refine ⟨0, 0, by simp [windowedTokens], htotal, fun n total' _ => ?_⟩
    simp [windowedTokens, typedTokenLayers]
  | cons kind kinds ih =>
    obtain ⟨tokens, hkind, hrest⟩ := Checks.bind_eq_ok.1 h
    obtain ⟨sum, hsum, hrest⟩ := Checks.bind_eq_ok.1 hrest
    obtain ⟨hlt, rfl⟩ := required_add_eq_ok.1 hsum
    obtain ⟨full, windowed, rfl, hkinds⟩ := kindTokens_eq_ok hkind
    obtain ⟨full', windowed', hresult, hbound, hall⟩ := ih hlt hrest
    refine ⟨full + full', windowed + windowed', ?_, hbound, fun n total' hn => ?_⟩
    · rw [windowedTokens_add, ← hresult, Nat.add_assoc]
    · rw [windowedTokens_add] at hn ⊢
      rw [typedTokenLayers, hkinds n]
      show (required _ _ >>= _) = _
      rw [required_add (by omega)]
      show typedTokenLayers name key n slidingWindow _ kinds = _
      rw [hall n _ (by omega), Nat.add_assoc]

theorem sumTokens_eq_ok {overflow : String} {total result : Nat} {tokens : List Nat}
    (htotal : total < U64_LIMIT) :
    sumTokens overflow total tokens = .ok result ↔
      total + tokens.sum < U64_LIMIT ∧ total + tokens.sum = result := by
  induction tokens generalizing total with
  | nil => simp [sumTokens, htotal, pure, Except.pure]
  | cons token tokens ih =>
    rw [sumTokens, List.foldlM_cons, Checks.bind_eq_ok, List.sum_cons, ← Nat.add_assoc]
    constructor
    · rintro ⟨sum, hsum, hrest⟩
      obtain ⟨hlt, rfl⟩ := required_add_eq_ok.1 hsum
      exact (ih hlt).1 hrest
    · rintro ⟨hlt, hresult⟩
      have hsum : total + token < U64_LIMIT := by omega
      exact ⟨_, required_add hsum, (ih hsum).2 ⟨hlt, hresult⟩⟩

/-- Where there are no `layer_types`, a pattern says which layers are full. -/
theorem pattern_sum (slidingWindow n : Nat) (isFull : Nat → Prop) [DecidablePred isFull]
    (indices : List Nat) :
    (indices.map fun index => if isFull index then n else min n slidingWindow).sum =
      windowedTokens slidingWindow (indices.countP (isFull ·)) (indices.countP (¬ isFull ·)) n := by
  induction indices with
  | nil => simp [windowedTokens]
  | cons index indices ih =>
    rw [List.map_cons, List.sum_cons, ih, List.countP_cons, List.countP_cons]
    unfold windowedTokens
    by_cases hfull : isFull index <;> simp [hfull] <;> ring

theorem gemmaTokenLayers_scales {config : Json} {layers total : Nat}
    (h : gemmaTokenLayers config layers 1 = .ok total) :
    ∃ tokens, Scales (gemmaTokenLayers config layers) tokens id := by
  unfold gemmaTokenLayers at h ⊢
  obtain ⟨_, hpattern, hrest⟩ := Checks.bind_eq_ok.1 h
  cases hkinds : (config.get "layer_types").bind Json.asArray with
  | some kinds =>
    rw [hkinds] at hrest
    obtain ⟨_, htypes, hrest⟩ := Checks.bind_eq_ok.1 hrest
    obtain ⟨full, windowed, hresult, hbound, hall⟩ := typedTokenLayers_eq_ok (by decide) hrest
    rw [← hresult, Nat.zero_add] at hbound
    refine ⟨windowedTokens _ full windowed, windowed_scales (fun n hn => ?_) hbound⟩
    refine Checks.bind_eq_ok.2 ⟨(), hpattern, Checks.bind_eq_ok.2 ⟨(), htypes, ?_⟩⟩
    rw [hall n 0 (by omega), Nat.zero_add]
  | none =>
    rw [hkinds] at hrest
    obtain ⟨hbound, -⟩ := (sumTokens_eq_ok (by decide)).1 hrest
    rw [pattern_sum, Nat.zero_add] at hbound
    refine ⟨windowedTokens _ _ _, windowed_scales (fun n hn => ?_) hbound⟩
    refine Checks.bind_eq_ok.2 ⟨(), hpattern, (sumTokens_eq_ok (by decide)).2 ?_⟩
    rw [pattern_sum, Nat.zero_add]
    exact ⟨hn, rfl⟩

theorem lagunaTokenLayers_scales {config : Json} {layers total : Nat} (hlayers : layers < U64_LIMIT)
    (h : lagunaTokenLayers config layers 1 = .ok total) :
    ∃ tokens, Scales (lagunaTokenLayers config layers) tokens id := by
  unfold lagunaTokenLayers at h ⊢
  cases hkinds : (config.get "layer_types").bind Json.asArray with
  | some kinds =>
    rw [hkinds] at h
    obtain ⟨_, htypes, hrest⟩ := Checks.bind_eq_ok.1 h
    obtain ⟨full, windowed, hresult, hbound, hall⟩ := typedTokenLayers_eq_ok (by decide) hrest
    rw [← hresult, Nat.zero_add] at hbound
    refine ⟨windowedTokens _ full windowed, windowed_scales (fun n hn => ?_) hbound⟩
    refine Checks.bind_eq_ok.2 ⟨(), htypes, ?_⟩
    rw [hall n 0 (by omega), Nat.zero_add]
  | none =>
    rw [hkinds] at h
    obtain ⟨hbound, -⟩ := (required_product_eq_ok _ hlayers (by simp)).1 h
    have htokens (n : Nat) : layers * n * [].prod = windowedTokens 0 layers 0 n := by
      simp [windowedTokens]
    refine ⟨windowedTokens 0 layers 0, windowed_scales (fun n hn => ?_) (htokens 1 ▸ hbound)⟩
    exact (required_product_eq_ok _ hlayers (by simp)).2 ⟨(htokens n).symm ▸ hn, htokens n⟩

/-! ## The runtime state -/

/-- The state at a context; only the caches of the attention depend on it. -/
def stateAt (modelType : Option String) (config : Json) (context : Nat) :
    Except String RuntimeState :=
  WorkloadProfile.new 1 context >>= estimateRuntimeState modelType config

theorem requiredInteger_eq_ok {config : Json} {key : String} {n : Nat}
    (h : requiredInteger config key = .ok n) : 0 < n ∧ n < U64_LIMIT := by
  have hfilter := required_eq_ok.1 h
  rw [Option.filter_eq_some_iff, integer, Option.filter_eq_some_iff] at hfilter
  exact ⟨of_decide_eq_true hfilter.2, of_decide_eq_true hfilter.1.2⟩

theorem attentionGeometry_eq_ok {config : Json} {geometry : Geometry}
    (h : attentionGeometry config = .ok geometry) :
    geometry.layers < U64_LIMIT ∧ 0 < geometry.kvHeads ∧ 0 < geometry.headDim := by
  obtain ⟨layers, hlayers, hrest⟩ := Checks.bind_eq_ok.1 h
  obtain ⟨hidden, -, hrest⟩ := Checks.bind_eq_ok.1 hrest
  obtain ⟨heads, -, hrest⟩ := Checks.bind_eq_ok.1 hrest
  obtain ⟨_, hgeometry, hrest⟩ := Checks.bind_eq_ok.1 hrest
  obtain rfl := Checks.pure_eq_ok.1 hrest
  obtain ⟨hheads, hdim⟩ := ensure_eq_ok.1 hgeometry
  exact ⟨(requiredInteger_eq_ok hlayers).2, Nat.pos_of_ne_zero hheads, Nat.pos_of_ne_zero hdim⟩

section Arms

variable {config : Json} {geometry : Geometry} {state : RuntimeState}
  (hheads : 0 < geometry.kvHeads) (hdim : 0 < geometry.headDim)

include hheads hdim

theorem qwenState_scales (h : qwenState config geometry 1 1 = .ok state) :
    ∃ size, Scales (fun n => qwenState config geometry n 1) size
      fun kvCacheBytes => { kvCacheBytes, recurrentBytes := state.recurrentBytes } := by
  obtain ⟨_, hinterval, hcaches⟩ := Checks.bind_eq_ok.1 h
  obtain ⟨kvCacheBytes, hcache, hstates⟩ := Checks.bind_eq_ok.1 hcaches
  obtain ⟨recurrentBytes, hrecurrent, hstate⟩ := Checks.bind_eq_ok.1 hstates
  obtain rfl := Checks.pure_eq_ok.1 hstate
  refine ⟨_, (attentionCacheBytes_scales hheads hdim hcache).map fun n k hk => ?_⟩
  refine Checks.bind_eq_ok.2 ⟨_, hinterval, Checks.bind_eq_ok.2 ⟨k, hk, ?_⟩⟩
  exact Checks.bind_eq_ok.2 ⟨_, hrecurrent, rfl⟩

theorem nemotronState_scales (h : nemotronState config geometry 1 1 = .ok state) :
    ∃ size, Scales (fun n => nemotronState config geometry n 1) size
      fun kvCacheBytes => { kvCacheBytes, recurrentBytes := state.recurrentBytes } := by
  obtain ⟨layers, hpattern, hcaches⟩ := Checks.bind_eq_ok.1 h
  obtain ⟨kvCacheBytes, hcache, hstates⟩ := Checks.bind_eq_ok.1 hcaches
  obtain ⟨recurrentBytes, hrecurrent, hstate⟩ := Checks.bind_eq_ok.1 hstates
  obtain rfl := Checks.pure_eq_ok.1 hstate
  refine ⟨_, (attentionCacheBytes_scales hheads hdim hcache).map fun n k hk => ?_⟩
  refine Checks.bind_eq_ok.2 ⟨_, hpattern, Checks.bind_eq_ok.2 ⟨k, hk, ?_⟩⟩
  exact Checks.bind_eq_ok.2 ⟨_, hrecurrent, rfl⟩

/-- The two arms with a window. -/
theorem tokenLayers_scales {tokens : Nat → Except String Nat} {name : String}
    (htokens : ∀ total, tokens 1 = .ok total → ∃ size, Scales tokens size id)
    (h : (tokens 1 >>= fun total => tokenLayerBytes name geometry total 1 >>= fun kvCacheBytes =>
      pure { kvCacheBytes, recurrentBytes := 0 }) = .ok state) :
    ∃ size, Scales (fun n => tokens n >>= fun total =>
        tokenLayerBytes name geometry total 1 >>= fun kvCacheBytes =>
          pure ({ kvCacheBytes, recurrentBytes := 0 } : RuntimeState)) size
      fun kvCacheBytes => { kvCacheBytes, recurrentBytes := state.recurrentBytes } := by
  obtain ⟨total, htotal, hcaches⟩ := Checks.bind_eq_ok.1 h
  obtain ⟨kvCacheBytes, hcache, hstate⟩ := Checks.bind_eq_ok.1 hcaches
  obtain rfl := Checks.pure_eq_ok.1 hstate
  obtain ⟨size, hscales⟩ := htokens total htotal
  have hsize : size 1 = total :=
    Except.ok.inj ((hscales.eq 1 Nat.one_pos hscales.one).symm.trans htotal)
  refine ⟨_, (hscales.tokenLayers hheads hdim (hsize ▸ hcache)).map fun n k hk => ?_⟩
  obtain ⟨total, htotal, hcache⟩ := Checks.bind_eq_ok.1 hk
  exact Checks.bind_eq_ok.2 ⟨total, htotal, Checks.bind_eq_ok.2 ⟨k, hcache, rfl⟩⟩

theorem attentionState_scales (h : attentionState geometry 1 1 = .ok state) :
    ∃ size, Scales (fun n => attentionState geometry n 1) size
      fun kvCacheBytes => { kvCacheBytes, recurrentBytes := state.recurrentBytes } := by
  obtain ⟨kvCacheBytes, hcache, hstate⟩ := Checks.bind_eq_ok.1 h
  obtain rfl := Checks.pure_eq_ok.1 hstate
  refine ⟨_, (attentionCacheBytes_scales hheads hdim hcache).map fun n k hk => ?_⟩
  exact Checks.bind_eq_ok.2 ⟨k, hk, rfl⟩

end Arms

theorem stateAt_eq (modelType : Option String) (config : Json) {context : Nat} (h : 0 < context) :
    stateAt modelType config context =
      estimateRuntimeState modelType config ⟨1, context, Nat.one_pos, h⟩ := by
  rw [stateAt, WorkloadProfile.new, dif_pos Nat.one_pos, dif_pos h]
  rfl

/-- Every arm: the recurrent state is as large at every context. -/
theorem stateAt_scales {modelType : Option String} {config : Json} {state : RuntimeState}
    (h : stateAt modelType config 1 = .ok state) :
    ∃ size, Scales (stateAt modelType config) size
      fun kvCacheBytes => { kvCacheBytes, recurrentBytes := state.recurrentBytes } := by
  rw [stateAt_eq _ _ Nat.one_pos] at h
  obtain ⟨geometry, hgeometry, harm⟩ := Checks.bind_eq_ok.1 h
  obtain ⟨hlayers, hheads, hdim⟩ := attentionGeometry_eq_ok hgeometry
  have hstate (context : Nat) (hcontext : 0 < context) : stateAt modelType config context =
      runtimeState modelType config geometry context 1 := by
    rw [stateAt_eq _ _ hcontext, estimateRuntimeState, hgeometry]
    rfl
  suffices harms : ∃ size, Scales (fun n => runtimeState modelType config geometry n 1) size
      fun kvCacheBytes => { kvCacheBytes, recurrentBytes := state.recurrentBytes } by
    obtain ⟨size, hscales⟩ := harms
    exact ⟨size, hscales.congr hstate⟩
  unfold runtimeState at harm ⊢
  split_ifs at harm ⊢
  · exact qwenState_scales hheads hdim harm
  · exact nemotronState_scales hheads hdim harm
  · exact tokenLayers_scales hheads hdim (fun _ => gemmaTokenLayers_scales) harm
  · exact tokenLayers_scales hheads hdim (fun _ => lagunaTokenLayers_scales hlayers) harm
  · exact attentionState_scales hheads hdim harm

/-! ## The fit -/

section Required

variable {config : Json} {modelType : Option String} {weightsBytes budgetBytes ceiling : Nat}

/-- The estimate at a context, with the part of it that the prompt cache may hold. -/
def estimateAt (config : Json) (modelType : Option String)
    (weightsBytes budgetBytes ceiling context : Nat) : Except String FitReport :=
  WorkloadProfile.new 1 context >>= fun workload =>
    estimateFit config modelType weightsBytes workload budgetBytes (min context ceiling)

theorem contextFits_eq (context : Nat) :
    contextFits config modelType weightsBytes budgetBytes ceiling context =
      (estimateAt config modelType weightsBytes budgetBytes ceiling context).map (·.fits) := by
  unfold contextFits estimateAt
  cases WorkloadProfile.new 1 context with
  | error error => rfl
  | ok workload =>
    show (estimateFit _ _ _ _ _ _ >>= _) = Except.map _ (estimateFit _ _ _ _ _ _)
    cases estimateFit config modelType weightsBytes workload budgetBytes (min context ceiling)
      <;> rfl

/-- What the prompt cache may hold at a context, from the size of the caches of the attention. -/
def promptSize (kvCache : Nat → Nat) (recurrent context : Nat) : Nat :=
  if 0 < context then kvCache context + recurrent * 4 else 0

/-- What is required at a context. -/
def requiredSize (kvCache : Nat → Nat) (recurrent hidden weights ceiling context : Nat) : Nat :=
  weights + (kvCache context + (promptSize kvCache recurrent (min context ceiling) +
    (MLX_FREED_BUFFER_CACHE_BYTES + (67108864 + (recurrent + context * hidden * 2) +
      max 536870912 (weights / 10)))))

theorem promptSize_mono {kvCache : Nat → Nat} (h : Monotone kvCache) (recurrent : Nat) :
    Monotone (promptSize kvCache recurrent) := by
  intro a b hab
  unfold promptSize
  split_ifs
  · exact Nat.add_le_add_right (h hab) _
  · omega
  · exact Nat.zero_le _
  · exact Nat.le_refl _

theorem promptSize_linear {kvCache : Nat → Nat} (h : ∀ n, 0 < n → kvCache n ≤ n * kvCache 1)
    (hmono : Monotone kvCache) (recurrent ceiling n : Nat) (hn : 0 < n) :
    promptSize kvCache recurrent (min n ceiling) ≤
      n * promptSize kvCache recurrent (min 1 ceiling) := by
  rcases Nat.eq_zero_or_pos ceiling with rfl | hceiling
  · simp [promptSize]
  · have hfirst : min 1 ceiling = 1 := Nat.min_eq_left hceiling
    have hcontext : 0 < min n ceiling := Nat.lt_min.2 ⟨hn, hceiling⟩
    rw [promptSize, promptSize, if_pos hcontext, hfirst, if_pos Nat.one_pos, Nat.mul_add]
    refine Nat.add_le_add ((hmono (Nat.min_le_left n ceiling)).trans (h n hn)) ?_
    exact Nat.le_mul_of_pos_left _ hn

theorem requiredSize_mono {kvCache : Nat → Nat} (h : Monotone kvCache)
    (recurrent hidden weights ceiling : Nat) :
    Monotone (requiredSize kvCache recurrent hidden weights ceiling) := by
  intro a b hab
  have hprompt := promptSize_mono h recurrent (min_le_min_right ceiling hab)
  have hkv := h hab
  unfold requiredSize
  gcongr

theorem requiredSize_linear {kvCache : Nat → Nat} (h : ∀ n, 0 < n → kvCache n ≤ n * kvCache 1)
    (hmono : Monotone kvCache) (recurrent hidden weights ceiling n : Nat) (hn : 0 < n) :
    requiredSize kvCache recurrent hidden weights ceiling n ≤
      n * requiredSize kvCache recurrent hidden weights ceiling 1 := by
  have hkv := h n hn
  have hprompt := promptSize_linear h hmono recurrent ceiling n hn
  have hconst (k : Nat) : k ≤ n * k := Nat.le_mul_of_pos_left _ hn
  unfold requiredSize
  simp only [Nat.mul_add]
  refine Nat.add_le_add (hconst _) (Nat.add_le_add hkv (Nat.add_le_add hprompt (Nat.add_le_add
    (hconst _) (Nat.add_le_add (Nat.add_le_add (hconst _) (Nat.add_le_add (hconst _) ?_))
      (hconst _)))))
  rw [Nat.one_mul, Nat.mul_assoc]

theorem persistentBytes_eq_ok {state : RuntimeState} {workload : WorkloadProfile} {bytes : Nat}
    (hbatch : workload.batchSize = 1) (hcontext : workload.contextTokens < U64_LIMIT) :
    persistentBytes config state workload = .ok bytes ↔
      67108864 + (state.recurrentBytes +
        workload.contextTokens * (integer config "hidden_size").getD 0 * 2) < U64_LIMIT ∧
      67108864 + (state.recurrentBytes +
        workload.contextTokens * (integer config "hidden_size").getD 0 * 2) = bytes := by
  unfold persistentBytes
  rw [hbatch]
  simp only [Checks.bind_eq_ok, required_product_eq_ok [1, 2] hcontext (by simp),
    required_add_eq_ok, List.prod_cons, List.prod_nil]
  constructor
  · rintro ⟨_, ⟨-, rfl⟩, _, ⟨-, rfl⟩, hlt, rfl⟩
    exact ⟨hlt, rfl⟩
  · rintro ⟨hlt, rfl⟩
    exact ⟨_, ⟨by omega, rfl⟩, _, ⟨by omega, rfl⟩, hlt, rfl⟩

theorem promptCacheBytes_eq_ok {kvCache : Nat → Nat} {recurrent context bytes : Nat}
    (hrecurrent : recurrent < U64_LIMIT)
    (hstate : 0 < context → stateAt modelType config context = .ok ⟨kvCache context, recurrent⟩) :
    promptCacheBytes config modelType 1 context = .ok bytes ↔
      promptSize kvCache recurrent context < U64_LIMIT ∧
        promptSize kvCache recurrent context = bytes := by
  unfold promptCacheBytes promptSize
  split_ifs with hcontext
  · have hcached := hstate hcontext
    rw [stateAt] at hcached
    obtain ⟨workload, hworkload, hcached⟩ := Checks.bind_eq_ok.1 hcached
    rw [hworkload]
    show (estimateRuntimeState modelType config workload >>= _) = _ ↔ _
    rw [hcached]
    simp only [Checks.bind_eq_ok, Except.ok.injEq, exists_eq_left',
      required_product_eq_ok [] hrecurrent (by simp), required_add_eq_ok,
      List.prod_nil, Nat.mul_one, DEFAULT_MAX_ENTRIES]
    constructor
    · rintro ⟨_, ⟨-, rfl⟩, hlt, rfl⟩
      exact ⟨hlt, rfl⟩
    · rintro ⟨hlt, rfl⟩
      exact ⟨_, ⟨by omega, rfl⟩, hlt, rfl⟩
  · rw [Except.ok.injEq]
    exact ⟨fun h => ⟨by decide, h⟩, And.right⟩

theorem requiredBytes_eq_ok {weights kvCache promptCache persistent margin bytes : Nat} :
    requiredBytes weights kvCache promptCache persistent margin = .ok bytes ↔
      weights + (kvCache + (promptCache + (MLX_FREED_BUFFER_CACHE_BYTES + (persistent + margin)))) <
        U64_LIMIT ∧
      weights + (kvCache + (promptCache + (MLX_FREED_BUFFER_CACHE_BYTES + (persistent + margin)))) =
        bytes := by
  unfold requiredBytes
  simp only [Checks.bind_eq_ok, required_add_eq_ok]
  constructor
  · rintro ⟨_, ⟨-, rfl⟩, _, ⟨-, rfl⟩, _, ⟨-, rfl⟩, _, ⟨-, rfl⟩, hlt, rfl⟩
    exact ⟨hlt, rfl⟩
  · rintro ⟨hlt, rfl⟩
    exact ⟨_, ⟨by omega, rfl⟩, _, ⟨by omega, rfl⟩, _, ⟨by omega, rfl⟩, _, ⟨by omega, rfl⟩, hlt, rfl⟩

theorem hiddenSize_pos {config : Json} {modelType : Option String} {state : RuntimeState}
    (h : stateAt modelType config 1 = .ok state) : 0 < (integer config "hidden_size").getD 0 := by
  rw [stateAt_eq _ _ Nat.one_pos] at h
  obtain ⟨geometry, hgeometry, -⟩ := Checks.bind_eq_ok.1 h
  obtain ⟨layers, -, hrest⟩ := Checks.bind_eq_ok.1 hgeometry
  obtain ⟨hidden, hhidden, -⟩ := Checks.bind_eq_ok.1 hrest
  have hfilter := required_eq_ok.1 hhidden
  rw [Option.filter_eq_some_iff] at hfilter
  rw [hfilter.1]
  exact of_decide_eq_true hfilter.2

/-- The test at a context where the state is known. -/
theorem contextFits_eq_ok {kvCache : Nat → Nat} {recurrent context : Nat} {fits : Bool}
    (hpos : 0 < context) (hlt : context < U64_LIMIT)
    (hstate : ∀ n, n = context ∨ n = min context ceiling → 0 < n →
      stateAt modelType config n = .ok ⟨kvCache n, recurrent⟩) :
    contextFits config modelType weightsBytes budgetBytes ceiling context = .ok fits ↔
      requiredSize kvCache recurrent ((integer config "hidden_size").getD 0) weightsBytes ceiling
          context < U64_LIMIT ∧
        decide (requiredSize kvCache recurrent ((integer config "hidden_size").getD 0) weightsBytes
          ceiling context ≤ budgetBytes) = fits := by
  have hcurrent := hstate context (.inl rfl) hpos
  rw [stateAt_eq _ _ hpos] at hcurrent
  have hworkload : WorkloadProfile.new 1 context = .ok ⟨1, context, Nat.one_pos, hpos⟩ := by
    rw [WorkloadProfile.new, dif_pos Nat.one_pos, dif_pos hpos]
  have hprompt (hrecurrent : recurrent < U64_LIMIT) {bytes : Nat} :=
    @promptCacheBytes_eq_ok config modelType kvCache recurrent (min context ceiling) bytes
      hrecurrent (hstate _ (.inr rfl))
  have hpersistent {bytes : Nat} := @persistentBytes_eq_ok config ⟨kvCache context, recurrent⟩
    ⟨1, context, Nat.one_pos, hpos⟩ bytes rfl hlt
  unfold contextFits estimateFit requiredSize
  simp only [hworkload, Checks.bind_eq_ok, Except.ok.injEq, exists_eq_left', hcurrent,
    hpersistent, requiredBytes_eq_ok, Checks.pure_eq_ok]
  constructor
  · rintro ⟨_, ⟨_, ⟨hbytes, rfl⟩, _, hcached, _, ⟨hsum, rfl⟩, rfl⟩, rfl⟩
    obtain ⟨-, rfl⟩ := (hprompt (by omega)).1 hcached
    exact ⟨hsum, rfl⟩
  · rintro ⟨hsum, rfl⟩
    have hcached := (hprompt (by omega)).2 ⟨by omega, rfl⟩
    exact ⟨_, ⟨_, ⟨by omega, rfl⟩, _, hcached, _, ⟨hsum, rfl⟩, rfl⟩, rfl⟩

theorem contextFits_scales {fits : Bool}
    (h : contextFits config modelType weightsBytes budgetBytes ceiling 1 = .ok fits) :
    ∃ size, Scales (contextFits config modelType weightsBytes budgetBytes ceiling) size
      fun required => decide (required ≤ budgetBytes) := by
  have hstate : ∃ state, stateAt modelType config 1 = .ok state := by
    obtain ⟨workload, hworkload, hfit⟩ := Checks.bind_eq_ok.1 h
    obtain ⟨fit, hestimate, -⟩ := Checks.bind_eq_ok.1 hfit
    obtain ⟨state, hstate, -⟩ := Checks.bind_eq_ok.1 hestimate
    exact ⟨state, Checks.bind_eq_ok.2 ⟨workload, hworkload, hstate⟩⟩
  obtain ⟨state, hstate⟩ := hstate
  obtain ⟨kvCache, hscales⟩ := stateAt_scales hstate
  have hhidden := hiddenSize_pos hstate
  have hfirst (n : Nat) (hn : n = 1 ∨ n = min 1 ceiling) (hpos : 0 < n) :
      stateAt modelType config n = .ok ⟨kvCache n, state.recurrentBytes⟩ := by
    have hone : n = 1 := by omega
    exact hscales.eq n hpos (hone ▸ hscales.one)
  refine ⟨requiredSize kvCache state.recurrentBytes ((integer config "hidden_size").getD 0)
    weightsBytes ceiling, ?_, ?_, fun n hn hsize => ?_, ?_⟩
  · exact requiredSize_mono hscales.mono _ _ _ _
  · exact requiredSize_linear hscales.linear hscales.mono _ _ _ _
  · -- every part is at most the sum
    have hproduct : n ≤ n * (integer config "hidden_size").getD 0 :=
      Nat.le_mul_of_pos_right _ hhidden
    have hlt : n < U64_LIMIT ∧ kvCache n < U64_LIMIT := by
      unfold requiredSize at hsize
      omega
    refine (contextFits_eq_ok hn hlt.1 fun k hk hpos => hscales.eq k hpos ?_).2 ⟨hsize, rfl⟩
    have hle : k ≤ n := by omega
    exact (hscales.mono hle).trans_lt hlt.2
  · exact ((contextFits_eq_ok Nat.one_pos (by decide) hfirst).1 h).1

end Required

/-! ## The search -/

/-- A context whose estimate is within the budget. -/
def Fits (config : Json) (modelType : Option String)
    (weightsBytes budgetBytes ceiling context : Nat) : Prop :=
  ∃ fit, estimateAt config modelType weightsBytes budgetBytes ceiling context = .ok fit ∧
    fit.fits = true

section Search

variable {config : Json} {modelType : Option String}
  {weightsBytes maximumContextTokens budgetBytes ceiling : Nat}

theorem fits_iff {context : Nat} :
    Fits config modelType weightsBytes budgetBytes ceiling context ↔
      contextFits config modelType weightsBytes budgetBytes ceiling context = .ok true := by
  rw [contextFits_eq, Fits]
  cases estimateAt config modelType weightsBytes budgetBytes ceiling context with
  | error error => simp [Except.map]
  | ok fit => simp [Except.map]

/-- What the search finds has been tested, and is in its range. -/
theorem maximumFittingContext_fits {context : Nat}
    (h : maximumFittingContext config modelType weightsBytes maximumContextTokens budgetBytes
      ceiling = .ok (some context)) :
    0 < context ∧ context ≤ maximumContextTokens ∧
      Fits config modelType weightsBytes budgetBytes ceiling context := by
  unfold maximumFittingContext at h
  dsimp only at h
  split_ifs at h with hzero
  · cases h
  have hpos : 1 ≤ maximumContextTokens := Nat.pos_of_ne_zero hzero
  obtain ⟨first, hfirst, h⟩ := Checks.bind_eq_ok.1 h
  cases first with
  | false => cases h
  | true =>
    obtain ⟨last, hlast, h⟩ := Checks.bind_eq_ok.1 h
    cases last with
    | true =>
      obtain rfl : maximumContextTokens = context := Option.some.inj (Except.ok.inj h)
      exact ⟨hpos, Nat.le_refl _, fits_iff.2 hlast⟩
    | false =>
      obtain ⟨fitting, hfitting, h⟩ := Checks.bind_eq_ok.1 h
      obtain rfl : fitting = context := Option.some.inj (Except.ok.inj h)
      obtain ⟨hlow, hhigh, htest⟩ := Bisection.test_of_bisect_eq_ok hpos hfirst hfitting
      exact ⟨hlow, hhigh, fits_iff.2 htest⟩

/-- Where each test has the result of a monotone size, the search finds the last context below the
budget. -/
theorem maximumFittingContext_eq_some {size : Nat → Nat} (hmono : Monotone size)
    (htest : ∀ n, 0 < n → n ≤ maximumContextTokens →
      contextFits config modelType weightsBytes budgetBytes ceiling n =
        .ok (decide (size n ≤ budgetBytes)))
    (hpos : 0 < maximumContextTokens) (hone : size 1 ≤ budgetBytes) :
    ∃ context, maximumFittingContext config modelType weightsBytes maximumContextTokens budgetBytes
        ceiling = .ok (some context) ∧
      ∀ n ≤ maximumContextTokens, size n ≤ budgetBytes → n ≤ context := by
  have hfirst := htest 1 Nat.one_pos hpos
  have hlast := htest maximumContextTokens hpos (Nat.le_refl _)
  unfold maximumFittingContext
  dsimp only
  rw [if_neg (Nat.pos_iff_ne_zero.1 hpos), hfirst, decide_eq_true hone]
  show ∃ context, (contextFits _ _ _ _ _ _ >>= _) = _ ∧ _
  rw [hlast]
  by_cases hall : size maximumContextTokens ≤ budgetBytes
  · rw [decide_eq_true hall]
    exact ⟨maximumContextTokens, rfl, fun n hn _ => hn⟩
  · rw [decide_eq_false hall]
    show ∃ context, (Bisection.bisect _ _ _ >>= _) = _ ∧ _
    have hlt : 1 < maximumContextTokens := by
      by_contra hle
      exact hall ((hmono (Nat.not_lt.1 hle)).trans hone)
    obtain ⟨context, hcontext, -, -, hfits, hnext⟩ :=
      Bisection.bisect_eq_ok (p := fun n => size n ≤ budgetBytes) hlt hone hall fun n hn hle =>
        htest n (by omega) (by omega)
    refine ⟨context, by rw [hcontext]; rfl, fun n _ hn => ?_⟩
    by_contra hgreater
    exact hnext ((hmono (Nat.not_le.1 hgreater)).trans hn)

/-- The search, in a range where no test overflows once the first context fits. -/
theorem maximumFittingContext_largest (hlimit : maximumContextTokens * budgetBytes < U64_LIMIT)
    {fit : FitReport}
    (h : estimateAt config modelType weightsBytes budgetBytes ceiling 1 = .ok fit) :
    ∃ result, maximumFittingContext config modelType weightsBytes maximumContextTokens budgetBytes
        ceiling = .ok result ∧
      (∀ context, result = some context → IsGreatest { n | 0 < n ∧ n ≤ maximumContextTokens ∧
        Fits config modelType weightsBytes budgetBytes ceiling n } context) ∧
      (result = none ↔ maximumContextTokens = 0 ∨
        ¬ Fits config modelType weightsBytes budgetBytes ceiling 1) := by
  have hcontext :
      contextFits config modelType weightsBytes budgetBytes ceiling 1 = .ok fit.fits := by
    rw [contextFits_eq, h]
    rfl
  obtain ⟨size, hscales⟩ := contextFits_scales hcontext
  have hfirst := hscales.eq 1 Nat.one_pos hscales.one
  rcases Nat.eq_zero_or_pos maximumContextTokens with hzero | hpos
  · refine ⟨none, by rw [maximumFittingContext, hzero]; rfl, fun _ hnone => ?_, ?_⟩
    · cases hnone
    · exact ⟨fun _ => .inl hzero, fun _ => rfl⟩
  by_cases hone : size 1 ≤ budgetBytes
  · have htest (n : Nat) (hn : 0 < n) (hle : n ≤ maximumContextTokens) :
        contextFits config modelType weightsBytes budgetBytes ceiling n =
          .ok (decide (size n ≤ budgetBytes)) := by
      refine hscales.eq n hn ((hscales.linear n hn).trans_lt (lt_of_le_of_lt ?_ hlimit))
      exact Nat.mul_le_mul hle hone
    obtain ⟨context, hresult, hgreatest⟩ :=
      maximumFittingContext_eq_some hscales.mono htest hpos hone
    refine ⟨some context, hresult, ?_, ?_⟩
    · rintro _ ⟨⟩
      refine ⟨maximumFittingContext_fits hresult, fun n hn => hgreatest n hn.2.1 ?_⟩
      have htrue := fits_iff.1 hn.2.2
      rw [htest n hn.1 hn.2.1] at htrue
      exact of_decide_eq_true (Except.ok.inj htrue)
    · rw [decide_eq_true hone] at hfirst
      constructor
      · intro hnone
        cases hnone
      · rintro (hzero | hnone)
        · exact absurd hzero (Nat.pos_iff_ne_zero.1 hpos)
        · exact absurd (fits_iff.2 hfirst) hnone
  · rw [decide_eq_false hone] at hfirst
    refine ⟨none, ?_, fun _ hnone => ?_, fun _ => .inr fun hfits => ?_, fun _ => rfl⟩
    · unfold maximumFittingContext
      dsimp only
      rw [if_neg (Nat.pos_iff_ne_zero.1 hpos), hfirst]
      rfl
    · cases hnone
    · rw [fits_iff, hfirst] at hfits
      cases hfits

end Search

end Fit

end Emelex

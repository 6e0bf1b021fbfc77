import Emelex.Models.RecurrentLayers
import Mathlib.Data.Matrix.Mul
import Mathlib.Data.List.GetD
import Mathlib.Logic.Equiv.Fin.Rotate

/-!
# Recurrent layers are chunk-invariant

* `causalConv` — the causal depthwise convolution with zeros before the first position.
* `deltaRule`, `selectiveState` — the recurrences, with matrices.
* `GatedDeltaNet.textbook`, `Mamba2Mixer.textbook`, `CanonLayer.textbook` — the layers over a whole
  sequence.
* `ChunkInvariant` — any chunks give what the whole sequence gives.

Principal results: `slide_eq_causalConvs`, `GatedDeltaNet.forward_new`, `Mamba2Mixer.forward_new`,
`CanonLayer.forward_new`, `recurrent_layers_chunk_invariant`.
-/

set_option autoImplicit false

namespace Emelex

namespace Recurrent

open ChunkedLayers

variable {B R : Type} [CommRing R]

/-! ## Specification -/

/-- Any chunks that are fed one after another give the outputs and the state of the whole sequence,
and they do not fail. -/
def ChunkInvariant {α β σ : Type} (forward : List α → σ → Option (List β × σ)) : Prop :=
  ∀ chunks state, chunks ≠ [] → (∀ chunk ∈ chunks, chunk ≠ []) →
    feed forward chunks state = forward chunks.flatten state ∧
      (forward chunks.flatten state).isSome = true

/-- The causal convolution at position `t`: the last weight is for the position itself, the others
for those before it, and before the first position there are zeros. -/
def causalConv {k c : ℕ} (weight : Fin c → Fin k → R) (xs : List (Frame B c R)) (t : ℕ) :
    Frame B c R :=
  fun b i => ∑ j : Fin k, weight i j.rev * if (j : ℕ) ≤ t then xs.getD (t - j) 0 b i else 0

/-- The causal convolution at every position. -/
def causalConvs {k c : ℕ} (weight : Fin c → Fin k → R) (xs : List (Frame B c R)) :
    List (Frame B c R) :=
  (List.range xs.length).map (causalConv weight xs)

/-- The gated delta rule: the old value at the key is replaced by the new one. -/
def deltaRule {m n : ℕ} (S : Fin m → Fin n → R) (q k : Fin n → R) (v : Fin m → R) (g beta : R) :
    (Fin m → R) × (Fin m → Fin n → R) :=
  let S' := g • Matrix.of S + Matrix.vecMulVec (beta • (v - (g • Matrix.of S).mulVec k)) k
  (S'.mulVec q, Matrix.of.symm S')

/-- The selective state space model: the state decays, and the input is added to it. -/
def selectiveState {m n : ℕ} (S : Fin m → Fin n → R) (x : Fin m → R) (b c : Fin n → R)
    (decay dt d : R) : (Fin m → R) × (Fin m → Fin n → R) :=
  let S' := decay • Matrix.of S + Matrix.vecMulVec (dt • x) b
  (S'.mulVec c + d • x, Matrix.of.symm S')

/-- The delta rule for every head. -/
def GatedDeltaNet.deltaStep {cfg : GatedDeltaConfig} (S : GatedDeltaNet.State R cfg)
    (row : DeltaRow R cfg) :
    (Fin cfg.numVHeads → Fin cfg.headVDim → R) × GatedDeltaNet.State R cfg :=
  (fun h => (deltaRule (S h) (row.q h) (row.k h) (row.v h) (row.g h) (row.beta h)).1,
    fun h => (deltaRule (S h) (row.q h) (row.k h) (row.v h) (row.g h) (row.beta h)).2)

/-- The state space model of every head, which decays with its time step. -/
def Mamba2Mixer.ssmStep {hidden : ℕ} {cfg : Mamba2Config} (act : Activations R)
    (mixer : Mamba2Mixer R hidden cfg) (S : Mamba2Mixer.State R cfg) (row : SsmRow R cfg) :
    (Fin cfg.numHeads → Fin cfg.headDim → R) × Mamba2Mixer.State R cfg :=
  let decay := fun h => act.exp (row.dt h * -act.exp (mixer.aLog h))
  (fun h => (selectiveState (S h) (row.x h) (row.b h) (row.c h) (decay h) (row.dt h) (mixer.d h)).1,
    fun h => (selectiveState (S h) (row.x h) (row.b h) (row.c h) (decay h) (row.dt h)
      (mixer.d h)).2)

/-- `GatedDeltaNet` over a whole sequence: the outputs, and the last state. -/
def GatedDeltaNet.textbook {hidden : ℕ} {cfg : GatedDeltaConfig} (act : Activations R)
    (net : GatedDeltaNet R hidden cfg) (inputs : List (Frame B hidden R)) :
    List (Frame B hidden R) × (B → GatedDeltaNet.State R cfg) :=
  let conv := causalConvs net.conv1dWeight (inputs.map fun x b => net.inProjQkv (x b))
  let (ys, state) := loop GatedDeltaNet.deltaStep
    (zipPositions (net.row act) conv inputs) fun _ _ _ _ => 0
  (zipPositions (net.output act) ys inputs, state)

/-- `Mamba2Mixer` over a whole sequence: the outputs, and the last state. -/
def Mamba2Mixer.textbook {hidden : ℕ} {cfg : Mamba2Config} (act : Activations R)
    (mixer : Mamba2Mixer R hidden cfg) (inputs : List (Frame B hidden R)) :
    List (Frame B hidden R) × (B → Mamba2Mixer.State R cfg) :=
  let conv := causalConvs mixer.conv1dWeight (inputs.map fun x b => mixer.convInput (x b))
  let (ys, state) := loop (mixer.ssmStep act)
    (zipPositions (mixer.row act) conv inputs) fun _ _ _ _ => 0
  (zipPositions (mixer.output act) ys inputs, state)

/-- A Canon layer over a whole sequence. -/
def CanonLayer.textbook (act : Activations R) (canon : CanonLayer R)
    (x : List (Frame B canon.dim R)) : List (Frame B canon.dim R) :=
  zipPositions (canon.output act) (causalConvs canon.weight x) x

/-! ## The convolution -/

theorem keptRows_none {n c : ℕ} :
    keptRows (none : Option (List.Vector (Frame B c R) n)) = List.replicate n 0 := rfl

/-- A convolution over zeros and the rows is the causal one. -/
theorem slide_eq_causalConvs {k c : ℕ} (hk : 0 < k) (weight : Fin c → Fin k → R)
    (xs : List (Frame B c R)) :
    slide k (convWindow weight) (keptRows (none : Option (List.Vector _ (k - 1))) ++ xs) =
      causalConvs weight xs := by
  rw [keptRows_none]
  refine List.ext_getElem ?_ fun t ht ht' => ?_
  · rw [slide_length, List.length_append, List.length_replicate, causalConvs, List.length_map,
      List.length_range]
    omega
  · simp only [causalConvs, List.length_map, List.length_range] at ht'
    simp only [slide, causalConvs, List.getElem_ofFn, List.getElem_map, List.getElem_range,
      List.get_eq_getElem]
    funext b i
    simp only [convWindow, causalConv]
    -- the last weight of the window stands at the position itself
    refine Fintype.sum_equiv Fin.revPerm _ _ fun j => ?_
    rw [Fin.revPerm_apply, Fin.rev_rev, mul_comm, Fin.val_rev]
    congr 1
    by_cases hj : k - (j + 1) ≤ t
    · rw [if_pos hj, List.getElem_append_right (by rw [List.length_replicate]; omega),
        List.getD_eq_getElem _ _ (by omega)]
      refine congrFun (congrFun (getElem_congr_idx ?_) b) i
      rw [List.length_replicate]
      omega
    · rw [if_neg hj, List.getElem_append_left (by rw [List.length_replicate]; omega),
        List.getElem_replicate]
      rfl

/-! ## The layers as windows and a recurrence -/

/-- The state of a layer as a pair. -/
def GatedDeltaCache.equiv (n : ℕ) (γ σ : Type) :
    GatedDeltaCache n γ σ ≃ Option (List.Vector γ n) × Option σ where
  toFun cache := (cache.convState, cache.recurState)
  invFun state := ⟨state.1, state.2⟩
  left_inv _ := rfl
  right_inv _ := rfl

theorem windowed_eq_conv1d {k c : ℕ} (weight : Fin c → Fin k → R) (rows : List (Frame B c R))
    (state : Option (List.Vector (Frame B c R) (k - 1))) :
    windowed k 0 (convWindow weight) rows state =
      (conv1d (keptRows state ++ rows) weight).map fun out =>
        (out, some (keepWindow state rows)) := by
  unfold conv1d
  split
  · rename_i hshort
    exact if_pos hshort
  · rename_i hlong
    exact if_neg hlong

/-- A layer that resumes and accepts every input is chunk-invariant. -/
theorem ChunkInvariant.of_resumes {α β σ : Type} {forward : List α → σ → Option (List β × σ)}
    (h : Resumes forward) (hsome : ∀ rows state, rows ≠ [] → (forward rows state).isSome = true) :
    ChunkInvariant forward := by
  intro chunks state hne hchunks
  refine ⟨h.feed_eq hne hchunks state, hsome _ _ fun hnil => ?_⟩
  obtain ⟨chunk, rest, rfl⟩ := List.exists_cons_of_ne_nil hne
  have hchunk : chunk = [] := List.flatten_eq_nil_iff.1 hnil chunk List.mem_cons_self
  exact hchunks chunk List.mem_cons_self hchunk

/-! ## The layers with a recurrence -/

section convLoop

variable {hidden k c : ℕ} {σ ρ τ : Type} (weight : Fin c → Fin k → R) (initial : σ)
  (project : (Fin hidden → R) → Fin c → R) (row : (Fin c → R) → (Fin hidden → R) → ρ)
  (step : σ → ρ → τ × σ) (output : τ → (Fin hidden → R) → Fin hidden → R)

/-- What the two layers with a recurrence have in common. -/
def convLoop (inputs : List (Frame B hidden R))
    (cache : GatedDeltaCache (k - 1) (Frame B c R) (B → σ)) :
    Option (List (Frame B hidden R) × GatedDeltaCache (k - 1) (Frame B c R) (B → σ)) := do
  let rows := inputs.map fun x b => project (x b)
  let convOut ← conv1d (keptRows cache.convState ++ rows) weight
  let (ys, state) := loop step (zipPositions row convOut inputs)
    (cache.recurState.getD fun _ => initial)
  return (zipPositions output ys inputs,
    { convState := some (keepWindow cache.convState rows), recurState := some state })

variable (hk : 0 < k)
include hk

theorem convLoop_resumes : Resumes (convLoop (B := B) weight initial project row step output) := by
  refine Resumes.of_equiv (recurrent_resumes hk 0 (fun _ => initial) (fun x b => project (x b))
    (convWindow weight) (fun conv x b => row (conv b) (x b))
    (fun state row => (fun b => (step (state b) (row b)).1, fun b => (step (state b) (row b)).2))
    fun y x b => output (y b) (x b)) (GatedDeltaCache.equiv _ _ _) fun inputs cache => ?_
  unfold convLoop recurrent
  rw [windowed_eq_conv1d]
  show Option.bind (conv1d (keptRows cache.convState ++ _) _) _ = Option.map _ (Option.bind
    (Option.map _ (conv1d (keptRows cache.convState ++ _) _)) _)
  cases conv1d (keptRows cache.convState ++ inputs.map fun x b => project (x b)) weight <;> rfl

theorem conv1d_eq {rows : List (Frame B c R)} (hne : rows ≠ [])
    (state : Option (List.Vector (Frame B c R) (k - 1))) :
    conv1d (keptRows state ++ rows) weight =
      some (slide k (convWindow weight) (keptRows state ++ rows)) := by
  have hpos := List.length_pos_iff.2 hne
  refine if_neg ?_
  rw [List.length_append, keptRows, List.Vector.toList_length]
  omega

theorem convLoop_chunkInvariant :
    ChunkInvariant (convLoop (B := B) weight initial project row step output) := by
  refine .of_resumes (convLoop_resumes weight initial project row step output hk)
    fun inputs cache hne => ?_
  dsimp only [convLoop]
  rw [conv1d_eq weight hk (by simpa using hne)]
  rfl

/-- From an empty cache: the causal convolution, and the recurrence from the initial state. -/
theorem convLoop_new {inputs : List (Frame B hidden R)} (hne : inputs ≠ []) :
    convLoop weight initial project row step output inputs .new =
      some (zipPositions output (loop step (zipPositions row
          (causalConvs weight (inputs.map fun x b => project (x b))) inputs) fun _ => initial).1
          inputs,
        { convState := some (keepWindow none (inputs.map fun x b => project (x b)))
          recurState := some (loop step (zipPositions row
            (causalConvs weight (inputs.map fun x b => project (x b))) inputs)
            fun _ => initial).2 }) := by
  dsimp only [convLoop, GatedDeltaCache.new]
  rw [conv1d_eq weight hk (by simpa using hne), slide_eq_causalConvs hk]
  rfl

end convLoop

/-! ## The steps -/

theorem deltaRule_snd {m n : ℕ} (S : Fin m → Fin n → R) (q k : Fin n → R) (v : Fin m → R)
    (g beta : R) (i : Fin m) (j : Fin n) : (deltaRule S q k v g beta).2 i j =
      S i j * g + k j * ((v i - ∑ l, S i l * g * k l) * beta) := by
  simp only [deltaRule, Matrix.of_symm_apply, Matrix.of_apply, Matrix.add_apply,
    Matrix.smul_apply, Matrix.vecMulVec_apply, Matrix.mulVec, dotProduct, Pi.smul_apply,
    Pi.sub_apply, smul_eq_mul]
  have hsum : ∑ l, g * S i l * k l = ∑ l, S i l * g * k l :=
    Finset.sum_congr rfl fun l _ => by rw [mul_comm g]
  rw [hsum]
  ring

theorem deltaRule_fst {m n : ℕ} (S : Fin m → Fin n → R) (q k : Fin n → R) (v : Fin m → R)
    (g beta : R) (i : Fin m) :
    (deltaRule S q k v g beta).1 i = ∑ j, (deltaRule S q k v g beta).2 i j * q j := rfl

theorem selectiveState_snd {m n : ℕ} (S : Fin m → Fin n → R) (x : Fin m → R)
    (b c : Fin n → R) (decay dt d : R) (i : Fin m) (j : Fin n) :
    (selectiveState S x b c decay dt d).2 i j = S i j * decay + x i * dt * b j := by
  simp only [selectiveState, Matrix.of_symm_apply, Matrix.of_apply, Matrix.add_apply,
    Matrix.smul_apply, Matrix.vecMulVec_apply, Pi.smul_apply, smul_eq_mul]
  ring

theorem selectiveState_fst {m n : ℕ} (S : Fin m → Fin n → R) (x : Fin m → R)
    (b c : Fin n → R) (decay dt d : R) (i : Fin m) :
    (selectiveState S x b c decay dt d).1 i =
      (∑ j, (selectiveState S x b c decay dt d).2 i j * c j) + x i * d := by
  rw [mul_comm (x i)]
  rfl

/-- A step of a gated delta layer is the delta rule for every head. -/
theorem GatedDeltaNet.step_eq {cfg : GatedDeltaConfig} :
    (GatedDeltaNet.step : GatedDeltaNet.State R cfg → DeltaRow R cfg → _) =
      GatedDeltaNet.deltaStep := by
  funext state row
  have hstate : ∀ h i j, (GatedDeltaNet.step state row).2 h i j =
      (GatedDeltaNet.deltaStep state row).2 h i j := fun h i j =>
    (deltaRule_snd (state h) (row.q h) (row.k h) (row.v h) (row.g h) (row.beta h) i j).symm
  refine Prod.ext (funext fun h => funext fun i => ?_) (funext fun h => funext fun i => funext fun
    j => hstate h i j)
  calc (GatedDeltaNet.step state row).1 h i
      = ∑ j, (GatedDeltaNet.step state row).2 h i j * row.q h j := rfl
    _ = ∑ j, (GatedDeltaNet.deltaStep state row).2 h i j * row.q h j :=
      Finset.sum_congr rfl fun j _ => by rw [hstate]
    _ = (GatedDeltaNet.deltaStep state row).1 h i := (deltaRule_fst ..).symm

/-- A step of a Mamba2 layer is a selective state space model for every head. -/
theorem Mamba2Mixer.step_eq {hidden : ℕ} {cfg : Mamba2Config} (act : Activations R)
    (mixer : Mamba2Mixer R hidden cfg) : mixer.step act = mixer.ssmStep act := by
  funext state row
  have hstate : ∀ h i j, (mixer.step act state row).2 h i j =
      (mixer.ssmStep act state row).2 h i j := fun h i j =>
    (selectiveState_snd (state h) (row.x h) (row.b h) (row.c h) _ (row.dt h) (mixer.d h) i j).symm
  refine Prod.ext (funext fun h => funext fun i => ?_) (funext fun h => funext fun i => funext fun
    j => hstate h i j)
  calc (mixer.step act state row).1 h i
      = (∑ j, (mixer.step act state row).2 h i j * row.c h j) + row.x h i * mixer.d h := rfl
    _ = (∑ j, (mixer.ssmStep act state row).2 h i j * row.c h j) + row.x h i * mixer.d h :=
      congrArg (· + _) (Finset.sum_congr rfl fun j _ => by rw [hstate])
    _ = (mixer.ssmStep act state row).1 h i := (selectiveState_fst ..).symm

/-! ## The layers -/

section layers

variable {hidden : ℕ} (act : Activations R)

theorem GatedDeltaNet.chunkInvariant {cfg : GatedDeltaConfig} (net : GatedDeltaNet R hidden cfg) :
    ChunkInvariant (net.forward act (B := B)) :=
  convLoop_chunkInvariant net.conv1dWeight (fun _ _ _ => 0) net.inProjQkv (net.row act)
    GatedDeltaNet.step (net.output act) cfg.kernel

theorem GatedDeltaNet.forward_new {cfg : GatedDeltaConfig} (net : GatedDeltaNet R hidden cfg)
    {inputs : List (Frame B hidden R)} (hne : inputs ≠ []) :
    net.forward act inputs .new = some ((net.textbook act inputs).1,
      { convState := some (keepWindow none (inputs.map fun x b => net.inProjQkv (x b)))
        recurState := some (net.textbook act inputs).2 }) := by
  have hlayer : net.forward act (B := B) = convLoop net.conv1dWeight (fun _ _ _ => 0)
      net.inProjQkv (net.row act) GatedDeltaNet.deltaStep (net.output act) := by
    rw [← GatedDeltaNet.step_eq]
    rfl
  rw [hlayer]
  exact convLoop_new net.conv1dWeight (fun _ _ _ => 0) net.inProjQkv (net.row act)
    GatedDeltaNet.deltaStep (net.output act) cfg.kernel hne

theorem Mamba2Mixer.chunkInvariant {cfg : Mamba2Config} (mixer : Mamba2Mixer R hidden cfg) :
    ChunkInvariant (mixer.forward act (B := B)) :=
  convLoop_chunkInvariant mixer.conv1dWeight (fun _ _ _ => 0) mixer.convInput (mixer.row act)
    (mixer.step act) (mixer.output act) cfg.kernel

theorem Mamba2Mixer.forward_new {cfg : Mamba2Config} (mixer : Mamba2Mixer R hidden cfg)
    {inputs : List (Frame B hidden R)} (hne : inputs ≠ []) :
    mixer.forward act inputs .new = some ((mixer.textbook act inputs).1,
      { convState := some (keepWindow none (inputs.map fun x b => mixer.convInput (x b)))
        recurState := some (mixer.textbook act inputs).2 }) := by
  have hlayer : mixer.forward act (B := B) = convLoop mixer.conv1dWeight (fun _ _ _ => 0)
      mixer.convInput (mixer.row act) (mixer.ssmStep act) (mixer.output act) := by
    rw [← mixer.step_eq act]
    rfl
  rw [hlayer]
  exact convLoop_new mixer.conv1dWeight (fun _ _ _ => 0) mixer.convInput (mixer.row act)
    (mixer.ssmStep act) (mixer.output act) cfg.kernel hne

theorem CanonLayer.forward_eq (canon : CanonLayer R) {x : List (Frame B canon.dim R)}
    (hne : x ≠ []) (state : CanonLayer.Cache B canon) :
    canon.forward act x state = some (zipPositions (canon.output act)
      (slide canon.kernel (convWindow canon.weight) (keptRows state ++ x)) x,
      some (keepWindow state x)) := by
  unfold CanonLayer.forward
  rw [conv1d_eq canon.weight canon.kernelPositive hne]
  rfl

theorem CanonLayer.chunkInvariant (canon : CanonLayer R) :
    ChunkInvariant (canon.forward act (B := B)) := by
  refine .of_resumes (fun first second state hfirst hsecond => ?_) fun x state hne => ?_
  · have hboth := windowed_resumes canon.kernelPositive 0 (convWindow canon.weight) first second
      state hfirst hsecond
    simp only [windowed_eq_conv1d, conv1d_eq canon.weight canon.kernelPositive hfirst,
      conv1d_eq canon.weight canon.kernelPositive hsecond,
      conv1d_eq canon.weight canon.kernelPositive (List.append_ne_nil_of_left_ne_nil hfirst second),
      Option.map_some, Option.bind_some, Option.some.injEq, Prod.mk.injEq] at hboth
    obtain ⟨hrows, hkept⟩ := hboth
    rw [canon.forward_eq act (List.append_ne_nil_of_left_ne_nil hfirst second),
      canon.forward_eq act hfirst, Option.bind_some]
    show _ = Option.map _ (canon.forward act second _)
    rw [canon.forward_eq act hsecond, hrows, hkept]
    refine congrArg some (Prod.ext (List.zipWith_append ?_) rfl)
    rw [slide_length, List.length_append, keptRows, List.Vector.toList_length]
    have := canon.kernelPositive
    omega
  · rw [canon.forward_eq act hne]
    rfl

theorem CanonLayer.forward_new (canon : CanonLayer R) {x : List (Frame B canon.dim R)}
    (hne : x ≠ []) : canon.forward act x none =
      some (canon.textbook act x, some (keepWindow none x)) := by
  rw [canon.forward_eq act hne, slide_eq_causalConvs canon.kernelPositive]
  rfl

end layers

/-- **Recurrent layers are chunk-invariant**: any chunks of a sequence, through one cache that
starts in any state, give the outputs and leave the state of the whole sequence; and a whole
sequence from an empty cache gives the causal convolution and the recurrence from zero. -/
theorem recurrent_layers_chunk_invariant (act : Activations R) :
    (∀ hidden cfg (net : GatedDeltaNet R hidden cfg),
      ChunkInvariant (net.forward act (B := B)) ∧
      ∀ inputs : List (Frame B hidden R), inputs ≠ [] →
        net.forward act inputs .new = some ((net.textbook act inputs).1,
          { convState := some (keepWindow none (inputs.map fun x b => net.inProjQkv (x b)))
            recurState := some (net.textbook act inputs).2 })) ∧
    (∀ hidden cfg (mixer : Mamba2Mixer R hidden cfg),
      ChunkInvariant (mixer.forward act (B := B)) ∧
      ∀ inputs : List (Frame B hidden R), inputs ≠ [] →
        mixer.forward act inputs .new = some ((mixer.textbook act inputs).1,
          { convState := some (keepWindow none (inputs.map fun x b => mixer.convInput (x b)))
            recurState := some (mixer.textbook act inputs).2 })) ∧
    ∀ canon : CanonLayer R, ChunkInvariant (canon.forward act (B := B)) ∧
      ∀ x : List (Frame B canon.dim R), x ≠ [] →
        canon.forward act x none = some (canon.textbook act x, some (keepWindow none x)) := by
  refine ⟨fun hidden cfg net => ⟨net.chunkInvariant act, fun inputs => net.forward_new act⟩,
    fun hidden cfg mixer => ⟨mixer.chunkInvariant act, fun inputs => mixer.forward_new act⟩,
    fun canon => ⟨canon.chunkInvariant act, fun x => canon.forward_new act⟩⟩

end Recurrent

end Emelex

import Emelex.Lib.ChunkedLayers
import Mathlib.Data.Rat.Init
import Mathlib.Tactic.Ring

/-!
# Recurrent layers

`GatedDeltaNet`, `Mamba2Mixer` and the Canon layers of a Dhara block, over exact arithmetic. An
array `[B, S, C]` is the list of its `S` positions, each of them a row of `C` numbers for every
sequence of the batch; projections, activations and norms are arbitrary functions of one position.

* `GatedDeltaConfig`, `Mamba2Config` — geometries that pass the preflight.
* `conv1d`, `keepWindow` — the depthwise convolution, and the rows that are kept for the next chunk.
* `GatedDeltaNet.forward`, `Mamba2Mixer.forward`, `CanonLayer.forward`.
-/

set_option autoImplicit false

namespace Emelex

namespace Recurrent

open ChunkedLayers

/-! ## Arrays -/

/-- A position of an array `[B, S, C]`. -/
abbrev Frame (B : Type) (c : ℕ) (R : Type) := B → Fin c → R

/-- The scalar functions and the norm over a last axis. -/
structure Activations (R : Type) where
  silu : R → R
  sigmoid : R → R
  softplus : R → R
  exp : R → R
  maximum : R → R → R
  minimum : R → R → R
  rmsNorm : {n : ℕ} → (eps : ℚ) → (Fin n → R) → Fin n → R
  invSqrt : ℕ → R

/-- `Linear`: any function of a row. -/
abbrev Linear (R : Type) (m n : ℕ) := (Fin m → R) → Fin n → R

variable {B R : Type}

/-- A part of a last axis, as `split_sections` gives it. -/
def splitSection {n : ℕ} (start len : ℕ) (h : start + len ≤ n) (x : Fin n → R) : Fin len → R :=
  fun i => x ⟨start + i, by omega⟩

/-- `reshape` of a last axis to heads. -/
def splitHeads {heads dim : ℕ} (x : Fin (heads * dim) → R) : Fin heads → Fin dim → R :=
  fun h i => x (finProdFinEquiv (h, i))

/-- `reshape` of heads to a last axis. -/
def mergeHeads {heads dim : ℕ} (x : Fin heads → Fin dim → R) : Fin (heads * dim) → R :=
  fun i => x (finProdFinEquiv.symm i).1 (finProdFinEquiv.symm i).2

/-- `repeat_axis` over the heads, where there is more than one head for each group. -/
def repeatHeads {α : Type} {groups heads : ℕ} (hdvd : groups ∣ heads) (x : Fin groups → α) :
    Fin heads → α :=
  fun h =>
    have hmul : groups * (heads / groups) = heads := Nat.mul_div_cancel' hdvd
    if hrepeat : 1 < heads / groups then
      x ⟨h / (heads / groups), Nat.div_lt_of_lt_mul (by rw [Nat.mul_comm, hmul]; exact h.2)⟩
    else x ⟨h, h.2.trans_le (by
      calc heads = groups * (heads / groups) := hmul.symm
        _ ≤ groups * 1 := Nat.mul_le_mul_left _ (Nat.not_lt.1 hrepeat)
        _ = groups := Nat.mul_one _)⟩

/-- A function of two arrays, position by position and sequence by sequence. -/
def zipPositions {α β γ : Type} (f : α → β → γ) (xs : List (B → α)) (ys : List (B → β)) :
    List (B → γ) :=
  List.zipWith (fun x y b => f (x b) (y b)) xs ys

/-- The loop over the positions, for every sequence of the batch. -/
def loop {σ ρ τ : Type} (step : σ → ρ → τ × σ) (rows : List (B → ρ)) (state : B → σ) :
    List (B → τ) × (B → σ) :=
  scan (fun state row => (fun b => (step (state b) (row b)).1, fun b => (step (state b) (row b)).2))
    rows state

variable [CommRing R]

/-- The value of a depthwise convolution at a window; the weight is `[C, K, 1]`. -/
def convWindow {k c : ℕ} (weight : Fin c → Fin k → R) (window : Fin k → Frame B c R) :
    Frame B c R :=
  fun b i => ∑ j, window j b i * weight i j

/-- `conv1d` with stride 1, no padding and a group for each channel; an input that is shorter than
the kernel is refused. -/
def conv1d {k c : ℕ} (input : List (Frame B c R)) (weight : Fin c → Fin k → R) :
    Option (List (Frame B c R)) :=
  if input.length < k then none else some (slide k (convWindow weight) input)

/-- The kept rows, zero at first. -/
def keptRows {n c : ℕ} (state : Option (List.Vector (Frame B c R) n)) : List (Frame B c R) :=
  (state.getD (List.Vector.replicate n 0)).toList

/-- The slice from `total_len - n_keep` to `total_len`. -/
def keepWindow {n c : ℕ} (state : Option (List.Vector (Frame B c R) n))
    (rows : List (Frame B c R)) : List.Vector (Frame B c R) n :=
  ⟨lastRows n (keptRows state ++ rows), lastRows_length (by simp [keptRows])⟩

/-- `GatedDeltaCache`: the last conv inputs, and the state of the recurrence. -/
structure GatedDeltaCache (n : ℕ) (γ σ : Type) where
  convState : Option (List.Vector γ n)
  recurState : Option σ

/-- `GatedDeltaCache::new`. -/
def GatedDeltaCache.new {n : ℕ} {γ σ : Type} : GatedDeltaCache n γ σ := ⟨none, none⟩

/-! ## Gated delta -/

/-- `GatedDeltaConfig` after `validate_qwen35`. -/
structure GatedDeltaConfig where
  numVHeads : ℕ
  numKHeads : ℕ
  headKDim : ℕ
  headVDim : ℕ
  convKernelSize : ℕ
  rmsNormEps : ℚ
  valueHeads : 0 < numVHeads
  keyHeads : 0 < numKHeads
  keyDimPositive : 0 < headKDim
  valueDimPositive : 0 < headVDim
  kernel : 0 < convKernelSize
  divides : numKHeads ∣ numVHeads

namespace GatedDeltaConfig

variable (cfg : GatedDeltaConfig)

def keyDim : ℕ := cfg.numKHeads * cfg.headKDim

def valueDim : ℕ := cfg.numVHeads * cfg.headVDim

def convDim : ℕ := cfg.keyDim * 2 + cfg.valueDim

def nKeep : ℕ := cfg.convKernelSize - 1

end GatedDeltaConfig

/-- `GatedDeltaNet`. -/
structure GatedDeltaNet (R : Type) (hidden : ℕ) (cfg : GatedDeltaConfig) where
  conv1dWeight : Fin cfg.convDim → Fin cfg.convKernelSize → R
  inProjQkv : Linear R hidden cfg.convDim
  inProjZ : Linear R hidden cfg.valueDim
  inProjB : Linear R hidden cfg.numVHeads
  inProjA : Linear R hidden cfg.numVHeads
  dtBias : Fin cfg.numVHeads → R
  aLog : Fin cfg.numVHeads → R
  normWeight : Fin cfg.headVDim → R
  outProj : Linear R cfg.valueDim hidden

/-- What the recurrence reads at a position. -/
structure DeltaRow (R : Type) (cfg : GatedDeltaConfig) where
  q : Fin cfg.numVHeads → Fin cfg.headKDim → R
  k : Fin cfg.numVHeads → Fin cfg.headKDim → R
  v : Fin cfg.numVHeads → Fin cfg.headVDim → R
  g : Fin cfg.numVHeads → R
  beta : Fin cfg.numVHeads → R

namespace GatedDeltaNet

variable {hidden : ℕ} {cfg : GatedDeltaConfig} (act : Activations R)
  (net : GatedDeltaNet R hidden cfg)

/-- The state `[Hv, Dv, Dk]` of a sequence. -/
abbrev State (R : Type) (cfg : GatedDeltaConfig) :=
  Fin cfg.numVHeads → Fin cfg.headVDim → Fin cfg.headKDim → R

abbrev Cache (B R : Type) (cfg : GatedDeltaConfig) :=
  GatedDeltaCache cfg.nKeep (Frame B cfg.convDim R) (B → State R cfg)

/-- From the output of the convolution and the input of the layer to `q`, `k`, `v`, `g` and `beta`
of a position. -/
def row (conv : Fin cfg.convDim → R) (x : Fin hidden → R) : DeltaRow R cfg :=
  let convOut := fun i => act.silu (conv i)
  let q : Fin cfg.numKHeads → Fin cfg.headKDim → R := splitHeads
    (splitSection 0 cfg.keyDim (by simp only [GatedDeltaConfig.convDim]; omega) convOut)
  let k : Fin cfg.numKHeads → Fin cfg.headKDim → R := splitHeads
    (splitSection cfg.keyDim cfg.keyDim (by simp only [GatedDeltaConfig.convDim]; omega) convOut)
  let v : Fin cfg.numVHeads → Fin cfg.headVDim → R := splitHeads
    (splitSection (cfg.keyDim * 2) cfg.valueDim (by simp only [GatedDeltaConfig.convDim]; omega)
      convOut)
  let invScale := act.invSqrt cfg.headKDim
  let q := fun h i => act.rmsNorm (1 / 1000000) (q h) i * (invScale * invScale)
  let k := fun h i => act.rmsNorm (1 / 1000000) (k h) i * invScale
  { q := repeatHeads cfg.divides q
    k := repeatHeads cfg.divides k
    v
    g := fun h => act.exp (-(act.exp (net.aLog h) *
      act.softplus (net.inProjA x h + net.dtBias h)))
    beta := fun h => act.sigmoid (net.inProjB x h) }

/-- A step of the delta rule: the output of the position and the new state. -/
def step (state : State R cfg) (row : DeltaRow R cfg) :
    (Fin cfg.numVHeads → Fin cfg.headVDim → R) × State R cfg :=
  let state : State R cfg := fun h i j => state h i j * row.g h
  let kvMem := fun h i => ∑ j, state h i j * row.k h j
  let delta := fun h i => (row.v h i - kvMem h i) * row.beta h
  let state : State R cfg := fun h i j => state h i j + row.k h j * delta h i
  (fun h i => ∑ j, state h i j * row.q h j, state)

/-- `RMSNormGated` and the output projection. -/
def output (y : Fin cfg.numVHeads → Fin cfg.headVDim → R) (x : Fin hidden → R) :
    Fin hidden → R :=
  let z : Fin cfg.numVHeads → Fin cfg.headVDim → R := splitHeads (net.inProjZ x)
  net.outProj (mergeHeads fun h i =>
    act.silu (z h i) * (act.rmsNorm cfg.rmsNormEps (y h) i * net.normWeight i))

/-- `GatedDeltaNet::forward`. -/
def forward (inputs : List (Frame B hidden R)) (cache : Cache B R cfg) :
    Option (List (Frame B hidden R) × Cache B R cfg) := do
  let qkv := inputs.map fun x b => net.inProjQkv (x b)
  let convOut ← conv1d (keptRows cache.convState ++ qkv) net.conv1dWeight
  let (ys, state) := loop step (zipPositions (net.row act) convOut inputs)
    (cache.recurState.getD fun _ _ _ _ => 0)
  return (zipPositions (net.output act) ys inputs,
    { convState := some (keepWindow cache.convState qkv), recurState := some state })

end GatedDeltaNet

/-! ## Mamba2 -/

/-- `Mamba2Config` after `validate_nemotron`. -/
structure Mamba2Config where
  numHeads : ℕ
  headDim : ℕ
  nGroups : ℕ
  stateSize : ℕ
  convKernel : ℕ
  normEps : ℚ
  heads : 0 < numHeads
  headDimPositive : 0 < headDim
  groups : 0 < nGroups
  stateSizePositive : 0 < stateSize
  kernel : 0 < convKernel
  divides : nGroups ∣ numHeads

namespace Mamba2Config

variable (cfg : Mamba2Config)

def intermediateSize : ℕ := cfg.numHeads * cfg.headDim

def convDim : ℕ := cfg.intermediateSize + 2 * cfg.nGroups * cfg.stateSize

def nKeep : ℕ := cfg.convKernel - 1

theorem convDim_eq : cfg.convDim =
    cfg.intermediateSize + cfg.nGroups * cfg.stateSize + cfg.nGroups * cfg.stateSize := by
  unfold convDim
  ring

/-- The size of a group of the gated norm. -/
def groupSize : ℕ := cfg.intermediateSize / cfg.nGroups

/-- `n_groups_flat`. -/
def nGroupsFlat : ℕ := cfg.intermediateSize / cfg.groupSize

theorem flat_mul_groupSize : cfg.nGroupsFlat * cfg.groupSize = cfg.intermediateSize := by
  have hdvd : cfg.nGroups ∣ cfg.intermediateSize := cfg.divides.trans (Nat.dvd_mul_right _ _)
  exact Nat.div_mul_cancel (Nat.div_dvd_of_dvd hdvd)

end Mamba2Config

/-- `Mamba2Mixer`. -/
structure Mamba2Mixer (R : Type) (hidden : ℕ) (cfg : Mamba2Config) where
  conv1dWeight : Fin cfg.convDim → Fin cfg.convKernel → R
  conv1dBias : Option (Fin cfg.convDim → R)
  inProj : Linear R hidden (cfg.intermediateSize + cfg.convDim + cfg.numHeads)
  dtBias : Fin cfg.numHeads → R
  aLog : Fin cfg.numHeads → R
  d : Fin cfg.numHeads → R
  normWeight : Fin cfg.intermediateSize → R
  outProj : Linear R cfg.intermediateSize hidden
  timeStepMin : R
  timeStepMax : R

/-- What the recurrence reads at a position. -/
structure SsmRow (R : Type) (cfg : Mamba2Config) where
  x : Fin cfg.numHeads → Fin cfg.headDim → R
  b : Fin cfg.numHeads → Fin cfg.stateSize → R
  c : Fin cfg.numHeads → Fin cfg.stateSize → R
  dt : Fin cfg.numHeads → R

namespace Mamba2Mixer

variable {hidden : ℕ} {cfg : Mamba2Config} (act : Activations R) (mixer : Mamba2Mixer R hidden cfg)

/-- The state `[H, Dh, Ds]` of a sequence. -/
abbrev State (R : Type) (cfg : Mamba2Config) :=
  Fin cfg.numHeads → Fin cfg.headDim → Fin cfg.stateSize → R

abbrev Cache (B R : Type) (cfg : Mamba2Config) :=
  GatedDeltaCache cfg.nKeep (Frame B cfg.convDim R) (B → State R cfg)

/-- The three parts of the projection: `gate`, `conv_input` and `dt_raw`. -/
def gate (x : Fin hidden → R) : Fin cfg.intermediateSize → R :=
  splitSection 0 cfg.intermediateSize (by omega) (mixer.inProj x)

def convInput (x : Fin hidden → R) : Fin cfg.convDim → R :=
  splitSection cfg.intermediateSize cfg.convDim (by omega) (mixer.inProj x)

def dtRaw (x : Fin hidden → R) : Fin cfg.numHeads → R :=
  splitSection (cfg.intermediateSize + cfg.convDim) cfg.numHeads (by omega) (mixer.inProj x)

/-- From the output of the convolution and the input of the layer to `x`, `b`, `c` and `dt` of a
position. -/
def row (conv : Fin cfg.convDim → R) (hiddenStates : Fin hidden → R) : SsmRow R cfg :=
  let biased := match mixer.conv1dBias with
    | some bias => fun i => conv i + bias i
    | none => conv
  let convOut := fun i => act.silu (biased i)
  let gs := cfg.nGroups * cfg.stateSize
  have hdim : cfg.convDim = cfg.intermediateSize + gs + gs := cfg.convDim_eq
  let x : Fin cfg.numHeads → Fin cfg.headDim → R := splitHeads
    (splitSection 0 cfg.intermediateSize (by omega) convOut)
  let bmat : Fin cfg.nGroups → Fin cfg.stateSize → R := splitHeads
    (splitSection cfg.intermediateSize gs (by omega) convOut)
  let cmat : Fin cfg.nGroups → Fin cfg.stateSize → R := splitHeads
    (splitSection (cfg.intermediateSize + gs) gs (by omega) convOut)
  { x
    b := repeatHeads cfg.divides bmat
    c := repeatHeads cfg.divides cmat
    dt := fun h => act.minimum
      (act.maximum (act.softplus (mixer.dtRaw hiddenStates h + mixer.dtBias h)) mixer.timeStepMin)
      mixer.timeStepMax }

/-- A step of the recurrence: the output of the position and the new state. -/
def step (state : State R cfg) (row : SsmRow R cfg) :
    (Fin cfg.numHeads → Fin cfg.headDim → R) × State R cfg :=
  let negA := fun h => -act.exp (mixer.aLog h)
  let da := fun h => act.exp (row.dt h * negA h)
  let dbx := fun h i j => row.x h i * row.dt h * row.b h j
  let state : State R cfg := fun h i j => state h i j * da h + dbx h i j
  (fun h i => (∑ j, state h i j * row.c h j) + row.x h i * mixer.d h, state)

/-- `MambaRMSNormGated` and the output projection. -/
def output (y : Fin cfg.numHeads → Fin cfg.headDim → R) (hiddenStates : Fin hidden → R) :
    Fin hidden → R :=
  let y : Fin cfg.intermediateSize → R := mergeHeads y
  let gated := fun i => act.silu (mixer.gate hiddenStates i) * y i
  let grouped : Fin cfg.nGroupsFlat → Fin cfg.groupSize → R := splitHeads
    fun i => gated (Fin.cast cfg.flat_mul_groupSize i)
  let normed := mergeHeads fun g => act.rmsNorm cfg.normEps (grouped g)
  mixer.outProj fun i =>
    normed (Fin.cast cfg.flat_mul_groupSize.symm i) * mixer.normWeight i

/-- `Mamba2Mixer::forward`. -/
def forward (hiddenStates : List (Frame B hidden R)) (cache : Cache B R cfg) :
    Option (List (Frame B hidden R) × Cache B R cfg) := do
  let convInput := hiddenStates.map fun x b => mixer.convInput (x b)
  let convOut ← conv1d (keptRows cache.convState ++ convInput) mixer.conv1dWeight
  let (ys, state) := loop (mixer.step act) (zipPositions (mixer.row act) convOut hiddenStates)
    (cache.recurState.getD fun _ _ _ _ => 0)
  return (zipPositions (mixer.output act) ys hiddenStates,
    { convState := some (keepWindow cache.convState convInput), recurState := some state })

end Mamba2Mixer

/-! ## Canon layers -/

/-- `CanonLayer`. -/
structure CanonLayer (R : Type) where
  dim : ℕ
  kernel : ℕ
  weight : Fin dim → Fin kernel → R
  residual : Bool
  activation : Bool
  kernelPositive : 0 < kernel

namespace CanonLayer

variable (act : Activations R) (canon : CanonLayer R)

abbrev Cache (B : Type) (canon : CanonLayer R) :=
  Option (List.Vector (Frame B canon.dim R) (canon.kernel - 1))

/-- What is done to the output of the convolution at a position. -/
def output (conv x : Fin canon.dim → R) : Fin canon.dim → R :=
  let out := if canon.activation then fun i => act.silu (conv i) else conv
  if canon.residual then fun i => x i + out i else out

/-- `CanonLayer::forward`. -/
def forward (x : List (Frame B canon.dim R)) (state : Cache B canon) :
    Option (List (Frame B canon.dim R) × Cache B canon) := do
  let convOut ← conv1d (keptRows state ++ x) canon.weight
  return (zipPositions (canon.output act) convOut x, some (keepWindow state x))

end CanonLayer

end Recurrent

end Emelex

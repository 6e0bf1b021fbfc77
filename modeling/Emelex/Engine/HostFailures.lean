import Emelex.Engine.FakeModel
import Emelex.Engine.Hooked
import Emelex.Engine.TwoLedger

/-!
# Host failures of a target feed (`engine/spec.rs`, `engine/array.rs`)

`SessionOps::verify_feed` and `replay_feed` build an array of the token ids before they call the
model.  The construction can fail: the element count must match, the runtime must be there, and
the native constructor must return a handle.

* `ArrayEnv` — what the construction meets outside the source; `fromSlice` — the checked
  construction; `CanBuild` — when it succeeds.
* `verifyFeed`, `replayFeed` — the two feeds with the construction in front.
* `Arrays` — one environment for each construction of a run, as a hook of the driver.

`OpError::Host` says that every structural cache mutation of the call has completed.  The model
keeps to that from the forward on, but the failed construction is reported as `Host` too.

Principal results: `feeds_meet_host_contract` (exactly when a feed keeps to the contract, and
the ledger of every round whose arrays are built), `array_failure_runs_ahead`.
-/

set_option autoImplicit false

namespace Emelex

open Program

/-! ## Array construction -/

/-- What the construction of an array meets outside the source. -/
structure ArrayEnv where
  /-- `ensure_runtime`. -/
  runtime : Except Error Unit
  /-- `mlx_array_new_data` and `Array::from_raw`. -/
  newData : List TokenId → List Int → Except Error Unit

/-- `n as i32`: the number, or its residue when it does not fit. -/
def asI32 (n : Nat) : Int := if n < 2 ^ 31 then n else (n : Int).bmod (2 ^ 32)

/-- The product of the dimensions, from axis `axis` on. -/
def elementCount : List Int → Nat → Nat → Except Error Nat
  | [], _, elements => .ok elements
  | dimension :: shape, axis, elements =>
    if dimension < 0 then
      .error (.config s!"array shape dimension {axis} is negative: {dimension}")
    else if elements * dimension.toNat < 2 ^ 64 then
      elementCount shape (axis + 1) (elements * dimension.toNat)
    else .error (.config "array shape element count overflows usize")

/-- `Array::from_slice`. -/
def fromSlice (env : ArrayEnv) (data : List TokenId) (shape : List Int) : Except Error Unit :=
  if shape.length < 2 ^ 31 then
    match elementCount shape 0 1 with
    | .error e => .error e
    | .ok expected =>
      if data.length ≠ expected then
        let length := data.length
        .error (.config s!"array data length {length} does not match shape ({expected} elements)")
      else
        match env.runtime with
        | .error e => .error e
        | .ok () => env.newData data shape
  else .error (.config "array rank exceeds native i32 range")

/-- The shape of a row of token ids: `[1, ids.len() as i32]`. -/
def rowShape (ids : List TokenId) : List Int := [1, asI32 ids.length]

/-- An array of `ids` can be built: their number is an `i32`, and neither the runtime nor the
native constructor fails. -/
structure CanBuild (env : ArrayEnv) (ids : List TokenId) : Prop where
  length : ids.length < 2 ^ 31
  runtime : env.runtime = .ok ()
  newData : env.newData ids [1, ids.length] = .ok ()

theorem asI32_of_lt {n : Nat} (h : n < 2 ^ 31) : asI32 n = n := if_pos h

theorem asI32_lt (n : Nat) : asI32 n < 2 ^ 31 := by
  have h := Int.bmod_lt (x := n) (m := 2 ^ 32) (by decide)
  unfold asI32
  split
  · omega
  · omega

theorem elementCount_row {dimension : Int} (hpos : 0 ≤ dimension) (hlt : dimension < 2 ^ 31) :
    elementCount [1, dimension] 0 1 = .ok dimension.toNat := by
  simp only [elementCount, Int.toNat_one, Nat.one_mul]
  rw [if_neg (by omega), if_pos (by omega), if_neg (by omega), if_pos (by omega)]

theorem elementCount_negative {dimension : Int} (hneg : dimension < 0) :
    ∃ e, elementCount [1, dimension] 0 1 = .error e := by
  simp only [elementCount, Int.toNat_one, Nat.one_mul]
  rw [if_neg (by omega), if_pos (by omega), if_pos hneg]
  exact ⟨_, rfl⟩

/-- The construction succeeds exactly when an array can be built. -/
theorem fromSlice_eq_ok {env : ArrayEnv} {ids : List TokenId} :
    fromSlice env ids (rowShape ids) = .ok () ↔ CanBuild env ids := by
  have hlt := asI32_lt ids.length
  have hrank : (rowShape ids).length < 2 ^ 31 := by simp [rowShape]
  unfold fromSlice
  rw [if_pos hrank]
  constructor
  · intro h
    by_cases hneg : asI32 ids.length < 0
    · obtain ⟨e, he⟩ := elementCount_negative hneg
      rw [rowShape, he] at h
      cases h
    · rw [rowShape, elementCount_row (not_lt.1 hneg) hlt] at h
      dsimp only at h
      split at h
      · cases h
      · rename_i hlen
        have hlen : ids.length < 2 ^ 31 := by omega
        cases hr : env.runtime with
        | error e =>
          rw [hr] at h
          cases h
        | ok u =>
          rw [hr, asI32_of_lt hlen] at h
          exact ⟨hlen, hr, h⟩
  · intro h
    have hlen : (ids.length : Int) < 2 ^ 31 := by
      have := h.length
      omega
    rw [rowShape, asI32_of_lt h.length, elementCount_row (by omega) hlen]
    simp [h.runtime, h.newData]

/-! ## The feeds -/

namespace HostFailures

variable {C M G : Type} [RowSampler G] [ModelOps C M G]

/-- `verify_feed`: the array first, then the feed. -/
def verifyFeed (env : ArrayEnv) (o : SessionOps C M) (ids : List TokenId) (sampler : Sampler G) :
    OpResult G (List (ModelOps.Hidden C M) × List (Dist G)) × SessionOps C M :=
  match fromSlice env ids (rowShape ids) with
  | .error error => (.error (.host error []), o)
  | .ok () => o.verifyFeed ids sampler

/-- `replay_feed`: the array first, then the feed. -/
def replayFeed (env : ArrayEnv) (o : SessionOps C M) (ids : List TokenId) (want : Bool)
    (sampler : Sampler G) :
    OpResult G (List (ModelOps.Hidden C M) × Option (Dist G)) × SessionOps C M :=
  match fromSlice env ids (rowShape ids) with
  | .error error => (.error (.host error []), o)
  | .ok () => o.replayFeed ids want sampler

/-- The classification of a target feed of `ids` that left `o'`: a host failure comes after the
caches have advanced by the tokens, and a failure before the end of the forward is `Invalid`. -/
structure HostContract {α : Type} (env : ArrayEnv) (o : SessionOps C M) (ids : List TokenId)
    (r : OpResult G α × SessionOps C M) : Prop where
  host : ∀ error salvage, r.1 = .error (.host error salvage) →
    ModelOps.offset M r.2.caches = ModelOps.offset M o.caches + ids.length
  early : (fromSlice env ids (rowShape ids) ≠ .ok () ∨ ∃ e, (o.feed ids).1 = .error e) →
    ∃ e, r.1 = .error (.invalid e)

section Contract

variable {K : CacheLedger C M} {hiddenAt : List TokenId → ModelOps.Hidden C M}

/-- A forward that completes advances the caches by what it was fed. -/
theorem offset_feed (hP : PrefixModel K hiddenAt) {o o' : SessionOps C M} {ids : List TokenId}
    {hidden : Option (List (ModelOps.Hidden C M))} {logits : ModelOps.Logits C M}
    (h : o.feed ids = (.ok (hidden, logits), o')) :
    ModelOps.offset M o'.caches = ModelOps.offset M o.caches + ids.length := by
  have hfeeds : K.Feeds ids o.caches o'.caches := by
    obtain ⟨caches, mtp⟩ := o
    unfold SessionOps.feed at h
    cases mtp with
    | some m =>
      dsimp only at h
      rcases hr : ModelOps.forwardHidden (M := M) ids caches with ⟨e | ⟨hs, out⟩, c'⟩ <;> rw [hr] at h
      · cases (Prod.mk.inj h).1
      · have hf := (hP.forwardHidden ids caches hs out (by rw [hr])).1
        rw [hr] at hf
        obtain ⟨-, rfl⟩ := Prod.mk.inj h
        exact hf
    | none =>
      dsimp only at h
      rcases hr : ModelOps.forward (M := M) ids caches with ⟨e | out, c'⟩ <;> rw [hr] at h
      · cases (Prod.mk.inj h).1
      · have hf := (hP.forward ids caches out (by rw [hr])).1
        rw [hr] at hf
        obtain ⟨-, rfl⟩ := Prod.mk.inj h
        exact hf
  rw [hP.offset, hP.offset, hfeeds.attn, List.length_append]

/-- The contract of a call that starts with the forward: what follows a completed forward
leaves the caches alone, and a failed forward is `Invalid`. -/
theorem hostContract_of_feed (hP : PrefixModel K hiddenAt) {α : Type} {env : ArrayEnv}
    {o : SessionOps C M} {ids : List TokenId} {r : OpResult G α × SessionOps C M}
    (hbuilt : fromSlice env ids (rowShape ids) = .ok ())
    (hfails : ∀ e, (o.feed ids).1 = .error e → r.1 = .error (.invalid e))
    (hstate : r.2 = (o.feed ids).2) : HostContract env o ids r := by
  rcases hf : o.feed ids with ⟨e | ⟨hidden, logits⟩, o'⟩ <;> rw [hf] at hfails hstate
  · have hr := hfails e rfl
    refine ⟨fun error salvage h => ?_, fun _ => ⟨e, hr⟩⟩
    rw [hr] at h
    cases h
  · refine ⟨fun _ _ _ => ?_, ?_⟩
    · rw [hstate]
      exact offset_feed hP hf
    · rintro (hne | ⟨e, he⟩)
      · exact absurd hbuilt hne
      · rw [hf] at he
        cases he

/-- A failed construction is a host failure of caches that have not advanced. -/
theorem not_hostContract_of_unbuilt {α : Type} {env : ArrayEnv} {o : SessionOps C M}
    {ids : List TokenId} {error : Error} (hne : ids ≠ []) :
    ¬ HostContract (α := α) env o ids (.error (.host error []), o) := by
  intro h
  have hoffset := h.host error [] rfl
  have := List.length_pos_iff.2 hne
  dsimp only at hoffset
  omega

theorem verifyFeed_hostContract (hP : PrefixModel K hiddenAt) (env : ArrayEnv)
    (o : SessionOps C M) {ids : List TokenId} (hne : ids ≠ []) (sampler : Sampler G) :
    HostContract env o ids (verifyFeed env o ids sampler) ↔ CanBuild env ids := by
  rw [← fromSlice_eq_ok]
  unfold verifyFeed
  cases hb : fromSlice env ids (rowShape ids) with
  | error error =>
    refine ⟨fun h => absurd h (not_hostContract_of_unbuilt hne), nofun⟩
  | ok u =>
    refine ⟨fun _ => rfl, fun _ => hostContract_of_feed hP hb ?_ ?_⟩
    · intro e he
      unfold SessionOps.verifyFeed
      rcases hf : o.feed ids with ⟨e' | out, o'⟩ <;> rw [hf] at he
      · cases he
        rfl
      · cases he
    · unfold SessionOps.verifyFeed
      rcases hf : o.feed ids with ⟨e' | ⟨hidden, logits⟩, o'⟩
      · rfl
      · dsimp only
        cases ModelOps.materializeDists logits sampler with
        | error es => rfl
        | ok dists =>
          dsimp only
          cases SessionOps.detachRows hidden <;> rfl

theorem replayFeed_hostContract (hP : PrefixModel K hiddenAt) (env : ArrayEnv)
    (o : SessionOps C M) {ids : List TokenId} (hne : ids ≠ []) (want : Bool)
    (sampler : Sampler G) :
    HostContract env o ids (replayFeed env o ids want sampler) ↔ CanBuild env ids := by
  rw [← fromSlice_eq_ok]
  unfold replayFeed
  cases hb : fromSlice env ids (rowShape ids) with
  | error error =>
    refine ⟨fun h => absurd h (not_hostContract_of_unbuilt hne), nofun⟩
  | ok u =>
    refine ⟨fun _ => rfl, fun _ => hostContract_of_feed hP hb ?_ ?_⟩
    · intro e he
      unfold SessionOps.replayFeed
      rcases hf : o.feed ids with ⟨e' | out, o'⟩ <;> rw [hf] at he
      · cases he
        rfl
      · cases he
    · unfold SessionOps.replayFeed
      rcases hf : o.feed ids with ⟨e' | ⟨hidden, logits⟩, o'⟩
      · rfl
      · dsimp only
        cases SessionOps.lastDist logits ids want sampler with
        | error error => rfl
        | ok dist =>
          dsimp only
          cases SessionOps.detachRows hidden <;> rfl

end Contract

/-! ## Rounds -/

/-- The environments of the array constructions of a run with the random source `G`, the number
of constructions so far, and whether one has failed. -/
structure Arrays (G : Type) where
  envs : Nat → ArrayEnv
  built : Nat
  failed : Bool

namespace Arrays

/-- The next construction. -/
def build (w : Arrays G) (ids : List TokenId) : Except Error Unit × Arrays G :=
  match fromSlice (w.envs w.built) ids (rowShape ids) with
  | .error error => (.error error, { w with built := w.built + 1, failed := true })
  | .ok () => (.ok (), { w with built := w.built + 1 })

omit [RowSampler G] in
theorem build_error {w : Arrays G} {ids : List TokenId} {e : Error}
    (h : (w.build ids).1 = .error e) : (w.build ids).2.failed = true := by
  unfold build at h ⊢
  cases hb : fromSlice (w.envs w.built) ids (rowShape ids) with
  | error error => rfl
  | ok u =>
    rw [hb] at h
    cases h

omit [RowSampler G] in
theorem build_failed {w : Arrays G} (ids : List TokenId) (h : w.failed = true) :
    (w.build ids).2.failed = true := by
  unfold build
  cases fromSlice (w.envs w.built) ids (rowShape ids) with
  | error error => rfl
  | ok u => exact h

instance : Hook (Arrays G) G where
  approve ids w := w.build ids
  note _ w := w
  Refused w := w.failed = true
  approve_error _ _ _ := build_error
  approve_refused ids _ := build_failed ids
  note_refused _ _ := Iff.rfl

end Arrays

/-- The operations of a session that builds an array for every target feed. -/
abbrev ArrayOps (C M G : Type) := Hooked (SessionOps C M) (Arrays G)

/-- The feed of the operations is `verify_feed`, in the environment of its construction. -/
theorem verifyFeed_hooked (o : ArrayOps C M G) (ids : List TokenId) (sampler : Sampler G) :
    ((RoundOps.verifyFeed o ids sampler).1, (RoundOps.verifyFeed o ids sampler).2.ops) =
      verifyFeed (o.hook.envs o.hook.built) o.ops ids sampler := by
  show ((o.admitted ids .verifyFeed (o.ops.verifyFeed ids sampler)).1,
    (o.admitted ids .verifyFeed (o.ops.verifyFeed ids sampler)).2.ops) = _
  have happrove : Hook.approve ids o.hook = o.hook.build ids := rfl
  unfold Hooked.admitted verifyFeed
  rw [happrove, Arrays.build]
  cases fromSlice (o.hook.envs o.hook.built) ids (rowShape ids) <;> rfl

/-- The feed of the operations is `replay_feed`, in the environment of its construction. -/
theorem replayFeed_hooked (o : ArrayOps C M G) (ids : List TokenId) (want : Bool)
    (sampler : Sampler G) :
    ((RoundOps.replayFeed o ids want sampler).1, (RoundOps.replayFeed o ids want sampler).2.ops) =
      replayFeed (o.hook.envs o.hook.built) o.ops ids want sampler := by
  show ((o.admitted ids .replayFeed (o.ops.replayFeed ids want sampler)).1,
    (o.admitted ids .replayFeed (o.ops.replayFeed ids want sampler)).2.ops) = _
  have happrove : Hook.approve ids o.hook = o.hook.build ids := rfl
  unfold Hooked.admitted replayFeed
  rw [happrove, Arrays.build]
  cases fromSlice (o.hook.envs o.hook.built) ids (rowShape ids) <;> rfl

section Rounds

variable {K : CacheLedger C M} {hiddenAt : List TokenId → ModelOps.Hidden C M}
  {prompt : List TokenId}

open RoundDriver

/-- As long as no array has failed, a round of the session with arrays is a round of the session
without them, and leaves the ledgers aligned. -/
theorem runRound_arrays (hP : PrefixModel K hiddenAt) {d : RoundDriver (ArrayOps C M G)}
    (h : Entry (SessionOps.ledgers K hiddenAt) prompt (Hooked.plain d)) (x : TokenId)
    {roundEnd : RoundEnd} {d' : RoundDriver (ArrayOps C M G)}
    (hr : runRound x d = (.ok roundEnd, d')) (hbuilt : d'.ops.hook.failed = false) :
    RoundPost (SessionOps.ledgers K hiddenAt) prompt roundEnd (Hooked.plain d') := by
  have hfollows := (Hooked.follows_runRound x d).2
  rw [hr] at hfollows
  have hplain := hfollows (by
    intro hrefused
    have hfailed : d'.ops.hook.failed = true := hrefused
    rw [hbuilt] at hfailed
    cases hfailed)
  exact wp_ok (runRound_aligned (SessionOps.honours hP) h x) hplain

/-- The states of a run in which no array has failed are states of round entry. -/
theorem entry_of_run (hP : PrefixModel K hiddenAt) {start d : RoundDriver (ArrayOps C M G)}
    (hstart : Entry (SessionOps.ledgers K hiddenAt) prompt (Hooked.plain start))
    (hrun : Reached runRound Continues start d) (hbuilt : d.ops.hook.failed = false) :
    Entry (SessionOps.ledgers K hiddenAt) prompt (Hooked.plain d) := by
  induction hrun with
  | start => exact hstart
  | @step s s' x a _ hr ha ih =>
    have hbefore : s.ops.hook.failed = false := by
      by_contra hfailed
      have hfailed : s.ops.hook.failed = true := by simpa using hfailed
      have hafter : (runRound x s).2.ops.hook.failed = true :=
        (Hooked.follows_runRound x s).1 hfailed
      rw [hr, hbuilt] at hafter
      cases hafter
    obtain ⟨next, rfl⟩ := ha
    obtain ⟨haligned, hall⟩ := runRound_arrays hP (ih hbefore) x hr hbuilt
    exact ⟨haligned, hall next rfl⟩

/-- A feed of tokens meets the host contract exactly when its array can be built.  In every run
in which the arrays are built, a round that returns leaves the caches at the committed length. -/
theorem feeds_meet_host_contract (hP : PrefixModel K hiddenAt) :
    (∀ (env : ArrayEnv) (o : SessionOps C M) (ids : List TokenId) (sampler : Sampler G),
      ids ≠ [] →
        (HostContract env o ids (verifyFeed env o ids sampler) ↔ CanBuild env ids) ∧
        ∀ want, HostContract env o ids (replayFeed env o ids want sampler) ↔ CanBuild env ids) ∧
    ∀ (prompt : List TokenId) (start d : RoundDriver (ArrayOps C M G)) (x : TokenId)
      (roundEnd : RoundEnd) (d' : RoundDriver (ArrayOps C M G)),
      Entry (SessionOps.ledgers K hiddenAt) prompt (Hooked.plain start) →
      Reached runRound Continues start d → runRound x d = (.ok roundEnd, d') →
      d'.ops.hook.failed = false →
      RoundOps.targetPos d'.ops = prompt.length + d'.committedLen := by
  refine ⟨?_, ?_⟩
  · intro env o ids sampler hne
    exact ⟨verifyFeed_hostContract hP env o hne sampler,
      fun want => replayFeed_hostContract hP env o hne want sampler⟩
  · intro prompt start d x roundEnd d' hstart hrun hr hbuilt
    have hbefore : d.ops.hook.failed = false := by
      by_contra hfailed
      have hfailed : d.ops.hook.failed = true := by simpa using hfailed
      have hafter : (runRound x d).2.ops.hook.failed = true :=
        (Hooked.follows_runRound x d).1 hfailed
      rw [hr, hbuilt] at hafter
      cases hafter
    obtain ⟨haligned, -⟩ :=
      runRound_arrays hP (entry_of_run hP hstart hrun hbefore) x hr hbuilt
    have hpos : RoundOps.targetPos d'.ops = _ :=
      (SessionOps.honours hP).targetPos (Hooked.plain d').ops
    have htokens := congrArg List.length haligned.committed.tokens
    have hle : d'.committedLen ≤ d'.emitter.emitted.length := haligned.committed.le
    rw [List.length_map, List.length_append, List.length_take] at htokens
    rw [hpos, htokens]
    show prompt.length + min d'.committedLen d'.emitter.emitted.length = _
    omega

end Rounds

/-! ## A failed construction -/

section Witness

open RoundDriver FakeModel FakeOps

/-- An environment in which arrays can be built. -/
def working : ArrayEnv := ⟨.ok (), fun _ _ => .ok ()⟩

/-- An environment whose native constructor returns no handle. -/
def exhausted : ArrayEnv := ⟨.ok (), fun _ _ => .error (.mlx "MLX returned an empty array handle")⟩

/-- A session after the prompt `[1, 5]`. -/
def prompted : SessionOps FakeCaches FakeMtp := ⟨⟨[1, 5], [1, 5]⟩, none⟩

/-- The greedy sampler. -/
def greedy : Sampler Source := ⟨⟨0⟩, ⟨fun _ => 0⟩⟩

/-- A driver with one output slot. -/
def lastSlot (env : ArrayEnv) : RoundDriver (ArrayOps FakeCaches FakeMtp Source) :=
  new ⟨prompted, ⟨fun _ => env, 0, false⟩⟩
    (TokenEmitter.new letters [2] (.new .none) fun _ => true) none greedy 1 none none

theorem lastSlot_entry (env : ArrayEnv) :
    Entry (SessionOps.ledgers ledger fun ids => ids) [1, 5] (Hooked.plain (lastSlot env)) where
  committed := ⟨rfl, Nat.le_refl _, fun _ => rfl⟩
  mtp := trivial
  all := rfl

theorem feeds_meet_host_contract_lastSlot :
    (HostContract working prompted [7] (verifyFeed working prompted [7] greedy) ↔
      CanBuild working [7]) ∧
      RoundOps.targetPos (runRound 7 (lastSlot working)).2.ops =
        [1, 5].length + (runRound 7 (lastSlot working)).2.committedLen := by
  have h := feeds_meet_host_contract prefixModel
  refine ⟨(h.1 working prompted [7] greedy (by decide)).1, ?_⟩
  exact h.2 [1, 5] (lastSlot working) (lastSlot working) 7 .budget _ (lastSlot_entry working)
    .start (Prod.ext (by decide +kernel) rfl) (by decide +kernel)

/-- The final slot, when the array of its token cannot be built: the feed reports a host failure
before the forward, and the round returns with a committed length that the caches do not have. -/
theorem array_failure_runs_ahead :
    (verifyFeed exhausted prompted [7] greedy).1.toOption = none ∧
      ¬ HostContract exhausted prompted [7] (verifyFeed exhausted prompted [7] greedy) ∧
      ¬ HostContract exhausted prompted [7] (replayFeed exhausted prompted [7] false greedy) ∧
      (runRound 7 (lastSlot exhausted)).1 = .ok .budget ∧
      RoundOps.targetPos (runRound 7 (lastSlot exhausted)).2.ops = 2 ∧
      [1, 5].length + (runRound 7 (lastSlot exhausted)).2.committedLen = 3 := by
  refine ⟨by decide +kernel, ?_, ?_, by decide +kernel, by decide +kernel, by decide +kernel⟩
  · exact not_hostContract_of_unbuilt (by decide)
  · exact not_hostContract_of_unbuilt (by decide)

end Witness

end HostFailures

end Emelex

import Emelex.Engine.Error

/-!
# Key/value cache of one attention layer (`engine/models/cache.rs`)

`KvCache` as the source stores it: two growing buffers, an absolute `offset`, an optional
retention `window` and the absolute position `start` of buffer row 0.  An MLX array
`[B, H, L, D]` is the list of its `L` rows; `κ` and `ν` are the types of one key row and one
value row (everything but the `L` axis).  The `i32` counters are naturals: every subtraction
of the source is either clamped (`(window - added).max(0)`) or between ordered values.

* `updateAndFetch` — append with amortised growth, trimming before and after the append.
* `trimToWindow` — drop the leading rows once `window + KV_GROWTH_STEP` is exceeded.
* `truncateTo`, `wouldTrim` — the rollback primitive and its preflight.

Principal results: `updateAndFetch_spec` (what one append returns and stores, in terms of the
retained rows), `Inv.updateAndFetch` (the invariant `Inv` holds of every state reached by
appends: the buffers hold the last `offset - start` rows of the history).
-/

set_option autoImplicit false

namespace Emelex

/-- Buffer growth quantum. -/
def KV_GROWTH_STEP : Nat := 256

/-! ## Array operations along the row axis -/

section Rows

variable {α : Type}

/-- `ops::slice` on the row axis: rows `start..stop`. -/
def slice (a : List α) (start stop : Nat) : List α := (a.drop start).take (stop - start)

/-- `ops::slice_update` on the row axis: rows `start..stop` become `update`. -/
def sliceUpdate (a update : List α) (start stop : Nat) : List α :=
  a.take start ++ update ++ a.drop stop

/-- `ops::zeros` with `n` rows. -/
def zeros [Zero α] (n : Nat) : List α := List.replicate n 0

/-- Round up to the growth quantum. -/
def roundUp (n : Nat) : Nat := (n + KV_GROWTH_STEP - 1) / KV_GROWTH_STEP * KV_GROWTH_STEP

theorem le_roundUp (n : Nat) : n ≤ roundUp n := by
  unfold roundUp KV_GROWTH_STEP; omega

@[simp] theorem zeros_length [Zero α] (n : Nat) : (zeros n : List α).length = n := by
  simp [zeros]

theorem slice_zero (a : List α) (n : Nat) : slice a 0 n = a.take n := by simp [slice]

theorem sliceUpdate_length {a u : List α} {i j : Nat} (hij : i + u.length = j)
    (hj : j ≤ a.length) : (sliceUpdate a u i j).length = a.length := by
  simp [sliceUpdate]; omega

/-- Reading back the prefix that ends where an update ends. -/
theorem take_sliceUpdate {a u : List α} {i j : Nat} (hij : i + u.length = j)
    (hj : j ≤ a.length) : (sliceUpdate a u i j).take j = a.take i ++ u := by
  have hl : (a.take i ++ u).length = j := by simp; omega
  unfold sliceUpdate
  rw [← hl, List.take_left]

end Rows

/-! ## The cache -/

/-- `KvCache`. -/
structure KvCache (κ ν : Type) where
  keys : Option (List κ)
  values : Option (List ν)
  /-- Absolute token count seen. -/
  offset : Nat
  /-- Sliding-window retention; `none` keeps everything. -/
  window : Option Nat
  /-- Absolute position of buffer row 0. -/
  start : Nat
  deriving DecidableEq, Repr

/-- One `update_and_fetch` argument: `added` key rows and as many value rows. -/
structure KvChunk (κ ν : Type) where
  keys : List κ
  values : List ν
  same_length : values.length = keys.length

variable {κ ν : Type}

/-- The rows of a chunk as key/value pairs. -/
def KvChunk.rows (c : KvChunk κ ν) : List (κ × ν) := c.keys.zip c.values

/-- `added`, the chunk length read off the key shape. -/
def KvChunk.added (c : KvChunk κ ν) : Nat := c.keys.length

theorem KvChunk.rows_length (c : KvChunk κ ν) : c.rows.length = c.added := by
  simp [rows, added, c.same_length]

namespace KvCache

/-- `KvCache::new`. -/
def new : KvCache κ ν := ⟨none, none, 0, none, 0⟩

/-- `KvCache::windowed`. -/
def windowed (window : Nat) : KvCache κ ν := ⟨none, none, 0, some (max window 1), 0⟩

/-- `keys.as_ref().map_or(0, |k| k.dim(-2))`. -/
def bufferCapacity (c : KvCache κ ν) : Nat := c.keys.elim 0 List.length

/-- Rows the buffers hold for positions `start..offset`. -/
def retained (c : KvCache κ ν) : Nat := c.offset - c.start

/-- `KvCache::trim_to_window`. -/
def trimToWindow [Zero κ] [Zero ν] (c : KvCache κ ν) (added : Nat) : KvCache κ ν :=
  match c.window with
  | none => c
  | some window =>
    let retained := c.offset - c.start
    if retained + added ≤ window + KV_GROWTH_STEP then c
    else
      let keep := min (window - added) retained
      let drop := retained - keep
      if drop = 0 then c
      else
        match (if 0 < keep then c.keys else none), (if 0 < keep then c.values else none) with
        | some oldK, some oldV =>
          -- the tail is copied into fresh buffers, never stored as a view
          let capacity := roundUp keep
          { c with
            keys := some (sliceUpdate (zeros capacity) (slice oldK drop retained) 0 keep)
            values := some (sliceUpdate (zeros capacity) (slice oldV drop retained) 0 keep)
            start := c.start + drop }
        | _, _ => { c with keys := none, values := none, start := c.start + drop }

/-- The growth step of `update_and_fetch`: enlarge both buffers to hold `needed` rows. -/
def grow [Zero κ] [Zero ν] (c : KvCache κ ν) (prev needed : Nat) : KvCache κ ν :=
  if needed > c.bufferCapacity then
    let newCapacity := roundUp needed
    match c.keys, c.values with
    | some oldK, some oldV =>
      if prev > 0 then
        { c with
          keys := some (sliceUpdate (zeros newCapacity) (slice oldK 0 prev) 0 prev)
          values := some (sliceUpdate (zeros newCapacity) (slice oldV 0 prev) 0 prev) }
      else { c with keys := some (zeros newCapacity), values := some (zeros newCapacity) }
    | _, _ => { c with keys := some (zeros newCapacity), values := some (zeros newCapacity) }
  else c

/-- `KvCache::update_and_fetch`: the new cache and the fetched key and value views. -/
def updateAndFetch [Zero κ] [Zero ν] (c : KvCache κ ν) (chunk : KvChunk κ ν) :
    Except Error (KvCache κ ν × List κ × List ν) :=
  let added := chunk.added
  let c := c.trimToWindow added
  let prev := c.offset - c.start
  let needed := prev + added
  let c := c.grow prev needed
  match c.keys, c.values with
  | some bufK, some bufV =>
    let bufK := sliceUpdate bufK chunk.keys prev needed
    let bufV := sliceUpdate bufV chunk.values prev needed
    let c := { c with offset := c.start + needed, keys := some bufK, values := some bufV }
    -- the second trim bounds only what is stored; the fetched views are unaffected
    .ok (c.trimToWindow 0, slice bufK 0 needed, slice bufV 0 needed)
  | none, _ => .error (.model "KV cache key allocation disappeared")
  | _, none => .error (.model "KV cache value allocation disappeared")

/-- `KvCache::truncate_to`. -/
def truncateTo (c : KvCache κ ν) (offset : Nat) : Except Error (KvCache κ ν) :=
  if offset < c.start then
    .error (.model s!"cannot truncate KV cache to position {offset}: positions before {c.start} were discarded by a window trim")
  else if offset > c.offset then
    .error (.model s!"cannot truncate KV cache to position {offset}: only {c.offset} positions have been fed")
  else .ok { c with offset := offset }

/-- `KvCache::would_trim`. -/
def wouldTrim (c : KvCache κ ν) (added : Nat) : Bool :=
  match c.window with
  | none => false
  | some window => decide (c.offset - c.start + added > window + KV_GROWTH_STEP)

/-! ## What one append does to the retained rows -/

/-- Rows `trim_to_window` drops. -/
def trimDrop (c : KvCache κ ν) (added : Nat) : Nat :=
  match c.window with
  | none => 0
  | some window =>
    if c.retained + added ≤ window + KV_GROWTH_STEP then 0
    else c.retained - min (window - added) c.retained

theorem trimDrop_le (c : KvCache κ ν) (added : Nat) : c.trimDrop added ≤ c.retained := by
  unfold trimDrop
  split
  · omega
  · split <;> omega

/-- A buffer holds `rows` as its filled prefix. -/
def Holds {α : Type} (b : Option (List α)) (rows : List α) : Prop :=
  ∃ rest, b.getD [] = rows ++ rest

theorem Holds.none {α : Type} : Holds (α := α) none [] := ⟨[], rfl⟩

/-- `Inv H c`: the cache `c` was fed exactly the history `H` of key/value rows, and its buffers
    hold the rows from `start` on. -/
structure Inv (H : List (κ × ν)) (c : KvCache κ ν) : Prop where
  offset_eq : c.offset = H.length
  start_le : c.start ≤ c.offset
  keys : Holds c.keys ((H.drop c.start).map Prod.fst)
  values : Holds c.values ((H.drop c.start).map Prod.snd)
  same_capacity : c.keys.map List.length = c.values.map List.length

theorem inv_new : Inv ([] : List (κ × ν)) (new : KvCache κ ν) :=
  ⟨rfl, Nat.le_refl _, Holds.none, Holds.none, rfl⟩

theorem inv_windowed (window : Nat) : Inv ([] : List (κ × ν)) (windowed window : KvCache κ ν) :=
  ⟨rfl, Nat.le_refl _, Holds.none, Holds.none, rfl⟩

section Trim

variable [Zero κ] [Zero ν]

@[simp] theorem trimToWindow_offset (c : KvCache κ ν) (added : Nat) :
    (c.trimToWindow added).offset = c.offset := by
  unfold trimToWindow
  split
  · rfl
  · simp only
    split
    · rfl
    · split
      · rfl
      · split <;> rfl

@[simp] theorem trimToWindow_window (c : KvCache κ ν) (added : Nat) :
    (c.trimToWindow added).window = c.window := by
  unfold trimToWindow
  split
  · simp_all
  · simp only
    split
    · simp_all
    · split
      · simp_all
      · split <;> simp_all

@[simp] theorem trimToWindow_start (c : KvCache κ ν) (added : Nat) :
    (c.trimToWindow added).start = c.start + c.trimDrop added := by
  unfold trimToWindow trimDrop retained
  split
  · simp_all
  · simp only
    split
    · simp_all
    · split
      · simp_all
      · split <;> rfl

/-- The copied tail of one buffer is the filled prefix without its first `drop` rows. -/
theorem Holds.copyTail {α : Type} [Zero α] {old rows : List α} {drop retained keep : Nat}
    (h : Holds (some old) rows) (hlen : rows.length = retained) (hk : drop + keep = retained) :
    Holds (some (sliceUpdate (zeros (roundUp keep)) (slice old drop retained) 0 keep))
      (rows.drop drop) := by
  obtain ⟨rest, hrest⟩ := h
  simp only [Option.getD_some] at hrest
  subst hrest
  have hs : slice (rows ++ rest) drop retained = rows.drop drop := by
    have hdl : (rows.drop drop).length = retained - drop := by simp [hlen]
    unfold slice
    rw [List.drop_append_of_le_length (by omega), ← hdl, List.take_left]
  rw [hs]
  exact ⟨(zeros (roundUp keep)).drop keep, by simp [sliceUpdate]⟩

theorem Inv.trimToWindow {H : List (κ × ν)} {c : KvCache κ ν} (h : Inv H c) (added : Nat) :
    Inv H (c.trimToWindow added) := by
  have hd := c.trimDrop_le added
  have hret : c.retained = c.offset - c.start := rfl
  have hoff := h.offset_eq
  have hle := h.start_le
  have hklen : ((H.drop c.start).map Prod.fst).length = c.retained := by simp; omega
  have hvlen : ((H.drop c.start).map Prod.snd).length = c.retained := by simp; omega
  -- the three remaining fields are the buffers; they change only when rows are dropped
  suffices Holds (c.trimToWindow added).keys ((H.drop (c.start + c.trimDrop added)).map Prod.fst) ∧
      Holds (c.trimToWindow added).values ((H.drop (c.start + c.trimDrop added)).map Prod.snd) ∧
      (c.trimToWindow added).keys.map List.length =
        (c.trimToWindow added).values.map List.length by
    obtain ⟨hk, hv, hcap⟩ := this
    exact ⟨by simpa using hoff, by simp; omega, by simpa using hk, by simpa using hv, hcap⟩
  have hsame := h.same_capacity
  unfold KvCache.trimToWindow trimDrop
  split
  · exact ⟨h.keys, h.values, hsame⟩
  · rename_i window hw
    simp only [← hret]
    split
    · exact ⟨h.keys, h.values, hsame⟩
    · split
      · rename_i hdrop
        rw [hdrop]
        exact ⟨h.keys, h.values, hsame⟩
      · split
        · rename_i oldK oldV hK hV
          have hkeep : 0 < min (window - added) c.retained := by
            by_contra hc; simp [hc] at hK
          rw [if_pos hkeep] at hK hV
          have hkd := h.keys
          have hvd := h.values
          rw [hK] at hkd
          rw [hV] at hvd
          refine ⟨?_, ?_, ?_⟩
          · rw [← List.drop_drop, List.map_drop]
            exact hkd.copyTail hklen (by omega)
          · rw [← List.drop_drop, List.map_drop]
            exact hvd.copyTail hvlen (by omega)
          · have hlk : (slice oldK (c.retained - min (window - added) c.retained)
                c.retained).length = min (window - added) c.retained := by
              obtain ⟨rest, hr⟩ := hkd
              simp only [Option.getD_some] at hr
              have : c.retained ≤ oldK.length := by rw [hr, List.length_append, hklen]; omega
              simp [slice]; omega
            have hlv : (slice oldV (c.retained - min (window - added) c.retained)
                c.retained).length = min (window - added) c.retained := by
              obtain ⟨rest, hr⟩ := hvd
              simp only [Option.getD_some] at hr
              have : c.retained ≤ oldV.length := by rw [hr, List.length_append, hvlen]; omega
              simp [slice]; omega
            simp [sliceUpdate, hlk, hlv]
        · rename_i hnone
          -- nothing is kept: either `keep = 0`, or the buffers were never allocated
          have hkeep : min (window - added) c.retained = 0 := by
            by_contra hc
            have hpos : 0 < min (window - added) c.retained := Nat.pos_of_ne_zero hc
            rw [if_pos hpos, if_pos hpos] at hnone
            cases hK : c.keys with
            | none =>
              obtain ⟨rest, hr⟩ := h.keys
              rw [hK] at hr
              have : ((H.drop c.start).map Prod.fst).length = 0 := by
                have := congrArg List.length hr
                simp only [Option.getD_none, List.length_nil, List.length_append] at this
                omega
              omega
            | some oldK =>
              cases hV : c.values with
              | none => rw [hK, hV] at hsame; simp at hsame
              | some oldV => exact hnone oldK oldV hK hV
          have hempty : H.drop (c.start + (c.retained - min (window - added) c.retained)) = [] := by
            rw [List.drop_eq_nil_iff]; omega
          rw [hempty]
          exact ⟨Holds.none, Holds.none, rfl⟩

@[simp] theorem grow_offset (c : KvCache κ ν) (prev needed : Nat) :
    (c.grow prev needed).offset = c.offset := by
  unfold grow; split <;> [skip; rfl]; split <;> [skip; rfl]; split <;> rfl

@[simp] theorem grow_start (c : KvCache κ ν) (prev needed : Nat) :
    (c.grow prev needed).start = c.start := by
  unfold grow; split <;> [skip; rfl]; split <;> [skip; rfl]; split <;> rfl

@[simp] theorem grow_window (c : KvCache κ ν) (prev needed : Nat) :
    (c.grow prev needed).window = c.window := by
  unfold grow; split <;> [skip; rfl]; split <;> [skip; rfl]; split <;> rfl

/-- A buffer that has room for `needed` rows and holds `rows` as its filled prefix. -/
def Room {α : Type} (b : Option (List α)) (rows : List α) (needed : Nat) : Prop :=
  ∃ buf rest, b = some buf ∧ buf = rows ++ rest ∧ needed ≤ buf.length

theorem Room.copyPrefix {α : Type} [Zero α] {old rows : List α} {prev needed : Nat}
    (h : Holds (some old) rows) (hlen : rows.length = prev) (hn : prev ≤ needed) :
    Room (some (sliceUpdate (zeros (roundUp needed)) (slice old 0 prev) 0 prev)) rows needed := by
  obtain ⟨rest, hr⟩ := h
  simp only [Option.getD_some] at hr
  have hs : slice old 0 prev = rows := by rw [slice_zero, hr, ← hlen, List.take_left]
  have := le_roundUp needed
  refine ⟨_, (zeros (roundUp needed)).drop prev, rfl, by simp [sliceUpdate, hs], ?_⟩
  rw [sliceUpdate_length (by simp [hs, hlen]) (by simp; omega)]
  simpa using this

theorem Room.zeros {α : Type} [Zero α] (needed : Nat) :
    Room (some (Emelex.zeros (roundUp needed) : List α)) [] needed :=
  ⟨_, _, rfl, (List.nil_append _).symm, by simpa using le_roundUp needed⟩

/-- After growing, both buffers exist, have room for `needed` rows and keep their content. -/
theorem Inv.grow {H : List (κ × ν)} {c : KvCache κ ν} (h : Inv H c) {prev needed : Nat}
    (hprev : prev = c.retained) (hn : prev ≤ needed) (hpos : 0 < needed) :
    Room (c.grow prev needed).keys ((H.drop c.start).map Prod.fst) needed ∧
      Room (c.grow prev needed).values ((H.drop c.start).map Prod.snd) needed ∧
      (c.grow prev needed).keys.map List.length = (c.grow prev needed).values.map List.length := by
  have hoff := h.offset_eq
  have hle := h.start_le
  have hret : c.retained = c.offset - c.start := rfl
  have hklen : ((H.drop c.start).map Prod.fst).length = prev := by simp; omega
  have hvlen : ((H.drop c.start).map Prod.snd).length = prev := by simp; omega
  have hsame := h.same_capacity
  have hkd := h.keys
  have hvd := h.values
  unfold KvCache.grow bufferCapacity
  split
  · split
    · rename_i oldK oldV hK hV
      rw [hK] at hkd
      rw [hV] at hvd
      split
      · refine ⟨.copyPrefix hkd hklen hn, .copyPrefix hvd hvlen hn, ?_⟩
        have hk : (slice oldK 0 prev).length = prev := by
          obtain ⟨rest, hr⟩ := hkd
          simp only [Option.getD_some] at hr
          rw [slice_zero, hr, List.take_append_of_le_length (by omega)]; simp; omega
        have hv : (slice oldV 0 prev).length = prev := by
          obtain ⟨rest, hr⟩ := hvd
          simp only [Option.getD_some] at hr
          rw [slice_zero, hr, List.take_append_of_le_length (by omega)]; simp; omega
        simp [sliceUpdate, hk, hv]
      · have he : H.drop c.start = [] := by
          rw [List.drop_eq_nil_iff]; omega
        rw [he]
        exact ⟨.zeros _, .zeros _, by simp⟩
    · rename_i hnone
      -- unallocated buffers hold nothing
      have he : H.drop c.start = [] := by
        cases hK : c.keys with
        | none =>
          obtain ⟨rest, hr⟩ := hkd
          rw [hK] at hr
          have := congrArg List.length hr
          simp only [Option.getD_none, List.length_nil, List.length_append, List.length_map] at this
          exact List.length_eq_zero_iff.mp (by omega)
        | some oldK =>
          cases hV : c.values with
          | none => rw [hK, hV] at hsame; simp at hsame
          | some oldV => exact absurd hV (hnone oldK oldV hK)
      rw [he]
      exact ⟨.zeros _, .zeros _, by simp⟩
  · rename_i hcap
    cases hK : c.keys with
    | none => rw [hK] at hcap; simp at hcap; omega
    | some bufK =>
      cases hV : c.values with
      | none => rw [hK, hV] at hsame; simp at hsame
      | some bufV =>
        rw [hK, hV] at hsame
        rw [hK] at hkd hcap
        rw [hV] at hvd
        simp only [Option.map_some, Option.some.injEq] at hsame
        simp only [Option.elim_some] at hcap
        have hcap := Nat.le_of_not_lt hcap
        obtain ⟨rk, hrk⟩ := hkd
        obtain ⟨rv, hrv⟩ := hvd
        exact ⟨⟨bufK, rk, rfl, hrk, hcap⟩, ⟨bufV, rv, rfl, hrv, by omega⟩, by simp [hsame]⟩

/-- The state `update_and_fetch` stores before its second trim. -/
theorem updateAndFetch_spec {H : List (κ × ν)} {c : KvCache κ ν} (h : Inv H c)
    (chunk : KvChunk κ ν) (hadd : 0 < chunk.added) :
    ∃ c', c.updateAndFetch chunk =
        .ok (c'.trimToWindow 0,
          ((H ++ chunk.rows).drop (c.start + c.trimDrop chunk.added)).map Prod.fst,
          ((H ++ chunk.rows).drop (c.start + c.trimDrop chunk.added)).map Prod.snd) ∧
      Inv (H ++ chunk.rows) c' ∧ c'.window = c.window ∧
      c'.start = c.start + c.trimDrop chunk.added ∧ c'.offset = c.offset + chunk.added := by
  have ht := h.trimToWindow chunk.added
  have hd := c.trimDrop_le chunk.added
  have hoff := h.offset_eq
  have hle := h.start_le
  have hret : c.retained = c.offset - c.start := rfl
  obtain ⟨t, htdef⟩ : ∃ t, t = c.trimToWindow chunk.added := ⟨_, rfl⟩
  rw [← htdef] at ht
  have hto : t.offset = c.offset := by rw [htdef]; simp
  have hts : t.start = c.start + c.trimDrop chunk.added := by rw [htdef]; simp
  have htw : t.window = c.window := by rw [htdef]; simp
  obtain ⟨prev, hprev⟩ : ∃ p, p = t.offset - t.start := ⟨_, rfl⟩
  obtain ⟨⟨bufK, restK, hK, hbK, hnK⟩, ⟨bufV, restV, hV, hbV, hnV⟩, hcap⟩ :=
    ht.grow hprev (show prev ≤ prev + chunk.added by omega) (by omega)
  have hrows : chunk.rows.length = chunk.added := chunk.rows_length
  have hkl : ((H.drop t.start).map Prod.fst).length = prev := by simp; omega
  have hvl : ((H.drop t.start).map Prod.snd).length = prev := by simp; omega
  have hka : chunk.keys.length = chunk.added := rfl
  have hva : chunk.values.length = chunk.added := chunk.same_length
  have hck : chunk.rows.map Prod.fst = chunk.keys := by
    simp [KvChunk.rows, List.map_fst_zip, chunk.same_length]
  have hcv : chunk.rows.map Prod.snd = chunk.values := by
    simp [KvChunk.rows, List.map_snd_zip, chunk.same_length]
  have hdrop : (H ++ chunk.rows).drop t.start = H.drop t.start ++ chunk.rows :=
    List.drop_append_of_le_length (by omega)
  have hviewK : (sliceUpdate bufK chunk.keys prev (prev + chunk.added)).take (prev + chunk.added) =
      ((H ++ chunk.rows).drop t.start).map Prod.fst := by
    rw [take_sliceUpdate (congrArg (prev + ·) hka) hnK, hbK, ← hkl, List.take_left, hdrop, List.map_append, hck]
  have hviewV : (sliceUpdate bufV chunk.values prev (prev + chunk.added)).take (prev + chunk.added) =
      ((H ++ chunk.rows).drop t.start).map Prod.snd := by
    rw [take_sliceUpdate (congrArg (prev + ·) hva) hnV, hbV, ← hvl, List.take_left, hdrop,
      List.map_append, hcv]
  refine ⟨{ (t.grow prev (prev + chunk.added)) with
      offset := t.start + (prev + chunk.added)
      keys := some (sliceUpdate bufK chunk.keys prev (prev + chunk.added))
      values := some (sliceUpdate bufV chunk.values prev (prev + chunk.added)) }, ?_, ?_, ?_, ?_, ?_⟩
  · unfold updateAndFetch
    simp only [← hts, ← htdef, ← hprev, hK, hV, grow_start, slice_zero, hviewK, hviewV]
  · refine ⟨?_, ?_, ?_, ?_, ?_⟩
    · simp only [List.length_append, hrows]; omega
    · simp only [grow_start]; omega
    · refine ⟨(sliceUpdate bufK chunk.keys prev (prev + chunk.added)).drop (prev + chunk.added), ?_⟩
      simp only [Option.getD_some, grow_start]
      rw [← hviewK, List.take_append_drop]
    · refine ⟨(sliceUpdate bufV chunk.values prev (prev + chunk.added)).drop (prev + chunk.added), ?_⟩
      simp only [Option.getD_some, grow_start]
      rw [← hviewV, List.take_append_drop]
    · rw [hK, hV] at hcap
      simp only [Option.map_some, Option.some.injEq] at hcap
      simp only [Option.map_some, Option.some.injEq]
      rw [sliceUpdate_length (congrArg (prev + ·) hka) hnK,
        sliceUpdate_length (congrArg (prev + ·) hva) hnV, hcap]
  · simpa using htw
  · simpa using hts
  · simp only; omega

end Trim

end KvCache

end Emelex

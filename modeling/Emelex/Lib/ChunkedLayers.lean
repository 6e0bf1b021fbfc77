import Mathlib.Data.List.OfFn
import Mathlib.Data.Vector.Defs
import Mathlib.Algebra.BigOperators.Fin

/-!
# Layers that keep a state between chunks

A layer maps a list of rows to a list of rows and passes a state on.

* `feed` — chunks that are fed one after another through the same state.
* `Resumes` — a layer for which two chunks are the same as one.
* `slide`, `lastRows`, `scan` — the windows of a list, its last rows, a recurrence.
* `windowed` — a function of the window that ends at each row; the last rows are its state.
* `recurrent` — windows, and then a recurrence.

Principal results: `Resumes.feed_eq`, `windowed_resumes`, `recurrent_resumes`, `recurrent_eq`.
-/

set_option autoImplicit false

namespace ChunkedLayers

variable {α β γ δ ρ σ : Type}

/-! ## Chunks -/

/-- Chunks are fed one after another through the same state, up to the first failure. -/
def feed (forward : List α → σ → Option (List β × σ)) : List (List α) → σ →
    Option (List β × σ)
  | [], state => some ([], state)
  | chunk :: chunks, state => do
    let (out, state) ← forward chunk state
    let (rest, state) ← feed forward chunks state
    return (out ++ rest, state)

/-- Two chunks give what both give at once. -/
def Resumes (forward : List α → σ → Option (List β × σ)) : Prop :=
  ∀ first second state, first ≠ [] → second ≠ [] →
    forward (first ++ second) state = (forward first state).bind fun (out, state) =>
      (forward second state).map fun (rest, state) => (out ++ rest, state)

theorem Resumes.feed_eq {forward : List α → σ → Option (List β × σ)} (h : Resumes forward)
    {chunks : List (List α)} (hne : chunks ≠ []) (hchunks : ∀ chunk ∈ chunks, chunk ≠ [])
    (state : σ) : feed forward chunks state = forward chunks.flatten state := by
  induction chunks generalizing state with
  | nil => exact absurd rfl hne
  | cons chunk chunks ih =>
    have hchunk := hchunks chunk List.mem_cons_self
    have hrest : ∀ other ∈ chunks, other ≠ [] := fun other hother =>
      hchunks other (List.mem_cons_of_mem _ hother)
    rw [List.flatten_cons]
    by_cases hlast : chunks = []
    · subst hlast
      rw [List.flatten_nil, List.append_nil]
      show (forward chunk state).bind (fun _ => some _) = _
      cases hforward : forward chunk state with
      | none => rfl
      | some result => simp
    · have hflatten : chunks.flatten ≠ [] := by
        obtain ⟨other, others, rfl⟩ := List.exists_cons_of_ne_nil hlast
        rw [List.flatten_cons]
        exact List.append_ne_nil_of_left_ne_nil (hrest other List.mem_cons_self) _
      rw [h chunk chunks.flatten state hchunk hflatten]
      show (forward chunk state).bind _ = _
      congr 1
      funext (out, state)
      show (feed forward chunks state).bind _ = Option.map _ (forward chunks.flatten state)
      rw [ih hlast hrest]
      cases forward chunks.flatten state <;> rfl

/-! ## Windows -/

/-- A function of every window of `k` neighbouring rows. -/
def slide (k : ℕ) (f : (Fin k → α) → β) (rows : List α) : List β :=
  List.ofFn fun t : Fin (rows.length + 1 - k) => f fun j => rows.get ⟨t + j, by omega⟩

@[simp] theorem slide_length (k : ℕ) (f : (Fin k → α) → β) (rows : List α) :
    (slide k f rows).length = rows.length + 1 - k := List.length_ofFn

/-- The last rows. -/
def lastRows (n : ℕ) (rows : List α) : List α := rows.drop (rows.length - n)

theorem lastRows_length {n : ℕ} {rows : List α} (h : n ≤ rows.length) :
    (lastRows n rows).length = n := by
  rw [lastRows, List.length_drop]
  omega

theorem lastRows_suffix (n : ℕ) (rows : List α) : lastRows n rows <:+ rows :=
  List.drop_suffix _ _

/-- The last rows and some more are what is left of all when the others are dropped. -/
theorem lastRows_append_eq_drop (n : ℕ) (rows more : List α) :
    lastRows n rows ++ more = (rows ++ more).drop (rows.length - n) :=
  (List.drop_append_of_le_length (Nat.sub_le _ _)).symm

/-- Of the last rows and some more, the last rows are those of all. -/
theorem lastRows_append {n : ℕ} {rows : List α} (h : n ≤ rows.length) (more : List α) :
    lastRows n (lastRows n rows ++ more) = lastRows n (rows ++ more) := by
  rw [lastRows_append_eq_drop, lastRows, lastRows, List.drop_drop, List.length_drop,
    List.length_append]
  congr 1
  omega

/-- The windows over some rows and more: those over the rows, and those that end after them, which
see the last rows only. -/
theorem slide_append {k : ℕ} (hk : 0 < k) (f : (Fin k → α) → β) {rows : List α}
    (h : k ≤ rows.length + 1) (more : List α) :
    slide k f (rows ++ more) = slide k f rows ++ slide k f (lastRows (k - 1) rows ++ more) := by
  rw [lastRows_append_eq_drop]
  refine List.ext_getElem ?_ fun i hi hi' => ?_
  · simp only [slide_length, List.length_append, List.length_drop]
    omega
  · simp only [slide_length, List.length_append] at hi
    rw [List.getElem_append]
    split
    · rename_i hbefore
      rw [slide_length] at hbefore
      simp only [slide, List.getElem_ofFn, List.get_eq_getElem]
      congr 1
      funext j
      exact List.getElem_append_left (by omega)
    · rename_i hafter
      rw [slide_length] at hafter
      simp only [slide, List.getElem_ofFn, List.get_eq_getElem, List.getElem_drop, List.length_ofFn]
      congr 1
      funext j
      congr 1
      omega

/-! ## Recurrences -/

/-- A recurrence over the rows: an output for each, and the last state. -/
def scan (step : σ → α → β × σ) : List α → σ → List β × σ
  | [], state => ([], state)
  | row :: rows, state =>
    let (out, state) := step state row
    let (outs, state) := scan step rows state
    (out :: outs, state)

@[simp] theorem scan_length (step : σ → α → β × σ) (rows : List α) (state : σ) :
    (scan step rows state).1.length = rows.length := by
  induction rows generalizing state with
  | nil => rfl
  | cons row rows ih => exact congrArg (· + 1) (ih _)

theorem scan_append (step : σ → α → β × σ) (rows more : List α) (state : σ) :
    scan step (rows ++ more) state =
      ((scan step rows state).1 ++ (scan step more (scan step rows state).2).1,
        (scan step more (scan step rows state).2).2) := by
  induction rows generalizing state with
  | nil => rfl
  | cons row rows ih =>
    rw [List.cons_append]
    simp only [scan, ih, List.cons_append]

/-! ## Layers -/

/-- Rows that stand before the first one. -/
def kept {n : ℕ} (zero : γ) (window : Option (List.Vector γ n)) : List γ :=
  (window.getD (List.Vector.replicate n zero)).toList

@[simp] theorem kept_length {n : ℕ} (zero : γ) (window : Option (List.Vector γ n)) :
    (kept zero window).length = n := List.Vector.toList_length _

/-- A function of the window that ends at each row; the last `k - 1` rows are kept. -/
def windowed (k : ℕ) (zero : γ) (f : (Fin k → γ) → δ) (rows : List γ)
    (window : Option (List.Vector γ (k - 1))) :
    Option (List δ × Option (List.Vector γ (k - 1))) :=
  let input := kept zero window ++ rows
  if input.length < k then none
  else some (slide k f input, some ⟨lastRows (k - 1) input, lastRows_length (by simp [input])⟩)

section windowed

variable {k : ℕ} (hk : 0 < k) (zero : γ) (f : (Fin k → γ) → δ)
include hk

/-- There is a window for each row. -/
theorem windowed_eq {rows : List γ} (hne : rows ≠ []) (window : Option (List.Vector γ (k - 1))) :
    ∃ kept', windowed k zero f rows window =
        some (slide k f (kept zero window ++ rows), some kept') ∧
      kept'.toList = lastRows (k - 1) (kept zero window ++ rows) ∧
      (slide k f (kept zero window ++ rows)).length = rows.length := by
  have hpos := List.length_pos_iff.2 hne
  refine ⟨⟨lastRows (k - 1) (kept zero window ++ rows), lastRows_length (by simp)⟩, ?_, rfl, ?_⟩
  · unfold windowed
    rw [if_neg]
    simp only [List.length_append, kept_length]
    omega
  · rw [slide_length, List.length_append, kept_length]
    omega

theorem windowed_resumes : Resumes (windowed k zero f) := by
  intro first second window hfirst hsecond
  obtain ⟨both, hboth, hlastBoth, -⟩ :=
    windowed_eq hk zero f (List.append_ne_nil_of_left_ne_nil hfirst second) window
  obtain ⟨middle, hmiddle, hlastMiddle, -⟩ := windowed_eq hk zero f hfirst window
  obtain ⟨last, hlast, hlastLast, -⟩ := windowed_eq hk zero f hsecond (some middle)
  have hkept : kept zero (some middle) = lastRows (k - 1) (kept zero window ++ first) := hlastMiddle
  rw [hkept] at hlast hlastLast
  have hle : k - 1 ≤ (kept zero window ++ first).length := by simp
  rw [hboth, hmiddle]
  show some _ = Option.map _ (windowed k zero f second (some middle))
  rw [hlast]
  refine congrArg some (Prod.ext ?_ (congrArg some (List.Vector.toList_injective ?_)))
  · show slide k f _ = _ ++ _
    rw [← List.append_assoc]
    exact slide_append hk f (by omega) second
  · rw [hlastBoth, hlastLast, ← List.append_assoc]
    exact (lastRows_append hle second).symm

end windowed

/-- Windows over the projected rows, and then a recurrence; the state of both is kept. -/
def recurrent {τ : Type} (k : ℕ) (zero : γ) (initial : σ) (project : α → γ)
    (f : (Fin k → γ) → δ) (row : δ → α → ρ) (step : σ → ρ → τ × σ) (output : τ → α → β)
    (rows : List α) (state : Option (List.Vector γ (k - 1)) × Option σ) :
    Option (List β × Option (List.Vector γ (k - 1)) × Option σ) := do
  let (windows, window) ← windowed k zero f (rows.map project) state.1
  let (outs, last) := scan step (List.zipWith row windows rows) (state.2.getD initial)
  return (List.zipWith output outs rows, window, some last)

section recurrent

variable {τ : Type} {k : ℕ} (hk : 0 < k) (zero : γ) (initial : σ) (project : α → γ)
  (f : (Fin k → γ) → δ) (row : δ → α → ρ) (step : σ → ρ → τ × σ) (output : τ → α → β)
include hk

theorem recurrent_resumes :
    Resumes (recurrent k zero initial project f row step output) := by
  intro first second state hfirst hsecond
  have hfirst' : first.map project ≠ [] := by simpa using hfirst
  have hsecond' : second.map project ≠ [] := by simpa using hsecond
  obtain ⟨middle, hmiddle, -, hlength⟩ := windowed_eq hk zero f hfirst' state.1
  obtain ⟨last, hlast, -, -⟩ := windowed_eq hk zero f hsecond' (some middle)
  have hboth := windowed_resumes hk zero f _ _ state.1 hfirst' hsecond'
  rw [List.length_map] at hlength
  simp only [hmiddle, hlast, Option.bind_some, Option.map_some] at hboth
  simp only [recurrent, List.map_append, hboth, hmiddle, hlast, Option.bind_eq_bind,
    Option.bind_some, Option.pure_def, Option.map_some, Option.getD_some]
  rw [List.zipWith_append hlength, scan_append, List.zipWith_append]
  rw [scan_length, List.length_zipWith, hlength, Nat.min_self]

/-- What the layer returns, and what it keeps. -/
theorem recurrent_eq {rows : List α} (hne : rows ≠ [])
    (state : Option (List.Vector γ (k - 1)) × Option σ) :
    ∃ window, recurrent k zero initial project f row step output rows state =
      some (List.zipWith output (scan step (List.zipWith row
          (slide k f (kept zero state.1 ++ rows.map project)) rows) (state.2.getD initial)).1 rows,
        some window, some (scan step (List.zipWith row
          (slide k f (kept zero state.1 ++ rows.map project)) rows) (state.2.getD initial)).2) ∧
      window.toList = lastRows (k - 1) (kept zero state.1 ++ rows.map project) := by
  have hne' : rows.map project ≠ [] := by simpa using hne
  obtain ⟨window, hwindow, hlast, -⟩ := windowed_eq hk zero f hne' state.1
  refine ⟨window, ?_, hlast⟩
  simp only [recurrent, hwindow, Option.bind_eq_bind, Option.bind_some, Option.pure_def]

end recurrent

/-- A layer whose state is packed in another way. -/
theorem Resumes.of_equiv {τ : Type} {forward : List α → σ → Option (List β × σ)}
    {forward' : List α → τ → Option (List β × τ)} (h : Resumes forward) (e : τ ≃ σ)
    (heq : ∀ rows state, forward' rows state =
      (forward rows (e state)).map fun (out, state) => (out, e.symm state)) : Resumes forward' := by
  intro first second state hfirst hsecond
  rw [heq, heq, h first second _ hfirst hsecond]
  cases forward first (e state) with
  | none => rfl
  | some result =>
    obtain ⟨out, middle⟩ := result
    show Option.map _ (Option.map _ (forward second middle)) =
      Option.map _ (forward' second (e.symm middle))
    rw [heq, Equiv.apply_symm_apply]
    cases forward second middle <;> rfl

end ChunkedLayers

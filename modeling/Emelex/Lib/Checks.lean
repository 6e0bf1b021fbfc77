import Mathlib.Logic.Basic
import Mathlib.Data.List.Forall2

/-!
# Checks one after the other

A function that checks its input and fails at the first check that does not hold is a `do` block in
`Except ε`.

* `ensure`, `required` — go on where a condition holds, or where there is a value.
* `bind_eq_ok`, `mapM_eq_ok` — a block succeeds just where all of its parts do.
* `Gives` — what holds of the result, and what of the error.

Principal results: `bind_eq_ok`, `mapM_eq_ok`, `Gives.bind`.
-/

set_option autoImplicit false

namespace Checks

variable {ε α β : Type}

/-- Go on where the condition holds. -/
def ensure (condition : Prop) [Decidable condition] (error : ε) : Except ε Unit :=
  if condition then .ok () else .error error

/-- The value, or an error where there is none. -/
def required (error : ε) : Option α → Except ε α
  | some a => .ok a
  | none => .error error

@[simp]
theorem ensure_eq_ok {condition : Prop} [Decidable condition] {error : ε} {u : Unit} :
    ensure condition error = .ok u ↔ condition := by
  unfold ensure
  split <;> simp_all

@[simp]
theorem required_eq_ok {error : ε} {a : α} {o : Option α} :
    required error o = .ok a ↔ o = some a := by
  cases o <;> simp [required]

@[simp]
theorem bind_eq_ok {x : Except ε α} {f : α → Except ε β} {b : β} :
    x >>= f = .ok b ↔ ∃ a, x = .ok a ∧ f a = .ok b := by
  cases x with
  | error e => simp [bind, Except.bind]
  | ok a => simp [bind, Except.bind]

@[simp]
theorem pure_eq_ok {a b : α} : (pure a : Except ε α) = .ok b ↔ a = b := by
  simp [pure, Except.pure]

/-- A loop of checks succeeds just where each of them does. -/
theorem mapM_eq_ok {f : α → Except ε β} {xs : List α} {ys : List β} :
    xs.mapM f = .ok ys ↔ List.Forall₂ (fun x y => f x = .ok y) xs ys := by
  induction xs generalizing ys with
  | nil =>
    rw [List.mapM_nil, pure_eq_ok, List.forall₂_nil_left_iff]
    exact eq_comm
  | cons x xs ih =>
    simp only [List.mapM_cons, bind_eq_ok, pure_eq_ok, List.forall₂_cons_left_iff]
    constructor
    · rintro ⟨y, hy, rest, hrest, rfl⟩
      exact ⟨y, rest, hy, ih.1 hrest, rfl⟩
    · rintro ⟨y, rest, hy, hrest, rfl⟩
      exact ⟨y, hy, rest, ih.2 hrest, rfl⟩

/-- A result of a loop is the result of one of its turns. -/
theorem exists_of_mem_right {r : α → β → Prop} {xs : List α} {ys : List β}
    (h : List.Forall₂ r xs ys) {y : β} (hy : y ∈ ys) : ∃ x ∈ xs, r x y := by
  induction h with
  | nil => cases hy
  | cons hxy _ ih =>
    rcases List.mem_cons.1 hy with rfl | hy
    · exact ⟨_, List.mem_cons_self, hxy⟩
    · obtain ⟨x, hx, hr⟩ := ih hy
      exact ⟨x, List.mem_cons_of_mem _ hx, hr⟩

theorem exists_of_mem_left {r : α → β → Prop} {xs : List α} {ys : List β}
    (h : List.Forall₂ r xs ys) {x : α} (hx : x ∈ xs) : ∃ y ∈ ys, r x y :=
  exists_of_mem_right h.flip hx

/-- A loop whose turns each succeed under a condition, with the result of a function. -/
theorem mapM_eq_ok_map {f : α → Except ε β} {g : α → β} {p : α → Prop} {xs : List α}
    (h : ∀ x ∈ xs, ∀ y, f x = .ok y ↔ p x ∧ y = g x) (ys : List β) :
    xs.mapM f = .ok ys ↔ (∀ x ∈ xs, p x) ∧ ys = xs.map g := by
  induction xs generalizing ys with
  | nil => simp [pure_eq_ok]
  | cons x xs ih =>
    have hrest := ih fun x' hx' => h x' (List.mem_cons_of_mem _ hx')
    simp only [List.mapM_cons, bind_eq_ok, pure_eq_ok, h x List.mem_cons_self, hrest,
      List.forall_mem_cons, List.map_cons]
    constructor
    · rintro ⟨_, ⟨hx, rfl⟩, _, ⟨hxs, rfl⟩, rfl⟩
      exact ⟨⟨hx, hxs⟩, rfl⟩
    · rintro ⟨⟨hx, hxs⟩, rfl⟩
      exact ⟨_, ⟨hx, rfl⟩, _, ⟨hxs, rfl⟩, rfl⟩

/-! ## Results and errors -/

/-- The one holds of the result, or the other of the error. -/
inductive Gives (post : α → Prop) (failure : ε → Prop) : Except ε α → Prop
  | ok {a : α} (h : post a) : Gives post failure (.ok a)
  | error {error : ε} (h : failure error) : Gives post failure (.error error)

section gives

variable {post : α → Prop} {failure : ε → Prop}

theorem Gives.bind {x : Except ε β} {f : β → Except ε α} {mid : β → Prop}
    (hx : Gives mid failure x) (hf : ∀ b, mid b → Gives post failure (f b)) :
    Gives post failure (x >>= f) := by
  cases hx with
  | ok h => exact hf _ h
  | error h => exact .error h

theorem Gives.bind_ok {x : Except ε β} {f : β → Except ε α} {b : β} (h : x = .ok b)
    (hf : Gives post failure (f b)) : Gives post failure (x >>= f) := by
  rw [h]
  exact hf

theorem gives_ensure {condition : Prop} [Decidable condition] {error : ε}
    (h : ¬ condition → failure error) :
    Gives (fun _ => condition) failure (ensure condition error) := by
  unfold ensure
  split
  · exact .ok ‹_›
  · exact .error (h ‹_›)

/-- What a check gives, whatever its errors are. -/
theorem gives_self (x : Except ε α) :
    Gives (fun a => x = .ok a) (fun error => x = .error error) x := by
  cases x with
  | ok a => exact .ok rfl
  | error error => exact .error rfl

theorem Gives.imp {post' : α → Prop} {failure' : ε → Prop} {x : Except ε α}
    (h : Gives post failure x) (hpost : ∀ a, post a → post' a)
    (hfailure : ∀ error, failure error → failure' error) : Gives post' failure' x := by
  cases h with
  | ok h => exact .ok (hpost _ h)
  | error h => exact .error (hfailure _ h)

theorem gives_mapError {ε' : Type} {x : Except ε' α} {f : ε' → ε}
    (h : ∀ error, x = .error error → failure (f error)) :
    Gives (fun a => x = .ok a) failure (x.mapError f) := by
  cases x with
  | ok a => exact .ok rfl
  | error error => exact .error (h error rfl)

theorem gives_forM {xs : List β} {f : β → Except ε PUnit}
    (h : ∀ x ∈ xs, Gives (fun _ => True) failure (f x)) :
    Gives (fun _ => True) failure (xs.forM f) := by
  induction xs with
  | nil => exact .ok trivial
  | cons x xs ih =>
    obtain ⟨hx, hxs⟩ := List.forall_mem_cons.1 h
    exact Gives.bind hx fun _ _ => ih hxs

end gives

end Checks

import Mathlib.Logic.Basic

/-!
# Programs with state and error exits

`Prog ε σ α` is a computation over a state `σ` that returns an `α` or leaves with an error `ε`;
the state it has reached is kept in both cases, as in a method that takes `&mut self` and
returns a `Result`.

* `wp m Q E` — weakest precondition: every return satisfies `Q`, every error exit `E`.
* `wp_bind`, `wp_pure`, `wp_throw`, `wp_get`, `wp_modify`, `wp_call`, `wp_when` — one rule for each
  construct.
* `wp_mono`, `wp_and` — consequence and conjunction.
* `Ensures` — partial correctness whatever the state, with `ensures_bind`, `ensures_seq`,
  `ensures_ofExcept`.
* `Keeps` — an invariant on every exit; `Ends` — a program that keeps an invariant up to its last
  part, with `keeps_bind`, `ends_bind`.
* `Follows` — a program over a richer state that computes what another computes over the
  projected state, unless it gets stuck; with `follows_bind`, `follows_call`.
* `Reached` — states reached by rounds that all return with a condition.

Principal results: `wp_bind` (sequencing), `Reached.invariant` (an invariant of one round is an
invariant of every run).
-/

set_option autoImplicit false

namespace Program

/-- A computation with state `σ` and error exit `ε`. -/
def Prog (ε σ α : Type) : Type := σ → Except ε α × σ

variable {ε σ α β : Type}

namespace Prog

/-- Return a value. -/
def ret (a : α) : Prog ε σ α := fun s => (.ok a, s)

/-- Run `m`, then `f` on what it returned; an error of `m` skips `f`. -/
def andThen (m : Prog ε σ α) (f : α → Prog ε σ β) : Prog ε σ β := fun s =>
  match m s with
  | (.ok a, s') => f a s'
  | (.error e, s') => (.error e, s')

instance : Monad (Prog ε σ) where
  pure := ret
  bind := andThen

theorem andThen_ret (m : Prog ε σ α) : andThen m ret = m := by
  funext s
  unfold andThen
  rcases m s with ⟨_ | a, s'⟩ <;> rfl

theorem andThen_assoc {γ : Type} (m : Prog ε σ α) (f : α → Prog ε σ β) (g : β → Prog ε σ γ) :
    andThen (andThen m f) g = andThen m fun a => andThen (f a) g := by
  funext s
  unfold andThen
  rcases m s with ⟨_ | a, s'⟩ <;> rfl

instance : LawfulMonad (Prog ε σ) :=
  LawfulMonad.mk' _ andThen_ret (fun _ _ => rfl) andThen_assoc

/-- Leave with an error. -/
def throw (e : ε) : Prog ε σ α := fun s => (.error e, s)

/-- The current state. -/
def get : Prog ε σ σ := fun s => (.ok s, s)

/-- Change the state. -/
def modify (f : σ → σ) : Prog ε σ Unit := fun s => (.ok (), f s)

/-- A total operation on the state, with its result. -/
def call (f : σ → α × σ) : Prog ε σ α := fun s => (.ok (f s).1, (f s).2)

/-- The value, or the error exit. -/
def ofExcept (r : Except ε α) : Prog ε σ α := fun s => (r, s)

/-- Run `m` if `b`. -/
def when (b : Bool) (m : Prog ε σ Unit) : Prog ε σ Unit := if b then m else pure ()

end Prog

open Prog

/-- Weakest precondition: returns satisfy `Q`, error exits satisfy `E`. -/
def wp (m : Prog ε σ α) (Q : α → σ → Prop) (E : ε → σ → Prop) (s : σ) : Prop :=
  match m s with
  | (.ok a, s') => Q a s'
  | (.error e, s') => E e s'

variable {m : Prog ε σ α} {Q Q' : α → σ → Prop} {E E' : ε → σ → Prop} {s : σ}

@[simp] theorem wp_pure (a : α) : wp (pure a : Prog ε σ α) Q E s = Q a s := rfl

@[simp] theorem wp_bind (f : α → Prog ε σ β) (R : β → σ → Prop) :
    wp (m >>= f) R E s = wp m (fun a s' => wp (f a) R E s') E s := by
  show wp (andThen m f) R E s = _
  unfold wp andThen
  rcases m s with ⟨_ | a, s'⟩ <;> rfl

@[simp] theorem wp_throw (e : ε) : wp (throw e : Prog ε σ α) Q E s = E e s := rfl

@[simp] theorem wp_get (R : σ → σ → Prop) : wp (get : Prog ε σ σ) R E s = R s s := rfl

@[simp] theorem wp_modify (f : σ → σ) (R : Unit → σ → Prop) :
    wp (modify f : Prog ε σ Unit) R E s = R () (f s) := rfl

@[simp] theorem wp_call (f : σ → α × σ) :
    wp (call f : Prog ε σ α) Q E s = Q (f s).1 (f s).2 := rfl

@[simp] theorem wp_ofExcept_ok (a : α) :
    wp (ofExcept (.ok a) : Prog ε σ α) Q E s = Q a s := rfl

@[simp] theorem wp_ofExcept_error (e : ε) :
    wp (ofExcept (.error e) : Prog ε σ α) Q E s = E e s := rfl

theorem wp_when {b : Bool} {m : Prog ε σ Unit} {R : Unit → σ → Prop}
    (ht : b = true → wp m R E s) (hf : b = false → R () s) : wp (when b m) R E s := by
  cases b with
  | true => exact ht rfl
  | false => exact hf rfl

theorem wp_mono (h : wp m Q E s) (hQ : ∀ a s', Q a s' → Q' a s')
    (hE : ∀ e s', E e s' → E' e s') : wp m Q' E' s := by
  unfold wp at *
  rcases hm : m s with ⟨_ | a, s'⟩ <;> rw [hm] at h
  · exact hE _ _ h
  · exact hQ _ _ h

theorem wp_and (h : wp m Q E s) (h' : wp m Q' E' s) :
    wp m (fun a s' => Q a s' ∧ Q' a s') (fun e s' => E e s' ∧ E' e s') s := by
  unfold wp at *
  rcases hm : m s with ⟨_ | a, s'⟩ <;> rw [hm] at h h'
  · exact ⟨h, h'⟩
  · exact ⟨h, h'⟩

theorem wp_ok (h : wp m Q E s) {a : α} {s' : σ} (hm : m s = (.ok a, s')) : Q a s' := by
  unfold wp at h
  rw [hm] at h
  exact h

theorem wp_error (h : wp m Q E s) {e : ε} {s' : σ} (hm : m s = (.error e, s')) : E e s' := by
  unfold wp at h
  rw [hm] at h
  exact h

/-- What holds of the state on every exit. -/
theorem wp_state {I : σ → Prop} (h : wp m (fun _ s' => I s') (fun _ s' => I s') s) :
    I (m s).2 := by
  unfold wp at h
  rcases hm : m s with ⟨_ | a, s'⟩ <;> rw [hm] at h
  · exact h
  · exact h

/-! ## Partial correctness

A computation whose state does not matter to its caller: every return satisfies `Q`. -/

/-- Whatever the state, a return of `m` satisfies `Q`. -/
def Ensures (m : Prog ε σ α) (Q : α → Prop) : Prop :=
  ∀ s, wp m (fun a _ => Q a) (fun _ _ => True) s

section Ensures

variable {P R : α → Prop}

theorem ensures_pure {a : α} (h : P a) : Ensures (pure a : Prog ε σ α) P := fun _ => h

theorem ensures_throw (e : ε) : Ensures (throw e : Prog ε σ α) P := fun _ => trivial

theorem ensures_bind {m : Prog ε σ α} {f : α → Prog ε σ β} {T : β → Prop} (hm : Ensures m P)
    (hf : ∀ a, P a → Ensures (f a) T) : Ensures (m >>= f) T := by
  intro s
  rw [wp_bind]
  exact wp_mono (hm s) (fun a s' ha => hf a ha s') (fun _ _ _ => trivial)

theorem ensures_ofExcept {r : Except ε α} (h : ∀ a, r = .ok a → P a) :
    Ensures (ofExcept r : Prog ε σ α) P := by
  intro s
  cases r with
  | error e => trivial
  | ok a => exact h a rfl

theorem ensures_trivial {m : Prog ε σ α} : Ensures m fun _ => True := by
  intro s
  unfold wp
  rcases m s with ⟨_ | a, s'⟩ <;> trivial

/-- A step whose value is not used. -/
theorem ensures_seq {m : Prog ε σ α} {f : α → Prog ε σ β} {T : β → Prop}
    (hf : ∀ a, Ensures (f a) T) : Ensures (m >>= f) T :=
  ensures_bind ensures_trivial fun a _ => hf a

theorem ensures_mono {m : Prog ε σ α} (h : Ensures m P) (hPR : ∀ a, P a → R a) : Ensures m R :=
  fun s => wp_mono (h s) (fun a _ ha => hPR a ha) (fun _ _ _ => trivial)

theorem ensures_and {m : Prog ε σ α} (h : Ensures m P) (h' : Ensures m R) :
    Ensures m fun a => P a ∧ R a :=
  fun s => wp_mono (wp_and (h s) (h' s)) (fun _ _ ha => ha) (fun _ _ _ => trivial)

end Ensures

/-! ## Invariants -/

/-- From `I`, every exit of `m` satisfies `I`. -/
def Keeps (I : σ → Prop) (m : Prog ε σ α) : Prop :=
  ∀ s, I s → wp m (fun _ s' => I s') (fun _ s' => I s') s

/-- From `I`, the result of `m` and the state it leaves satisfy `R`. -/
def Ends (I : σ → Prop) (R : Except ε α → σ → Prop) (m : Prog ε σ α) : Prop :=
  ∀ s, I s → wp m (fun a s' => R (.ok a) s') (fun e s' => R (.error e) s') s

section Invariants

variable {I : σ → Prop}

theorem keeps_pure (a : α) : Keeps I (pure a : Prog ε σ α) := fun _ h => h

theorem keeps_throw (e : ε) : Keeps I (throw e : Prog ε σ α) := fun _ h => h

theorem keeps_get : Keeps I (get : Prog ε σ σ) := fun _ h => h

theorem keeps_ofExcept (r : Except ε α) : Keeps I (ofExcept r : Prog ε σ α) := by
  intro s h
  cases r with
  | error e => exact h
  | ok a => exact h

theorem keeps_modify {f : σ → σ} (h : ∀ s, I s → I (f s)) : Keeps I (modify f : Prog ε σ Unit) := h

theorem keeps_call {f : σ → α × σ} (h : ∀ s, I s → I (f s).2) :
    Keeps I (call f : Prog ε σ α) := h

theorem keeps_bind {m : Prog ε σ α} {f : α → Prog ε σ β} (hm : Keeps I m)
    (hf : ∀ a, Keeps I (f a)) : Keeps I (m >>= f) := by
  intro s hs
  rw [wp_bind]
  exact wp_mono (hm s hs) (fun a s' h => hf a s' h) (fun _ _ h => h)

theorem keeps_when {b : Bool} {m : Prog ε σ Unit} (hm : Keeps I m) : Keeps I (when b m) :=
  fun s hs => wp_when (fun _ => hm s hs) (fun _ => hs)

theorem ends_bind {R : Except ε β → σ → Prop} {m : Prog ε σ α} {f : α → Prog ε σ β}
    (hm : Keeps I m) (he : ∀ e s, I s → R (.error e) s) (hf : ∀ a, Ends I R (f a)) :
    Ends I R (m >>= f) := by
  intro s hs
  rw [wp_bind]
  exact wp_mono (hm s hs) (fun a s' h => hf a s' h) (fun e s' h => he e s' h)

theorem ends_pure {R : Except ε α → σ → Prop} {a : α} (h : ∀ s, I s → R (.ok a) s) :
    Ends I R (pure a) := h

theorem ends_throw {R : Except ε α → σ → Prop} {e : ε} (h : ∀ s, I s → R (.error e) s) :
    Ends I R (throw e) := h

end Invariants

/-! ## Simulation -/

section Simulation

variable {σ' α' β' : Type}

/-- `m'`, over a state that `erase` projects, gives what `m` gives and leaves what `m` leaves,
as long as it is not `stuck`; and once stuck it stays so. -/
def Follows (erase : σ' → σ) (stuck : σ' → Prop) (f : α' → α) (m' : Prog ε σ' α')
    (m : Prog ε σ α) : Prop :=
  ∀ s, (stuck s → stuck (m' s).2) ∧
    (¬ stuck (m' s).2 → m (erase s) = ((m' s).1.map f, erase (m' s).2))

variable {erase : σ' → σ} {stuck : σ' → Prop} {f : α' → α}

theorem follows_pure (a : α') :
    Follows erase stuck f (pure a : Prog ε σ' α') (pure (f a) : Prog ε σ α) :=
  fun _ => ⟨id, fun _ => rfl⟩

theorem follows_throw (e : ε) :
    Follows erase stuck f (throw e : Prog ε σ' α') (throw e : Prog ε σ α) :=
  fun _ => ⟨id, fun _ => rfl⟩

theorem follows_get : Follows erase stuck erase (get : Prog ε σ' σ') (get : Prog ε σ σ) :=
  fun _ => ⟨id, fun _ => rfl⟩

theorem follows_ofExcept (r : Except ε α) :
    Follows erase stuck id (ofExcept r : Prog ε σ' α) (ofExcept r : Prog ε σ α) := by
  intro s
  refine ⟨id, fun _ => ?_⟩
  cases r <;> rfl

theorem follows_call {g' : σ' → α' × σ'} {g : σ → α × σ}
    (hstuck : ∀ s, stuck s → stuck (g' s).2)
    (h : ∀ s, ¬ stuck (g' s).2 → g (erase s) = (f (g' s).1, erase (g' s).2)) :
    Follows erase stuck f (call g' : Prog ε σ' α') (call g : Prog ε σ α) := by
  intro s
  refine ⟨hstuck s, fun hs => ?_⟩
  show (Except.ok (g (erase s)).1, (g (erase s)).2) = _
  rw [h s hs]
  rfl

theorem follows_modify {g' : σ' → σ'} {g : σ → σ} (hstuck : ∀ s, stuck s → stuck (g' s))
    (h : ∀ s, g (erase s) = erase (g' s)) :
    Follows erase stuck id (modify g' : Prog ε σ' Unit) (modify g : Prog ε σ Unit) := by
  intro s
  refine ⟨hstuck s, fun _ => ?_⟩
  show (Except.ok (), g (erase s)) = _
  rw [h s]
  rfl

theorem follows_bind {f₂ : β' → β} {m' : Prog ε σ' α'} {m : Prog ε σ α} {k' : α' → Prog ε σ' β'}
    {k : α → Prog ε σ β} (hm : Follows erase stuck f m' m)
    (hk : ∀ a, Follows erase stuck f₂ (k' a) (k (f a))) :
    Follows erase stuck f₂ (m' >>= k') (m >>= k) := by
  intro s
  obtain ⟨hstuck, hres⟩ := hm s
  show (stuck s → stuck (andThen m' k' s).2) ∧
    (¬ stuck (andThen m' k' s).2 →
      andThen m k (erase s) = ((andThen m' k' s).1.map f₂, erase (andThen m' k' s).2))
  unfold andThen
  rcases hm' : m' s with ⟨e | a, s'⟩ <;> rw [hm'] at hstuck hres
  · refine ⟨hstuck, fun hs => ?_⟩
    rw [hres hs]
    rfl
  · obtain ⟨hstuck₂, hres₂⟩ := hk a s'
    refine ⟨fun hs => hstuck₂ (hstuck hs), fun hs => ?_⟩
    have hs' : ¬ stuck s' := fun h => hs (hstuck₂ h)
    rw [hres hs']
    exact hres₂ hs

theorem follows_ite {c c' : Prop} [Decidable c] [Decidable c'] {m' k' : Prog ε σ' α'}
    {m k : Prog ε σ α} (hc : c ↔ c') (ht : Follows erase stuck f m' m)
    (hf : Follows erase stuck f k' k) :
    Follows erase stuck f (if c then m' else k') (if c' then m else k) := by
  by_cases h : c
  · rw [if_pos h, if_pos (hc.1 h)]
    exact ht
  · rw [if_neg h, if_neg fun h' => h (hc.2 h')]
    exact hf

theorem follows_when {b : Bool} {m' : Prog ε σ' Unit} {m : Prog ε σ Unit}
    (hm : Follows erase stuck id m' m) : Follows erase stuck id (when b m') (when b m) := by
  cases b with
  | true => exact hm
  | false => exact follows_pure ()

end Simulation

/-! ## Runs -/

/-- The states in which `round` may be called: `s₀`, and whatever a round leaves that was
called in such a state and returned with `again`. -/
inductive Reached {ι : Type} (round : ι → Prog ε σ α) (again : α → Prop) (s₀ : σ) : σ → Prop
  | start : Reached round again s₀ s₀
  | step {s s' : σ} {i : ι} {a : α} : Reached round again s₀ s → round i s = (.ok a, s') →
      again a → Reached round again s₀ s'

/-- An invariant that every returning round keeps holds in every state reached. -/
theorem Reached.invariant {ι : Type} {round : ι → Prog ε σ α} {again : α → Prop} {s₀ s : σ}
    {I : σ → Prop} (h : Reached round again s₀ s) (h0 : I s₀)
    (hstep : ∀ i s, I s → wp (round i) (fun a s' => again a → I s') (fun _ _ => True) s) :
    I s := by
  induction h with
  | start => exact h0
  | step _ hr ha ih => exact wp_ok (hstep _ _ ih) hr ha

end Program

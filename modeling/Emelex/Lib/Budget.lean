import Mathlib.Algebra.Order.BigOperators.Group.List
import Mathlib.Algebra.Order.Ring.Nat
import Mathlib.Data.List.Basic

/-!
# Computations with a budget

A computation takes units from a counter, and answers `false` where none is left.

* `Spends` — how much of the counter a computation takes, at most.
* `Decides` — the answer is the right one wherever something of the counter is left.
* `Sound` — an acceptance is right, whatever is left.

Each has a rule for every way of putting computations together, so that they are proved of a
recursive checker along its own clauses.
-/

set_option autoImplicit false

namespace Budget

variable {α β : Type}

/-- One unit, if there is one. -/
def unit : StateM Nat Bool := fun budget =>
  match budget with
  | 0 => (false, 0)
  | budget + 1 => (true, budget)

/-- The second where the first answers `true`. -/
def both (m k : StateM Nat Bool) : StateM Nat Bool := do
  if ← m then k else pure false

/-- How many elements pass. -/
def count (test : α → StateM Nat Bool) : List α → StateM Nat Nat
  | [] => pure 0
  | a :: as => do
    let passed ← test a
    let rest ← count test as
    pure (if passed then rest + 1 else rest)

theorem allM_cons (test : α → StateM Nat Bool) (a : α) (as : List α) :
    (a :: as).allM test = both (test a) (as.allM test) := by
  show (test a >>= _) = (test a >>= _)
  congr 1
  funext passed
  cases passed <;> rfl

theorem anyM_cons (test : α → StateM Nat Bool) (a : α) (as : List α) :
    (a :: as).anyM test = test a >>= fun passed => if passed then pure true else as.anyM test := by
  show (test a >>= _) = (test a >>= _)
  congr 1
  funext passed
  cases passed <;> rfl

/-! ## What is taken -/

/-- At most `cost` units are taken, and none is put back. -/
def Spends (m : StateM Nat α) (cost : Nat) : Prop :=
  ∀ budget, (m budget).2 ≤ budget ∧ budget ≤ (m budget).2 + cost

theorem Spends.mono {m : StateM Nat α} {cost cost' : Nat} (h : Spends m cost)
    (hle : cost ≤ cost') : Spends m cost' := by
  intro budget
  have := h budget
  omega

theorem spends_pure (a : α) (cost : Nat) : Spends (pure a : StateM Nat α) cost := by
  intro budget
  exact ⟨Nat.le_refl _, Nat.le_add_right _ _⟩

theorem spends_unit : Spends unit 1 := by
  intro budget
  cases budget <;> simp [unit]

theorem Spends.bind {m : StateM Nat α} {k : α → StateM Nat β} {cost cost' : Nat}
    (hm : Spends m cost) (hk : ∀ a, Spends (k a) cost') : Spends (m >>= k) (cost + cost') := by
  intro budget
  have h := hm budget
  have h' := hk (m budget).1 (m budget).2
  show (k (m budget).1 (m budget).2).2 ≤ budget ∧
    budget ≤ (k (m budget).1 (m budget).2).2 + (cost + cost')
  omega

theorem Spends.map {m : StateM Nat α} {cost : Nat} (hm : Spends m cost) (f : α → β) :
    Spends (m >>= fun a => pure (f a)) cost :=
  hm.bind fun a => spends_pure (f a) 0

/-! ## The right answer, where something is left -/

/-- At most `cost` units are taken, and the answer is right where something is left. -/
structure Answers (m : StateM Nat α) (cost : Nat) (right : α → Prop) : Prop where
  spends : Spends m cost
  holds : ∀ budget, 0 < (m budget).2 → right (m budget).1

/-- The answer tells whether `P`. -/
abbrev Decides (m : StateM Nat Bool) (cost : Nat) (P : Prop) : Prop :=
  Answers m cost fun answer => answer = true ↔ P

theorem Answers.mono {m : StateM Nat α} {cost cost' : Nat} {right right' : α → Prop}
    (h : Answers m cost right) (hle : cost ≤ cost') (himp : ∀ a, right a → right' a) :
    Answers m cost' right' := by
  refine ⟨h.spends.mono hle, ?_⟩
  intro budget hleft
  exact himp _ (h.holds budget hleft)

theorem Decides.congr {m : StateM Nat Bool} {cost cost' : Nat} {P P' : Prop}
    (h : Decides m cost P) (hle : cost ≤ cost') (hiff : P ↔ P') : Decides m cost' P' :=
  h.mono hle fun _ hanswer => hanswer.trans hiff

theorem answers_pure {a : α} (cost : Nat) {right : α → Prop} (h : right a) :
    Answers (pure a) cost right :=
  ⟨spends_pure a cost, fun _ _ => h⟩

theorem decides_unit : Decides unit 1 True := by
  refine ⟨spends_unit, ?_⟩
  intro budget hleft
  cases budget with
  | zero => cases hleft
  | succ budget => simp [unit]

/-- What follows takes nothing back, so that something was left before it. -/
theorem Answers.bind {m : StateM Nat α} {k : α → StateM Nat β} {cost cost' : Nat}
    {right : α → Prop} {right' : β → Prop} (hm : Answers m cost right)
    (hspends : ∀ a, Spends (k a) cost') (hk : ∀ a, right a → Answers (k a) cost' right') :
    Answers (m >>= k) (cost + cost') right' := by
  refine ⟨hm.spends.bind hspends, ?_⟩
  intro budget hleft
  have hle := (hspends (m budget).1 (m budget).2).1
  have hanswer := hm.holds budget (Nat.lt_of_lt_of_le hleft hle)
  exact (hk _ hanswer).holds (m budget).2 hleft

theorem Answers.map {m : StateM Nat α} {cost : Nat} {right : α → Prop} {right' : β → Prop}
    (hm : Answers m cost right) (f : α → β) (h : ∀ a, right a → right' (f a)) :
    Answers (m >>= fun a => pure (f a)) cost right' :=
  hm.bind (fun a => spends_pure (f a) 0) fun a ha => answers_pure 0 (h a ha)

theorem Decides.both {m k : StateM Nat Bool} {cost cost' : Nat} {P Q : Prop}
    (hm : Decides m cost P) (hk : Decides k cost' Q) :
    Decides (both m k) (cost + cost') (P ∧ Q) := by
  apply Answers.bind hm
  · intro passed
    cases passed with
    | false => exact spends_pure false cost'
    | true => exact hk.spends
  · intro passed hpassed
    cases passed with
    | false =>
      apply answers_pure
      simp only [Bool.false_eq_true, false_iff] at hpassed ⊢
      exact fun h => hpassed h.1
    | true =>
      have hP := hpassed.1 rfl
      exact hk.congr (Nat.le_refl _) ⟨fun hQ => ⟨hP, hQ⟩, And.right⟩

theorem decides_allM {test : α → StateM Nat Bool} {cost : α → Nat} {P : α → Prop} {as : List α}
    (h : ∀ a ∈ as, Decides (test a) (cost a) (P a)) :
    Decides (as.allM test) (as.map cost).sum (∀ a ∈ as, P a) := by
  induction as with
  | nil =>
    apply answers_pure
    simp
  | cons a as ih =>
    rw [List.map_cons, List.sum_cons, allM_cons]
    have hrest := ih fun b hb => h b (List.mem_cons_of_mem a hb)
    exact ((h a List.mem_cons_self).both hrest).congr (Nat.le_refl _) List.forall_mem_cons.symm

theorem decides_anyM {test : α → StateM Nat Bool} {cost : α → Nat} {P : α → Prop} {as : List α}
    (h : ∀ a ∈ as, Decides (test a) (cost a) (P a)) :
    Decides (as.anyM test) (as.map cost).sum (∃ a ∈ as, P a) := by
  induction as with
  | nil =>
    apply answers_pure
    simp
  | cons a as ih =>
    rw [List.map_cons, List.sum_cons, anyM_cons]
    have hrest := ih fun b hb => h b (List.mem_cons_of_mem a hb)
    apply Answers.bind (h a List.mem_cons_self)
    · intro passed
      cases passed with
      | true => exact spends_pure true _
      | false => exact hrest.spends
    · intro passed hpassed
      cases passed with
      | true =>
        apply answers_pure
        simp only [true_iff] at hpassed ⊢
        exact ⟨a, List.mem_cons_self, hpassed⟩
      | false =>
        have hnot : ¬ P a := fun hP => Bool.false_ne_true (hpassed.2 hP)
        apply hrest.congr (Nat.le_refl _)
        simp [hnot]

theorem answers_count {test : α → StateM Nat Bool} {cost : α → Nat} {p : α → Bool} {as : List α}
    (h : ∀ a ∈ as, Decides (test a) (cost a) (p a = true)) :
    Answers (count test as) (as.map cost).sum fun answer => answer = as.countP p := by
  induction as with
  | nil => exact answers_pure _ rfl
  | cons a as ih =>
    rw [List.map_cons, List.sum_cons]
    have hrest := ih fun b hb => h b (List.mem_cons_of_mem a hb)
    apply Answers.bind (h a List.mem_cons_self)
    · intro passed
      exact hrest.spends.map _
    · intro passed hpassed
      apply hrest.map
      intro rest hcount
      rw [hcount, List.countP_cons, Bool.eq_iff_iff.2 hpassed]
      split <;> rfl

/-! ## A right acceptance, whatever is left -/

/-- The answer meets the condition, also where nothing is left. -/
def Always (m : StateM Nat α) (right : α → Prop) : Prop := ∀ budget, right (m budget).1

/-- An acceptance means `P`. -/
abbrev Sound (m : StateM Nat Bool) (P : Prop) : Prop := Always m fun answer => answer = true → P

theorem always_pure {a : α} {right : α → Prop} (h : right a) : Always (pure a) right := fun _ => h

theorem Always.bind {m : StateM Nat α} {k : α → StateM Nat β} {right : α → Prop}
    {right' : β → Prop} (hm : Always m right) (hk : ∀ a, right a → Always (k a) right') :
    Always (m >>= k) right' :=
  fun budget => hk _ (hm budget) (m budget).2

theorem Sound.imp {m : StateM Nat Bool} {P P' : Prop} (h : Sound m P) (himp : P → P') :
    Sound m P' :=
  fun budget haccepts => himp (h budget haccepts)

theorem Sound.both {m k : StateM Nat Bool} {P Q : Prop} (hm : Sound m P) (hk : Sound k Q) :
    Sound (both m k) (P ∧ Q) := by
  refine Always.bind hm ?_
  intro passed hpassed
  cases passed with
  | false => exact always_pure fun h => absurd h Bool.false_ne_true
  | true => exact hk.imp fun hQ => ⟨hpassed rfl, hQ⟩

theorem sound_allM {test : α → StateM Nat Bool} {P : α → Prop} {as : List α}
    (h : ∀ a ∈ as, Sound (test a) (P a)) : Sound (as.allM test) (∀ a ∈ as, P a) := by
  induction as with
  | nil =>
    apply always_pure
    simp
  | cons a as ih =>
    rw [allM_cons]
    have hrest := ih fun b hb => h b (List.mem_cons_of_mem a hb)
    exact ((h a List.mem_cons_self).both hrest).imp List.forall_mem_cons.2

theorem sound_anyM {test : α → StateM Nat Bool} {P : α → Prop} {as : List α}
    (h : ∀ a ∈ as, Sound (test a) (P a)) : Sound (as.anyM test) (∃ a ∈ as, P a) := by
  induction as with
  | nil => exact always_pure fun h => absurd h Bool.false_ne_true
  | cons a as ih =>
    rw [anyM_cons]
    refine Always.bind (h a List.mem_cons_self) ?_
    intro passed hpassed
    cases passed with
    | true => exact always_pure fun _ => ⟨a, List.mem_cons_self, hpassed rfl⟩
    | false =>
      refine Sound.imp (ih fun b hb => h b (List.mem_cons_of_mem a hb)) ?_
      rintro ⟨b, hb, hP⟩
      exact ⟨b, List.mem_cons_of_mem a hb, hP⟩

theorem always_count {test : α → StateM Nat Bool} {p : α → Bool} {as : List α}
    (h : ∀ a ∈ as, Sound (test a) (p a = true)) :
    Always (count test as) fun answer => answer ≤ as.countP p := by
  induction as with
  | nil => exact always_pure (Nat.le_refl 0)
  | cons a as ih =>
    refine Always.bind (h a List.mem_cons_self) ?_
    intro passed hpassed
    refine Always.bind (ih fun b hb => h b (List.mem_cons_of_mem a hb)) ?_
    intro rest hrest
    apply always_pure
    rw [List.countP_cons]
    cases passed with
    | false =>
      simp only [Bool.false_eq_true, if_false]
      omega
    | true =>
      simp only [hpassed rfl, if_true]
      omega

end Budget

import Mathlib.Logic.Function.Basic

/-!
# Threads that share one exclusive lock

Each thread is at a point of a call, or in none; one of them may hold the lock.

* `goTo`, `acquire`, `release`, `stop` — how a thread moves.
* `Exclusive locked` — only the holder of the lock is at a point that requires it.

Principal results: `Exclusive.unique`, `Exclusive.goTo`, `Exclusive.acquire`, `Exclusive.leave`.
-/

set_option autoImplicit false

/-- The holder of the lock and the points of the threads. -/
structure Threads (ι κ : Type) where
  holder : Option ι
  point : ι → Option κ

namespace Threads

variable {ι κ : Type}

def idle : Threads ι κ := ⟨none, fun _ => none⟩

section operations

variable [DecidableEq ι]

def goTo (t : Threads ι κ) (i : ι) (k : κ) : Threads ι κ :=
  { t with point := Function.update t.point i (some k) }

/-- Wait until the lock is free, and take it. -/
def acquire (t : Threads ι κ) (i : ι) (k : κ) : Option (Threads ι κ) :=
  if t.holder = none then some { holder := some i, point := Function.update t.point i (some k) } else none

/-- Give the lock back, and go on or end. -/
def release (t : Threads ι κ) (i : ι) (k : Option κ) : Threads ι κ :=
  { holder := none, point := Function.update t.point i k }

/-- The end of a call, or of its process: the kernel takes the lock of a dead process back. -/
def stop (t : Threads ι κ) (i : ι) : Threads ι κ :=
  { holder := if t.holder = some i then none else t.holder, point := Function.update t.point i none }

@[simp]
theorem point_goTo (t : Threads ι κ) (i j : ι) (k : κ) :
    (t.goTo i k).point j = if j = i then some k else t.point j :=
  Function.update_apply t.point i (some k) j

@[simp]
theorem point_release (t : Threads ι κ) (i j : ι) (k : Option κ) :
    (t.release i k).point j = if j = i then k else t.point j :=
  Function.update_apply t.point i k j

@[simp]
theorem point_stop (t : Threads ι κ) (i j : ι) :
    (t.stop i).point j = if j = i then none else t.point j :=
  Function.update_apply t.point i none j

theorem acquire_eq_some {t t' : Threads ι κ} {i : ι} {k : κ} (h : t.acquire i k = some t') :
    t.holder = none ∧ t'.holder = some i ∧
      ∀ j, t'.point j = if j = i then some k else t.point j := by
  unfold acquire at h
  split at h
  · rename_i hfree
    cases h
    exact ⟨hfree, rfl, fun j => Function.update_apply t.point i (some k) j⟩
  · cases h

end operations

/-- Only the holder of the lock is at a point that requires it. -/
def Exclusive (locked : κ → Bool) (t : Threads ι κ) : Prop :=
  ∀ i k, t.point i = some k → locked k = true → t.holder = some i

namespace Exclusive

variable {locked : κ → Bool} {t t' : Threads ι κ} {i j : ι} {k k' : κ}

theorem idle : Exclusive locked (Threads.idle : Threads ι κ) := by
  intro i k hat
  cases hat

/-- No two threads are at points that require the lock. -/
theorem unique (h : Exclusive locked t) (hi : t.point i = some k) (hk : locked k = true)
    (hj : t.point j = some k') (hk' : locked k' = true) : i = j := by
  have hholder := h i k hi hk
  rw [h j k' hj hk'] at hholder
  exact (Option.some.inj hholder).symm

variable [DecidableEq ι]

theorem goTo (h : Exclusive locked t) (hat : t.point i = some k)
    (hk : locked k' = true → locked k = true) : Exclusive locked (t.goTo i k') := by
  intro j l hj hl
  by_cases hij : j = i
  · subst hij
    obtain rfl : k' = l := by simpa using hj
    exact h j k hat (hk hl)
  · exact h j l (by simpa [hij] using hj) hl

theorem acquire (h : Exclusive locked t) (ht : t.acquire i k = some t') :
    Exclusive locked t' := by
  obtain ⟨hfree, hholder, hpoint⟩ := acquire_eq_some ht
  intro j l hj hl
  by_cases hij : j = i
  · rw [hij, hholder]
  · rw [hpoint, if_neg hij] at hj
    have hheld := h j l hj hl
    rw [hfree] at hheld
    cases hheld

/-- A thread leaves the lock, or has not had it. -/
theorem leave (h : Exclusive locked t) (hat : ∀ j, j ≠ i → t'.point j = t.point j)
    (hholder : ∀ j, j ≠ i → t.holder = some j → t'.holder = some j)
    (hk : ∀ k, t'.point i = some k → locked k = false) : Exclusive locked t' := by
  intro j l hj hl
  by_cases hij : j = i
  · rw [hk l (hij ▸ hj)] at hl
    cases hl
  · exact hholder j hij (h j l (hat j hij ▸ hj) hl)

theorem release {next : Option κ} (h : Exclusive locked t) (hi : t.point i = some k)
    (hk : locked k = true) (hnext : ∀ l, next = some l → locked l = false) :
    Exclusive locked (t.release i next) := by
  refine h.leave (i := i) (fun j hij => Function.update_of_ne hij _ _) (fun j hij hj => ?_) ?_
  · rw [h i k hi hk] at hj
    exact absurd (Option.some.inj hj).symm hij
  · intro l hl
    exact hnext l (by simpa [Threads.release] using hl)

theorem stop (h : Exclusive locked t) : Exclusive locked (t.stop i) := by
  refine h.leave (i := i) (fun j hij => Function.update_of_ne hij _ _) (fun j hij hj => ?_) ?_
  · have hother : t.holder ≠ some i := by
      rw [hj]
      exact fun heq => hij (Option.some.inj heq)
    rw [Threads.stop, if_neg hother]
    exact hj
  · intro l hl
    simp [Threads.stop] at hl

end Exclusive

end Threads

import Mathlib.Data.List.Chain
import Mathlib.Data.List.Pairwise
import Mathlib.Data.List.Sort
import Mathlib.Order.CompletePartialOrder
import Mathlib.Order.Interval.Set.Disjoint

/-!
# Half-open ranges in the order of their starts

Ranges are disjoint where, in the order of their starts, no range ends behind the start of the next;
only for empty ranges is this not necessary.

* `byStart` — the ranges in the order of their starts, equal starts in the order they had.
* `span` — what a range takes up.
* `HidesEmpty` — an empty range lies within another, or at the start of one that comes before it.

Principal result: `isChain_byStart_iff`.
-/

set_option autoImplicit false

namespace Emelex

namespace Ranges

variable {α T : Type} [LinearOrder T] (start stop : α → T)

/-- The ranges in the order of their starts. -/
def byStart (xs : List α) : List α := xs.insertionSort fun a b => start a ≤ start b

/-- What a range takes up. -/
def span (a : α) : Set T := Set.Ico (start a) (stop a)

/-- An empty range starts within another, or where another starts that comes before it. -/
def HidesEmpty (xs : List α) : Prop :=
  ∃ a e, start e = stop e ∧ start e < stop a ∧
    (a ∈ xs ∧ e ∈ xs ∧ start a < start e ∨ [a, e].Sublist xs ∧ start a = start e)

variable {start stop} {xs : List α}

theorem byStart_pairwise : (byStart start xs).Pairwise fun a b => start a ≤ start b := by
  have : IsTrans α fun a b => start a ≤ start b := ⟨fun _ _ _ => le_trans⟩
  have : Std.Total fun a b : α => start a ≤ start b := ⟨fun a b => le_total _ _⟩
  exact List.pairwise_insertionSort _ xs

theorem byStart_perm : (byStart start xs).Perm xs := List.perm_insertionSort _ _

/-- Ranges with one start stay in the order they had. -/
theorem filter_byStart (t : T) :
    (byStart start xs).filter (fun a => start a = t) = xs.filter fun a => start a = t := by
  have : IsTrans α fun a b => start a ≤ start b := ⟨fun _ _ _ => le_trans⟩
  have : Std.Total fun a b : α => start a ≤ start b := ⟨fun a b => le_total _ _⟩
  have hequal : (xs.filter fun a => start a = t).Pairwise fun a b => start a ≤ start b := by
    refine List.pairwise_of_forall_mem_list fun a ha b hb => ?_
    rw [of_decide_eq_true (List.mem_filter.1 ha).2, of_decide_eq_true (List.mem_filter.1 hb).2]
  have hsub : (xs.filter fun a => start a = t).Sublist (byStart start xs) :=
    List.sublist_insertionSort hequal List.filter_sublist
  have hfiltered := hsub.filter fun a => start a = t
  rw [List.filter_filter] at hfiltered
  simp only [Bool.and_self] at hfiltered
  exact (hfiltered.eq_of_length (byStart_perm.filter _).length_eq.symm).symm

/-- Where no range ends behind the start of the next, none ends behind the start of a later one. -/
theorem pairwise_of_isChain (hvalid : ∀ a ∈ xs, start a ≤ stop a)
    (h : xs.IsChain fun a b => stop a ≤ start b) : xs.Pairwise fun a b => stop a ≤ start b := by
  induction xs with
  | nil => exact List.Pairwise.nil
  | cons a xs ih =>
    have hrest := ih (fun b hb => hvalid b (List.mem_cons_of_mem _ hb)) h.tail
    refine List.pairwise_cons.2 ⟨fun b hb => ?_, hrest⟩
    cases xs with
    | nil => cases hb
    | cons next xs =>
      have hnext : stop a ≤ start next := (List.isChain_cons_cons.1 h).1
      rcases List.mem_cons.1 hb with rfl | hb
      · exact hnext
      · have hvalid' := hvalid next (List.mem_cons_of_mem _ List.mem_cons_self)
        exact hnext.trans (hvalid'.trans (List.rel_of_pairwise_cons hrest hb))

theorem disjoint_span {a b : α} (h : stop a ≤ start b) :
    Disjoint (span start stop a) (span start stop b) := by
  unfold span
  rw [Set.disjoint_left]
  rintro t ⟨-, ht⟩ ⟨ht', -⟩
  exact absurd (ht.trans_le (h.trans ht')) (lt_irrefl t)

/-- A range that starts within a disjoint one is empty. -/
theorem stop_le_of_disjoint {a b : α} (h : Disjoint (span start stop a) (span start stop b))
    (hle : start a ≤ start b) (hlt : start b < stop a) : stop b ≤ start b := by
  by_contra hne
  exact Set.disjoint_left.1 h ⟨hle, hlt⟩ ⟨le_refl _, not_le.1 hne⟩

/-- The scan of neighbours decides whether ranges are disjoint, but for empty ranges that are
hidden. -/
theorem isChain_byStart_iff (hvalid : ∀ a ∈ xs, start a ≤ stop a) :
    (byStart start xs).IsChain (fun a b => stop a ≤ start b) ↔
      xs.Pairwise (fun a b => Disjoint (span start stop a) (span start stop b)) ∧
        ¬ HidesEmpty start stop xs := by
  have hvalid' : ∀ a ∈ byStart start xs, start a ≤ stop a := fun a ha =>
    hvalid a (byStart_perm.mem_iff.1 ha)
  constructor
  · intro hchain
    have hpairs := pairwise_of_isChain hvalid' hchain
    refine ⟨?_, ?_⟩
    · have hdisjoint := hpairs.imp fun h => disjoint_span h
      exact (byStart_perm.pairwise_iff fun h => h.symm).1 hdisjoint
    · rintro ⟨a, e, hempty, hwithin, ⟨ha, he, hlt⟩ | ⟨hsub, heq⟩⟩
      · have hne : a ≠ e := by
          rintro rfl
          exact lt_irrefl _ hlt
        have hsymm : Std.Symm fun a b => stop a ≤ start b ∨ stop b ≤ start a :=
          ⟨fun _ _ => Or.symm⟩
        have hboth : (byStart start xs).Pairwise fun a b => stop a ≤ start b ∨ stop b ≤ start a :=
          hpairs.imp Or.inl
        rcases hboth.forall (byStart_perm.mem_iff.2 ha) (byStart_perm.mem_iff.2 he) hne with h | h
        · exact absurd hwithin (not_lt.2 h)
        · exact absurd hlt (not_lt.2 (hempty.trans_le h))
      · have hsorted : [a, e].Sublist (byStart start xs) :=
          List.pair_sublist_insertionSort heq.le hsub
        exact absurd hwithin (not_lt.2 (List.pairwise_iff_forall_sublist.1 hpairs hsorted))
  · rintro ⟨hdisjoint, hhidden⟩
    refine List.Pairwise.isChain (List.pairwise_iff_forall_sublist.2 fun {a b} hsub => ?_)
    by_contra hoverlap
    have hwithin := not_le.1 hoverlap
    have hle : start a ≤ start b := List.pairwise_iff_forall_sublist.1 byStart_pairwise hsub
    have hdisjoint' := List.pairwise_iff_forall_sublist.1
      ((byStart_perm.pairwise_iff fun h => h.symm).2 hdisjoint) hsub
    have hempty : start b = stop b :=
      le_antisymm (hvalid' b (hsub.subset (by simp))) (stop_le_of_disjoint hdisjoint' hle hwithin)
    refine hhidden ⟨a, b, hempty, hwithin, ?_⟩
    rcases lt_or_eq_of_le hle with hlt | heq
    · exact .inl ⟨byStart_perm.mem_iff.1 (hsub.subset (by simp)),
        byStart_perm.mem_iff.1 (hsub.subset (by simp)), hlt⟩
    · refine .inr ⟨?_, heq⟩
      have hfiltered := hsub.filter fun c => start c = start b
      rw [filter_byStart, List.filter_cons_of_pos (by simpa using heq),
        List.filter_cons_of_pos (by simp), List.filter_nil] at hfiltered
      exact hfiltered.trans List.filter_sublist

end Ranges

end Emelex

import Mathlib.Data.List.Sort

/-!
# Walking a catalog page by page

* `Page` — some items, and the cursor from which the next page starts, if there is one.
* `walk` — the pages from a cursor on, until there is no next one.
* `Remains` — what is still to be listed from a place, and a measure that falls from page to page.
* `listing`, `rest` — rows in the order of their keys, and those after a key.

Principal results: `Remains.walk` (a walk ends and lists what remains, once and in order),
`rest_of_split` (after the last key of a page is the rest of the rows).
-/

set_option autoImplicit false

namespace Emelex

namespace Paging

/-- Some items, and the cursor of the next page. -/
structure Page (κ α : Type) where
  items : List α
  next : Option κ

variable {κ α ρ ε : Type}

/-- The pages from a cursor on, at most so many. -/
def walk (page : Option κ → Except ε (Page κ α)) :
    Nat → Option κ → Option (Except ε (List (Page κ α)))
  | 0, _ => none
  | rounds + 1, cursor =>
    match page cursor with
    | .error error => some (.error error)
    | .ok first =>
      match first.next with
      | none => some (.ok [first])
      | some next => (walk page rounds (some next)).map fun pages => pages.map (first :: ·)

/-- What remains from the places that are met: every page lists the beginning of it, its next cursor
is that of a place with the rest, and a measure falls. -/
structure Remains {P : Type} (page : Option κ → Except ε (Page κ α)) (cursor : P → Option κ)
    (met : P → Prop) (remaining : P → List α) (measure : P → Nat) : Prop where
  page : ∀ p, met p → ∃ first, page (cursor p) = .ok first ∧
    (first.next = none → remaining p = first.items) ∧
    ∀ next, first.next = some next → ∃ q, cursor q = some next ∧ met q ∧ measure q < measure p ∧
      remaining p = first.items ++ remaining q

/-- A walk ends, and its pages list what remains. -/
theorem Remains.walk {P : Type} {page : Option κ → Except ε (Page κ α)} {cursor : P → Option κ}
    {met : P → Prop} {remaining : P → List α} {measure : P → Nat}
    (h : Remains page cursor met remaining measure) {p : P} (hmet : met p) {rounds : Nat}
    (hrounds : measure p < rounds) : ∃ pages, walk page rounds (cursor p) = some (.ok pages) ∧
      pages.flatMap (·.items) = remaining p ∧
      ∀ first ∈ pages, ∃ q, met q ∧ page (cursor q) = .ok first := by
  induction rounds generalizing p with
  | zero => exact absurd hrounds (Nat.not_lt_zero _)
  | succ rounds ih =>
    obtain ⟨first, hpage, hlast, hmore⟩ := h.page p hmet
    have hfirst : ∃ q, met q ∧ page (cursor q) = .ok first := ⟨p, hmet, hpage⟩
    cases hnext : first.next with
    | none =>
      refine ⟨[first], ?_, ?_, ?_⟩
      · simp only [Paging.walk, hpage, hnext]
      · rw [hlast hnext, List.flatMap_singleton]
      · rintro other hother
        obtain rfl := List.mem_singleton.1 hother
        exact hfirst
    | some next =>
      obtain ⟨q, hcursor, hmet', hless, hremaining⟩ := hmore next hnext
      obtain ⟨pages, hwalk, hitems, hpages⟩ := ih hmet' (by omega)
      rw [hcursor] at hwalk
      refine ⟨first :: pages, ?_, ?_, ?_⟩
      · simp only [Paging.walk, hpage, hnext, hwalk]
        rfl
      · rw [List.flatMap_cons, hitems, hremaining]
      · rintro other hother
        rcases List.mem_cons.1 hother with rfl | hother
        · exact hfirst
        · exact hpages other hother

/-! ## Rows in the order of their keys -/

section keys

variable {K : Type} [LinearOrder K] (key : ρ → K)

/-- The rows in the order of their keys. -/
def listing (rows : List ρ) : List ρ := rows.insertionSort fun a b => key a ≤ key b

/-- The rows after a key, in order. -/
def rest (rows : List ρ) : Option K → List ρ
  | none => listing key rows
  | some k => listing key (rows.filter fun r => k < key r)

variable {key} {rows : List ρ}

theorem mem_listing {r : ρ} : r ∈ listing key rows ↔ r ∈ rows := List.mem_insertionSort _

theorem mem_of_mem_rest {r : ρ} {cursor : Option K} (h : r ∈ rest key rows cursor) : r ∈ rows := by
  cases cursor with
  | none => exact mem_listing.1 h
  | some k => exact List.mem_of_mem_filter (mem_listing.1 h)

/-- Rows with different keys are listed with keys that go up. -/
theorem listing_pairwise (h : (rows.map key).Nodup) :
    (listing key rows).Pairwise fun a b => key a < key b := by
  have hle : (listing key rows).Pairwise fun a b => key a ≤ key b := by
    have : IsTrans ρ fun a b => key a ≤ key b := ⟨fun _ _ _ => le_trans⟩
    have : Std.Total fun a b : ρ => key a ≤ key b := ⟨fun a b => le_total _ _⟩
    exact List.pairwise_insertionSort _ rows
  have hne : (listing key rows).Pairwise fun a b => key a ≠ key b := by
    have hperm := (List.perm_insertionSort (fun a b => key a ≤ key b) rows).map key
    exact List.pairwise_map.1 (hperm.nodup_iff.2 h)
  exact hle.imp₂ (fun _ _ hle hne => lt_of_le_of_ne hle hne) hne

/-- Some of the rows are listed in the same order. -/
theorem listing_filter (h : (rows.map key).Nodup) (p : ρ → Bool) :
    listing key (rows.filter p) = (listing key rows).filter p := by
  have hsorted := (listing_pairwise h).filter p
  have hnodup : ((rows.filter p).map key).Nodup := h.sublist (List.filter_sublist.map key)
  refine List.Perm.eq_of_pairwise (fun a b _ _ hab hba => absurd hab (lt_asymm hba))
    (listing_pairwise hnodup) hsorted ?_
  have hlisted : (listing key (rows.filter p)).Perm (rows.filter p) := List.perm_insertionSort _ _
  exact hlisted.trans ((List.perm_insertionSort _ rows).filter p).symm

/-- After a row come the rows behind it. -/
theorem filter_after {before after : List ρ} {r : ρ}
    (h : (before ++ r :: after).Pairwise fun a b => key a < key b) :
    (before ++ r :: after).filter (fun other => key r < key other) = after := by
  obtain ⟨-, hafter, hbefore⟩ := List.pairwise_append.1 h
  have hnone : before.filter (fun other => key r < key other) = [] :=
    List.filter_eq_nil_iff.2 fun other hother => by
      simpa using (hbefore other hother r List.mem_cons_self).le
  have hall : after.filter (fun other => key r < key other) = after :=
    List.filter_eq_self.2 fun other hother =>
      decide_eq_true (List.rel_of_pairwise_cons hafter hother)
  rw [List.filter_append, hnone, List.nil_append, List.filter_cons_of_neg (by simp), hall]

/-- After the key of a row that a page ends with comes the rest. -/
theorem rest_of_split (h : (rows.map key).Nodup) {before after : List ρ} {r : ρ} {cursor : Option K}
    (hsplit : rest key rows cursor = before ++ r :: after) :
    rest key rows (some (key r)) = after := by
  have hall := listing_pairwise h
  have hmore : rest key rows (some (key r)) =
      (rest key rows cursor).filter fun other => key r < key other := by
    cases cursor with
    | none => exact listing_filter h _
    | some k =>
      have hk : k < key r := by
        have hmem : r ∈ rest key rows (some k) := hsplit ▸ by simp
        exact of_decide_eq_true (List.mem_filter.1 (mem_listing.1 hmem)).2
      simp only [rest, listing_filter h, List.filter_filter]
      refine List.filter_congr fun other _ => ?_
      by_cases hother : key r < key other
      · simp [hother, hk.trans hother]
      · simp [hother]
  have hsorted : (rest key rows cursor).Pairwise fun a b => key a < key b := by
    cases cursor with
    | none => exact hall
    | some k =>
      simp only [rest, listing_filter h]
      exact hall.filter _
  rw [hmore]
  rw [hsplit] at hsorted ⊢
  exact filter_after hsorted

end keys

end Paging

end Emelex

import Mathlib.Data.List.Nodup
import Mathlib.Data.List.Sort

/-!
# Tables with a primary key

A table is a list of rows under distinct keys, in the order they were inserted.  Its operations are
the statements of a relational store: `get` selects by key, `updateWhere` updates the rows that
satisfy a condition and `matching` counts them, `first` selects the first row in an order.

* `get_updateWhere`, `get_insert` — what a statement leaves under a key.
* `updateWhere_eq_self` — a statement that matches no row changes nothing.
* `first_eq_some`, `first_eq_none` — what `ORDER BY … LIMIT 1` selects.

Principal results: `get_updateWhere`, `get_insert`, `first_eq_some`, `first_eq_none`.
-/

set_option autoImplicit false

/-- Rows under distinct keys. -/
structure Table (κ ρ : Type) where
  entries : List (κ × ρ)
  nodup : (entries.map Prod.fst).Nodup

namespace Table

variable {κ ρ : Type}

def empty : Table κ ρ := ⟨[], List.nodup_nil⟩

theorem ext {t u : Table κ ρ} (h : t.entries = u.entries) : t = u := by
  obtain ⟨_, _⟩ := t
  obtain ⟨_, _⟩ := u
  cases h
  rfl

/-- `UPDATE … WHERE`: the rows that satisfy the condition are replaced. -/
def updateWhere (t : Table κ ρ) (p : κ → ρ → Bool) (f : ρ → ρ) : Table κ ρ where
  entries := t.entries.map fun e => if p e.1 e.2 then (e.1, f e.2) else e
  nodup := by
    have hkeys : (fun e : κ × ρ => (if p e.1 e.2 then (e.1, f e.2) else e).1) = Prod.fst := by
      funext e
      split <;> rfl
    simpa [List.map_map, Function.comp_def, hkeys] using t.nodup

/-- `DELETE … WHERE`. -/
def deleteWhere (t : Table κ ρ) (p : κ → ρ → Bool) : Table κ ρ where
  entries := t.entries.filter fun e => !p e.1 e.2
  nodup := t.nodup.sublist (List.filter_sublist.map Prod.fst)

/-- The number of rows that satisfy a condition. -/
def matching (t : Table κ ρ) (p : κ → ρ → Bool) : Nat :=
  t.entries.countP fun e => p e.1 e.2

/-- The rows that satisfy a condition, in an order. -/
def select (t : Table κ ρ) (p : κ → ρ → Bool) (le : κ × ρ → κ × ρ → Bool) : List (κ × ρ) :=
  (t.entries.filter fun e => p e.1 e.2).insertionSort fun a b => le a b = true

/-- `ORDER BY … LIMIT 1`. -/
def first (t : Table κ ρ) (p : κ → ρ → Bool) (le : κ × ρ → κ × ρ → Bool) : Option (κ × ρ) :=
  (t.select p le).head?

/-- A statement that matches no row changes nothing. -/
theorem updateWhere_eq_self {t : Table κ ρ} {p : κ → ρ → Bool} {f : ρ → ρ}
    (h : t.matching p = 0) : t.updateWhere p f = t := by
  apply ext
  simp only [matching, List.countP_eq_zero] at h
  calc
    t.entries.map (fun e => if p e.1 e.2 then (e.1, f e.2) else e) = t.entries.map id := by
      refine List.map_congr_left fun e he => ?_
      rw [if_neg (h e he)]
      rfl
    _ = t.entries := List.map_id _

theorem mem_select {t : Table κ ρ} {p : κ → ρ → Bool} {le : κ × ρ → κ × ρ → Bool} {e : κ × ρ} :
    e ∈ t.select p le ↔ e ∈ t.entries ∧ p e.1 e.2 = true := by
  simp [select]

/-- Rows that are in order already are selected as they are. -/
theorem select_of_pairwise {t : Table κ ρ} {p : κ → ρ → Bool} {le : κ × ρ → κ × ρ → Bool}
    (h : (t.entries.filter fun e => p e.1 e.2).Pairwise fun a b => le a b = true) :
    t.select p le = t.entries.filter fun e => p e.1 e.2 :=
  h.insertionSort_eq

/-- What `ORDER BY … LIMIT 1` selects comes before every row that satisfies the condition. -/
theorem first_le {t : Table κ ρ} {p : κ → ρ → Bool} {le : κ × ρ → κ × ρ → Bool} {e e' : κ × ρ}
    (htotal : ∀ a b, le a b = true ∨ le b a = true)
    (htrans : ∀ a b c, le a b = true → le b c = true → le a c = true)
    (h : t.first p le = some e) (he' : e' ∈ t.entries) (hp : p e'.1 e'.2 = true) :
    le e e' = true := by
  have : Std.Total fun a b : κ × ρ => le a b = true := ⟨htotal⟩
  have : IsTrans (κ × ρ) fun a b => le a b = true := ⟨htrans⟩
  have hsorted := List.pairwise_insertionSort (fun a b => le a b = true)
    (t.entries.filter fun e => p e.1 e.2)
  obtain ⟨rest, hrest⟩ : ∃ rest, t.select p le = e :: rest := by
    unfold first at h
    cases hselect : t.select p le with
    | nil => simp [hselect] at h
    | cons first rest =>
      rw [hselect] at h
      cases h
      exact ⟨rest, rfl⟩
  have hmem : e' ∈ t.select p le := mem_select.2 ⟨he', hp⟩
  rw [hrest] at hmem
  rcases List.mem_cons.1 hmem with rfl | hmem
  · exact (htotal e' e').elim id id
  · rw [show List.insertionSort _ _ = _ from hrest] at hsorted
    exact List.rel_of_pairwise_cons hsorted hmem

section keys

variable [DecidableEq κ]

/-- The row under a key. -/
def get (t : Table κ ρ) (k : κ) : Option ρ :=
  (t.entries.find? fun e => e.1 = k).map Prod.snd

/-- `INSERT`; a row under a key that is taken is refused. -/
def insert (t : Table κ ρ) (k : κ) (r : ρ) : Table κ ρ :=
  if h : k ∈ t.entries.map Prod.fst then t
  else
    { entries := t.entries ++ [(k, r)]
      nodup := by
        rw [List.map_append, List.map_singleton]
        exact t.nodup.append (List.nodup_singleton k) (by simpa using h) }

theorem get_eq_some {t : Table κ ρ} {k : κ} {r : ρ} : t.get k = some r ↔ (k, r) ∈ t.entries := by
  simp only [get, Option.map_eq_some_iff, Prod.exists]
  constructor
  · rintro ⟨k', r', hfind, rfl⟩
    obtain rfl : k' = k := by simpa using List.find?_some hfind
    exact List.mem_of_find?_eq_some hfind
  · intro hmem
    obtain ⟨e, he⟩ : ∃ e, t.entries.find? (fun e => e.1 = k) = some e := by
      rw [← Option.isSome_iff_exists, List.find?_isSome]
      exact ⟨_, hmem, by simp⟩
    have hkey : e.1 = k := by simpa using List.find?_some he
    have hsame := List.inj_on_of_nodup_map t.nodup (List.mem_of_find?_eq_some he) hmem hkey
    exact ⟨k, r, by rw [he, hsame], rfl⟩

theorem get_eq_none {t : Table κ ρ} {k : κ} :
    t.get k = none ↔ k ∉ t.entries.map Prod.fst := by
  constructor
  · intro h hmem
    obtain ⟨⟨k', r⟩, hr, rfl⟩ := List.mem_map.1 hmem
    rw [get_eq_some.2 hr] at h
    cases h
  · intro h
    refine Option.eq_none_iff_forall_ne_some.2 fun r hr => h ?_
    exact List.mem_map.2 ⟨(k, r), get_eq_some.1 hr, rfl⟩

/-- A statement that matches only keys of a list matches no more rows than these are. -/
theorem matching_le_length {t : Table κ ρ} {p : κ → ρ → Bool} (keys : List κ)
    (h : ∀ k r, t.get k = some r → p k r = true → k ∈ keys) : t.matching p ≤ keys.length := by
  have hsub : (t.entries.filter fun e => p e.1 e.2).map Prod.fst ⊆ keys := by
    intro k hk
    obtain ⟨⟨k', r⟩, hmem, rfl⟩ := List.mem_map.1 hk
    obtain ⟨hmem, hp⟩ := List.mem_filter.1 hmem
    exact h k' r (get_eq_some.2 hmem) hp
  have hnodup : ((t.entries.filter fun e => p e.1 e.2).map Prod.fst).Nodup :=
    t.nodup.sublist (List.filter_sublist.map Prod.fst)
  have hle := (List.subperm_of_subset hnodup hsub).length_le
  rwa [List.length_map, ← List.countP_eq_length_filter] at hle

@[simp, grind =]
theorem get_empty (k : κ) : (empty : Table κ ρ).get k = none := rfl

@[simp, grind =]
theorem get_updateWhere (t : Table κ ρ) (p : κ → ρ → Bool) (f : ρ → ρ) (k : κ) :
    (t.updateWhere p f).get k = (t.get k).map fun r => if p k r then f r else r := by
  cases h : t.get k with
  | none =>
    rw [get_eq_none] at h
    rw [Option.map_none, get_eq_none]
    intro hmem
    obtain ⟨⟨k', r'⟩, hr', rfl⟩ := List.mem_map.1 hmem
    obtain ⟨⟨k'', r''⟩, hr'', heq⟩ := List.mem_map.1 hr'
    refine h (List.mem_map.2 ⟨(k'', r''), hr'', ?_⟩)
    have := congrArg Prod.fst heq
    split at this <;> exact this
  | some r =>
    rw [get_eq_some] at h
    rw [Option.map_some, get_eq_some]
    refine List.mem_map.2 ⟨(k, r), h, ?_⟩
    split <;> rfl

/-- A row that is left was there. -/
theorem get_of_deleteWhere {t : Table κ ρ} {p : κ → ρ → Bool} {k : κ} {r : ρ}
    (h : (t.deleteWhere p).get k = some r) : t.get k = some r := by
  rw [get_eq_some] at h ⊢
  exact (List.mem_filter.1 h).1

/-- The rows that are left are those that do not satisfy the condition. -/
theorem get_deleteWhere (t : Table κ ρ) (p : κ → ρ → Bool) (k : κ) :
    (t.deleteWhere p).get k = (t.get k).filter fun r => !p k r := by
  cases h : (t.deleteWhere p).get k with
  | some r =>
    have hmem := List.mem_filter.1 (get_eq_some.1 h)
    rw [get_of_deleteWhere h, Option.filter_some, if_pos hmem.2]
  | none =>
    cases hr : t.get k with
    | none => rfl
    | some r =>
      rw [Option.filter_some, if_neg]
      intro hp
      rw [get_eq_some.2 (List.mem_filter.2 ⟨get_eq_some.1 hr, hp⟩)] at h
      cases h

theorem get_insert (t : Table κ ρ) (k j : κ) (r : ρ) (hfree : t.get k = none) :
    (t.insert k r).get j = if j = k then some r else t.get j := by
  have hk := get_eq_none.1 hfree
  simp only [insert, hk, dite_false]
  split
  · rename_i hj
    rw [hj, get_eq_some]
    simp
  · rename_i hj
    cases h : t.get j with
    | none =>
      rw [get_eq_none] at h ⊢
      simpa [hj] using h
    | some r' =>
      rw [get_eq_some] at h ⊢
      simp [h]

theorem entries_insert (t : Table κ ρ) {k : κ} {r : ρ} (hfree : t.get k = none) :
    (t.insert k r).entries = t.entries ++ [(k, r)] := by
  simp [insert, get_eq_none.1 hfree]

/-- What holds of every row and of the one that is put under a key holds of every row after. -/
theorem forall_get {t u : Table κ ρ} {k : κ} {new : ρ} {P : κ → ρ → Prop}
    (hget : ∀ j, u.get j = if j = k then some new else t.get j)
    (h : ∀ j r, t.get j = some r → P j r) (hnew : P k new) : ∀ j r, u.get j = some r → P j r := by
  intro j r hr
  rw [hget] at hr
  split at hr
  · rename_i hj
    cases hr
    exact hj ▸ hnew
  · exact h j r hr

/-- A condition that fixes the key matches at most one row. -/
theorem matching_key (t : Table κ ρ) (k : κ) (p : ρ → Bool) :
    t.matching (fun k' r => k' = k && p r) = if (t.get k).any p then 1 else 0 := by
  have hother : ∀ part : List (κ × ρ), k ∉ part.map Prod.fst →
      part.countP (fun e => e.1 = k && p e.2) = 0 := by
    intro part hpart
    rw [List.countP_eq_zero]
    rintro ⟨k', r⟩ he hp
    obtain ⟨rfl, _⟩ : k' = k ∧ p r = true := by simpa using hp
    exact hpart (List.mem_map.2 ⟨_, he, rfl⟩)
  cases h : t.get k with
  | none =>
    rw [Option.any_none, if_neg (by simp)]
    exact hother _ (get_eq_none.1 h)
  | some r =>
    obtain ⟨before, after, hsplit⟩ := List.append_of_mem (get_eq_some.1 h)
    have hnodup := t.nodup
    rw [hsplit, List.map_append, List.map_cons, List.nodup_middle, List.nodup_cons] at hnodup
    simp only [List.mem_append, not_or] at hnodup
    simp only [matching, hsplit, List.countP_append, List.countP_cons, hother _ hnodup.1.1,
      hother _ hnodup.1.2, Option.any_some]
    simp

/-- What `ORDER BY … LIMIT 1` selects is a row that satisfies the condition. -/
theorem first_eq_some {t : Table κ ρ} {p : κ → ρ → Bool} {le : κ × ρ → κ × ρ → Bool} {k : κ}
    {r : ρ} (h : t.first p le = some (k, r)) : t.get k = some r ∧ p k r = true := by
  have hmem := mem_select.1 (List.mem_of_mem_head? h)
  exact ⟨get_eq_some.2 hmem.1, hmem.2⟩

/-- It selects nothing only where no row satisfies the condition. -/
theorem first_eq_none {t : Table κ ρ} {p : κ → ρ → Bool} {le : κ × ρ → κ × ρ → Bool}
    (h : t.first p le = none) {k : κ} {r : ρ} (hr : t.get k = some r) : p k r = false := by
  have hnil : t.select p le = [] := List.head?_eq_none_iff.1 h
  by_contra hp
  have hmem : (k, r) ∈ t.select p le := mem_select.2 ⟨get_eq_some.1 hr, by simpa using hp⟩
  rw [hnil] at hmem
  cases hmem

end keys

end Table

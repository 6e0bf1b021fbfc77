import Emelex.Memory.KnowledgeVersions

/-!
# What maintenance takes, and what a pin keeps

* `Tidied` — what one pass of maintenance may do to the tables.
* `Spares` — the calls that leave the pin of an entry to stand.

Principal results: `maintenance_keeps`, `pinned_knowledge_kept`.
-/

set_option autoImplicit false

namespace Emelex

namespace Memory

namespace Knowledge

variable {shelf shelf' : Shelf} {used : List (Uuid × Nat)} {s t : State}

/-! ## Specification -/

/-- No user unpins or deletes the entry. -/
def Spares (id : Uuid) : Action → Prop
  | .setPinned _ id' pinned _ => id' = id → pinned = true
  | .delete _ id' _ => id' ≠ id
  | _ => True

/-- An entry that was not touched for long. -/
def Idle (retention : Retention) (row : Row) : Prop :=
  row.pinned = false ∧ row.tombstonedAt = none ∧ (row.updatedAt : Int) ≤ retention.knowledgeCutoff

/-- What one pass of maintenance may do. -/
structure Tidied (retention : Retention) (maxRows : Nat) (now : Time) (shelf shelf' : Shelf) :
    Prop where
  /-- An entry that goes was tombstoned for long enough. -/
  removed : ∀ id row, shelf.knowledge.get id = some row → shelf'.knowledge.get id = none →
    row.pinned = false ∧ ∃ time : Time, (time : Int) ≤ retention.tombstoneCutoff ∧
      (row.tombstonedAt = some time ∨ Idle retention row ∧ time = now)
  /-- An entry that stays is as it was, or it was idle and is tombstoned now. -/
  rows : ∀ id row', shelf'.knowledge.get id = some row' → ∃ row, shelf.knowledge.get id = some row ∧
    (row' = row ∨ Idle retention row ∧
      row' = { row with tombstonedAt := some now, updatedAt := now })
  /-- Of an entry that stays only old versions go. -/
  versions : ∀ id row', shelf'.knowledge.get id = some row' → ∀ number version,
    shelf.versions.get (id, number) = some version →
    (row'.pinned = true ∨ number = row'.activeVersion ∨
      retainedRank shelf (id, number) ≤ retention.versionsPerKey) →
    shelf'.versions.get (id, number) = some version
  /-- Nothing is written. -/
  written : ∀ number version, shelf'.versions.get number = some version →
    shelf.versions.get number = some version
  /-- No more than the limit go of each kind. -/
  bounded : shelf.knowledge.matching (fun id _ => (shelf'.knowledge.get id).isNone) ≤ maxRows ∧
    shelf'.knowledge.matching (fun id row => shelf.knowledge.get id ≠ some row) ≤ maxRows ∧
    shelf.versions.matching (fun number _ => (shelf'.knowledge.get number.1).isSome &&
      (shelf'.versions.get number).isNone) ≤ maxRows

/-! ## What maintenance leaves -/

theorem length_idleEntries (shelf : Shelf) (retention : Retention) (maxRows : Nat) :
    (idleEntries shelf retention maxRows).length ≤ maxRows := by
  unfold idleEntries
  rw [List.length_map]
  exact List.length_take_le _ _

theorem length_expiredEntries (shelf : Shelf) (retention : Retention) (maxRows : Nat) :
    (expiredEntries shelf retention maxRows).length ≤ maxRows := by
  unfold expiredEntries
  rw [List.length_map]
  exact List.length_take_le _ _

theorem mem_idleEntries {retention : Retention} {maxRows : Nat} {now : Time} {id : Uuid}
    {row : Row} (hrow : (tombstoneIdle shelf retention maxRows now).knowledge.get id = some row)
    (hdiffers : shelf.knowledge.get id ≠ some row) : id ∈ idleEntries shelf retention maxRows := by
  unfold tombstoneIdle at hrow
  dsimp only at hrow
  rw [Table.get_updateWhere, Option.map_eq_some_iff] at hrow
  obtain ⟨old, hold, hrow⟩ := hrow
  split at hrow
  · rename_i hchosen
    exact of_decide_eq_true hchosen
  · rw [hold, hrow] at hdiffers
    exact absurd rfl hdiffers

theorem mem_expiredEntries {retention : Retention} {maxRows : Nat} {id : Uuid}
    (hsome : (shelf.knowledge.get id).isSome = true)
    (hnone : (removeTombstoned shelf retention maxRows).knowledge.get id = none) :
    id ∈ expiredEntries shelf retention maxRows := by
  obtain ⟨row, hrow⟩ := Option.isSome_iff_exists.1 hsome
  unfold removeTombstoned at hnone
  dsimp only at hnone
  rw [Table.get_deleteWhere, hrow, Option.filter_eq_none_iff] at hnone
  have hchosen := hnone row rfl
  rw [Bool.not_eq_true, Bool.not_eq_false', decide_eq_true_eq] at hchosen
  exact hchosen

theorem get_tombstoneIdle {retention : Retention} {maxRows : Nat} {now : Time} {id : Uuid}
    {row' : Row} (h : (tombstoneIdle shelf retention maxRows now).knowledge.get id = some row') :
    ∃ row, shelf.knowledge.get id = some row ∧ (row' = row ∨ Idle retention row ∧
      row' = { row with tombstonedAt := some now, updatedAt := now }) := by
  unfold tombstoneIdle at h
  dsimp only at h
  rw [Table.get_updateWhere, Option.map_eq_some_iff] at h
  obtain ⟨row, hrow, hrow'⟩ := h
  refine ⟨row, hrow, ?_⟩
  split at hrow'
  · rename_i hchosen
    have hchosen := of_decide_eq_true hchosen
    unfold idleEntries at hchosen
    obtain ⟨⟨id', old⟩, hmem, rfl⟩ := List.mem_map.1 hchosen
    obtain ⟨hstored, hidle⟩ := Table.mem_select.1 (List.mem_of_mem_take hmem)
    rw [Table.get_eq_some.2 hstored] at hrow
    cases hrow
    refine .inr ⟨?_, hrow'.symm⟩
    simpa [Idle, and_assoc] using hidle
  · exact .inl hrow'.symm

/-- An entry that the second phase removes was tombstoned for long enough. -/
theorem get_removeTombstoned_none {retention : Retention} {maxRows : Nat} {id : Uuid} {row : Row}
    (hrow : shelf.knowledge.get id = some row)
    (hnone : (removeTombstoned shelf retention maxRows).knowledge.get id = none) :
    row.pinned = false ∧ ∃ time : Time, row.tombstonedAt = some time ∧
      (time : Int) ≤ retention.tombstoneCutoff := by
  have hsome : (shelf.knowledge.get id).isSome = true := Option.isSome_iff_exists.2 ⟨row, hrow⟩
  have hchosen := mem_expiredEntries hsome hnone
  unfold expiredEntries at hchosen
  obtain ⟨⟨id', old⟩, hmem, rfl⟩ := List.mem_map.1 hchosen
  obtain ⟨hstored, hexpired⟩ := Table.mem_select.1 (List.mem_of_mem_take hmem)
  rw [Table.get_eq_some.2 hstored] at hrow
  cases hrow
  simpa [Option.any_eq_true] using hexpired

/-- The versions of an entry that stays are left to the third phase. -/
theorem version_removeTombstoned {retention : Retention} {maxRows : Nat} {id : Uuid}
    (hsome : ((removeTombstoned shelf retention maxRows).knowledge.get id).isSome = true)
    (number : Nat) : (removeTombstoned shelf retention maxRows).versions.get (id, number) =
      shelf.versions.get (id, number) := by
  obtain ⟨row, hrow⟩ := Option.isSome_iff_exists.1 hsome
  unfold removeTombstoned at hrow ⊢
  dsimp only at hrow ⊢
  rw [Table.get_deleteWhere, Option.filter_eq_some_iff] at hrow
  rw [Table.get_deleteWhere]
  cases shelf.versions.get (id, number) with
  | none => rfl
  | some version => exact Option.filter_eq_some_iff.2 ⟨rfl, hrow.2⟩

theorem retainedRank_removeTombstoned {retention : Retention} {maxRows : Nat} {id : Uuid}
    (hsome : ((removeTombstoned shelf retention maxRows).knowledge.get id).isSome = true)
    (number : Nat) : retainedRank (removeTombstoned shelf retention maxRows) (id, number) =
      retainedRank shelf (id, number) := by
  have hperm : ((removeTombstoned shelf retention maxRows).numbers id).Perm (shelf.numbers id) := by
    rw [List.perm_ext_iff_of_nodup (nodup_numbers _ id) (nodup_numbers _ id)]
    intro number
    rw [mem_numbers, mem_numbers, version_removeTombstoned hsome]
  exact hperm.countP_eq _

theorem get_pruneVersions (shelf : Shelf) (pruned : List (Uuid × Nat)) (number : Uuid × Nat) :
    (pruneVersions shelf pruned).versions.get number =
      if number ∈ pruned then none else shelf.versions.get number := by
  unfold pruneVersions
  dsimp only
  rw [Table.get_deleteWhere]
  by_cases hmem : number ∈ pruned <;> cases shelf.versions.get number <;> simp [hmem]

theorem maintain_tidied {retention : Retention} {maxRows : Nat} {pruned : List (Uuid × Nat)}
    {now : Time} (hok : maintain shelf retention maxRows pruned now = .ok shelf') :
    Tidied retention maxRows now shelf shelf' := by
  simp only [maintain, bind_eq_ok, ensure_eq_ok] at hok
  obtain ⟨_, _, _, _, hpure⟩ := hok
  cases hpure
  generalize hidle : tombstoneIdle shelf retention maxRows now = idle
  generalize hremoved : removeTombstoned idle retention maxRows = removed
  set chosen := (pruned.filter fun number => prunable removed retention number).take maxRows
    with hchosen
  have hprunable : ∀ number ∈ chosen, prunable removed retention number = true := by
    intro number hnumber
    exact (List.mem_filter.1 (List.mem_of_mem_take hnumber)).2
  have hversions : idle.versions = shelf.versions := by
    rw [← hidle]
    rfl
  have hrow : ∀ id row', removed.knowledge.get id = some row' →
      idle.knowledge.get id = some row' := by
    intro id row' hget
    rw [← hremoved] at hget
    exact row_of_remove hget
  have hversion : ∀ id number, (removed.knowledge.get id).isSome = true →
      removed.versions.get (id, number) = shelf.versions.get (id, number) := by
    intro id number hsome
    rw [← hversions, ← hremoved]
    rw [← hremoved] at hsome
    exact version_removeTombstoned hsome number
  refine ⟨?_, ?_, ?_, ?_, ?_, ?_, ?_⟩
  · intro id row hget hnone
    have hsome := isSome_tombstoneIdle shelf retention maxRows now id
    rw [hidle, hget] at hsome
    obtain ⟨row', hrow'⟩ := Option.isSome_iff_exists.1 hsome
    have hgone : removed.knowledge.get id = none := hnone
    rw [← hremoved] at hgone
    obtain ⟨hunpinned, time, htime, hold⟩ := get_removeTombstoned_none hrow' hgone
    rw [← hidle] at hrow'
    obtain ⟨row₀, hrow₀, hcase⟩ := get_tombstoneIdle hrow'
    rw [hget] at hrow₀
    cases hrow₀
    rcases hcase with rfl | ⟨hrowIdle, rfl⟩
    · exact ⟨hunpinned, time, hold, .inl htime⟩
    · exact ⟨hunpinned, time, hold, .inr ⟨hrowIdle, (Option.some.inj htime).symm⟩⟩
  · intro id row' hget
    have hget' := hrow id row' hget
    rw [← hidle] at hget'
    exact get_tombstoneIdle hget'
  · intro id row' hget number version hget' hkept
    have hget : removed.knowledge.get id = some row' := hget
    have hsome : (removed.knowledge.get id).isSome = true := Option.isSome_iff_exists.2 ⟨_, hget⟩
    rw [get_pruneVersions, if_neg, hversion id number hsome, hget']
    intro hmem
    have hgoes := hprunable _ hmem
    have hrank := hsome
    rw [← hremoved] at hrank
    have hsame : retainedRank removed (id, number) = retainedRank shelf (id, number) := by
      rw [← hremoved, retainedRank_removeTombstoned hrank, ← hidle]
      rfl
    simp only [prunable, hget, hsame, Option.any_some, Bool.and_eq_true, Bool.not_eq_true',
      decide_eq_true_eq] at hgoes
    obtain ⟨-, ⟨hunpinned, hinactive⟩, hlow⟩ := hgoes
    rcases hkept with hpinned | hactive | hhigh
    · rw [hunpinned] at hpinned
      cases hpinned
    · exact hinactive hactive
    · omega
  · intro number version hget
    have hget' := version_of_prune hget
    rw [← hremoved] at hget'
    rw [← hversions]
    exact version_of_remove hget'
  · refine le_trans (Table.matching_le_length _ ?_) (length_expiredEntries idle retention maxRows)
    intro id row hrow hnone
    apply mem_expiredEntries
    · rw [← hidle, isSome_tombstoneIdle, hrow]
      rfl
    · rw [hremoved]
      exact Option.isNone_iff_eq_none.1 hnone
  · refine le_trans (Table.matching_le_length _ ?_) (length_idleEntries shelf retention maxRows)
    intro id row' hrow' hdiffers
    have hget : (tombstoneIdle shelf retention maxRows now).knowledge.get id = some row' := by
      rw [hidle]
      exact hrow id row' hrow'
    exact mem_idleEntries hget (of_decide_eq_true hdiffers)
  · refine le_trans (Table.matching_le_length chosen ?_) (List.length_take_le _ _)
    intro number version hget hgone
    obtain ⟨hsome, hnone⟩ := Bool.and_eq_true_iff.1 hgone
    rw [Option.isNone_iff_eq_none, get_pruneVersions, hversion number.1 number.2 hsome,
      hget] at hnone
    by_contra hmem
    rw [if_neg hmem] at hnone
    cases hnone

/-- **Only maintenance takes anything, and only what is old.** In every state that a run reaches,
the next call keeps every entry and every version, or it is a pass of maintenance. -/
theorem maintenance_keeps {actions : List Action}
    (h : Machine.Run step Machine.anyStep State.initial actions s) (action : Action)
    (hs : step s action = some t) :
    Keeps s.shelf t.shelf ∨ ∃ retention maxRows pruned now,
      action = .maintain retention maxRows pruned now ∧
        Tidied retention maxRows now s.shelf t.shelf := by
  have hversioned := versioned_of_run h
  obtain ⟨⟨hdistinct, hfresh⟩, rfl⟩ := step_eq_some hs
  cases hok : action.perform s.shelf with
  | error error => exact .inl (keeps_refl s.shelf)
  | ok shelf' =>
    by_cases hcall : ∃ retention maxRows pruned now,
      action = .maintain retention maxRows pruned now
    · obtain ⟨retention, maxRows, pruned, now, rfl⟩ := hcall
      exact .inr ⟨retention, maxRows, pruned, now, rfl, maintain_tidied hok⟩
    · push Not at hcall
      exact .inl (perform_extends hversioned.ordered hdistinct (hversioned.unissued hfresh)
        (hversioned.unused hfresh) hcall hok).keeps

theorem rewritten_key_kept : ∃ s t,
    Machine.run step State.initial (rewrittenKey.take 3) = some s ∧
    step s (.maintain ⟨0, 0, 2⟩ 10 [(1, 1), (1, 2)] 40) = some t ∧
    t.shelf.versions.get (1, 1) = none ∧
    (Keeps s.shelf t.shelf ∨ ∃ retention maxRows pruned now,
      Action.maintain ⟨0, 0, 2⟩ 10 [(1, 1), (1, 2)] 40 = .maintain retention maxRows pruned now ∧
        Tidied retention maxRows now s.shelf t.shelf) := by
  have hrun : ((Machine.run step State.initial (rewrittenKey.take 3)).bind fun s =>
      (step s (.maintain ⟨0, 0, 2⟩ 10 [(1, 1), (1, 2)] 40)).map fun t =>
        t.shelf.versions.get (1, 1)) = some none := by decide +kernel
  obtain ⟨s, hs, hstep⟩ := Option.bind_eq_some_iff.1 hrun
  obtain ⟨t, ht, hgone⟩ := Option.map_eq_some_iff.1 hstep
  exact ⟨s, t, hs, ht, hgone, maintenance_keeps (Machine.run_eq_some_iff.1 hs) _ ht⟩

/-! ## What is pinned -/

theorem Tidied.leaves {retention : Retention} {maxRows : Nat} {now : Time}
    (h : Tidied retention maxRows now shelf shelf') (id : Uuid) : Leaves id shelf shelf' := by
  intro row hrow hpinned
  have hstays : ∃ row', shelf'.knowledge.get id = some row' := by
    rw [← Option.ne_none_iff_exists']
    intro hnone
    have hunpinned := (h.removed id row hrow hnone).1
    rw [hpinned] at hunpinned
    cases hunpinned
  obtain ⟨row', hrow'⟩ := hstays
  obtain ⟨old, hold, hcase⟩ := h.rows id row' hrow'
  rw [hrow] at hold
  cases hold
  have hsame : row' = row := by
    rcases hcase with hsame | ⟨hidle, -⟩
    · exact hsame
    · rw [hidle.1] at hpinned
      cases hpinned
  subst hsame
  refine ⟨⟨row', hrow', hpinned, fun hnone => hnone⟩, ?_⟩
  intro number version hversion
  exact h.versions id row' hrow' number version hversion (.inl hpinned)

theorem perform_leaves (h : Ordered shelf used) {action : Action} {id : Uuid}
    (hdistinct : action.mints.Nodup) (hnew : ∀ id ∈ action.mints, shelf.knowledge.get id = none)
    (hunused : ∀ id ∈ action.mints, ∀ number, (id, number) ∉ used) (hspares : Spares id action)
    (hok : action.perform shelf = .ok shelf') : Leaves id shelf shelf' := by
  cases action with
  | remember workspace key content source newId now =>
    exact (remember_writes h (hnew newId List.mem_cons_self) hok).leaves h id
  | activate workspace id' version now =>
    simp only [Action.perform, activateKnowledge, bind_eq_ok, ensure_eq_ok] at hok
    obtain ⟨_, _, _, _, hpure⟩ := hok
    cases hpure
    exact leaves_updateWhere fun row _ hpinned _ => ⟨hpinned, fun _ => rfl⟩
  | setPinned workspace id' pinned now =>
    simp only [Action.perform, setKnowledgePinned, bind_eq_ok, ensure_eq_ok] at hok
    obtain ⟨_, _, hpure⟩ := hok
    cases hpure
    apply leaves_updateWhere
    intro row _ _ hmatch
    simp only [ofWorkspace, Bool.and_eq_true, decide_eq_true_eq] at hmatch
    exact ⟨hspares hmatch.1.symm, fun hnone => hnone⟩
  | delete workspace id' now =>
    simp only [Action.perform, deleteKnowledge, bind_eq_ok, ensure_eq_ok] at hok
    obtain ⟨_, _, hpure⟩ := hok
    cases hpure
    apply leaves_updateWhere
    intro row _ _ hmatch
    simp only [ofWorkspace, Bool.and_eq_true, decide_eq_true_eq] at hmatch
    exact absurd hmatch.1.1.symm hspares
  | completeDistillation authority candidates changed now =>
    simp only [Action.perform, completeDistillation, bind_eq_ok, ensure_eq_ok] at hok
    obtain ⟨_, _, lease, _, shelf₁, happlied, _, _, hpure⟩ := hok
    cases hpure
    exact (applyCandidates_extends candidates h hdistinct hnew hunused happlied).2 id
  | maintain retention maxRows pruned now =>
    exact (maintain_tidied hok).leaves id

theorem Versioned.leaves (h : Versioned s) {action : Action} {id : Uuid}
    (hspares : Spares id action) (hs : Knowledge.step s action = some t) :
    Leaves id s.shelf t.shelf := by
  obtain ⟨⟨hdistinct, hfresh⟩, rfl⟩ := step_eq_some hs
  cases hok : action.perform s.shelf with
  | error error => exact leaves_refl id s.shelf
  | ok shelf' =>
    exact perform_leaves h.ordered hdistinct (h.unissued hfresh) (h.unused hfresh) hspares hok

/-- **What is pinned stays.** From any state that a run reaches, until a user unpins or deletes the
entry, it keeps its pin and every version, and is not tombstoned. -/
theorem pinned_knowledge_kept {id : Uuid} {actions later : List Action}
    (h : Machine.Run step Machine.anyStep State.initial actions s)
    (h' : Machine.Run step (fun _ action => Spares id action) s later t) :
    Leaves id s.shelf t.shelf := by
  have hkept : Versioned t ∧ Leaves id s.shelf t.shelf := by
    apply h'.invariant (I := fun u => Versioned u ∧ Leaves id s.shelf u.shelf)
    · rintro u action v ⟨hversioned, hleaves⟩ hspares hs
      exact ⟨(hversioned.step hs).1, hleaves.trans (hversioned.leaves hspares hs)⟩
    · exact ⟨versioned_of_run h, leaves_refl id s.shelf⟩
  exact hkept.2

/-- A key is pinned, and the other is not. -/
def pinnedKey : List Action :=
  [.remember ⟨"/work", ⟨0, 0⟩⟩ "style" "tabs" none 1 10,
    .remember ⟨"/work", ⟨0, 0⟩⟩ "tests" "all" none 2 20, .setPinned ⟨0, 0⟩ 1 true 30]

/-- Both are idle for long, and only the other goes. -/
def agedKeys : List Action :=
  [.maintain ⟨50, 0, 2⟩ 10 [] 100, .maintain ⟨50, 100, 2⟩ 10 [] 200]

theorem pinned_key_kept : ∃ s t,
    Machine.run step State.initial pinnedKey = some s ∧ Machine.run step s agedKeys = some t ∧
    t.shelf.knowledge.get 2 = none ∧ Leaves 1 s.shelf t.shelf := by
  have hrun : ((Machine.run step State.initial pinnedKey).bind fun s =>
      (Machine.run step s agedKeys).map fun t => t.shelf.knowledge.get 2) = some none := by
    decide +kernel
  obtain ⟨s, hs, hlater⟩ := Option.bind_eq_some_iff.1 hrun
  obtain ⟨t, ht, hgone⟩ := Option.map_eq_some_iff.1 hlater
  have hspared : Machine.Run step (fun _ action => Spares 1 action) s agedKeys t := by
    apply Machine.Run.of_run ht
    intro action haction
    rcases List.mem_cons.1 haction with rfl | haction
    · exact fun _ => trivial
    · rw [List.mem_singleton.1 haction]
      exact fun _ => trivial
  exact ⟨s, t, hs, ht, hgone, pinned_knowledge_kept (Machine.run_eq_some_iff.1 hs) hspared⟩

end Knowledge

end Memory

end Emelex

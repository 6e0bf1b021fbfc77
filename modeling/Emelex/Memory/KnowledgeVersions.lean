import Emelex.Memory.Knowledge

/-!
# Knowledge keeps its versions in order

* `Ordered` — what holds of the tables in every state: the active version of an entry is there, a
  key of a workspace has one entry, and the highest number an entry ever had is still stored.
* `Grows` — a new number is above every number that the entry has had.
* `Leaves` — a pinned entry keeps its pin and its versions.

Principal result: `knowledge_versioned`.
-/

set_option autoImplicit false

namespace Emelex

namespace Memory

namespace Knowledge

variable {shelf shelf' : Shelf} {used : List (Uuid × Nat)} {s t : State}

/-! ## Specification -/

/-- What holds of the tables, where `used` are the numbers that have been in use. -/
structure Ordered (shelf : Shelf) (used : List (Uuid × Nat)) : Prop where
  active : ∀ id row, shelf.knowledge.get id = some row →
    (shelf.versions.get (id, row.activeVersion)).isSome = true
  unique : ∀ id id' row row', shelf.knowledge.get id = some row →
    shelf.knowledge.get id' = some row' → row.workspaceIdentity = row'.workspaceIdentity →
    row.key = row'.key → id = id'
  owned : ∀ id number version, shelf.versions.get (id, number) = some version →
    (shelf.knowledge.get id).isSome = true
  highest : ∀ id row, shelf.knowledge.get id = some row → ∀ number, (id, number) ∈ used →
    ∃ higher, number ≤ higher ∧ (shelf.versions.get (id, higher)).isSome = true

/-- A number that is new is above every number that its entry has had. -/
def Grows (used : List (Uuid × Nat)) (shelf shelf' : Shelf) : Prop :=
  ∀ id number, (shelf'.versions.get (id, number)).isSome = true →
    (shelf.versions.get (id, number)).isSome = true ∨
      ∀ earlier, (id, earlier) ∈ used → earlier < number

/-- A pinned entry keeps its pin and its versions, and is not tombstoned. -/
def Leaves (id : Uuid) (shelf shelf' : Shelf) : Prop :=
  ∀ row, shelf.knowledge.get id = some row → row.pinned = true →
    (∃ row', shelf'.knowledge.get id = some row' ∧ row'.pinned = true ∧
      (row.tombstonedAt = none → row'.tombstonedAt = none)) ∧
    ∀ number version, shelf.versions.get (id, number) = some version →
      shelf'.versions.get (id, number) = some version

/-- Every entry is still there, and every version as it was. -/
structure Keeps (shelf shelf' : Shelf) : Prop where
  entries : ∀ id, (shelf.knowledge.get id).isSome = true → (shelf'.knowledge.get id).isSome = true
  versions : ∀ number version, shelf.versions.get number = some version →
    shelf'.versions.get number = some version

/-- What a call that writes may do, where it mints entries. -/
structure Extends (used : List (Uuid × Nat)) (minted : List Uuid) (shelf shelf' : Shelf) :
    Prop where
  ordered : Ordered shelf' used
  grows : Grows used shelf shelf'
  entries : ∀ id, (shelf'.knowledge.get id).isSome = true →
    (shelf.knowledge.get id).isSome = true ∨ id ∈ minted
  keeps : Keeps shelf shelf'

/-- What every run keeps. -/
structure Versioned (s : State) : Prop where
  ordered : Ordered s.shelf s.used
  entries : ∀ id row, s.shelf.knowledge.get id = some row → id ∈ s.issued
  numbers : ∀ number ∈ s.used, number.1 ∈ s.issued

/-! ## Numbers -/

theorem mem_numbers {id : Uuid} {number : Nat} :
    number ∈ shelf.numbers id ↔ (shelf.versions.get (id, number)).isSome = true := by
  unfold Shelf.numbers
  simp only [List.mem_map, List.mem_filter, decide_eq_true_eq]
  constructor
  · rintro ⟨⟨⟨id', number'⟩, version⟩, ⟨hmem, rfl⟩, rfl⟩
    rw [Table.get_eq_some.2 hmem]
    rfl
  · intro hsome
    obtain ⟨version, hversion⟩ := Option.isSome_iff_exists.1 hsome
    exact ⟨((id, number), version), ⟨Table.get_eq_some.1 hversion, rfl⟩, rfl⟩

theorem nodup_numbers (shelf : Shelf) (id : Uuid) : (shelf.numbers id).Nodup := by
  unfold Shelf.numbers
  apply List.Nodup.map_on
  · rintro ⟨⟨id₁, number₁⟩, version₁⟩ hmem₁ ⟨⟨id₂, number₂⟩, version₂⟩ hmem₂ hsame
    simp only [List.mem_filter, decide_eq_true_eq] at hmem₁ hmem₂ hsame
    obtain ⟨hmem₁, rfl⟩ := hmem₁
    obtain ⟨hmem₂, rfl⟩ := hmem₂
    subst hsame
    exact List.inj_on_of_nodup_map shelf.versions.nodup hmem₁ hmem₂ rfl
  · exact (List.Nodup.of_map _ shelf.versions.nodup).filter _

theorem lt_nextVersion {id : Uuid} {number : Nat}
    (h : (shelf.versions.get (id, number)).isSome = true) : number < shelf.nextVersion id :=
  Nat.lt_succ_of_le (le_foldl_max (.inl (mem_numbers.2 h)))

theorem get_nextVersion (shelf : Shelf) (id : Uuid) :
    shelf.versions.get (id, shelf.nextVersion id) = none := by
  rw [← Option.not_isSome_iff_eq_none]
  intro hsome
  exact Nat.lt_irrefl _ (lt_nextVersion hsome)

theorem find_eq_some {workspace : WorkspaceIdentity} {key : String} {found : Uuid × Row}
    (h : shelf.find workspace key = some found) : shelf.knowledge.get found.1 = some found.2 ∧
      found.2.workspaceIdentity = workspace ∧ found.2.key = key := by
  unfold Shelf.find at h
  have hmatch := List.find?_some h
  simp only [Bool.and_eq_true, decide_eq_true_eq] at hmatch
  exact ⟨Table.get_eq_some.2 (List.mem_of_find?_eq_some h), hmatch⟩

theorem find_eq_none {workspace : WorkspaceIdentity} {key : String}
    (h : shelf.find workspace key = none) {id : Uuid} {row : Row}
    (hrow : shelf.knowledge.get id = some row) :
    ¬ (row.workspaceIdentity = workspace ∧ row.key = key) := by
  unfold Shelf.find at h
  have hnone := List.find?_eq_none.1 h (id, row) (Table.get_eq_some.1 hrow)
  simpa only [Bool.and_eq_true, decide_eq_true_eq] using hnone

/-! ## Writing a version -/

/-- A row is put under an entry, and the version that it names. -/
structure Wrote (shelf shelf' : Shelf) (id : Uuid) (row : Row) (content : Version) : Prop where
  knowledge : ∀ id', shelf'.knowledge.get id' =
    if id' = id then some row else shelf.knowledge.get id'
  versions : ∀ number, shelf'.versions.get number =
    if number = (id, row.activeVersion) then some content else shelf.versions.get number

theorem wrote_existing {id : Uuid} {row old : Row} {content : Version}
    (hold : shelf.knowledge.get id = some old)
    (hfree : shelf.versions.get (id, row.activeVersion) = none) :
    Wrote shelf (shelf.write true id row content) id { old with
      workspace := row.workspace, activeVersion := row.activeVersion, pinned := row.pinned
      tombstonedAt := none, updatedAt := row.updatedAt } content := by
  constructor
  · intro id'
    unfold Shelf.write
    dsimp only
    rw [if_pos rfl, Table.get_updateWhere]
    by_cases hid : id' = id
    · subst hid
      simp [hold]
    · cases shelf.knowledge.get id' <;> simp [hid]
  · intro number
    exact Table.get_insert shelf.versions _ number content hfree

theorem wrote_new {id : Uuid} {row : Row} {content : Version}
    (hnew : shelf.knowledge.get id = none)
    (hfree : shelf.versions.get (id, row.activeVersion) = none) :
    Wrote shelf (shelf.write false id row content) id row content := by
  constructor
  · intro id'
    unfold Shelf.write
    dsimp only
    rw [if_neg Bool.false_ne_true]
    exact Table.get_insert shelf.knowledge id id' row hnew
  · intro number
    exact Table.get_insert shelf.versions _ number content hfree

/-- The entry is the one of its key, and its new number is above every number it has had. -/
theorem Wrote.ordered {id : Uuid} {row : Row} {content : Version}
    (hw : Wrote shelf shelf' id row content) (h : Ordered shelf used)
    (hkey : ∀ id' row', shelf.knowledge.get id' = some row' →
      row'.workspaceIdentity = row.workspaceIdentity → row'.key = row.key → id' = id)
    (habove : ∀ number, (id, number) ∈ used → number < row.activeVersion) :
    Ordered shelf' used ∧ Grows used shelf shelf' := by
  have hsome : ∀ number, (shelf.versions.get number).isSome = true →
      (shelf'.versions.get number).isSome = true := by
    intro number hnumber
    rw [hw.versions]
    split
    · rfl
    · exact hnumber
  have hactive : (shelf'.versions.get (id, row.activeVersion)).isSome = true := by
    rw [hw.versions, if_pos rfl]
    rfl
  refine ⟨⟨?_, ?_, ?_, ?_⟩, ?_⟩
  · intro id' row' hrow'
    rw [hw.knowledge] at hrow'
    split at hrow'
    · rename_i hid
      cases hrow'
      rw [hid]
      exact hactive
    · exact hsome _ (h.active id' row' hrow')
  · intro id₁ id₂ row₁ row₂ hrow₁ hrow₂ hidentity hsame
    rw [hw.knowledge] at hrow₁ hrow₂
    split at hrow₁
    · rename_i hid₁
      cases hrow₁
      split at hrow₂
      · rename_i hid₂
        rw [hid₁, hid₂]
      · rw [hid₁, hkey id₂ row₂ hrow₂ hidentity.symm hsame.symm]
    · split at hrow₂
      · rename_i hid₂
        cases hrow₂
        rw [hid₂, hkey id₁ row₁ hrow₁ hidentity hsame]
      · exact h.unique id₁ id₂ row₁ row₂ hrow₁ hrow₂ hidentity hsame
  · intro id' number version hversion
    rw [hw.versions] at hversion
    rw [hw.knowledge]
    split at hversion
    · rename_i hnumber
      cases hnumber
      rw [if_pos rfl]
      rfl
    · split
      · rfl
      · exact h.owned id' number version hversion
  · intro id' row' hrow' number hnumber
    rw [hw.knowledge] at hrow'
    split at hrow'
    · rename_i hid
      subst hid
      exact ⟨row.activeVersion, (habove number hnumber).le, hactive⟩
    · obtain ⟨higher, hle, hhigher⟩ := h.highest id' row' hrow' number hnumber
      exact ⟨higher, hle, hsome _ hhigher⟩
  · intro id' number hnumber
    rw [hw.versions] at hnumber
    split at hnumber
    · rename_i hnew
      cases hnew
      exact .inr habove
    · exact .inl hnumber

/-- A call has written a version of one entry: of one that was there, or of a new one. -/
structure Writes (shelf shelf' : Shelf) (newId : Uuid) : Prop where
  entry : ∃ id row content, Wrote shelf shelf' id row content ∧ row.tombstonedAt = none ∧
    ((∃ old, shelf.knowledge.get id = some old ∧
        row.workspaceIdentity = old.workspaceIdentity ∧ row.key = old.key ∧
        (old.pinned = true → row.pinned = true) ∧ row.activeVersion = shelf.nextVersion id) ∨
      id = newId ∧ shelf.knowledge.get newId = none ∧
        ∀ id' row', shelf.knowledge.get id' = some row' →
          ¬ (row'.workspaceIdentity = row.workspaceIdentity ∧ row'.key = row.key))

theorem write_writes (h : Ordered shelf used) {workspace : WorkspaceIdentity} {key : String}
    {newId id : Uuid} {row : Row} {content : Version} {existing : Option (Uuid × Row)}
    (hexisting : shelf.find workspace key = existing)
    (hid : id = (existing.map Prod.fst).getD newId) (hnew : shelf.knowledge.get newId = none)
    (hidentity : row.workspaceIdentity = workspace) (hkey : row.key = key)
    (htombstoned : row.tombstonedAt = none)
    (hpinned : existing.any (·.2.pinned) = true → row.pinned = true)
    (hnext : existing.isSome = true → row.activeVersion = shelf.nextVersion id) :
    Writes shelf (shelf.write existing.isSome id row content) newId := by
  cases existing with
  | none =>
    obtain rfl : id = newId := hid
    have hfree : shelf.versions.get (id, row.activeVersion) = none := by
      rw [Option.eq_none_iff_forall_ne_some]
      intro version hversion
      have howned := h.owned id row.activeVersion version hversion
      rw [hnew] at howned
      cases howned
    refine ⟨id, row, content, wrote_new hnew hfree, htombstoned, .inr ⟨rfl, hnew, ?_⟩⟩
    intro id' row' hrow'
    rw [hidentity, hkey]
    exact find_eq_none hexisting hrow'
  | some found =>
    subst hid
    obtain ⟨hold, holdIdentity, holdKey⟩ := find_eq_some hexisting
    have hversion := hnext rfl
    have hfree : shelf.versions.get (found.1, row.activeVersion) = none := by
      rw [hversion]
      exact get_nextVersion shelf found.1
    exact ⟨found.1, _, content, wrote_existing hold hfree, rfl,
      .inl ⟨found.2, hold, rfl, rfl, hpinned, hversion⟩⟩

theorem remember_writes (h : Ordered shelf used) {workspace : WorkspaceBinding}
    {key content : String} {source : Option (Uuid × Option WorkspaceIdentity)} {newId : Uuid}
    {now : Time} (hnew : shelf.knowledge.get newId = none)
    (hok : remember shelf workspace key content source newId now = .ok shelf') :
    Writes shelf shelf' newId := by
  simp only [remember, bind_eq_ok, ensure_eq_ok] at hok
  obtain ⟨_, _, _, _, _, _, _, _, hpure⟩ := hok
  cases hpure
  refine write_writes h rfl rfl hnew rfl rfl rfl id ?_
  intro hsome
  exact if_pos hsome

theorem applyDistilledVersion_writes (h : Ordered shelf used) {lease : Distillation}
    {candidateIndex : Nat} {key content : String} {confidence : Rat} {pinned : Bool}
    {newId : Uuid} {now : Time} (hnew : shelf.knowledge.get newId = none)
    (hok : applyDistilledVersion shelf lease candidateIndex key content confidence pinned newId
      now = .ok shelf') :
    Writes shelf shelf' newId := by
  simp only [applyDistilledVersion, bind_eq_ok, ensure_eq_ok] at hok
  obtain ⟨_, _, hpure⟩ := hok
  cases hpure
  refine write_writes h rfl rfl hnew rfl rfl rfl ?_ fun _ => rfl
  intro hany
  exact Bool.or_eq_true_iff.2 (.inl hany)

/-- A written version keeps the tables in order, and its number is above every earlier one. -/
theorem Writes.ordered {newId : Uuid} (hw : Writes shelf shelf' newId) (h : Ordered shelf used)
    (hunused : ∀ number, (newId, number) ∉ used) :
    Ordered shelf' used ∧ Grows used shelf shelf' := by
  obtain ⟨id, row, content, hwrote, -, ⟨old, hold, hidentity, hkey, -, hnext⟩ | hnew⟩ := hw.entry
  · apply hwrote.ordered h
    · intro id' row' hrow' hidentity' hkey'
      exact h.unique id' id row' old hrow' hold (hidentity'.trans hidentity) (hkey'.trans hkey)
    · intro number hnumber
      obtain ⟨higher, hle, hhigher⟩ := h.highest id old hold number hnumber
      have := lt_nextVersion hhigher
      omega
  · obtain ⟨rfl, -, hnone⟩ := hnew
    apply hwrote.ordered h
    · intro id' row' hrow' hidentity hkey
      exact absurd ⟨hidentity, hkey⟩ (hnone id' row' hrow')
    · intro number hnumber
      exact absurd hnumber (hunused number)

theorem Writes.entries {newId : Uuid} (hw : Writes shelf shelf' newId) (id : Uuid)
    (hid : (shelf'.knowledge.get id).isSome = true) :
    (shelf.knowledge.get id).isSome = true ∨ id = newId := by
  obtain ⟨id', row, content, hwrote, -, hcase⟩ := hw.entry
  rw [hwrote.knowledge] at hid
  split at hid
  · rename_i hsame
    rw [hsame]
    rcases hcase with ⟨old, hold, -⟩ | ⟨hnew, -⟩
    · left
      rw [hold]
      rfl
    · exact .inr hnew
  · exact .inl hid

/-! ## Changing rows -/

/-- Rows change, but neither their keys nor the versions. -/
structure Changed (shelf shelf' : Shelf) : Prop where
  versions : shelf'.versions = shelf.versions
  rows : ∀ id row', shelf'.knowledge.get id = some row' → ∃ row, shelf.knowledge.get id = some row ∧
    row'.workspaceIdentity = row.workspaceIdentity ∧ row'.key = row.key ∧
    (shelf.versions.get (id, row'.activeVersion)).isSome = true
  kept : ∀ id, (shelf.knowledge.get id).isSome = true → (shelf'.knowledge.get id).isSome = true

theorem Changed.ordered (hc : Changed shelf shelf') (h : Ordered shelf used) :
    Ordered shelf' used ∧ Grows used shelf shelf' := by
  refine ⟨⟨?_, ?_, ?_, ?_⟩, ?_⟩
  · intro id row' hrow'
    obtain ⟨row, -, -, -, hactive⟩ := hc.rows id row' hrow'
    rw [hc.versions]
    exact hactive
  · intro id₁ id₂ row₁ row₂ hrow₁ hrow₂ hidentity hkey
    obtain ⟨old₁, hold₁, hidentity₁, hkey₁, -⟩ := hc.rows id₁ row₁ hrow₁
    obtain ⟨old₂, hold₂, hidentity₂, hkey₂, -⟩ := hc.rows id₂ row₂ hrow₂
    apply h.unique id₁ id₂ old₁ old₂ hold₁ hold₂
    · rw [← hidentity₁, ← hidentity₂, hidentity]
    · rw [← hkey₁, ← hkey₂, hkey]
  · intro id number version hversion
    rw [hc.versions] at hversion
    exact hc.kept id (h.owned id number version hversion)
  · intro id row' hrow' number hnumber
    obtain ⟨row, hrow, -⟩ := hc.rows id row' hrow'
    rw [hc.versions]
    exact h.highest id row hrow number hnumber
  · intro id number hnumber
    rw [hc.versions] at hnumber
    exact .inl hnumber

/-- An update of rows that leaves their keys and names versions that are there. -/
theorem changed_updateWhere (h : Ordered shelf used) {p : Uuid → Row → Bool} {f : Row → Row}
    (hkey : ∀ row, (f row).workspaceIdentity = row.workspaceIdentity ∧ (f row).key = row.key)
    (hactive : ∀ id row, shelf.knowledge.get id = some row → p id row = true →
      (shelf.versions.get (id, (f row).activeVersion)).isSome = true) :
    Changed shelf { shelf with knowledge := shelf.knowledge.updateWhere p f } := by
  refine ⟨rfl, ?_, ?_⟩
  · intro id row' hrow'
    rw [Table.get_updateWhere, Option.map_eq_some_iff] at hrow'
    obtain ⟨row, hrow, rfl⟩ := hrow'
    refine ⟨row, hrow, ?_⟩
    split
    · rename_i hp
      exact ⟨(hkey row).1, (hkey row).2, hactive id row hrow hp⟩
    · exact ⟨rfl, rfl, h.active id row hrow⟩
  · intro id hsome
    rw [Table.get_updateWhere, Option.isSome_map]
    exact hsome

theorem activate_changed (h : Ordered shelf used) {workspace : WorkspaceIdentity} {id : Uuid}
    {version : Nat} {now : Time}
    (hok : activateKnowledge shelf workspace id version now = .ok shelf') :
    Changed shelf shelf' := by
  simp only [activateKnowledge, bind_eq_ok, ensure_eq_ok] at hok
  obtain ⟨_, _, _, ⟨hversion, _⟩, hpure⟩ := hok
  cases hpure
  apply changed_updateWhere h
  · intro row
    exact ⟨rfl, rfl⟩
  · intro id' row _ hp
    simp only [ofWorkspace, Bool.and_eq_true, decide_eq_true_eq] at hp
    rw [hp.1]
    exact hversion

theorem setPinned_changed (h : Ordered shelf used) {workspace : WorkspaceIdentity} {id : Uuid}
    {pinned : Bool} {now : Time}
    (hok : setKnowledgePinned shelf workspace id pinned now = .ok shelf') :
    Changed shelf shelf' := by
  simp only [setKnowledgePinned, bind_eq_ok, ensure_eq_ok] at hok
  obtain ⟨_, _, hpure⟩ := hok
  cases hpure
  exact changed_updateWhere h (fun _ => ⟨rfl, rfl⟩) fun id' row hrow _ => h.active id' row hrow

theorem delete_changed (h : Ordered shelf used) {workspace : WorkspaceIdentity} {id : Uuid}
    {now : Time} (hok : deleteKnowledge shelf workspace id now = .ok shelf') :
    Changed shelf shelf' := by
  simp only [deleteKnowledge, bind_eq_ok, ensure_eq_ok] at hok
  obtain ⟨_, _, hpure⟩ := hok
  cases hpure
  exact changed_updateWhere h (fun _ => ⟨rfl, rfl⟩) fun id' row hrow _ => h.active id' row hrow

theorem tombstoneIdle_changed (h : Ordered shelf used) (retention : Retention) (maxRows : Nat)
    (now : Time) : Changed shelf (tombstoneIdle shelf retention maxRows now) :=
  changed_updateWhere h (fun _ => ⟨rfl, rfl⟩) fun id' row hrow _ => h.active id' row hrow

/-! ## What a call leaves -/

theorem Grows.trans {shelf'' : Shelf} (h : Grows used shelf shelf')
    (h' : Grows used shelf' shelf'') : Grows used shelf shelf'' := by
  intro id number hnumber
  rcases h' id number hnumber with hearlier | habove
  · exact h id number hearlier
  · exact .inr habove

theorem grows_refl (shelf : Shelf) : Grows used shelf shelf := fun _ _ hnumber => .inl hnumber

theorem leaves_refl (id : Uuid) (shelf : Shelf) : Leaves id shelf shelf :=
  fun row hrow hpinned => ⟨⟨row, hrow, hpinned, fun hnone => hnone⟩, fun _ _ hversion => hversion⟩

theorem Leaves.trans {id : Uuid} {shelf'' : Shelf} (h : Leaves id shelf shelf')
    (h' : Leaves id shelf' shelf'') : Leaves id shelf shelf'' := by
  intro row hrow hpinned
  obtain ⟨⟨row', hrow', hpinned', htombstoned'⟩, hversions'⟩ := h row hrow hpinned
  obtain ⟨⟨row'', hrow'', hpinned'', htombstoned''⟩, hversions''⟩ := h' row' hrow' hpinned'
  refine ⟨⟨row'', hrow'', hpinned'', fun hnone => htombstoned'' (htombstoned' hnone)⟩, ?_⟩
  intro number version hversion
  exact hversions'' number version (hversions' number version hversion)

theorem Writes.keeps {newId : Uuid} (hw : Writes shelf shelf' newId) (h : Ordered shelf used) :
    Keeps shelf shelf' := by
  obtain ⟨id, row, content, hwrote, -, hcase⟩ := hw.entry
  have hfree : shelf.versions.get (id, row.activeVersion) = none := by
    rcases hcase with ⟨_, _, _, _, _, hnext⟩ | ⟨rfl, hnone, -⟩
    · rw [hnext]
      exact get_nextVersion shelf id
    · rw [Option.eq_none_iff_forall_ne_some]
      intro version hversion
      have howned := h.owned _ _ version hversion
      rw [hnone] at howned
      cases howned
  constructor
  · intro id' hid'
    rw [hwrote.knowledge]
    split
    · rfl
    · exact hid'
  · intro number version hversion
    rw [hwrote.versions, if_neg]
    · exact hversion
    · rintro rfl
      rw [hfree] at hversion
      cases hversion

theorem Writes.leaves {newId : Uuid} (hw : Writes shelf shelf' newId) (h : Ordered shelf used)
    (id : Uuid) : Leaves id shelf shelf' := by
  have hkeeps := hw.keeps h
  obtain ⟨target, row', content, hwrote, htombstoned, hcase⟩ := hw.entry
  intro row hrow hpinned
  refine ⟨?_, fun number version hversion => hkeeps.versions (id, number) version hversion⟩
  rw [hwrote.knowledge]
  split
  · rename_i hid
    subst hid
    rcases hcase with ⟨old, hold, -, -, hpin, -⟩ | ⟨rfl, hnone, -⟩
    · rw [hrow] at hold
      cases hold
      exact ⟨row', rfl, hpin hpinned, fun _ => htombstoned⟩
    · rw [hnone] at hrow
      cases hrow
  · exact ⟨row, hrow, hpinned, fun hnone => hnone⟩

theorem Writes.extends {newId : Uuid} (hw : Writes shelf shelf' newId) (h : Ordered shelf used)
    (hunused : ∀ number, (newId, number) ∉ used) : Extends used [newId] shelf shelf' := by
  obtain ⟨hordered, hgrows⟩ := hw.ordered h hunused
  exact ⟨hordered, hgrows, fun id hid => (hw.entries id hid).imp_right List.mem_singleton.2,
    hw.keeps h⟩

theorem Changed.extends (hc : Changed shelf shelf') (h : Ordered shelf used)
    (minted : List Uuid) : Extends used minted shelf shelf' := by
  obtain ⟨hordered, hgrows⟩ := hc.ordered h
  refine ⟨hordered, hgrows, ?_, hc.kept, ?_⟩
  · intro id hid
    obtain ⟨row', hrow'⟩ := Option.isSome_iff_exists.1 hid
    obtain ⟨row, hrow, -⟩ := hc.rows id row' hrow'
    left
    rw [hrow]
    rfl
  · intro number version hversion
    rw [hc.versions]
    exact hversion

theorem keeps_refl (shelf : Shelf) : Keeps shelf shelf :=
  ⟨fun _ hid => hid, fun _ _ hversion => hversion⟩

theorem extends_refl (h : Ordered shelf used) (minted : List Uuid) :
    Extends used minted shelf shelf :=
  ⟨h, grows_refl shelf, fun _ hid => .inl hid, keeps_refl shelf⟩

/-- What is minted for later is not there yet. -/
theorem Extends.fresh {minted : List Uuid} (h : Extends used minted shelf shelf') {id : Uuid}
    (hid : id ∉ minted) (hnone : shelf.knowledge.get id = none) :
    shelf'.knowledge.get id = none := by
  rw [← Option.not_isSome_iff_eq_none]
  intro hsome
  rcases h.entries id hsome with hold | hminted
  · rw [hnone] at hold
    cases hold
  · exact hid hminted

theorem Extends.trans {minted minted' : List Uuid} {shelf'' : Shelf}
    (h : Extends used minted shelf shelf') (h' : Extends used minted' shelf' shelf'') :
    Extends used (minted ++ minted') shelf shelf'' := by
  refine ⟨h'.ordered, h.grows.trans h'.grows, ?_, ?_, ?_⟩
  · intro id hid
    rw [List.mem_append]
    rcases h'.entries id hid with hid | hid
    · exact (h.entries id hid).imp_right .inl
    · exact .inr (.inr hid)
  · intro id hid
    exact h'.keeps.entries id (h.keeps.entries id hid)
  · intro number version hversion
    exact h'.keeps.versions number version (h.keeps.versions number version hversion)

/-- An update that leaves the pin of the entry, and does not tombstone it. -/
theorem leaves_updateWhere {id : Uuid} {p : Uuid → Row → Bool} {f : Row → Row}
    (h : ∀ row, shelf.knowledge.get id = some row → row.pinned = true → p id row = true →
      (f row).pinned = true ∧ (row.tombstonedAt = none → (f row).tombstonedAt = none)) :
    Leaves id shelf ⟨shelf.knowledge.updateWhere p f, shelf.versions⟩ := by
  intro row hrow hpinned
  refine ⟨⟨if p id row then f row else row, ?_, ?_⟩, fun _ _ hversion => hversion⟩
  · rw [Table.get_updateWhere, hrow]
    rfl
  · split
    · rename_i hp
      exact h row hrow hpinned hp
    · exact ⟨hpinned, fun hnone => hnone⟩

/-! ## Distillation -/

/-- A candidate writes a version, or tombstones an entry that is not pinned. -/
theorem applyCandidate_cases (h : Ordered shelf used) {lease : Distillation} {index : Nat}
    {newId : Uuid} {now : Time} {candidate : Candidate} (hnew : shelf.knowledge.get newId = none)
    (hok : applyCandidate shelf lease index newId now candidate = .ok shelf') :
    Writes shelf shelf' newId ∨ shelf' = shelf ∨
      ∃ id row, shelf.knowledge.get id = some row ∧ row.pinned = false ∧
        shelf' = ⟨shelf.knowledge.updateWhere (fun id' _ => id' = id) fun row =>
          { row with tombstonedAt := some now, updatedAt := now }, shelf.versions⟩ := by
  cases candidate with
  | upsert key content confidence pinned =>
    exact .inl (applyDistilledVersion_writes h hnew hok)
  | tombstone key confidence =>
    unfold applyCandidate at hok
    dsimp only at hok
    split at hok
    · cases hok
      exact .inr (.inl rfl)
    · rename_i id row hfound
      cases hok
      rw [Option.filter_eq_some_iff] at hfound
      refine .inr (.inr ⟨id, row, (find_eq_some hfound.1).1, ?_, rfl⟩)
      simpa using hfound.2

/-- One candidate keeps the tables in order and leaves what is pinned. -/
theorem applyCandidate_extends (h : Ordered shelf used) {lease : Distillation} {index : Nat}
    {newId : Uuid} {now : Time} {candidate : Candidate} (hnew : shelf.knowledge.get newId = none)
    (hunused : ∀ number, (newId, number) ∉ used)
    (hok : applyCandidate shelf lease index newId now candidate = .ok shelf') :
    Extends used [newId] shelf shelf' ∧ ∀ id, Leaves id shelf shelf' := by
  rcases applyCandidate_cases h hnew hok with hw | rfl | ⟨id, row, hrow, hunpinned, rfl⟩
  · exact ⟨hw.extends h hunused, hw.leaves h⟩
  · exact ⟨extends_refl h _, fun id => leaves_refl id _⟩
  · constructor
    · apply Changed.extends _ h
      exact changed_updateWhere h (fun _ => ⟨rfl, rfl⟩) fun id' row hrow _ => h.active id' row hrow
    · intro id'
      apply leaves_updateWhere
      intro row' hrow' hpinned hid'
      obtain rfl : id' = id := of_decide_eq_true hid'
      rw [hrow] at hrow'
      cases hrow'
      rw [hunpinned] at hpinned
      cases hpinned

/-- Each candidate keeps the tables in order; what is minted for the others stays unused. -/
theorem applyCandidates_extends {lease : Distillation} {now : Time}
    (candidates : List (Uuid × Candidate)) {index : Nat} (h : Ordered shelf used)
    (hdistinct : (candidates.map Prod.fst).Nodup)
    (hnew : ∀ id ∈ candidates.map Prod.fst, shelf.knowledge.get id = none)
    (hunused : ∀ id ∈ candidates.map Prod.fst, ∀ number, (id, number) ∉ used)
    (hok : applyCandidates lease now index candidates shelf = .ok shelf') :
    Extends used (candidates.map Prod.fst) shelf shelf' ∧ ∀ id, Leaves id shelf shelf' := by
  induction candidates generalizing index shelf with
  | nil =>
    cases hok
    exact ⟨extends_refl h _, fun id => leaves_refl id _⟩
  | cons candidate candidates ih =>
    obtain ⟨newId, candidate⟩ := candidate
    simp only [applyCandidates, bind_eq_ok] at hok
    obtain ⟨shelf₁, hfirst, hrest⟩ := hok
    rw [List.map_cons] at hdistinct hnew hunused
    obtain ⟨hfresh, hdistinct⟩ := List.nodup_cons.1 hdistinct
    obtain ⟨hextends, hleaves⟩ := applyCandidate_extends h
      (hnew newId List.mem_cons_self) (hunused newId List.mem_cons_self) hfirst
    have hnew₁ : ∀ id ∈ candidates.map Prod.fst, shelf₁.knowledge.get id = none := by
      intro id hid
      refine hextends.fresh ?_ (hnew id (List.mem_cons_of_mem _ hid))
      rw [List.mem_singleton]
      rintro rfl
      exact hfresh hid
    obtain ⟨hextends', hleaves'⟩ := ih hextends.ordered hdistinct hnew₁
      (fun id hid => hunused id (List.mem_cons_of_mem _ hid)) hrest
    exact ⟨hextends.trans hextends', fun id => (hleaves id).trans (hleaves' id)⟩

/-! ## Maintenance -/

/-- Entries go with their versions. -/
theorem remove_ordered (h : Ordered shelf used) (gone : List Uuid) :
    Ordered ⟨shelf.knowledge.deleteWhere fun id _ => id ∈ gone,
      shelf.versions.deleteWhere fun number _ => number.1 ∈ gone⟩ used := by
  have hrow : ∀ id row, (shelf.knowledge.deleteWhere fun id _ => id ∈ gone).get id = some row →
      shelf.knowledge.get id = some row ∧ id ∉ gone := by
    intro id row hget
    rw [Table.get_deleteWhere, Option.filter_eq_some_iff] at hget
    simpa using hget
  have hversion : ∀ id number, id ∉ gone →
      (shelf.versions.deleteWhere fun number _ => number.1 ∈ gone).get (id, number) =
        shelf.versions.get (id, number) := by
    intro id number hid
    rw [Table.get_deleteWhere]
    cases shelf.versions.get (id, number) <;> simp [hid]
  constructor
  · intro id row hget
    obtain ⟨hold, hid⟩ := hrow id row hget
    rw [hversion id _ hid]
    exact h.active id row hold
  · intro id₁ id₂ row₁ row₂ hget₁ hget₂ hidentity hkey
    exact h.unique id₁ id₂ row₁ row₂ (hrow id₁ row₁ hget₁).1 (hrow id₂ row₂ hget₂).1 hidentity hkey
  · intro id number version hget
    have hid : id ∉ gone := by
      rw [Table.get_deleteWhere, Option.filter_eq_some_iff] at hget
      simpa using hget.2
    have howned := h.owned id number version (Table.get_of_deleteWhere hget)
    rw [Table.get_deleteWhere]
    obtain ⟨row, hold⟩ := Option.isSome_iff_exists.1 howned
    simp [hold, hid]
  · intro id row hget number hnumber
    obtain ⟨hold, hid⟩ := hrow id row hget
    obtain ⟨higher, hle, hhigher⟩ := h.highest id row hold number hnumber
    refine ⟨higher, hle, ?_⟩
    rw [hversion id higher hid]
    exact hhigher

/-- The highest version of an entry is never one that may go. -/
theorem exists_unprunable {retention : Retention} (hkeep : retention.versionsPerKey ≠ 0)
    {id : Uuid} {number : Nat} (hnumber : (shelf.versions.get (id, number)).isSome = true) :
    ∃ higher, number ≤ higher ∧ (shelf.versions.get (id, higher)).isSome = true ∧
      prunable shelf retention (id, higher) = false := by
  have hmem := mem_numbers.2 hnumber
  obtain ⟨higher, hhigher, hmax⟩ : ∃ higher ∈ shelf.numbers id,
      ∀ other ∈ shelf.numbers id, other ≤ higher := by
    cases hmaximum : (shelf.numbers id).max? with
    | none =>
      rw [List.max?_eq_none_iff] at hmaximum
      rw [hmaximum] at hmem
      cases hmem
    | some higher =>
      have hspec := List.max?_eq_some_iff.1 hmaximum
      exact ⟨higher, hspec.1, hspec.2⟩
  refine ⟨higher, hmax number hmem, mem_numbers.1 hhigher, ?_⟩
  have hrank : retainedRank shelf (id, higher) ≤ 1 := by
    have hcount : retainedRank shelf (id, higher) = (shelf.numbers id).count higher := by
      apply List.countP_congr
      intro other hother
      have := hmax other hother
      simp only [decide_eq_true_eq, beq_iff_eq]
      omega
    rw [hcount]
    exact List.nodup_iff_count_le_one.1 (nodup_numbers shelf id) higher
  have hkept : decide (retention.versionsPerKey < retainedRank shelf (id, higher)) = false := by
    rw [decide_eq_false_iff_not]
    omega
  unfold prunable
  rw [hkept]
  cases shelf.knowledge.get id <;> simp

theorem prune_ordered (h : Ordered shelf used) {retention : Retention}
    (hkeep : retention.versionsPerKey ≠ 0) {pruned : List (Uuid × Nat)}
    (hpruned : ∀ number ∈ pruned, prunable shelf retention number = true) :
    Ordered (pruneVersions shelf pruned) used := by
  have hstays : ∀ number, (shelf.versions.get number).isSome = true →
      prunable shelf retention number = false →
      ((pruneVersions shelf pruned).versions.get number).isSome = true := by
    intro number hsome hunprunable
    have hmem : number ∉ pruned := by
      intro hmem
      rw [hpruned number hmem] at hunprunable
      cases hunprunable
    unfold pruneVersions
    dsimp only
    rw [Table.get_deleteWhere]
    obtain ⟨version, hversion⟩ := Option.isSome_iff_exists.1 hsome
    simp [hversion, hmem]
  constructor
  · intro id row hrow
    apply hstays _ (h.active id row hrow)
    have hget : shelf.knowledge.get id = some row := hrow
    simp [prunable, hget]
  · exact h.unique
  · intro id number version hversion
    exact h.owned id number version (Table.get_of_deleteWhere hversion)
  · intro id row hrow number hnumber
    obtain ⟨higher, hle, hhigher⟩ := h.highest id row hrow number hnumber
    obtain ⟨highest, hle', hstored, hunprunable⟩ := exists_unprunable hkeep hhigher
    exact ⟨highest, hle.trans hle', hstays _ hstored hunprunable⟩

theorem removeTombstoned_ordered (h : Ordered shelf used) (retention : Retention) (maxRows : Nat) :
    Ordered (removeTombstoned shelf retention maxRows) used :=
  remove_ordered h _

theorem version_of_remove {retention : Retention} {maxRows : Nat} {number : Uuid × Nat}
    {version : Version}
    (h : (removeTombstoned shelf retention maxRows).versions.get number = some version) :
    shelf.versions.get number = some version :=
  Table.get_of_deleteWhere h

theorem row_of_remove {retention : Retention} {maxRows : Nat} {id : Uuid} {row : Row}
    (h : (removeTombstoned shelf retention maxRows).knowledge.get id = some row) :
    shelf.knowledge.get id = some row :=
  Table.get_of_deleteWhere h

theorem version_of_prune {pruned : List (Uuid × Nat)} {number : Uuid × Nat} {version : Version}
    (h : (pruneVersions shelf pruned).versions.get number = some version) :
    shelf.versions.get number = some version :=
  Table.get_of_deleteWhere h

theorem isSome_tombstoneIdle (shelf : Shelf) (retention : Retention) (maxRows : Nat) (now : Time)
    (id : Uuid) : ((tombstoneIdle shelf retention maxRows now).knowledge.get id).isSome =
      (shelf.knowledge.get id).isSome := by
  unfold tombstoneIdle
  dsimp only
  rw [Table.get_updateWhere, Option.isSome_map]

theorem maintain_ordered (h : Ordered shelf used) {retention : Retention} {maxRows : Nat}
    {pruned : List (Uuid × Nat)} {now : Time}
    (hok : maintain shelf retention maxRows pruned now = .ok shelf') :
    Ordered shelf' used ∧ Grows used shelf shelf' ∧
      ∀ id, (shelf'.knowledge.get id).isSome = true → (shelf.knowledge.get id).isSome = true := by
  simp only [maintain, bind_eq_ok, ensure_eq_ok] at hok
  obtain ⟨_, _, _, ⟨hkeep, _⟩, hpure⟩ := hok
  cases hpure
  have hchanged := tombstoneIdle_changed h retention maxRows now
  have hremoved := removeTombstoned_ordered (hchanged.ordered h).1 retention maxRows
  refine ⟨prune_ordered hremoved hkeep ?_, ?_, ?_⟩
  · intro number hnumber
    exact (List.mem_filter.1 (List.mem_of_mem_take hnumber)).2
  · intro id number hnumber
    left
    obtain ⟨version, hversion⟩ := Option.isSome_iff_exists.1 hnumber
    have hbefore := version_of_remove (version_of_prune hversion)
    rw [hchanged.versions] at hbefore
    exact Option.isSome_iff_exists.2 ⟨version, hbefore⟩
  · intro id hid
    obtain ⟨row, hrow⟩ := Option.isSome_iff_exists.1 hid
    have hbefore := row_of_remove hrow
    rw [← isSome_tombstoneIdle shelf retention maxRows now id, hbefore]
    rfl

/-! ## Runs -/

/-- Every call but maintenance keeps each version. -/
theorem perform_extends (h : Ordered shelf used) {action : Action}
    (hdistinct : action.mints.Nodup) (hnew : ∀ id ∈ action.mints, shelf.knowledge.get id = none)
    (hunused : ∀ id ∈ action.mints, ∀ number, (id, number) ∉ used)
    (hcall : ∀ retention maxRows pruned now, action ≠ .maintain retention maxRows pruned now)
    (hok : action.perform shelf = .ok shelf') : Extends used action.mints shelf shelf' := by
  cases action with
  | remember workspace key content source newId now =>
    have hw := remember_writes h (hnew newId List.mem_cons_self) hok
    exact hw.extends h (hunused newId List.mem_cons_self)
  | activate workspace id version now => exact (activate_changed h hok).extends h _
  | setPinned workspace id pinned now => exact (setPinned_changed h hok).extends h _
  | delete workspace id now => exact (delete_changed h hok).extends h _
  | completeDistillation authority candidates changed now =>
    simp only [Action.perform, completeDistillation, bind_eq_ok, ensure_eq_ok] at hok
    obtain ⟨_, _, lease, _, shelf₁, happlied, _, _, hpure⟩ := hok
    cases hpure
    exact (applyCandidates_extends candidates h hdistinct hnew hunused happlied).1
  | maintain retention maxRows pruned now => exact absurd rfl (hcall retention maxRows pruned now)

/-- What a call does to the tables, and to the entries that there are. -/
theorem perform_ordered (h : Ordered shelf used) {action : Action}
    (hdistinct : action.mints.Nodup) (hnew : ∀ id ∈ action.mints, shelf.knowledge.get id = none)
    (hunused : ∀ id ∈ action.mints, ∀ number, (id, number) ∉ used)
    (hok : action.perform shelf = .ok shelf') :
    Ordered shelf' used ∧ Grows used shelf shelf' ∧
      ∀ id, (shelf'.knowledge.get id).isSome = true →
        (shelf.knowledge.get id).isSome = true ∨ id ∈ action.mints := by
  by_cases hcall : ∃ retention maxRows pruned now, action = .maintain retention maxRows pruned now
  · obtain ⟨retention, maxRows, pruned, now, rfl⟩ := hcall
    obtain ⟨hordered, hgrows, hentries⟩ := maintain_ordered h hok
    exact ⟨hordered, hgrows, fun id hid => .inl (hentries id hid)⟩
  · push Not at hcall
    have hextends := perform_extends h hdistinct hnew hunused hcall hok
    exact ⟨hextends.ordered, hextends.grows, hextends.entries⟩

/-- What is stored counts as used. -/
theorem Ordered.use (h : Ordered shelf used) :
    Ordered shelf (shelf.versions.entries.map Prod.fst ++ used) := by
  refine ⟨h.active, h.unique, h.owned, ?_⟩
  intro id row hrow number hnumber
  rcases List.mem_append.1 hnumber with hstored | hused
  · obtain ⟨⟨number', version⟩, hmem, hsame⟩ := List.mem_map.1 hstored
    obtain rfl : number' = (id, number) := hsame
    refine ⟨number, Nat.le_refl _, ?_⟩
    rw [Table.get_eq_some.2 hmem]
    rfl
  · exact h.highest id row hrow number hused

theorem step_eq_some {action : Action} (hs : step s action = some t) :
    (action.mints.Nodup ∧ ∀ id ∈ action.mints, id ∉ s.issued) ∧
      t = ⟨(action.perform s.shelf).toOption.getD s.shelf, action.mints ++ s.issued,
        ((action.perform s.shelf).toOption.getD s.shelf).versions.entries.map Prod.fst ++
          s.used⟩ := by
  unfold step at hs
  split at hs
  · rename_i hminted
    cases hs
    exact ⟨hminted, rfl⟩
  · cases hs

theorem Versioned.unissued (h : Versioned s) {minted : List Uuid}
    (hfresh : ∀ id ∈ minted, id ∉ s.issued) :
    ∀ id ∈ minted, s.shelf.knowledge.get id = none := by
  intro id hid
  rw [Option.eq_none_iff_forall_ne_some]
  intro row hrow
  exact hfresh id hid (h.entries id row hrow)

theorem Versioned.unused (h : Versioned s) {minted : List Uuid}
    (hfresh : ∀ id ∈ minted, id ∉ s.issued) :
    ∀ id ∈ minted, ∀ number, (id, number) ∉ s.used :=
  fun id hid _ hnumber => hfresh id hid (h.numbers _ hnumber)

/-- One call keeps the store versioned, and every number that it adds is a new highest one. -/
theorem Versioned.step (h : Versioned s) {action : Action} (hs : step s action = some t) :
    Versioned t ∧ Grows s.used s.shelf t.shelf := by
  obtain ⟨⟨hdistinct, hfresh⟩, rfl⟩ := step_eq_some hs
  have hshelf : Ordered ((action.perform s.shelf).toOption.getD s.shelf) s.used ∧
      Grows s.used s.shelf ((action.perform s.shelf).toOption.getD s.shelf) ∧
      ∀ id, ((((action.perform s.shelf).toOption.getD s.shelf)).knowledge.get id).isSome = true →
        (s.shelf.knowledge.get id).isSome = true ∨ id ∈ action.mints := by
    cases hok : action.perform s.shelf with
    | error error => exact ⟨h.ordered, grows_refl _, fun id hid => .inl hid⟩
    | ok shelf' =>
      exact perform_ordered h.ordered hdistinct (h.unissued hfresh) (h.unused hfresh) hok
  obtain ⟨hordered, hgrows, hentries⟩ := hshelf
  have hissued : ∀ id,
      ((((action.perform s.shelf).toOption.getD s.shelf)).knowledge.get id).isSome = true →
        id ∈ action.mints ++ s.issued := by
    intro id hid
    rcases hentries id hid with hold | hminted
    · obtain ⟨row, hrow⟩ := Option.isSome_iff_exists.1 hold
      exact List.mem_append_right _ (h.entries id row hrow)
    · exact List.mem_append_left _ hminted
  refine ⟨⟨hordered.use, ?_, ?_⟩, hgrows⟩
  · intro id row hrow
    apply hissued
    exact Option.isSome_iff_exists.2 ⟨row, hrow⟩
  · intro number hnumber
    rcases List.mem_append.1 hnumber with hstored | hused
    · obtain ⟨⟨⟨id, n⟩, version⟩, hmem, rfl⟩ := List.mem_map.1 hstored
      exact hissued id (hordered.owned id n version (Table.get_eq_some.2 hmem))
    · exact List.mem_append_right _ (h.numbers number hused)

theorem versioned_initial : Versioned State.initial := by
  refine ⟨⟨?_, ?_, ?_, ?_⟩, ?_, ?_⟩ <;> simp [State.initial, Shelf.empty]

theorem versioned_of_run {actions : List Action}
    (h : Machine.Run step Machine.anyStep State.initial actions s) : Versioned s :=
  h.invariant (fun _ _ _ hs _ hstep => (hs.step hstep).1) versioned_initial

/-- **Knowledge keeps its versions in order.** In every state of every run an entry's active version
is stored, a key of a workspace has one entry, and the highest number an entry ever had is still
stored; and whatever is called next, a number that it adds is above all of these. -/
theorem knowledge_versioned {actions : List Action}
    (h : Machine.Run step Machine.anyStep State.initial actions s) :
    Ordered s.shelf s.used ∧ ∀ action t, step s action = some t → Grows s.used s.shelf t.shelf :=
  ⟨(versioned_of_run h).ordered, fun _ _ hs => ((versioned_of_run h).step hs).2⟩

/-- A key is written three times, and maintenance keeps two versions of it. -/
def rewrittenKey : List Action :=
  [.remember ⟨"/work", ⟨0, 0⟩⟩ "style" "tabs" none 1 10,
    .remember ⟨"/work", ⟨0, 0⟩⟩ "style" "spaces" none 2 20,
    .remember ⟨"/work", ⟨0, 0⟩⟩ "style" "both" none 3 30,
    .maintain ⟨0, 0, 2⟩ 10 [(1, 1), (1, 2)] 40]

theorem rewritten_key_versioned : ∃ s,
    Machine.run step State.initial rewrittenKey = some s ∧
    s.shelf.versions.entries.map Prod.fst = [(1, 2), (1, 3)] ∧ Ordered s.shelf s.used := by
  obtain ⟨s, hs, hnumbers⟩ : ∃ s, Machine.run step State.initial rewrittenKey = some s ∧
      s.shelf.versions.entries.map Prod.fst = [(1, 2), (1, 3)] := Option.map_eq_some_iff.1
    (show (Machine.run step State.initial rewrittenKey).map
      (fun s => s.shelf.versions.entries.map Prod.fst) = some [(1, 2), (1, 3)] by decide +kernel)
  exact ⟨s, hs, hnumbers, (knowledge_versioned (Machine.run_eq_some_iff.1 hs)).1⟩

end Knowledge

end Memory

end Emelex

import Emelex.Memory.Assets

/-!
# No collection loses live bytes

* `Safe` — what holds in every state: a row has its file, a link its row, and what was returned is
  there until a collection whose cutoff is not before it.
* `Spares`, `FindsFile` — the steps that keep it: a collection removes no row of content that was
  stored again after its cutoff, and none that fails has lost the file meanwhile.
* `Kept` — what the store promises of its assets.

Principal results: `Safe.step`, `assets_kept`.
-/

set_option autoImplicit false

namespace Emelex

namespace Memory

namespace Assets

variable {D : Type} [LinearOrder D] {sha : List UInt8 → D} {s t : State D}

/-! ## Specification -/

/-- A collection removes no row of content that has been stored again after its cutoff: a row keeps
its `created_at` then. -/
def Spares (s : State D) : Action D → Prop
  | .gcRemoveRow id => ∀ cutoff candidate rest,
      s.collectors id = some ⟨cutoff, .catalog (candidate :: rest)⟩ →
      removesRow s cutoff candidate →
      ∀ stored ∈ s.returned, stored.1.sha256 = candidate.sha256 → (stored.2 : ℤ) ≤ cutoff
  | _ => True

/-- A collection that fails, or finds a file, where it has removed the row finds the row's own. -/
def FindsFile (sha : List UInt8 → D) (s : State D) : Action D → Prop
  | .gcRemoveFile id fault => ∀ cutoff candidate rest,
      s.collectors id = some ⟨cutoff, .rowRemoved candidate rest⟩ →
      s.assets.get candidate.sha256 = none →
      fault = true ∨ (s.files candidate.sha256).isSome = true →
      ∃ file, s.files candidate.sha256 = some file ∧
        verified sha file candidate.sha256 candidate.row.bytes
  | _ => True

/-- The condition on a step. -/
def Careful (sha : List UInt8 → D) (s : State D) (a : Action D) : Prop :=
  Spares s a ∧ FindsFile sha s a

/-- What the store promises of its assets. -/
structure Kept (sha : List UInt8 → D) (s : State D) : Prop where
  file : ∀ name row, s.assets.get name = some row →
    ∃ file, s.files name = some file ∧ sha file.content = name ∧ file.content.length = row.bytes
  linked : ∀ link ∈ s.links, (s.assets.get link.2).isSome = true
  restored : ∀ id fault t cutoff candidate rest,
    s.collectors id = some ⟨cutoff, .rowRemoved candidate rest⟩ →
    step sha s (.gcRemoveFile id fault) = some t → t.collectors id = some ⟨cutoff, .failed⟩ →
    t.assets.get candidate.sha256 = some candidate.row
  readable : ∀ reference time, (reference, time) ∈ s.returned →
    (∀ cutoff ∈ s.cutoffs, cutoff < (time : ℤ)) → ∀ now, ∃ bytes,
      (readAsset sha s reference now).1 = .ok bytes ∧ sha bytes = reference.sha256

/-- What holds in every state of a run of careful steps. -/
structure Safe (sha : List UInt8 → D) (s : State D) : Prop where
  named : ∀ name file, s.files name = some file →
    sha file.content = name ∧ file.content.length ≤ MAX_ASSET_BYTES
  stored : ∀ name row, s.assets.get name = some row →
    ∃ file, s.files name = some file ∧ file.content.length = row.bytes
  linked : ∀ link ∈ s.links, (s.assets.get link.2).isSome = true
  kept : ∀ stored ∈ s.returned,
    (∃ row, s.assets.get stored.1.sha256 = some row ∧ row.bytes = stored.1.bytes) ∨
      ∃ cutoff ∈ s.cutoffs, (stored.2 : ℤ) ≤ cutoff
  begun : ∀ id collector, s.collectors id = some collector → collector.cutoff ∈ s.cutoffs

/-! ## What changes -/

theorem Safe.setPhase (h : Safe sha s) {id : ℕ} {cutoff : ℤ} {phase : Phase D}
    (hcutoff : cutoff ∈ s.cutoffs) : Safe sha (s.setPhase id cutoff phase) := by
  refine ⟨h.named, h.stored, h.linked, h.kept, fun other collector hcollector => ?_⟩
  by_cases hother : other = id
  · subst hother
    have hsame := (Function.update_self other _ s.collectors).symm.trans hcollector
    cases hsame
    exact hcutoff
  · exact h.begun other collector
      ((Function.update_of_ne hother _ s.collectors).symm.trans hcollector)

/-- Another time of verification. -/
theorem Safe.verify (h : Safe sha s) (name : D) (now : Time) : Safe sha { s with
    assets := s.assets.updateWhere (fun other _ => other = name)
      fun row => { row with verifiedAt := now } } := by
  have hget : ∀ other row, (s.assets.updateWhere (fun other _ => decide (other = name))
      fun row => { row with verifiedAt := now }).get other = some row →
      ∃ row', s.assets.get other = some row' ∧ row'.bytes = row.bytes := by
    intro other row hrow
    rw [Table.get_updateWhere, Option.map_eq_some_iff] at hrow
    obtain ⟨row', hrow', rfl⟩ := hrow
    refine ⟨row', hrow', ?_⟩
    split <;> rfl
  have hsome : ∀ other, ((s.assets.updateWhere (fun other _ => decide (other = name))
      fun row => { row with verifiedAt := now }).get other).isSome =
      (s.assets.get other).isSome := by
    intro other
    rw [Table.get_updateWhere, Option.isSome_map]
  refine ⟨h.named, fun other row hrow => ?_, fun link hlink => ?_, fun stored hstored => ?_,
    h.begun⟩
  · obtain ⟨row', hrow', hbytes⟩ := hget other row hrow
    obtain ⟨file, hfile, hlength⟩ := h.stored other row' hrow'
    exact ⟨file, hfile, hlength.trans hbytes⟩
  · rw [hsome]
    exact h.linked link hlink
  · refine (h.kept stored hstored).imp_left fun ⟨row, hrow, hbytes⟩ => ?_
    have hnew : (s.assets.updateWhere (fun other _ => decide (other = name))
        fun row => { row with verifiedAt := now }).get stored.1.sha256 =
        some (if decide (stored.1.sha256 = name) then { row with verifiedAt := now } else row) := by
      rw [Table.get_updateWhere, hrow]
      rfl
    refine ⟨_, hnew, ?_⟩
    split
    · exact hbytes
    · exact hbytes

theorem Safe.publish (h : Safe sha s) {content : List UInt8} (written : Time)
    (hlength : content.length ≤ MAX_ASSET_BYTES) : Safe sha (publish sha s content written) := by
  unfold Assets.publish
  split
  · exact h
  · rename_i hnone
    have hother : ∀ name, s.files name ≠ none → name ≠ sha content := by
      rintro name hname rfl
      exact hname hnone
    refine ⟨fun name file hfile => ?_, fun name row hrow => ?_, h.linked, h.kept, h.begun⟩
    · by_cases hname : name = sha content
      · subst hname
        have hsame := (Function.update_self (sha content) _ s.files).symm.trans hfile
        cases hsame
        exact ⟨rfl, hlength⟩
      · exact h.named name file ((Function.update_of_ne hname _ s.files).symm.trans hfile)
    · obtain ⟨file, hfile, hbytes⟩ := h.stored name row hrow
      refine ⟨file, ?_, hbytes⟩
      exact (Function.update_of_ne (hother name (by simp [hfile])) _ s.files).trans hfile

/-- A row for a file. -/
theorem Safe.insert (h : Safe sha s) {name : D} {row : AssetRow} {file : AssetFile}
    (hfree : s.assets.get name = none) (hfile : s.files name = some file)
    (hbytes : file.content.length = row.bytes) :
    Safe sha { s with assets := s.assets.insert name row } := by
  have hget := fun other => Table.get_insert s.assets name other row hfree
  refine ⟨h.named, fun other row' hrow => ?_, fun link hlink => ?_, fun stored hstored => ?_,
    h.begun⟩
  · rw [hget] at hrow
    split at hrow
    · rename_i hother
      subst hother
      cases hrow
      exact ⟨file, hfile, hbytes⟩
    · exact h.stored other row' hrow
  · have hsome := h.linked link hlink
    rw [hget]
    split
    · rfl
    · exact hsome
  · refine (h.kept stored hstored).imp_left fun ⟨row', hrow, hbytes'⟩ => ⟨row', ?_, hbytes'⟩
    have hother : stored.1.sha256 ≠ name := by
      intro hsame
      rw [hsame, hfree] at hrow
      cases hrow
    rw [hget, if_neg hother]
    exact hrow

theorem Safe.returnReference (h : Safe sha s) {reference : AssetRef D} {now : Time} {row : AssetRow}
    (hrow : s.assets.get reference.sha256 = some row) (hbytes : row.bytes = reference.bytes) :
    Safe sha { s with returned := (reference, now) :: s.returned } := by
  refine ⟨h.named, h.stored, h.linked, fun stored hstored => ?_, h.begun⟩
  rcases List.mem_cons.1 hstored with rfl | hstored
  · exact .inl ⟨row, hrow, hbytes⟩
  · exact h.kept stored hstored

/-- A row that goes, of content that was not stored after the cutoff. -/
theorem Safe.deleteRow (h : Safe sha s) {name : D} {cutoff : ℤ} (hcutoff : cutoff ∈ s.cutoffs)
    (hlinks : ∀ link ∈ s.links, link.2 ≠ name)
    (hstored : ∀ stored ∈ s.returned, stored.1.sha256 = name → (stored.2 : ℤ) ≤ cutoff) :
    Safe sha { s with assets := s.assets.deleteWhere fun other _ => other = name } := by
  have hget : ∀ other ≠ name,
      (s.assets.deleteWhere fun other _ => decide (other = name)).get other =
        s.assets.get other := by
    intro other hother
    rw [Table.get_deleteWhere, decide_eq_false hother]
    cases s.assets.get other <;> rfl
  refine ⟨h.named, fun other row hrow => h.stored other row (Table.get_of_deleteWhere hrow),
    fun link hlink => ?_, fun stored hmem => ?_, h.begun⟩
  · show ((s.assets.deleteWhere _).get link.2).isSome = true
    rw [hget _ (hlinks link hlink)]
    exact h.linked link hlink
  · by_cases hname : stored.1.sha256 = name
    · exact .inr ⟨cutoff, hcutoff, hstored stored hmem hname⟩
    · show (∃ row, (s.assets.deleteWhere _).get stored.1.sha256 = some row ∧ _) ∨ _
      rw [hget _ hname]
      exact h.kept stored hmem

/-- A file without a row goes. -/
theorem Safe.removeFile (h : Safe sha s) {name : D} (hnone : s.assets.get name = none) :
    Safe sha (s.setFile name none) := by
  refine ⟨fun other file hfile => ?_, fun other row hrow => ?_, h.linked, h.kept, h.begun⟩
  · by_cases hother : other = name
    · subst hother
      have hsame := (Function.update_self other _ s.files).symm.trans hfile
      cases hsame
    · exact h.named other file ((Function.update_of_ne hother _ s.files).symm.trans hfile)
  · have hget : s.assets.get other = some row := hrow
    have hother : other ≠ name := by
      rintro rfl
      rw [hnone] at hget
      cases hget
    obtain ⟨file, hfile, hbytes⟩ := h.stored other row hrow
    exact ⟨file, (Function.update_of_ne hother _ s.files).trans hfile, hbytes⟩

/-! ## The transactions -/

theorem Safe.store (h : Safe sha s) (kind : AssetKind) (content : List UInt8) (written now : Time) :
    Safe sha (storeAsset sha s kind content written now).2 := by
  unfold storeAsset
  split
  · exact h
  · rename_i hlength
    have hpublished := h.publish written (Nat.not_lt.1 hlength)
    dsimp only
    split
    · exact hpublished
    · rename_i file hfile
      split
      · rename_i hverified
        split
        · rename_i hnone
          have hrow := (Table.get_insert (Assets.publish sha s content written).assets _
            (sha content) ⟨content.length, now, now⟩ hnone).trans (if_pos rfl)
          exact (hpublished.insert hnone hfile hverified.2.1).returnReference hrow rfl
        · rename_i row hrow
          split
          · rename_i hbytes
            have hverify : ((Assets.publish sha s content written).assets.updateWhere
                (fun name _ => decide (name = sha content)) fun row =>
                  { row with verifiedAt := now }).get (sha content) =
                some { row with verifiedAt := now } := by
              rw [Table.get_updateWhere, hrow, Option.map_some, if_pos (decide_eq_true rfl)]
            exact (hpublished.verify (sha content) now).returnReference hverify hbytes
          · exact hpublished
      · exact hpublished

theorem Safe.read (h : Safe sha s) (reference : AssetRef D) (now : Time) :
    Safe sha (readAsset sha s reference now).2 := by
  unfold readAsset
  split
  · exact h
  · split
    · split
      · exact h
      · split
        · exact h.verify _ now
        · exact h
    · exact h

theorem Safe.gcStart (h : Safe sha s) {id : ℕ} {grace now : Time}
    (hs : gcStart s id grace now = some t) : Safe sha t := by
  unfold Assets.gcStart at hs
  split at hs
  · cases hs
  · cases hs
    have hcutoffs : Safe sha { s with cutoffs := ((now : ℤ) - grace) :: s.cutoffs } :=
      ⟨h.named, h.stored, h.linked, fun stored hstored => (h.kept stored hstored).imp_right
        fun ⟨cutoff, hcutoff, hle⟩ => ⟨cutoff, List.mem_cons_of_mem _ hcutoff, hle⟩,
        fun id collector hcollector => List.mem_cons_of_mem _ (h.begun id collector hcollector)⟩
    exact hcutoffs.setPhase List.mem_cons_self

theorem Safe.gcRemoveRow (h : Safe sha s) {id : ℕ} (hspares : Spares s (.gcRemoveRow id))
    (hs : gcRemoveRow s id = some t) : Safe sha t := by
  unfold Assets.gcRemoveRow at hs
  split at hs
  · rename_i cutoff candidate rest hcollector
    have hcutoff := h.begun id _ hcollector
    split at hs
    · rename_i hremoves
      cases hs
      have hcollectable := hremoves
      obtain ⟨row, -, -, -, -, hlinks⟩ := hcollectable
      have hstored := hspares cutoff candidate rest hcollector hremoves
      exact (h.deleteRow hcutoff hlinks hstored).setPhase hcutoff
    · cases hs
      exact h.setPhase hcutoff
  · rename_i cutoff hcollector
    cases hs
    exact h.setPhase (h.begun id _ hcollector)
  · cases hs

theorem Safe.gcRemoveFile (h : Safe sha s) {id : ℕ} {fault : Bool}
    (hfinds : FindsFile sha s (.gcRemoveFile id fault))
    (hs : gcRemoveFile sha s id fault = some t) : Safe sha t := by
  unfold Assets.gcRemoveFile at hs
  split at hs
  · rename_i cutoff candidate rest hcollector
    have hcutoff := h.begun id _ hcollector
    split at hs
    · cases hs
      exact h.setPhase hcutoff
    · rename_i hrow
      have hnone := Option.not_isSome_iff_eq_none.1 hrow
      have hrestore : fault = true ∨ (s.files candidate.sha256).isSome = true →
          Safe sha (restoreCatalogRow s candidate) := fun hfile => by
        obtain ⟨file, hfile, hverified⟩ := hfinds cutoff candidate rest hcollector hnone hfile
        exact h.insert hnone hfile hverified.2.1
      split at hs
      · rename_i hfault
        cases hs
        exact (hrestore (.inl hfault)).setPhase hcutoff
      · split at hs
        · cases hs
          exact h.setPhase hcutoff
        · rename_i file hfile
          split at hs
          · cases hs
            exact (h.removeFile hnone).setPhase hcutoff
          · cases hs
            exact (hrestore (.inr (by rw [hfile]; rfl))).setPhase hcutoff
  · cases hs

theorem Safe.gcRemoveOrphan (h : Safe sha s) {id : ℕ} {name : D} {fault : Bool}
    (hs : gcRemoveOrphan sha s id name fault = some t) : Safe sha t := by
  unfold Assets.gcRemoveOrphan at hs
  split at hs
  · rename_i cutoff hcollector
    have hcutoff := h.begun id _ hcollector
    split at hs
    · cases hs
      exact h
    · rename_i hrow
      have hnone := Option.not_isSome_iff_eq_none.1 hrow
      split at hs
      · cases hs
        exact h
      · split at hs
        · cases hs
          exact h.setPhase hcutoff
        · split at hs
          · cases hs
            exact h
          · split at hs
            · cases hs
              exact h.removeFile hnone
            · cases hs
              exact h.setPhase hcutoff
  · cases hs

/-- A careful step keeps the assets safe. -/
theorem Safe.step (h : Safe sha s) {a : Action D} (hcareful : Careful sha s a)
    (hs : step sha s a = some t) : Safe sha t := by
  cases a with
  | store kind content written now =>
    cases hs
    exact h.store kind content written now
  | storeInterrupted content written =>
    cases hs
    split
    · exact h
    · rename_i hlength
      exact h.publish written (Nat.not_lt.1 hlength)
  | link owner name =>
    unfold Assets.step addLink at hs
    dsimp only at hs
    split at hs
    · rename_i hsome
      cases hs
      exact ⟨h.named, h.stored, List.forall_mem_cons.2 ⟨hsome, h.linked⟩, h.kept, h.begun⟩
    · cases hs
  | unlink owner =>
    cases hs
    exact ⟨h.named, h.stored, fun link hlink => h.linked link (List.mem_filter.1 hlink).1, h.kept,
      h.begun⟩
  | read reference now =>
    cases hs
    exact h.read reference now
  | gcStart id grace now => exact h.gcStart hs
  | gcRemoveRow id => exact h.gcRemoveRow hcareful.1 hs
  | gcRemoveFile id fault => exact h.gcRemoveFile hcareful.2 hs
  | gcRemoveOrphan id name fault => exact h.gcRemoveOrphan hs
  | gcEnd id =>
    cases hs
    refine ⟨h.named, h.stored, h.linked, h.kept, fun other collector hcollector => ?_⟩
    by_cases hother : other = id
    · subst hother
      have hsame := (Function.update_self other _ s.collectors).symm.trans hcollector
      cases hsame
    · exact h.begun other collector
        ((Function.update_of_ne hother _ s.collectors).symm.trans hcollector)

theorem safe_initial : Safe sha (State.initial : State D) := by
  refine ⟨?_, ?_, ?_, ?_, ?_⟩ <;> simp [State.initial]

/-! ## The promise -/

/-- A collection that fails in its second transaction has put the row back. -/
theorem gcRemoveFile_failed {id : ℕ} {fault : Bool} {cutoff : ℤ} {candidate : CatalogCandidate D}
    {rest : List (CatalogCandidate D)}
    (hcollector : s.collectors id = some ⟨cutoff, .rowRemoved candidate rest⟩)
    (hs : gcRemoveFile sha s id fault = some t)
    (hfailed : t.collectors id = some ⟨cutoff, .failed⟩) :
    t.assets.get candidate.sha256 = some candidate.row := by
  have hphase : ∀ (u : State D) (phase : Phase D), t = u.setPhase id cutoff phase →
      phase = .failed := by
    rintro u phase rfl
    have hsame := (Function.update_self id _ u.collectors).symm.trans hfailed
    cases hsame
    rfl
  have hrestored : s.assets.get candidate.sha256 = none →
      (restoreCatalogRow s candidate).assets.get candidate.sha256 = some candidate.row :=
    fun hnone => (Table.get_insert _ _ _ _ hnone).trans (if_pos rfl)
  unfold Assets.gcRemoveFile at hs
  rw [hcollector] at hs
  dsimp only at hs
  split at hs
  · cases hphase _ _ (Option.some.inj hs).symm
  · rename_i hrow
    have hnone := Option.not_isSome_iff_eq_none.1 hrow
    split at hs
    · cases hs
      exact hrestored hnone
    · split at hs
      · cases hphase _ _ (Option.some.inj hs).symm
      · split at hs
        · cases hphase _ _ (Option.some.inj hs).symm
        · cases hs
          exact hrestored hnone

theorem Safe.keeps (h : Safe sha s) : Kept sha s := by
  refine ⟨fun name row hrow => ?_, h.linked,
    fun id fault t cutoff candidate rest hcollector hs hfailed =>
      gcRemoveFile_failed hcollector hs hfailed,
    fun reference time hmem hcutoffs now => ?_⟩
  · obtain ⟨file, hfile, hbytes⟩ := h.stored name row hrow
    exact ⟨file, hfile, (h.named name file hfile).1, hbytes⟩
  · rcases h.kept _ hmem with ⟨row, hrow, hbytes⟩ | ⟨cutoff, hcutoff, hle⟩
    · obtain ⟨file, hfile, hlength⟩ := h.stored _ row hrow
      obtain ⟨hname, hlimit⟩ := h.named _ file hfile
      refine ⟨file.content, ?_, hname⟩
      have hverified : verified sha file reference.sha256 reference.bytes :=
        ⟨hlimit, hlength.trans hbytes, hname⟩
      unfold readAsset
      rw [hrow]
      dsimp only
      rw [if_pos hbytes, hfile]
      dsimp only
      rw [if_pos hverified]
    · exact absurd hle (Int.not_le.2 (hcutoffs cutoff hcutoff))

/-- A digest for a run. -/
def contentSum (content : List UInt8) : ℕ := (content.map UInt8.toNat).sum

/-- An asset that is stored once, and is collected later. -/
def collectedAsset : List (Action ℕ) :=
  [.store .image [1, 2] 0 0, .gcStart 1 5 100, .gcRemoveRow 1, .gcRemoveFile 1 false]

end Assets

end Memory

end Emelex

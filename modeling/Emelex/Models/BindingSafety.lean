import Emelex.Models.Binding

/-!
# A model that a Session is bound to is kept

* `Bound` — the snapshot of every bound Session is in its directory, with the manifest that was
  validated when it was bound.
* `Ready` — what a call has made sure of at the point where it is.
* `Safe` — what every step keeps.

Principal result: `bound_models_kept`.
-/

set_option autoImplicit false

namespace Emelex

open Snapshot

namespace Binding

variable {h h' home : Home} {s t : State}

/-! ## Specification -/

/-- The directory of a snapshot has a manifest. -/
def Home.Holds (h : Home) (manifest : ModelManifest) : Prop :=
  ∃ intact,
    h.models (snapshotDestination manifest.snapshotId) = some (.model (some manifest) intact)

/-- The snapshot of a Session is in its directory with the manifest that was validated. -/
def Bound (h : Home) : Prop :=
  ∀ id session snapshot, h.sessions.get id = some session → session.modelSnapshot = some snapshot →
    ∃ manifest, session.validated = some manifest ∧ manifest.snapshotId = snapshot ∧
      h.Holds manifest

/-- The installation is the one of this home, and is there. -/
def Present (h : Home) (installed : InstalledModel) : Prop :=
  installed.path = .models (snapshotDestination installed.manifest.snapshotId) ∧
    h.Holds installed.manifest

/-- The staging guard that a call has. -/
def Point.guard : Point → Option StagingGuard
  | reuseLock _ guard | reuseDone _ guard | prepare _ guard | publishLock _ guard
  | inspect _ guard _ | load _ guard _ | checkOccupant _ guard _ _ | checkExpected _ guard _ _
  | moveOccupant _ guard _ _ | rename _ guard | unlock _ guard | drop _ guard => guard
  | verify _ guard | moveFailed _ guard => some guard
  | _ => none

/-- What a guard leaves to the cleanup worker is its staging directory. -/
def Tame (guard : Option StagingGuard) : Prop :=
  ∀ g, guard = some g → g.cleanup = .quarantine → ∃ id, g.path = .temp id

/-- What a call has made sure of. -/
def Ready (h : Home) : Point → Prop
  | .bindVerify _ installed | .bindCommit _ installed => Present h installed
  | .removeMove installed => h.referenced installed.manifest.snapshotId = false
  | .checkExpected _ _ _ occupant =>
    ∀ snapshot, occupant = some snapshot → h.referenced snapshot = false
  | .moveOccupant p _ _ _ => h.referenced p.expected = false
  | .verify p guard | .moveFailed p guard =>
    guard.path = .models p.destination ∧ h.referenced p.expected = false
  | _ => True

/-- What waits for the cleanup worker is staging. -/
def Temporary (h : Home) : Prop := ∀ location ∈ h.cleanups, ∃ id, location = .temp id

/-- What every step keeps. -/
structure Safe (s : State) : Prop where
  exclusive : s.threads.Exclusive Point.locked
  bound : Bound s.home
  temporary : Temporary s.home
  ready : ∀ pid point, s.threads.point pid = some point → Ready s.home point ∧ Tame point.guard

/-- A home before any call: there may be models, but no Session is bound. -/
structure Begins (s : State) : Prop where
  idle : s.threads = Threads.idle
  unbound : ∀ id session, s.home.sessions.get id = some session → session.modelSnapshot = none
  quiet : s.home.cleanups = []

/-! ## Where snapshots are -/

theorem destination_eq (p : Publication) : p.destination = snapshotDestination p.expected := by
  unfold Publication.destination snapshotDestination
  cases p.expected <;> rfl

/-- No two snapshots have one directory. -/
theorem snapshotDestination_injective : Function.Injective snapshotDestination := by
  intro a b hsame
  cases a with
  | hub id revision =>
    cases b with
    | hub id' revision' =>
      obtain ⟨nameSpace, repoName⟩ := id
      obtain ⟨nameSpace', repoName'⟩ := id'
      cases nameSpace <;> cases nameSpace' <;>
        simp_all [snapshotDestination, hubDestination]
    | localModel name digest =>
      obtain ⟨nameSpace, repoName⟩ := id
      cases nameSpace <;> simp [snapshotDestination, hubDestination, localDestination] at hsame
  | localModel name digest =>
    cases b with
    | hub id' revision' =>
      obtain ⟨nameSpace', repoName'⟩ := id'
      cases nameSpace' <;> simp [snapshotDestination, hubDestination, localDestination] at hsame
    | localModel name' digest' => simp_all [snapshotDestination, localDestination]

theorem referenced_eq_false {snapshot : ModelSnapshotId} : h.referenced snapshot = false ↔
    ∀ id session, h.sessions.get id = some session → session.modelSnapshot ≠ some snapshot := by
  unfold Home.referenced Table.matching
  rw [decide_eq_false_iff_not, not_not, List.countP_eq_zero]
  constructor
  · intro hnone id session hget
    simpa using hnone (id, session) (Table.get_eq_some.1 hget)
  · rintro hnone ⟨id, session⟩ hmem
    simpa using hnone id session (Table.get_eq_some.2 hmem)

/-- A directory that is not one of a bound snapshot may go. -/
def Free (h : Home) (location : Location) : Prop :=
  ∀ snapshot, location = .models (snapshotDestination snapshot) → h.referenced snapshot = false

theorem free_temp (h : Home) (id : Nat) : Free h (.temp id) := by
  intro snapshot hsame
  cases hsame

theorem free_of_unreferenced {snapshot : ModelSnapshotId} (hfree : h.referenced snapshot = false) :
    Free h (.models (snapshotDestination snapshot)) := by
  intro other hsame
  obtain rfl := snapshotDestination_injective (Location.models.inj hsame)
  exact hfree

/-! ## Moves -/

@[simp]
theorem sessions_tryMove (location : Location) (name : Nat) (snapshotId : Option ModelSnapshotId)
    (outcome : Outcome) :
    (h.tryMove location name snapshotId outcome).sessions = h.sessions := by
  unfold Home.tryMove Home.moveToQuarantine
  cases outcome <;> cases h.node location <;> cases location <;> rfl

@[simp]
theorem cleanups_tryMove (location : Location) (name : Nat) (snapshotId : Option ModelSnapshotId)
    (outcome : Outcome) :
    (h.tryMove location name snapshotId outcome).cleanups = h.cleanups := by
  unfold Home.tryMove Home.moveToQuarantine
  cases outcome <;> cases h.node location <;> cases location <;> rfl

theorem models_tryMove {location : Location} {path : ModelPath} (hother : location ≠ .models path)
    (name : Nat) (snapshotId : Option ModelSnapshotId) (outcome : Outcome) :
    (h.tryMove location name snapshotId outcome).models path = h.models path := by
  have hclear : (h.clear location).models path = h.models path := by
    cases location with
    | models path' =>
      refine Function.update_of_ne ?_ _ _
      rintro rfl
      exact hother rfl
    | temp id => rfl
    | elsewhere => rfl
  have hmove : (h.moveToQuarantine location name snapshotId).models path = h.models path := by
    unfold Home.moveToQuarantine
    cases h.node location
    · rfl
    · exact hclear
  unfold Home.tryMove
  cases outcome
  case ok | late => exact hmove
  all_goals rfl

theorem models_tryMove_temp (id name : Nat) (snapshotId : Option ModelSnapshotId)
    (outcome : Outcome) : (h.tryMove (.temp id) name snapshotId outcome).models = h.models := by
  funext path
  exact models_tryMove (by rintro ⟨⟩) name snapshotId outcome

/-- A move of a free directory leaves every bound snapshot. -/
theorem Bound.tryMove (hbound : Bound h) {location : Location} (hfree : Free h location)
    (name : Nat) (snapshotId : Option ModelSnapshotId) (outcome : Outcome) :
    Bound (h.tryMove location name snapshotId outcome) := by
  intro id session snapshot hget hsnapshot
  rw [sessions_tryMove] at hget
  obtain ⟨manifest, hvalidated, hid, intact, hnode⟩ := hbound id session snapshot hget hsnapshot
  refine ⟨manifest, hvalidated, hid, intact, ?_⟩
  rw [models_tryMove, hnode]
  intro hmoved
  rw [hid] at hmoved
  exact referenced_eq_false.1 (hfree snapshot hmoved) id session hget hsnapshot

/-- Nothing that a bound Session needs has changed. -/
theorem Bound.congr (hbound : Bound h) (hmodels : home.models = h.models)
    (hsessions : home.sessions = h.sessions) : Bound home := by
  intro id session snapshot hget hsnapshot
  rw [hsessions] at hget
  obtain ⟨manifest, hvalidated, hid, hholds⟩ := hbound id session snapshot hget hsnapshot
  refine ⟨manifest, hvalidated, hid, ?_⟩
  unfold Home.Holds
  rw [hmodels]
  exact hholds

/-- Where nothing is, no bound snapshot is. -/
theorem Bound.unreferenced (hbound : Bound h) {snapshot : ModelSnapshotId}
    (hnone : ∀ manifest intact,
      h.models (snapshotDestination snapshot) ≠ some (.model (some manifest) intact)) :
    h.referenced snapshot = false := by
  rw [referenced_eq_false]
  intro id session hget hsnapshot
  obtain ⟨manifest, -, hid, intact, hnode⟩ := hbound id session snapshot hget hsnapshot
  rw [hid] at hnode
  exact hnone manifest intact hnode

theorem Temporary.tryMove (htemporary : Temporary h) (location : Location) (name : Nat)
    (snapshotId : Option ModelSnapshotId) (outcome : Outcome) :
    Temporary (h.tryMove location name snapshotId outcome) := by
  unfold Temporary
  rw [cleanups_tryMove]
  exact htemporary

/-- The manifest of an installation that is revalidated is in the directory of its snapshot. -/
theorem present_of_revalidated {installed : InstalledModel} (hok : h.revalidated installed = true) :
    Present h installed := by
  unfold Home.revalidated at hok
  rcases installed.home with hpath | hpath
  · rw [hpath] at hok
    dsimp only at hok
    obtain ⟨hmanifest, -⟩ := Bool.and_eq_true_iff.1 hok
    have hread := of_decide_eq_true hmanifest
    unfold Home.readManifest at hread
    split at hread
    · rename_i manifest intact hnode
      subst hread
      exact ⟨hpath, intact, hnode⟩
    · cases hread
  · rw [hpath] at hok
    cases hok

/-! ## The transaction of a binding -/

theorem bindRow_cases {session row : Session} {installed : InstalledModel} {now : Nat}
    (hrow : bindRow session installed now = some row) :
    (row.modelSnapshot = session.modelSnapshot ∧ row.validated = session.validated) ∨
      (row.modelSnapshot = some installed.manifest.snapshotId ∧
        row.validated = some installed.manifest) := by
  unfold bindRow at hrow
  dsimp only at hrow
  split at hrow
  · cases hrow
  · split at hrow
    · split at hrow
      · cases hrow
        exact .inl ⟨rfl, rfl⟩
      · cases hrow
    · cases hrow
      exact .inr ⟨rfl, rfl⟩
    · split at hrow
      · cases hrow
        exact .inr ⟨rfl, rfl⟩
      · cases hrow
    · cases hrow

theorem models_bindSession (id : SessionId) (installed : InstalledModel) (now : Nat) :
    (h.bindSession id installed now).models = h.models := by
  unfold Home.bindSession
  split <;> rfl

theorem cleanups_bindSession (id : SessionId) (installed : InstalledModel) (now : Nat) :
    (h.bindSession id installed now).cleanups = h.cleanups := by
  unfold Home.bindSession
  split <;> rfl

/-- A binding to a model that is there. -/
theorem Bound.bindSession (hbound : Bound h) {installed : InstalledModel}
    (hpresent : Present h installed) (id : SessionId) (now : Nat) :
    Bound (h.bindSession id installed now) := by
  intro id' row' snapshot hget hsnapshot
  unfold Home.Holds
  rw [models_bindSession]
  unfold Home.bindSession at hget
  cases hrow : (h.sessions.get id).bind fun session => bindRow session installed now with
  | none =>
    rw [hrow] at hget
    exact hbound id' row' snapshot hget hsnapshot
  | some row =>
    rw [hrow] at hget
    dsimp only at hget
    rw [Table.get_updateWhere, Option.map_eq_some_iff] at hget
    obtain ⟨session', hsession', hrow'⟩ := hget
    by_cases hid : id' = id
    · subst hid
      rw [if_pos (decide_eq_true rfl)] at hrow'
      subst hrow'
      obtain ⟨session, hsession, hrow⟩ := Option.bind_eq_some_iff.1 hrow
      rcases bindRow_cases hrow with ⟨hsame, hvalidated⟩ | ⟨hnew, hvalidated⟩
      · rw [hsame] at hsnapshot
        obtain ⟨manifest, hmanifest, hrest⟩ := hbound id' session snapshot hsession hsnapshot
        exact ⟨manifest, hvalidated.trans hmanifest, hrest⟩
      · rw [hnew] at hsnapshot
        exact ⟨installed.manifest, hvalidated, Option.some.inj hsnapshot, hpresent.2⟩
    · rw [if_neg (by simpa using hid)] at hrow'
      subst hrow'
      exact hbound id' session' snapshot hsession' hsnapshot

/-! ## What a call does -/

theorem tame_none : Tame none := by
  intro g hg
  cases hg

theorem tame_guard (p : Publication) : Tame (some p.guard) := by
  intro g hg _
  cases hg
  unfold Publication.guard
  cases p.manifest.source <;> exact ⟨p.staging, rfl⟩

theorem tame_firstGuard (p : Publication) : Tame p.firstGuard := by
  unfold Publication.firstGuard
  cases p.manifest.source
  · exact tame_none
  · exact tame_guard p
  · exact tame_none

theorem tame_movedTo (guard : StagingGuard) (path : Location) :
    Tame (some (guard.movedTo path)) := by
  intro g hg hcleanup
  cases hg
  unfold StagingGuard.movedTo at hcleanup
  cases hguard : guard.cleanup <;> rw [hguard] at hcleanup <;> cases hcleanup

theorem tame_quarantineNow (guard : StagingGuard) : Tame (some guard.quarantineNow.2) := by
  intro g hg hcleanup
  cases hg
  unfold StagingGuard.quarantineNow at hcleanup
  cases hguard : guard.cleanup <;> rw [hguard] at hcleanup <;> cases hcleanup

/-- The call goes on, and the home has not changed. -/
theorem goes_on {p : Publication} {guard : Option StagingGuard} (htame : Tame guard) :
    (Ready h (.unlock p guard) ∧ Tame (Point.unlock p guard).guard) ∧
      (∀ turn, Ready h (Point.afterReuse p guard turn) ∧
        Tame (Point.afterReuse p guard turn).guard) := by
  refine ⟨⟨trivial, htame⟩, ?_⟩
  intro turn
  cases turn <;> exact ⟨trivial, htame⟩

/-- A rename puts a model where no bound snapshot is. -/
theorem rename_safe (outcome : Outcome) (name now : Nat) (p : Publication)
    (guard : Option StagingGuard) (hbound : Bound h) (htemporary : Temporary h)
    (htame : Tame guard) :
    Bound (next h outcome name now (.rename p guard)).1 ∧
      Temporary (next h outcome name now (.rename p guard)).1 ∧
      ∀ point', (next h outcome name now (.rename p guard)).2.point = some point' →
        Ready (next h outcome name now (.rename p guard)).1 point' ∧ Tame point'.guard := by
  have hrenamed : ∀ (node : Node) (guard : StagingGuard), (∀ manifest intact,
      h.models p.destination ≠ some (.model (some manifest) intact)) →
      Bound { h with
        models := Function.update h.models p.destination (some node)
        temp := Function.update h.temp p.staging none } ∧
      ∀ point', (Move.goTo (.verify p
        (guard.movedTo (.models p.destination)))).point = some point' →
        Ready { h with
          models := Function.update h.models p.destination (some node)
          temp := Function.update h.temp p.staging none } point' ∧ Tame point'.guard := by
    intro node guard hnone
    rw [destination_eq] at hnone ⊢
    have hfree := hbound.unreferenced hnone
    constructor
    · intro id session snapshot hget hsnapshot
      obtain ⟨manifest, hvalidated, hid, intact, hnode⟩ :=
        hbound id session snapshot hget hsnapshot
      refine ⟨manifest, hvalidated, hid, intact, ?_⟩
      refine (Function.update_of_ne ?_ _ _).trans hnode
      intro hsame
      rw [hsame] at hnode
      exact hnone manifest intact hnode
    · rintro point' ⟨⟩
      refine ⟨⟨?_, hfree⟩, tame_movedTo guard _⟩
      rw [destination_eq]
      rfl
  simp only [next]
  split
  · rename_i node guard htemp hnone
    obtain ⟨hkept, hready⟩ := hrenamed node guard (by simp [hnone])
    exact ⟨hkept, htemporary, hready⟩
  · rename_i node guard htemp hvacant
    obtain ⟨hkept, hready⟩ := hrenamed node guard (by simp [hvacant])
    exact ⟨hkept, htemporary, hready⟩
  · refine ⟨hbound, htemporary, ?_⟩
    rintro point' ⟨⟩
    exact (goes_on htame).1

/-- What one operation of a call keeps, and what the call has made sure of after it. -/
theorem next_safe (outcome : Outcome) (name now : Nat) {point : Point} (hbound : Bound h)
    (htemporary : Temporary h) (hready : Ready h point) (htame : Tame point.guard) :
    Bound (next h outcome name now point).1 ∧ Temporary (next h outcome name now point).1 ∧
      ∀ point', (next h outcome name now point).2.point = some point' →
        Ready (next h outcome name now point).1 point' ∧ Tame point'.guard := by
  cases point with
  | bindLock session installed =>
    refine ⟨hbound, htemporary, ?_⟩
    intro point' hpoint'
    simp only [next] at hpoint'
    split at hpoint' <;> cases hpoint'
    exact ⟨trivial, tame_none⟩
  | bindRevalidate session installed =>
    refine ⟨hbound, htemporary, ?_⟩
    intro point' hpoint'
    simp only [next] at hpoint'
    split at hpoint' <;> cases hpoint'
    · rename_i hok
      exact ⟨present_of_revalidated hok.2, tame_none⟩
    · exact ⟨trivial, tame_none⟩
  | bindVerify session installed =>
    refine ⟨hbound, htemporary, ?_⟩
    intro point' hpoint'
    simp only [next] at hpoint'
    split at hpoint' <;> cases hpoint'
    · exact ⟨hready, tame_none⟩
    · exact ⟨trivial, tame_none⟩
  | bindCommit session installed =>
    simp only [next]
    refine ⟨?_, ?_, ?_⟩
    · split
      · exact hbound.bindSession hready session now
      · exact hbound
    · split
      · unfold Temporary
        rw [cleanups_bindSession]
        exact htemporary
      · exact htemporary
    · rintro point' ⟨⟩
      exact ⟨trivial, tame_none⟩
  | removeLock installed =>
    refine ⟨hbound, htemporary, ?_⟩
    intro point' hpoint'
    simp only [next] at hpoint'
    split at hpoint' <;> cases hpoint'
    exact ⟨trivial, tame_none⟩
  | removeRevalidate installed | removeVerify installed =>
    refine ⟨hbound, htemporary, ?_⟩
    intro point' hpoint'
    simp only [next] at hpoint'
    split at hpoint' <;> cases hpoint' <;> exact ⟨trivial, tame_none⟩
  | removeCheck installed =>
    refine ⟨hbound, htemporary, ?_⟩
    intro point' hpoint'
    simp only [next] at hpoint'
    split at hpoint' <;> cases hpoint'
    · rename_i hok
      exact ⟨hok.2, tame_none⟩
    · exact ⟨trivial, tame_none⟩
  | removeMove installed =>
    simp only [next]
    refine ⟨hbound.tryMove ?_ _ _ _, htemporary.tryMove _ _ _ _, ?_⟩
    · rcases installed.home with hpath | hpath
      · rw [hpath]
        exact free_of_unreferenced hready
      · rw [hpath]
        rintro snapshot ⟨⟩
    · rintro point' ⟨⟩
      exact ⟨trivial, tame_none⟩
  | reuseLock p guard | publishLock p guard =>
    refine ⟨hbound, htemporary, ?_⟩
    intro point' hpoint'
    simp only [next] at hpoint'
    split at hpoint' <;> cases hpoint' <;> exact ⟨trivial, htame⟩
  | reuseDone p guard | unlock p guard =>
    refine ⟨hbound, htemporary, ?_⟩
    rintro point' ⟨⟩
    exact ⟨trivial, htame⟩
  | prepare p guard =>
    simp only [next]
    split
    · refine ⟨hbound.congr rfl rfl, htemporary, ?_⟩
      rintro point' ⟨⟩
      exact ⟨trivial, tame_guard p⟩
    · refine ⟨hbound, htemporary, ?_⟩
      rintro point' ⟨⟩
      exact ⟨trivial, htame⟩
    · refine ⟨hbound, htemporary, ?_⟩
      rintro point' ⟨⟩
      exact ⟨trivial, htame⟩
  | inspect p guard turn =>
    refine ⟨hbound, htemporary, ?_⟩
    intro point' hpoint'
    simp only [next] at hpoint'
    split at hpoint'
    · split at hpoint' <;> cases hpoint'
      · exact ⟨trivial, htame⟩
      · exact (goes_on htame).2 turn
    · cases turn <;> cases hpoint' <;> exact ⟨trivial, htame⟩
  | load p guard turn =>
    refine ⟨hbound, htemporary, ?_⟩
    intro point' hpoint'
    simp only [next] at hpoint'
    split at hpoint'
    · split at hpoint' <;> cases hpoint' <;> exact ⟨trivial, htame⟩
    · cases hpoint'
      exact ⟨trivial, htame⟩
  | checkOccupant p guard turn occupant =>
    refine ⟨hbound, htemporary, ?_⟩
    intro point' hpoint'
    simp only [next] at hpoint'
    split at hpoint'
    · cases hpoint'
      refine ⟨?_, htame⟩
      rintro snapshot ⟨⟩
    · rename_i snapshot
      split at hpoint' <;> cases hpoint'
      · rename_i hok
        refine ⟨?_, htame⟩
        rintro snapshot' ⟨⟩
        exact hok.2
      · exact ⟨trivial, htame⟩
  | checkExpected p guard turn occupant =>
    refine ⟨hbound, htemporary, ?_⟩
    intro point' hpoint'
    simp only [next] at hpoint'
    split at hpoint'
    · rename_i hsame
      cases hpoint'
      exact ⟨hready p.expected hsame, htame⟩
    · split at hpoint' <;> cases hpoint'
      · rename_i hok
        exact ⟨hok.2, htame⟩
      · exact ⟨trivial, htame⟩
  | moveOccupant p guard turn occupant =>
    simp only [next]
    refine ⟨hbound.tryMove ?_ _ _ _, htemporary.tryMove _ _ _ _, ?_⟩
    · rw [destination_eq]
      exact free_of_unreferenced hready
    · intro point' hpoint'
      split at hpoint' <;> cases hpoint'
      · exact (goes_on htame).2 turn
      · exact (goes_on htame).1
  | rename p guard => exact rename_safe outcome name now p guard hbound htemporary htame
  | verify p guard =>
    refine ⟨hbound, htemporary, ?_⟩
    intro point' hpoint'
    simp only [next] at hpoint'
    split at hpoint'
    · split at hpoint' <;> cases hpoint'
      · refine ⟨trivial, ?_⟩
        rintro g ⟨⟩ hcleanup
        exact htame guard rfl hcleanup
      · exact ⟨hready, htame⟩
    · cases hpoint'
      exact ⟨trivial, htame⟩
    · cases hpoint'
      exact ⟨hready, htame⟩
  | moveFailed p guard =>
    obtain ⟨hpath, hunreferenced⟩ := hready
    have hfree : Free h guard.path := by
      rw [hpath, destination_eq]
      exact free_of_unreferenced hunreferenced
    simp only [next]
    refine ⟨?_, ?_, ?_⟩
    · split
      · exact hbound.tryMove hfree _ _ _
      · exact hbound
    · split
      · exact htemporary.tryMove _ _ _ _
      · exact htemporary
    · rintro point' ⟨⟩
      exact ⟨trivial, tame_quarantineNow guard⟩
  | drop p guard =>
    simp only [next]
    refine ⟨hbound.congr rfl rfl, ?_, ?_⟩
    · intro location hlocation
      rcases List.mem_append.1 hlocation with hbefore | hdropped
      · exact htemporary location hbefore
      · rw [Option.mem_toList] at hdropped
        obtain ⟨g, hg, hlocation⟩ := Option.bind_eq_some_iff.1 hdropped
        unfold StagingGuard.dropped at hlocation
        split at hlocation <;> cases hlocation
        rename_i hactive
        exact htame g hg hactive.2
    · intro point' hpoint'
      split at hpoint' <;> cases hpoint'
      exact ⟨trivial, tame_none⟩
  | finishTransfer p =>
    refine ⟨hbound.tryMove (free_temp h _) _ _ _, htemporary.tryMove _ _ _ _, ?_⟩
    rintro point' ⟨⟩
  | gcLock entry =>
    refine ⟨hbound, htemporary, ?_⟩
    intro point' hpoint'
    simp only [next] at hpoint'
    split at hpoint' <;> cases hpoint'
    exact ⟨trivial, tame_none⟩
  | gcCheck entry =>
    refine ⟨hbound, htemporary, ?_⟩
    intro point' hpoint'
    simp only [next] at hpoint'
    split at hpoint'
    · cases hpoint'
      exact ⟨trivial, tame_none⟩
    · split at hpoint' <;> cases hpoint' <;> exact ⟨trivial, tame_none⟩
  | gcRemove entry =>
    refine ⟨hbound.congr rfl rfl, htemporary, ?_⟩
    rintro point' ⟨⟩
    exact ⟨trivial, tame_none⟩
  | release =>
    refine ⟨hbound, htemporary, ?_⟩
    rintro point' ⟨⟩

/-! ## The lock -/

/-- A move keeps to the lock: it is taken first, and given back before the call goes on. -/
def Move.Fits (point : Point) : Move → Prop
  | .goTo point' => point'.locked = true → point.locked = true
  | .release point' => point.locked = true ∧ ∀ next, point' = some next → next.locked = false
  | _ => True

theorem next_fits (outcome : Outcome) (name now : Nat) (point : Point) :
    (next h outcome name now point).2.Fits point := by
  cases point with
  | bindLock session installed | removeLock installed | gcLock entry =>
    simp only [next]
    split <;> trivial
  | reuseLock p guard | publishLock p guard =>
    simp only [next]
    split
    · trivial
    · rintro ⟨⟩
  | prepare p guard =>
    simp only [next]
    split <;> rintro ⟨⟩
  | reuseDone p guard | unlock p guard =>
    refine ⟨rfl, ?_⟩
    rintro next ⟨⟩
    rfl
  | release =>
    refine ⟨rfl, ?_⟩
    rintro next ⟨⟩
  | drop p guard =>
    simp only [next]
    split
    · rintro ⟨⟩
    · trivial
  | finishTransfer p => trivial
  | rename p guard =>
    simp only [next]
    split <;> exact fun _ => rfl
  | _ => exact fun _ => rfl

/-- Without the lock a call changes no model and no Session. -/
theorem next_frame (outcome : Outcome) (name now : Nat) {point : Point}
    (hlocked : point.locked = false) : (next h outcome name now point).1.models = h.models ∧
      (next h outcome name now point).1.sessions = h.sessions := by
  cases point with
  | bindLock session installed | removeLock installed | gcLock entry | reuseLock p guard
  | publishLock p guard | drop p guard => exact ⟨rfl, rfl⟩
  | prepare p guard =>
    simp only [next]
    split <;> exact ⟨rfl, rfl⟩
  | finishTransfer p => exact ⟨models_tryMove_temp _ _ _ _, sessions_tryMove _ _ _ _⟩
  | _ => cases hlocked

theorem apply_point {threads threads' : Threads Pid Point} {pid : Pid} {move : Move}
    (happly : move.apply threads pid = some threads') (j : Pid) :
    threads'.point j = if j = pid then move.point else threads.point j := by
  cases move with
  | goTo point =>
    cases happly
    exact Threads.point_goTo threads pid j point
  | acquire point => exact (Threads.acquire_eq_some happly).2.2 j
  | release point =>
    cases happly
    exact Threads.point_release threads pid j point
  | stop =>
    cases happly
    exact Threads.point_stop threads pid j

theorem apply_exclusive {threads threads' : Threads Pid Point} {pid : Pid} {point : Point}
    {move : Move} (hexclusive : threads.Exclusive Point.locked)
    (hat : threads.point pid = some point) (hfits : move.Fits point)
    (happly : move.apply threads pid = some threads') : threads'.Exclusive Point.locked := by
  cases move with
  | goTo point' =>
    cases happly
    exact hexclusive.goTo hat hfits
  | acquire point' => exact hexclusive.acquire happly
  | release point' =>
    cases happly
    exact hexclusive.release hat hfits.1 hfits.2
  | stop =>
    cases happly
    exact hexclusive.stop

/-! ## Steps -/

/-- What a call has made sure of stays where the manifests stay and nothing is bound. -/
theorem Ready.mono {point : Point} (hready : Ready h point)
    (hholds : ∀ manifest, h.Holds manifest → home.Holds manifest)
    (hreferenced : ∀ snapshot, h.referenced snapshot = false → home.referenced snapshot = false) :
    Ready home point := by
  cases point with
  | bindVerify session installed | bindCommit session installed =>
    exact ⟨hready.1, hholds _ hready.2⟩
  | removeMove installed => exact hreferenced _ hready
  | checkExpected p guard turn occupant =>
    exact fun snapshot hoccupant => hreferenced snapshot (hready snapshot hoccupant)
  | moveOccupant p guard turn occupant => exact hreferenced _ hready
  | verify p guard | moveFailed p guard => exact ⟨hready.1, hreferenced _ hready.2⟩
  | _ => trivial

theorem Ready.congr {point : Point} (hready : Ready h point) (hmodels : home.models = h.models)
    (hsessions : home.sessions = h.sessions) : Ready home point := by
  apply hready.mono
  · intro manifest hholds
    unfold Home.Holds
    rw [hmodels]
    exact hholds
  · intro snapshot hunreferenced
    unfold Home.referenced
    rw [hsessions]
    exact hunreferenced

/-- Without the lock a call has made sure of nothing. -/
theorem ready_of_unlocked {point : Point} (hlocked : point.locked = false) : Ready h point := by
  cases point <;> trivial

/-- The next operation of a call keeps the home safe. -/
theorem Safe.advance (hs : Safe s) {pid : Pid} {outcome : Outcome} {name now : Nat}
    (hstep : advance s pid outcome name now = some t) : Safe t := by
  unfold Binding.advance at hstep
  cases hat : s.threads.point pid with
  | none =>
    rw [hat] at hstep
    cases hstep
  | some point =>
    rw [hat] at hstep
    obtain ⟨threads, happly, rfl⟩ := Option.map_eq_some_iff.1 hstep
    obtain ⟨hready, htame⟩ := hs.ready pid point hat
    obtain ⟨hbound, htemporary, hnext⟩ :=
      next_safe outcome name now hs.bound hs.temporary hready htame
    refine ⟨apply_exclusive hs.exclusive hat (next_fits outcome name now point) happly, hbound,
      htemporary, ?_⟩
    intro other point' hpoint'
    rw [apply_point happly] at hpoint'
    split at hpoint'
    · exact hnext point' hpoint'
    · rename_i hother
      obtain ⟨hready', htame'⟩ := hs.ready other point' hpoint'
      refine ⟨?_, htame'⟩
      by_cases hlocked : point.locked = true
      · -- the mover has the lock, so that the others are where nothing is made sure of
        apply ready_of_unlocked
        rw [← Bool.not_eq_true]
        intro hlocked'
        exact hother (hs.exclusive.unique hpoint' hlocked' hat hlocked)
      · obtain ⟨hmodels, hsessions⟩ :=
          next_frame (h := s.home) outcome name now (Bool.not_eq_true _ ▸ hlocked)
        exact hready'.congr hmodels hsessions

/-- What happens without a call keeps the home safe. -/
theorem Safe.disturb (hs : Safe s) (hbound : Bound home) (htemporary : Temporary home)
    (hholds : ∀ manifest, s.home.Holds manifest → home.Holds manifest)
    (hreferenced : ∀ snapshot, s.home.referenced snapshot = false →
      home.referenced snapshot = false) : Safe { s with home } := by
  refine ⟨hs.exclusive, hbound, htemporary, ?_⟩
  intro pid point hat
  obtain ⟨hready, htame⟩ := hs.ready pid point hat
  exact ⟨hready.mono hholds hreferenced, htame⟩

/-- Rows of Sessions change, but not what they are bound to. -/
theorem Safe.sessions (hs : Safe s) {sessions : Table SessionId Session}
    (hrows : ∀ id session, sessions.get id = some session → session.modelSnapshot = none ∨
      ∃ old, s.home.sessions.get id = some old ∧ session.modelSnapshot = old.modelSnapshot ∧
        session.validated = old.validated) :
    Safe { s with home := { s.home with sessions } } := by
  apply hs.disturb
  · intro id session snapshot hget hsnapshot
    rcases hrows id session hget with hunbound | ⟨old, hold, hsame, hvalidated⟩
    · rw [hunbound] at hsnapshot
      cases hsnapshot
    · rw [hsame] at hsnapshot
      rw [hvalidated]
      exact hs.bound id old snapshot hold hsnapshot
  · exact hs.temporary
  · exact fun manifest hholds => hholds
  · intro snapshot hunreferenced
    rw [referenced_eq_false] at hunreferenced ⊢
    intro id session hget hsnapshot
    rcases hrows id session hget with hunbound | ⟨old, hold, hsame, -⟩
    · rw [hunbound] at hsnapshot
      cases hsnapshot
    · rw [hsame] at hsnapshot
      exact hunreferenced id old hold hsnapshot

/-- **One step keeps every bound model.** -/
theorem Safe.step (hs : Safe s) {action : Action} (hstep : step s action = some t) : Safe t := by
  cases action with
  | call pid point =>
    simp only [Binding.step] at hstep
    split at hstep
    · rename_i hstart
      cases hstep
      obtain ⟨hnone, hstart⟩ := Bool.and_eq_true_iff.1 hstart
      have hunlocked : point.locked = false := by
        cases point <;> first | rfl | cases hstart
      have htame : Tame point.guard := by
        cases point with
        | reuseLock p guard =>
          obtain rfl : guard = p.firstGuard := of_decide_eq_true hstart
          exact tame_firstGuard p
        | bindLock session installed | removeLock installed | gcLock entry => exact tame_none
        | _ => cases hstart
      refine ⟨?_, hs.bound, hs.temporary, ?_⟩
      · refine hs.exclusive.leave (i := pid) ?_ (fun j hj hholder => hholder) ?_
        · intro j hj
          rw [Threads.point_goTo, if_neg hj]
        · intro point' hpoint'
          rw [Threads.point_goTo, if_pos rfl] at hpoint'
          cases hpoint'
          exact hunlocked
      · intro other point' hpoint'
        rw [Threads.point_goTo] at hpoint'
        split at hpoint'
        · cases hpoint'
          exact ⟨ready_of_unlocked hunlocked, htame⟩
        · exact hs.ready other point' hpoint'
    · cases hstep
  | advance pid outcome name now => exact hs.advance hstep
  | crash pid =>
    cases hstep
    refine ⟨hs.exclusive.stop, hs.bound, hs.temporary, ?_⟩
    intro other point hpoint
    rw [Threads.point_stop] at hpoint
    split at hpoint
    · cases hpoint
    · exact hs.ready other point hpoint
  | cleanup name outcome =>
    simp only [Binding.step] at hstep
    split at hstep
    · cases hstep
    · rename_i location rest hcleanups
      cases hstep
      have hmember : location ∈ s.home.cleanups := by
        rw [hcleanups]
        exact List.mem_cons_self
      obtain ⟨id, rfl⟩ := hs.temporary location hmember
      have hrest : Bound { s.home with cleanups := rest } := hs.bound.congr rfl rfl
      apply hs.disturb
      · exact hrest.tryMove (free_temp _ id) _ _ _
      · apply Temporary.tryMove
        intro location hlocation
        apply hs.temporary
        rw [hcleanups]
        exact List.mem_cons_of_mem _ hlocation
      · intro manifest hholds
        unfold Home.Holds
        rw [models_tryMove_temp]
        exact hholds
      · intro snapshot hunreferenced
        unfold Home.referenced
        rw [sessions_tryMove]
        exact hunreferenced
  | createSession id reference =>
    cases hstep
    apply hs.sessions
    intro id' session hget
    by_cases hfree : s.home.sessions.get id = none
    · rw [Table.get_insert _ _ _ _ hfree] at hget
      split at hget
      · cases hget
        exact .inl rfl
      · exact .inr ⟨session, hget, rfl, rfl⟩
    · have htaken : id ∈ s.home.sessions.entries.map Prod.fst := by
        by_contra hmem
        exact hfree (Table.get_eq_none.2 hmem)
      rw [Table.insert, dif_pos htaken] at hget
      exact .inr ⟨session, hget, rfl, rfl⟩
  | deleteSession id =>
    cases hstep
    apply hs.sessions
    intro id' session hget
    exact .inr ⟨session, Table.get_of_deleteWhere hget, rfl, rfl⟩
  | setLease id lease =>
    cases hstep
    apply hs.sessions
    intro id' session hget
    rw [Table.get_updateWhere, Option.map_eq_some_iff] at hget
    obtain ⟨old, hold, rfl⟩ := hget
    refine .inr ⟨old, hold, ?_⟩
    split <;> exact ⟨rfl, rfl⟩
  | setIntact path intact =>
    cases hstep
    have hholds : ∀ manifest, s.home.Holds manifest → Home.Holds { s.home with
        models := Function.update s.home.models path
          ((s.home.models path).map (·.setIntact intact)) } manifest := by
      rintro manifest ⟨before, hnode⟩
      by_cases hpath : snapshotDestination manifest.snapshotId = path
      · refine ⟨intact, ?_⟩
        subst hpath
        refine (Function.update_self _ _ _).trans ?_
        rw [hnode]
        rfl
      · exact ⟨before, (Function.update_of_ne hpath _ _).trans hnode⟩
    apply hs.disturb
    · intro id session snapshot hget hsnapshot
      obtain ⟨manifest, hvalidated, hid, hnode⟩ := hs.bound id session snapshot hget hsnapshot
      exact ⟨manifest, hvalidated, hid, hholds manifest hnode⟩
    · exact hs.temporary
    · exact hholds
    · exact fun snapshot hunreferenced => hunreferenced

theorem Begins.safe (hbegins : Begins s) : Safe s := by
  refine ⟨?_, ?_, ?_, ?_⟩
  · rw [hbegins.idle]
    exact Threads.Exclusive.idle
  · intro id session snapshot hget hsnapshot
    rw [hbegins.unbound id session hget] at hsnapshot
    cases hsnapshot
  · intro location hlocation
    rw [hbegins.quiet] at hlocation
    cases hlocation
  · intro pid point hat
    rw [hbegins.idle] at hat
    cases hat

/-- **A model that a Session is bound to is never removed or replaced.** In every state that any
number of processes reach, the snapshot of a bound Session is in its directory with the manifest
that was validated when it was bound; and where a binding commits, the model is there, and nobody is
about to move it away. -/
theorem bound_models_kept {actions : List Action} (hbegins : Begins s)
    (hrun : Machine.Run step Machine.anyStep s actions t) :
    Bound t.home ∧ ∀ pid session installed,
      t.threads.point pid = some (.bindCommit session installed) → Present t.home installed ∧
        ∀ other point, t.threads.point other = some point → point.moving ≠ some installed.path := by
  have hsafe : Safe t :=
    hrun.invariant (fun _ _ _ hs _ hstep => hs.step hstep) hbegins.safe
  refine ⟨hsafe.bound, ?_⟩
  intro pid session installed hat
  have hpresent : Present t.home installed := (hsafe.ready pid _ hat).1
  refine ⟨hpresent, ?_⟩
  intro other point hpoint hmoving
  have hunlocked : point.locked = true → False := by
    intro hlocked
    obtain rfl := hsafe.exclusive.unique hpoint hlocked hat rfl
    rw [hat] at hpoint
    cases hpoint
    cases hmoving
  rw [hpresent.1] at hmoving
  cases point <;> first | exact hunlocked rfl | cases hmoving

def importedManifest : ModelManifest where
  snapshotId := .localModel "tiny" "d1"
  source := .localImport "/tiny"
  files := []
  verified := true
  installedAt := 1
  license := none

def importedModel : InstalledModel :=
  ⟨.models (snapshotDestination importedManifest.snapshotId), importedManifest, .inl rfl⟩

/-- An imported model, and no Session. -/
def importedHome : State where
  threads := Threads.idle
  home := {
    models := fun path => if path = snapshotDestination importedManifest.snapshotId then
      some (.model (some importedManifest) true) else none
    temp := fun _ => none
    quarantine := fun _ => none
    sessions := .empty
    cleanups := [] }

/-- A Session is bound while another process wants to remove the model. -/
def boundAndRemoved : List Action :=
  [.createSession 1 none, .call 1 (.bindLock 1 importedModel), .call 2 (.removeLock importedModel),
    .advance 1 .ok 0 0, .advance 1 .ok 0 0, .advance 1 .ok 0 0, .advance 1 .ok 0 0,
    .advance 1 .ok 0 0, .advance 2 .ok 0 0, .advance 2 .ok 0 0, .advance 2 .ok 0 0,
    .advance 2 .ok 0 0, .advance 2 .ok 0 0]

theorem bound_models_kept_removed : ∃ t,
    Machine.run step importedHome boundAndRemoved = some t ∧
    (t.home.sessions.get 1).bind (·.modelSnapshot) = some importedManifest.snapshotId ∧
    (Bound t.home ∧ ∀ pid session installed,
      t.threads.point pid = some (.bindCommit session installed) → Present t.home installed ∧
        ∀ other point, t.threads.point other = some point →
          point.moving ≠ some installed.path) := by
  have hrun : (Machine.run step importedHome boundAndRemoved).map (fun t =>
      (t.home.sessions.get 1).bind (·.modelSnapshot)) =
        some (some importedManifest.snapshotId) := by decide +kernel
  obtain ⟨t, ht, hbound⟩ := Option.map_eq_some_iff.1 hrun
  have hbegins : Begins importedHome := by
    refine ⟨rfl, ?_, rfl⟩
    intro id session hget
    cases hget
  exact ⟨t, ht, hbound, bound_models_kept hbegins (Machine.run_eq_some_iff.1 ht)⟩

end Binding

end Emelex

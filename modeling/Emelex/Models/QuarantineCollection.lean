import Emelex.Models.QuarantineSteps

/-!
# Collecting the quarantine

* `Due` — the progress of one collection: an old entry is gone, still to be listed, or the one the
  collector is at.
* `Abandoned` — an entry without a record that no party is at work on.

Principal results: `quarantine_collected_when_undisturbed` (collection is exact on every undisturbed
run), `unfinished_entry_blocks_collection` (it is not on every run),
`abandoned_entry_fails_collection` (one entry without a record makes every later collection fail).
-/

set_option autoImplicit false

namespace Emelex

open Machine

namespace Quarantine

variable {S : Type}

/-! ## Runs -/

section runs

variable [DecidableEq S] {s t : State S} {name : Name}

/-- Every step keeps what holds in every run. -/
theorem WellFormed.step {action : Action S} (h : WellFormed s) (hs : step s action = some t) :
    WellFormed t := by
  cases action with
  | create name reason snapshot source clock => exact h.create hs
  | fill name => exact h.fill hs
  | renamePayload name => exact h.renamePayload hs
  | renameFails name => exact h.renameFails hs
  | withdraw name => exact h.withdraw hs
  | returnMove name =>
    simp only [Quarantine.step] at hs
    split at hs
    · cases hs
      exact h.endMove
    · cases hs
  | stopMove name =>
    cases hs
    exact h.endMove
  | reference snapshot held =>
    cases hs
    exact { h with }
  | gcOpen now age =>
    simp only [Quarantine.step, gcOpen] at hs
    split at hs
    · cases hs
    · cases hs
      exact h.setGc (by rintro _ _ _ ⟨⟩ ⟨⟩)
  | _ => exact h.collect rfl hs

/-- Every undisturbed step keeps every entry collectable. -/
theorem Collectable.step {action : Action S} (hw : WellFormed s) (h : Collectable s)
    (ok : Undisturbed s action) (hs : step s action = some t) : Collectable t := by
  cases action with
  | create name reason snapshot source clock => exact h.create hw ok hs
  | fill name => exact h.fill hw hs
  | renamePayload name => exact h.renamePayload ok hs
  | renameFails name => exact h.renameFails hs
  | withdraw name => exact h.withdraw hw ok hs
  | returnMove name =>
    simp only [Quarantine.step] at hs
    split at hs
    case h_1 source hmove =>
      cases hs
      exact h.endMove (.inl (by rw [hmove]; rfl))
    case h_2 => cases hs
  | stopMove name =>
    cases hs
    exact h.endMove (.inr ok)
  | reference snapshot held =>
    cases hs
    obtain ⟨hrecorded, hpayload, hsource, hphase, hno⟩ := h
    refine ⟨hrecorded, hpayload, hsource, fun gc hg => ?_, hno⟩
    have hsound := hphase gc hg
    have hsame : ∀ name record, gc.phase.deleting = some (name, record) →
        s.unreferenced record = true →
        ({ s with referenced := Function.update s.referenced snapshot held } :
          State S).unreferenced record = true := by
      intro name record hdel hunref
      have hne : held = true → record.snapshotId ≠ some snapshot :=
        fun hheld => ok hheld gc name record hg hdel
      unfold State.unreferenced at hunref ⊢
      cases hid : record.snapshotId with
      | none => rfl
      | some id => cases held <;> grind
    cases hp : gc.phase with
    | unreferenced name record =>
      rw [hp] at hsound hsame
      exact ⟨hsound.1, hsame name record rfl hsound.2⟩
    | removing name record left =>
      rw [hp] at hsound hsame
      exact ⟨hsame name record rfl hsound.1, hsound.2⟩
    | expired name record =>
      rw [hp] at hsound
      exact hsound
    | listing | opened _ | removed _ => trivial
  | gcOpen now age =>
    simp only [Quarantine.step, gcOpen] at hs
    split at hs
    case h_1 => cases hs
    case h_2 hidle =>
      cases hs
      refine h.setGc (by rintro _ ⟨⟩; trivial) (fun name hr => ?_) (by simp)
      obtain ⟨gc, _, _, hg, -⟩ := removes_eq_true_iff.1 hr
      exact absurd hg (hidle gc)
  | _ => exact h.collect ok rfl hs

theorem wellFormed_run {ok : State S → Action S → Prop} {referenced : S → Bool}
    {as : List (Action S)} (h : Run step ok (.initial referenced) as s) : WellFormed s :=
  h.invariant (fun _ _ _ hw _ hs => hw.step hs) (wellFormed_initial referenced)

theorem collectable_run {referenced : S → Bool} {as : List (Action S)}
    (h : Run step Undisturbed (.initial referenced) as s) : WellFormed s ∧ Collectable s :=
  h.invariant (I := fun s => WellFormed s ∧ Collectable s)
    (fun _ _ _ hi ok hs => ⟨hi.1.step hs, hi.2.step hi.1 ok hs⟩)
    ⟨wellFormed_initial referenced, collectable_initial referenced⟩

/-! ### What one collection has still to do -/

/-- The entry the collector is at. -/
def GcPhase.entry : GcPhase S → Option Name
  | .opened name | .expired name _ | .unreferenced name _ | .removing name _ _ => some name
  | _ => none

/-- During a collection with this clock and age: the entry is gone, or still to be listed, or the
one the collector is at. -/
def Due (now age : Nat) (name : Name) (s : State S) : Prop :=
  match s.gc with
  | .running gc => gc.now = now ∧ gc.age = age ∧
    (s.entries name = none ∨ name ∈ gc.pending ∨ gc.phase.entry = some name)
  | .finished (.ok _) => s.entries name = none
  | _ => True

/-- What no step does: use a name again, bring an entry back, or move a collector that is neither
started nor taking a step. -/
theorem step_effect {action : Action S} (hs : step s action = some t) :
    (∀ name record, s.issued name = some record → t.issued name = some record) ∧
      (∀ name record, s.issued name = some record → s.entries name = none →
        t.entries name = none) ∧
      (action.collecting = false → action.opens = false → t.gc = s.gc) := by
  cases action with
  | create name reason snapshot source clock =>
    simp only [step, create] at hs
    split at hs
    case isFalse => cases hs
    case isTrue hc =>
      cases hs
      simp only [Function.update_apply]
      grind
  | reference snapshot held =>
    cases hs
    exact ⟨fun _ _ h => h, fun _ _ _ h => h, fun _ _ => rfl⟩
  | _ =>
    simp only [step, fillStep, renamePayload, renameFails, withdraw, gcOpen, collect, gcNext,
      gcRead, gcCheck, gcMakeWritable, gcUnlinkNode, gcUnlink, gcRmdir, gcSync, gcEnd,
      gcStop] at hs
    grind [Action.collecting, Action.opens]

/-- A step of a collection makes progress on an old entry or leaves it due. -/
theorem Due.step {action : Action S} {now age : Nat} {record : QuarantineRecord S}
    (hw : WellFormed s) (hissued : s.issued name = some record)
    (hold : age ≤ now - record.quarantinedAt) (h : Due now age name s)
    (hopens : action.opens = false) (hs : step s action = some t) : Due now age name t := by
  obtain ⟨-, hgone, hgc⟩ := step_effect hs
  have hgone : s.entries name = none → t.entries name = none := hgone name record hissued
  unfold Due at h ⊢
  cases action with
  | gcNext name =>
    obtain ⟨gc, hg, hs⟩ := collect_eq_some hs
    obtain ⟨hp, -, rfl⟩ := gcNext_cases hs
    grind [GcPhase.entry]
  | gcRead =>
    obtain ⟨gc, hg, hs⟩ := collect_eq_some hs
    obtain ⟨other, hp, hcase⟩ := gcRead_cases hs
    rcases hcase with ⟨e, he, rfl⟩ | ⟨read, hr, hage, rfl⟩ | ⟨read, hr, hage, rfl⟩
    · trivial
    · grind [GcPhase.entry]
    · have hsame : other = name → read = record := by
        rintro rfl
        obtain ⟨entry, he, hc⟩ := readQuarantineRecord_ok hr
        have := hw.recorded other entry read he hc
        grind
      grind [GcPhase.entry]
  | gcCheck =>
    obtain ⟨gc, hg, hs⟩ := collect_eq_some hs
    obtain ⟨other, read, hp, ⟨e, he, rfl⟩ | ⟨hunref, rfl⟩⟩ := gcCheck_cases hs
    · trivial
    · grind [GcPhase.entry]
  | gcMakeWritable =>
    obtain ⟨gc, hg, hs⟩ := collect_eq_some hs
    obtain ⟨other, read, hp, ⟨e, he, rfl⟩ | ⟨entry, he, rfl⟩⟩ := gcMakeWritable_cases hs
    · trivial
    · grind [GcPhase.entry]
  | gcUnlinkNode index =>
    obtain ⟨gc, hg, hs⟩ := collect_eq_some hs
    obtain ⟨other, read, left, entry, hp, he, hleft, rfl⟩ := gcUnlinkNode_cases hs
    grind [GcPhase.entry]
  | gcUnlink child =>
    obtain ⟨gc, hg, hs⟩ := collect_eq_some hs
    obtain ⟨other, read, left, hp, rfl⟩ := gcUnlink_cases hs
    grind [GcPhase.entry]
  | gcRmdir =>
    obtain ⟨gc, hg, hs⟩ := collect_eq_some hs
    obtain ⟨other, read, hp, ⟨he, rfl⟩ | ⟨he, rfl⟩⟩ := gcRmdir_cases hs
    · grind [GcPhase.entry]
    · trivial
  | gcSync =>
    obtain ⟨gc, hg, hs⟩ := collect_eq_some hs
    obtain ⟨other, hp, rfl⟩ := gcSync_cases hs
    grind [GcPhase.entry]
  | gcEnd =>
    obtain ⟨gc, hg, hs⟩ := collect_eq_some hs
    obtain ⟨hp, hpending, rfl⟩ := gcEnd_cases hs
    grind [GcPhase.entry]
  | gcStop =>
    obtain ⟨gc, hg, hs⟩ := collect_eq_some hs
    cases hs
    trivial
  | gcOpen now age => cases hopens
  | _ =>
    rw [hgc rfl rfl]
    grind

/-- Over a whole collection: an old entry that was there at its start is gone when it has returned
without an error. -/
theorem due_run {ok : State S → Action S → Prop} {now age : Nat} {u : State S}
    {bs : List (Action S)} {record : QuarantineRecord S} (hw : WellFormed s)
    (hopen : step s (.gcOpen now age) = some u) (h : Run step ok u bs t)
    (hbs : ∀ b ∈ bs, b.opens = false) (hentry : (s.entries name).isSome = true)
    (hissued : s.issued name = some record) (hold : age ≤ now - record.quarantinedAt) :
    Due now age name t := by
  obtain rfl := gcOpen_cases hopen
  refine Run.invariant_of (J := fun s => WellFormed s ∧ s.issued name = some record)
    (P := fun b => b.opens = false) ?_ ?_ h hbs ⟨hw.step hopen, hissued⟩ ?_
  · rintro v a v' ⟨hv, hi⟩ - hs
    exact ⟨hv.step hs, (step_effect hs).1 name record hi⟩
  · rintro v a v' ⟨hv, hi⟩ hdue - hopens hs
    exact hdue.step hv hi hold hopens hs
  · refine ⟨rfl, rfl, .inr (.inl ?_)⟩
    simpa using ⟨hw.named name hentry, hentry⟩

/-- The collector changes only the entry it is removing. -/
theorem removing_of_changed {action : Action S} (hcollecting : action.collecting = true)
    (hs : step s action = some t) (hne : t.entries name ≠ s.entries name) :
    ∃ gc record left, s.gc = .running gc ∧ gc.phase = .removing name record left := by
  cases action with
  | gcUnlinkNode index =>
    obtain ⟨gc, hg, hs⟩ := collect_eq_some hs
    obtain ⟨other, record, left, entry, hp, he, hleft, rfl⟩ := gcUnlinkNode_cases hs
    obtain rfl : name = other := by
      by_contra hother
      exact hne (by simp [hother])
    exact ⟨gc, record, left, hg, hp⟩
  | gcUnlink child =>
    obtain ⟨gc, hg, hs⟩ := collect_eq_some hs
    obtain ⟨other, record, left, hp, rfl⟩ := gcUnlink_cases hs
    obtain rfl : name = other := by
      by_contra hother
      exact hne (by simp [hother])
    exact ⟨gc, record, left, hg, hp⟩
  | gcRmdir =>
    obtain ⟨gc, hg, hs⟩ := collect_eq_some hs
    obtain ⟨other, record, hp, ⟨he, rfl⟩ | ⟨he, rfl⟩⟩ := gcRmdir_cases hs
    · obtain rfl : name = other := by
        by_contra hother
        exact hne (by simp [hother])
      exact ⟨gc, record, [], hg, hp⟩
    · exact absurd rfl hne
  | create _ _ _ _ _ | fill _ | renamePayload _ | renameFails _ | withdraw _ | returnMove _
  | stopMove _ | reference _ _ | gcOpen _ _ => cases hcollecting
  | _ =>
    simp only [step, collect, gcNext, gcRead, gcCheck, gcMakeWritable, gcSync, gcEnd, gcStop] at hs
    grind

/-- **Collection is exact on undisturbed runs.** -/
theorem quarantine_collected_when_undisturbed :
    CollectsExactly (Undisturbed : State S → Action S → Prop) where
  selective := by
    intro referenced as s action t name hrun ok hcollecting hs hne
    obtain ⟨hw, hc⟩ := collectable_run hrun
    obtain ⟨gc, record, left, hg, hp⟩ := removing_of_changed hcollecting hs hne
    obtain ⟨hissued, hage, -⟩ := hw.atWork gc name record hg (by rw [hp]; rfl)
    have hsound := hc.phase gc hg
    rw [hp] at hsound
    exact ⟨gc, record, hg, hissued, hage, hsound.1⟩
  complete := by
    intro referenced as s now age u bs t result hrun ok hopen hbs hno hresult name record hentry
      hissued hold _
    obtain ⟨hw, -⟩ := collectable_run hrun
    obtain ⟨-, hcollectable⟩ := collectable_run ((hrun.snoc ok hopen).append hbs)
    have hdue := due_run hw hopen hbs hno hentry hissued hold
    cases result with
    | error e => exact absurd hresult (hcollectable.noError e)
    | ok n => simpa [Due, hresult] using hdue

end runs

/-! ## The entry that blocks every collection -/

/-- A process stops between `create_dir` and the record; another entry is made; a collection of
everything older than 10 reads the first entry. -/
def unfinishedRun : List (Action Nat) :=
  [.create 1 "failed-transfer" none [] 5, .stopMove 1, .create 2 "removed" none [.file] 6, .fill 2,
    .fill 2, .fill 2, .fill 2, .renamePayload 2, .returnMove 2]

/-- **Collection is not exact on every run**: the second entry, old and unreferenced, is still there
when the collection has returned. -/
theorem unfinished_entry_blocks_collection :
    ¬ CollectsExactly (anyStep : State Nat → Action Nat → Prop) := by
  intro h
  obtain ⟨s, hs⟩ : ∃ s, run step (State.initial fun _ => false) unfinishedRun = some s := ⟨_, rfl⟩
  obtain ⟨u, hu⟩ : ∃ u, step s (.gcOpen 100 10) = some u := by
    cases hs
    exact ⟨_, rfl⟩
  obtain ⟨t, ht⟩ : ∃ t, run step u [.gcNext 1, .gcRead] = some t := by
    cases hs
    cases hu
    exact ⟨_, rfl⟩
  have hgone := h.complete _ _ s 100 10 u _ t (.error .io) (run_eq_some_iff.1 hs) trivial hu
    (run_eq_some_iff.1 ht) (by decide) (by cases hs; cases hu; cases ht; rfl) 2
    { schemaVersion := 1, quarantinedAt := 6, reason := "removed", snapshotId := none }
    (by cases hs; rfl) (by cases hs; rfl) (by decide) (fun _ _ _ _ => rfl)
  cases hs
  cases hu
  cases ht
  cases hgone

section abandoned

variable {S : Type} [DecidableEq S] {s t : State S} {name : Name}

/-- An entry without a whole record that no party is at work on. -/
structure Abandoned (s : State S) (name : Name) : Prop where
  there : (s.entries name).isSome = true
  issued : (s.issued name).isSome = true
  unread : s.whole name = false
  noMove : s.moves name = none
  noWork : ∀ gc, s.gc = .running gc → gc.phase.entry = some name → gc.phase = .opened name

omit [DecidableEq S] in
/-- The record of an abandoned entry cannot be read. -/
theorem Abandoned.not_ok (h : Abandoned s name) (record : QuarantineRecord S) :
    readQuarantineRecord (s.entries name) ≠ .ok record := by
  intro hr
  have := whole_of_readable ⟨record, hr⟩
  simp [h.unread] at this

/-- No step of any party changes an abandoned entry. -/
theorem Abandoned.step {action : Action S} (h : Abandoned s name)
    (hs : step s action = some t) : Abandoned t name := by
  have hread := h.not_ok
  obtain ⟨hthere, hissued, hunread, hmove, hwork⟩ := h
  cases action with
  | create other reason snapshot source clock =>
    simp only [Quarantine.step, create] at hs
    split at hs
    case isFalse => cases hs
    case isTrue hc =>
      cases hs
      have hother : name ≠ other := by
        rintro rfl
        simp [hc.2] at hissued
      constructor <;> simp only [State.whole, Function.update_of_ne hother] <;> assumption
  | reference snapshot held =>
    cases hs
    constructor <;> assumption
  | gcRead =>
    obtain ⟨gc, hg, hs⟩ := collect_eq_some hs
    obtain ⟨other, hp, hcase⟩ := gcRead_cases hs
    rcases hcase with ⟨e, he, rfl⟩ | ⟨read, hr, hage, rfl⟩ | ⟨read, hr, hage, rfl⟩ <;>
      constructor <;> grind [State.whole, GcPhase.entry]
  | gcUnlink child =>
    obtain ⟨gc, hg, hs⟩ := collect_eq_some hs
    obtain ⟨other, read, left, hp, rfl⟩ := gcUnlink_cases hs
    have hother : name ≠ other := by
      rintro rfl
      have := hwork gc hg (by rw [hp]; rfl)
      simp [hp] at this
    constructor <;> grind [State.whole, GcPhase.entry]
  | _ =>
    simp only [Quarantine.step, fillStep, renamePayload, renameFails, withdraw, gcOpen, collect,
      gcNext, gcCheck, gcMakeWritable, gcUnlinkNode, gcRmdir, gcSync, gcEnd, gcStop] at hs
    constructor <;> grind [State.whole, GcPhase.entry]

omit [DecidableEq S] in
/-- A process that stops while its entry has no whole record abandons the entry. -/
theorem abandoned_of_stop {move : Move} (hw : WellFormed s) (hmove : s.moves name = some move)
    (hunrecorded : move.phase.unrecorded = true) (hthere : (s.entries name).isSome = true)
    (hwork : ∀ gc, s.gc = .running gc → gc.phase.entry = some name → gc.phase = .opened name) :
    Abandoned (s.setMove name none) name := by
  obtain ⟨entry, hentry⟩ := Option.isSome_iff_exists.1 hthere
  have hfilling := hw.filling name move hmove
  have hunmoved := hw.unmoved name move entry hmove
  have hissued : (s.issued name).isSome = true := by
    cases hi : s.issued name with
    | none => simp [(hw.fresh name hi).1] at hentry
    | some record => rfl
  have hrecord : entry.record.whole = false := by
    cases hp : move.phase <;>
      grind [RecordFile.whole, MovePhase.unrecorded, MovePhase.filling]
  exact ⟨hthere, hissued, by simp [State.whole, hentry, hrecord], by simp, hwork⟩

/-- A collection that has an abandoned entry before it does not return without an error. -/
def Blocked (name : Name) (s : State S) : Prop :=
  match s.gc with
  | .running gc => name ∈ gc.pending ∨ gc.phase = .opened name
  | .finished (.ok _) => False
  | _ => True

theorem Blocked.step {action : Action S} (ha : Abandoned s name) (h : Blocked name s)
    (hopens : action.opens = false) (hs : step s action = some t) : Blocked name t := by
  obtain ⟨-, -, hgc⟩ := step_effect hs
  have hread := ha.not_ok
  unfold Blocked at h ⊢
  cases action with
  | gcOpen now age => cases hopens
  | gcRead =>
    obtain ⟨gc, hg, hs⟩ := collect_eq_some hs
    obtain ⟨other, hp, hcase⟩ := gcRead_cases hs
    rcases hcase with ⟨e, he, rfl⟩ | ⟨read, hr, hage, rfl⟩ | ⟨read, hr, hage, rfl⟩ <;> grind
  | gcNext _ | gcCheck | gcMakeWritable | gcUnlinkNode _ | gcUnlink _ | gcRmdir | gcSync | gcEnd
  | gcStop =>
    simp only [Quarantine.step, collect, gcNext, gcCheck, gcMakeWritable, gcUnlinkNode, gcUnlink,
      gcRmdir, gcSync, gcEnd, gcStop] at hs
    grind
  | _ =>
    rw [hgc rfl rfl]
    exact h

/-- **One abandoned entry makes every later collection fail**, whatever the parties do, and is never
collected itself. -/
theorem abandoned_entry_fails_collection {referenced : S → Bool} {as bs cs : List (Action S)}
    {u v : State S} {now age : Nat} {result : Except (ModelsError S) Nat}
    (hrun : Run step anyStep (.initial referenced) as s) (habandoned : Abandoned s name)
    (hlater : Run step anyStep s bs t) (hopen : step t (.gcOpen now age) = some u)
    (hcollect : Run step anyStep u cs v) (hno : ∀ c ∈ cs, c.opens = false)
    (hresult : v.gc = .finished result) :
    (∃ error, result = .error error) ∧ (v.entries name).isSome = true := by
  have hw : WellFormed t := wellFormed_run (hrun.append hlater)
  have ht : Abandoned t name := 
    hlater.invariant (I := fun s => Abandoned s name) (fun _ _ _ h _ hs => Abandoned.step h hs)
      habandoned
  have hu : Abandoned u name := ht.step hopen
  have hv : Abandoned v name := 
    hcollect.invariant (I := fun s => Abandoned s name) (fun _ _ _ h _ hs => Abandoned.step h hs) hu
  obtain rfl := gcOpen_cases hopen
  have hblocked : Blocked name v := by
    refine Run.invariant_of (J := fun s => Abandoned s name) (P := fun c => c.opens = false)
      (fun _ _ _ h _ hs => Abandoned.step h hs)
      (fun _ _ _ ha h _ hopens hs => Blocked.step ha h hopens hs) hcollect hno hu (.inl ?_)
    simpa using ⟨hw.named name ht.there, ht.there⟩
  cases result with
  | error e => exact ⟨⟨e, rfl⟩, hv.there⟩
  | ok n => simp [Blocked, hresult] at hblocked

end abandoned

end Quarantine

end Emelex

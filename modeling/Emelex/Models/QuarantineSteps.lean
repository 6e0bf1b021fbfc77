import Emelex.Models.Quarantine

/-!
# What the steps on a quarantine directory keep

* `WellFormed` — what holds in every state of every run: a record is the one its move built, a move
  that has not written its record has an entry without one, the collector is at work only on old
  entries.
* `Collectable` — what also holds in every state of an undisturbed run: an entry has a whole record
  or a party at work on it, and the collector never fails.
* `fillStep_cases`, …, `gcRmdir_cases` — what each step can be.

Principal results: `WellFormed.collect`, `Collectable.collect` (the collector's steps) and one lemma
for each step of a move.
-/

set_option autoImplicit false

namespace Emelex

namespace Quarantine

variable {S : Type}

/-! ## Invariants -/

/-- The record of the move has not been written yet. -/
def MovePhase.filling : MovePhase → Bool
  | .created | .permitted | .recordOpened => true
  | _ => false

/-- The entry of the move has no whole record. -/
def MovePhase.unrecorded : MovePhase → Bool
  | .created | .permitted | .recordOpened | .recordRemoved => true
  | _ => false

def RecordFile.whole : RecordFile S → Bool
  | .complete _ => true
  | _ => false

/-- The entry is there with a whole record. -/
def State.whole (s : State S) (name : Name) : Bool :=
  (s.entries name).any (·.record.whole)

/-- `remove_dir_all` is at work on the entry. -/
def GcStatus.removes (name : Name) : GcStatus S → Bool
  | .running { phase := .removing other _ _, .. } => other == name
  | _ => false

/-- What holds in every state of every run. -/
structure WellFormed (s : State S) : Prop where
  fresh : ∀ name, s.issued name = none → s.entries name = none ∧ s.moves name = none
  named : ∀ name, (s.entries name).isSome → name ∈ s.names
  valid : ∀ name record, s.issued name = some record →
    record.schemaVersion = 1 ∧ validQuarantineReason record.reason = true
  recorded : ∀ name entry record, s.entries name = some entry → entry.record = .complete record →
    s.issued name = some record
  filling : ∀ name move, s.moves name = some move → move.phase.filling = true →
    (s.entries name).isSome = true ∧
    ∀ entry, s.entries name = some entry →
      entry.record = .missing ∨ move.phase = .recordOpened ∧ entry.record = .truncated
  unmoved : ∀ name move entry, s.moves name = some move → move.phase ≠ .moved →
    s.entries name = some entry →
    entry.payload = none ∧ (move.phase = .recordRemoved → entry.record = .missing)
  atWork : ∀ gc name record, s.gc = .running gc → gc.phase.atWork = some (name, record) →
    s.issued name = some record ∧ gc.age ≤ gc.now - record.quarantinedAt ∧
      (s.moves name).any (·.phase.filling) = false

/-- What an undisturbed collector knows of the entry it is at. -/
def Sound (s : State S) : GcPhase S → Prop
  | .expired name _ => s.whole name = true
  | .unreferenced name record => s.whole name = true ∧ s.unreferenced record = true
  | .removing name record left => s.unreferenced record = true ∧ (s.entries name).isSome = true ∧
    ∀ entry, s.entries name = some entry →
      (entry.record ≠ .missing → .record ∈ left) ∧ (entry.payload ≠ none → .payload ∈ left)
  | _ => True

/-- What also holds in every state of an undisturbed run: an entry has a whole record, or a move or
the collector is at work on it, and the collector never fails. -/
structure Collectable (s : State S) : Prop where
  recorded : ∀ name, (s.entries name).isSome → s.whole name = true ∨
    (s.moves name).any (·.phase.unrecorded) = true ∨ s.gc.removes name = true
  ownPayload : ∀ name entry nodes, s.entries name = some entry → entry.payload = some nodes →
    ∀ node ∈ nodes, node.foreign = false
  ownSource : ∀ name move, s.moves name = some move → ∀ node ∈ move.source, node.foreign = false
  phase : ∀ gc, s.gc = .running gc → Sound s gc.phase
  noError : ∀ error, s.gc ≠ .finished (.error error)

/-- A record that can be read is the one in the entry's file. -/
theorem readQuarantineRecord_ok {entry : Option (Entry S)} {record : QuarantineRecord S}
    (h : readQuarantineRecord entry = .ok record) :
    ∃ e, entry = some e ∧ e.record = .complete record := by
  unfold readQuarantineRecord at h
  split at h <;> grind

theorem Entry.eq_empty {entry : Entry S} (hr : entry.record = .missing)
    (hp : entry.payload = none) : entry = Entry.empty := by
  obtain ⟨record, payload⟩ := entry
  obtain rfl : record = .missing := hr
  obtain rfl : payload = none := hp
  rfl

theorem whole_of_readable {s : State S} {name : Name} (h : s.readable name) :
    s.whole name = true := by
  obtain ⟨record, hr⟩ := h
  obtain ⟨entry, he, hc⟩ := readQuarantineRecord_ok hr
  simp [State.whole, he, hc, RecordFile.whole]

theorem wellFormed_initial (referenced : S → Bool) : WellFormed (State.initial referenced) := by
  constructor <;> simp [State.initial]

theorem collectable_initial (referenced : S → Bool) : Collectable (State.initial referenced) := by
  constructor <;> simp [State.initial]

/-! ### Moves -/

section moves

variable {s t : State S} {name : Name}

/-- What a step of filling an entry can be. -/
theorem fillStep_cases (hs : fillStep s name = some t) :
    ∃ move record, s.moves name = some move ∧ s.issued name = some record ∧
      ((move.phase = .created ∧ t = s.setMove name (some { move with phase := .permitted })) ∨
        (∃ entry, move.phase = .permitted ∧ s.entries name = some entry ∧ entry.record = .missing ∧
          t = (s.setEntry name (some { entry with record := .truncated })).setMove name
            (some { move with phase := .recordOpened })) ∨
        (∃ entry, move.phase = .permitted ∧ s.entries name = some entry ∧
          entry.record ≠ .missing ∧ t = s.setMove name none) ∨
        (∃ entry, move.phase = .recordOpened ∧ s.entries name = some entry ∧
          t = (s.setEntry name (some { entry with record := .complete record })).setMove name
            (some { move with phase := .recordWritten })) ∨
        (move.phase = .recordWritten ∧
          t = s.setMove name (some { move with phase := .recordSynced }))) := by
  unfold fillStep at hs
  split at hs
  case h_2 => cases hs
  case h_1 move record hmove hrecord =>
    refine ⟨move, record, hmove, hrecord, ?_⟩
    grind

/-- What a step of taking an entry back can be. -/
theorem withdraw_cases [DecidableEq S] (hs : withdraw s name = some t) :
    ∃ move, s.moves name = some move ∧
      ((∃ entry, move.phase = .renameFailed ∧ s.entries name = some entry ∧
          t = (s.setEntry name (some { entry with record := .missing })).setMove name
            (some { move with phase := .recordRemoved })) ∨
        (move.phase = .renameFailed ∧ s.entries name = none ∧
          t = (s.setEntry name none).setMove name (some { move with phase := .recordRemoved })) ∨
        (move.phase = .recordRemoved ∧ s.entries name = some Entry.empty ∧
          t = (s.setEntry name none).setMove name none) ∨
        (move.phase = .recordRemoved ∧ s.entries name ≠ some Entry.empty ∧
          t = s.setMove name none)) := by
  unfold Quarantine.withdraw at hs
  split at hs
  case h_2 => cases hs
  case h_1 move hmove =>
    refine ⟨move, hmove, ?_⟩
    cases hentry : s.entries name <;> grind

/-- What renaming the payload does. -/
theorem renamePayload_cases (hs : renamePayload s name = some t) :
    ∃ move entry, s.moves name = some move ∧ s.entries name = some entry ∧
      move.phase = .recordSynced ∧ entry.payload = none ∧
      t = (s.setEntry name (some { entry with payload := some move.source })).setMove name
        (some { move with phase := .moved }) := by
  unfold renamePayload at hs
  split at hs
  case h_1 move entry hmove hentry =>
    refine ⟨move, entry, hmove, hentry, ?_⟩
    grind
  case h_2 => cases hs

/-- What a failing rename does. -/
theorem renameFails_cases (hs : renameFails s name = some t) :
    ∃ move, s.moves name = some move ∧ move.phase = .recordSynced ∧
      t = s.setMove name (some { move with phase := .renameFailed }) := by
  unfold renameFails at hs
  split at hs
  case h_1 move hmove =>
    refine ⟨move, hmove, ?_⟩
    grind
  case h_2 => cases hs

theorem WellFormed.create {reason : String} {snapshot : Option S} {source : List PayloadNode}
    {clock : Nat} (h : WellFormed s) (hs : create s name reason snapshot source clock = some t) :
    WellFormed t := by
  obtain ⟨hfresh, hnamed, hvalid, hrecorded, hfilling, hunmoved, hwork⟩ := h
  unfold Quarantine.create at hs
  split at hs
  case isFalse => cases hs
  case isTrue hc =>
    cases hs
    constructor <;> simp only [Function.update_apply] <;> grind [Entry.empty]

/-- What `WellFormed` says of one name: its entry and the move at work on it. -/
structure Placed (issued : Option (QuarantineRecord S)) (entry : Option (Entry S))
    (move : Option Move) : Prop where
  recorded : ∀ e record, entry = some e → e.record = .complete record → issued = some record
  filling : ∀ m, move = some m → m.phase.filling = true → entry.isSome = true ∧
    ∀ e, entry = some e → e.record = .missing ∨ m.phase = .recordOpened ∧ e.record = .truncated
  unmoved : ∀ m e, move = some m → m.phase ≠ .moved → entry = some e →
    e.payload = none ∧ (m.phase = .recordRemoved → e.record = .missing)

theorem WellFormed.placed (h : WellFormed s) (name : Name) :
    Placed (s.issued name) (s.entries name) (s.moves name) :=
  ⟨h.recorded name, h.filling name, h.unmoved name⟩

/-- An entry that is not being filled may lose what it holds. -/
theorem Placed.unlink {issued : Option (QuarantineRecord S)} {entry entry' : Option (Entry S)}
    {move : Option Move} (h : Placed issued entry move)
    (hidle : move.any (·.phase.filling) = false)
    (hless : ∀ e', entry' = some e' → ∃ e, entry = some e ∧
      (e'.record = e.record ∨ e'.record = .missing) ∧ (e.payload = none → e'.payload = none)) :
    Placed issued entry' move := by
  refine ⟨fun e' record he' hcomplete => ?_, fun m hm hfilling => ?_, fun m e' hm hphase he' => ?_⟩
  · obtain ⟨e, he, hrecord | hrecord, -⟩ := hless e' he'
    · exact h.recorded e record he (hrecord ▸ hcomplete)
    · rw [hrecord] at hcomplete
      cases hcomplete
  · subst hm
    rw [Option.any_some, hfilling] at hidle
    cases hidle
  · obtain ⟨e, he, hrecord, hpayload⟩ := hless e' he'
    obtain ⟨hnone, hremoved⟩ := h.unmoved m e hm hphase he
    refine ⟨hpayload hnone, fun hphase' => ?_⟩
    rcases hrecord with hrecord | hrecord
    · rw [hrecord, hremoved hphase']
    · exact hrecord

/-- A step on one entry, which creates nothing and starts no filling, keeps what holds of the
others. -/
theorem WellFormed.change (h : WellFormed s) {entry : Option (Entry S)} {move : Option Move}
    (hentry : entry.isSome = true → (s.entries name).isSome = true)
    (hmove : move.isSome = true → (s.moves name).isSome = true)
    (hfilling : move.any (·.phase.filling) = true →
      (s.moves name).any (·.phase.filling) = true)
    (hplaced : Placed (s.issued name) entry move) :
    WellFormed ((s.setEntry name entry).setMove name move) := by
  have hat : ∀ other, Placed (s.issued other)
      (if other = name then entry else s.entries other)
      (if other = name then move else s.moves other) := by
    intro other
    by_cases heq : other = name
    · subst heq
      simpa only [if_true] using hplaced
    · simpa only [if_neg heq] using h.placed other
  constructor
  · intro other hissued
    simp only [State.setMove_entries, State.setEntry_entries, State.setMove_moves,
      State.setEntry_moves]
    obtain ⟨hentries, hmoves⟩ := h.fresh other hissued
    by_cases heq : other = name
    · subst heq
      rw [if_pos rfl, if_pos rfl, ← Option.not_isSome_iff_eq_none, ← Option.not_isSome_iff_eq_none]
      exact ⟨fun he => by simp [hentries] at hentry; simp [hentry] at he,
        fun hm => by simp [hmoves] at hmove; simp [hmove] at hm⟩
    · rw [if_neg heq, if_neg heq]
      exact ⟨hentries, hmoves⟩
  · intro other hsome
    simp only [State.setMove_entries, State.setEntry_entries] at hsome
    refine h.named other ?_
    by_cases heq : other = name
    · subst heq
      exact hentry (by simpa using hsome)
    · simpa [heq] using hsome
  · exact h.valid
  · intro other e record he
    simp only [State.setMove_entries, State.setEntry_entries] at he
    exact (hat other).recorded e record he
  · intro other m hm
    simp only [State.setMove_moves, State.setEntry_moves] at hm
    simp only [State.setMove_entries, State.setEntry_entries]
    exact (hat other).filling m hm
  · intro other m e hm hphase he
    simp only [State.setMove_moves, State.setEntry_moves] at hm
    simp only [State.setMove_entries, State.setEntry_entries] at he
    exact (hat other).unmoved m e hm hphase he
  · intro gc other record hgc hwork
    obtain ⟨hissued, hage, hidle⟩ := h.atWork gc other record hgc hwork
    refine ⟨hissued, hage, ?_⟩
    simp only [State.setMove_moves, State.setEntry_moves]
    by_cases heq : other = name
    · subst heq
      rw [if_pos rfl, ← Bool.not_eq_true]
      intro hany
      rw [hfilling hany] at hidle
      cases hidle
    · rwa [if_neg heq]

theorem setEntry_self : s.setEntry name (s.entries name) = s := by
  obtain ⟨names, issued, entries, moves, referenced, gc⟩ := s
  simp [State.setEntry, Function.update_eq_self]

/-- A step that changes only where the move is. -/
theorem WellFormed.advance (h : WellFormed s) {move : Option Move}
    (hmove : move.isSome = true → (s.moves name).isSome = true)
    (hfilling : move.any (·.phase.filling) = true →
      (s.moves name).any (·.phase.filling) = true)
    (hplaced : Placed (s.issued name) (s.entries name) move) :
    WellFormed (s.setMove name move) := by
  have := h.change id hmove hfilling hplaced
  rwa [setEntry_self] at this

theorem setMove_self : s.setMove name (s.moves name) = s := by
  obtain ⟨names, issued, entries, moves, referenced, gc⟩ := s
  simp [State.setMove, Function.update_eq_self]

/-- A step that changes only the entry. -/
theorem WellFormed.replace (h : WellFormed s) {entry : Option (Entry S)}
    (hentry : entry.isSome = true → (s.entries name).isSome = true)
    (hplaced : Placed (s.issued name) entry (s.moves name)) :
    WellFormed (s.setEntry name entry) := by
  have hchange := h.change hentry id id hplaced
  have hself : (s.setEntry name entry).setMove name ((s.setEntry name entry).moves name) = _ :=
    setMove_self
  rw [State.setEntry_moves] at hself
  rwa [hself] at hchange

theorem WellFormed.fill (h : WellFormed s) (hs : fillStep s name = some t) : WellFormed t := by
  obtain ⟨hrecorded, hfilling, hunmoved⟩ := h.placed name
  obtain ⟨move, record, hmove, hrecord, hstep⟩ := fillStep_cases hs
  rw [hmove] at hfilling hunmoved
  rw [hrecord] at hrecorded
  rcases hstep with ⟨hp, rfl⟩ | ⟨e, hp, he, hr, rfl⟩ | ⟨e, hp, he, hr, rfl⟩ | ⟨e, hp, he, rfl⟩ |
    ⟨hp, rfl⟩
  · refine h.advance (by simp [hmove]) (by simp [hmove, hp, MovePhase.filling]) ?_
    rw [hrecord]
    constructor <;> grind [MovePhase.filling]
  · refine h.change (by simp [he]) (by simp [hmove]) (by simp [hmove, hp, MovePhase.filling]) ?_
    rw [hrecord]
    constructor <;> grind [MovePhase.filling]
  · refine h.advance (by simp) (by simp) ?_
    rw [hrecord]
    constructor <;> grind
  · refine h.change (by simp [he]) (by simp [hmove]) (by simp [MovePhase.filling]) ?_
    rw [hrecord]
    constructor <;> grind [MovePhase.filling]
  · refine h.advance (by simp [hmove]) (by simp [MovePhase.filling]) ?_
    rw [hrecord]
    constructor <;> grind [MovePhase.filling]

theorem WellFormed.renamePayload (h : WellFormed s) (hs : renamePayload s name = some t) :
    WellFormed t := by
  obtain ⟨hrecorded, hfilling, hunmoved⟩ := h.placed name
  obtain ⟨move, entry, hmove, hentry, hp, hnone, rfl⟩ := renamePayload_cases hs
  refine h.change (by simp [hentry]) (by simp [hmove]) (by simp [MovePhase.filling]) ?_
  constructor <;> grind [MovePhase.filling]

theorem WellFormed.renameFails (h : WellFormed s) (hs : renameFails s name = some t) :
    WellFormed t := by
  obtain ⟨hrecorded, hfilling, hunmoved⟩ := h.placed name
  obtain ⟨move, hmove, hp, rfl⟩ := renameFails_cases hs
  refine h.advance (by simp [hmove]) (by simp [MovePhase.filling]) ?_
  constructor <;> grind [MovePhase.filling]

theorem WellFormed.withdraw [DecidableEq S] (h : WellFormed s)
    (hs : withdraw s name = some t) : WellFormed t := by
  obtain ⟨hrecorded, hfilling, hunmoved⟩ := h.placed name
  obtain ⟨move, hmove, hstep⟩ := withdraw_cases hs
  rcases hstep with ⟨e, hp, he, rfl⟩ | ⟨hp, he, rfl⟩ | ⟨hp, he, rfl⟩ | ⟨hp, he, rfl⟩
  · refine h.change (by simp [he]) (by simp [hmove]) (by simp [MovePhase.filling]) ?_
    constructor <;> grind [MovePhase.filling]
  · refine h.change (by simp) (by simp [hmove]) (by simp [MovePhase.filling]) ?_
    constructor <;> grind [MovePhase.filling]
  · refine h.change (by simp) (by simp) (by simp) ?_
    constructor <;> grind
  · refine h.advance (by simp) (by simp) ?_
    constructor <;> grind

/-- The end of a call leaves the entry as it is. -/
theorem WellFormed.endMove (h : WellFormed s) : WellFormed (s.setMove name none) := by
  refine h.advance (by simp) (by simp) ⟨(h.placed name).recorded, ?_, ?_⟩ <;> simp

/-- A step of a move changes what the collector knows only of the entry it changes. -/
theorem Sound.of_entries {phase : GcPhase S} (h : Sound s phase)
    (hreferenced : ∀ record, t.unreferenced record = s.unreferenced record)
    (hentries : ∀ other record, phase.atWork = some (other, record) →
      t.entries other = s.entries other) : Sound t phase := by
  cases phase with
  | expired name record =>
    have he := hentries name record rfl
    simpa [Sound, State.whole, he] using h
  | unreferenced name record =>
    have he := hentries name record rfl
    simpa [Sound, State.whole, he, hreferenced] using h
  | removing name record left =>
    have he := hentries name record rfl
    simpa [Sound, he, hreferenced] using h
  | listing | opened _ | removed _ => trivial

theorem Collectable.create {reason : String} {snapshot : Option S} {source : List PayloadNode}
    {clock : Nat} (hw : WellFormed s) (h : Collectable s)
    (ok : ∀ node ∈ source, node.foreign = false)
    (hs : create s name reason snapshot source clock = some t) : Collectable t := by
  obtain ⟨hrecorded, hpayload, hsource, hphase, hno⟩ := h
  have hwork := hw.atWork
  unfold Quarantine.create at hs
  split at hs
  case isFalse => cases hs
  case isTrue hc =>
    cases hs
    refine ⟨?_, ?_, ?_, ?_, hno⟩
    · simp only [Function.update_apply]
      grind [Entry.empty, MovePhase.unrecorded, State.whole]
    · simp only [Function.update_apply]
      grind [Entry.empty]
    · simp only [Function.update_apply]
      grind
    · intro gc hg
      refine (hphase gc hg).of_entries (fun _ => rfl) fun other record hat => ?_
      have hissued := (hwork gc other record hg hat).1
      have hne : other ≠ name := by
        rintro rfl
        rw [hc.2] at hissued
        cases hissued
      exact Function.update_of_ne hne _ _

theorem Collectable.fill (hw : WellFormed s) (h : Collectable s)
    (hs : fillStep s name = some t) : Collectable t := by
  obtain ⟨-, -, -, -, hfilling, hunmoved, hwork⟩ := hw
  obtain ⟨hrecorded, hpayload, hsource, hphase, hno⟩ := h
  obtain ⟨move, record, hmove, hrecord, hstep⟩ := fillStep_cases hs
  -- a move that is still filling its entry is not where the collector is
  have hother : move.phase.filling = true → ∀ gc other record, s.gc = .running gc →
      gc.phase.atWork = some (other, record) → other ≠ name := by
    rintro hf gc other record hg hat rfl
    have := (hwork gc other record hg hat).2.2
    simp [hmove, hf] at this
  rcases hstep with ⟨hp, rfl⟩ | ⟨e, hp, he, hr, rfl⟩ | ⟨e, hp, he, hr, rfl⟩ | ⟨e, hp, he, rfl⟩ |
    ⟨hp, rfl⟩
  all_goals
    refine ⟨?_, by grind, by grind, fun gc hg => ?_, hno⟩
    · grind [MovePhase.filling, MovePhase.unrecorded, State.whole, RecordFile.whole]
    · refine (hphase gc hg).of_entries (fun _ => rfl) fun other record hat => ?_
      grind [MovePhase.filling]

theorem Collectable.renamePayload (h : Collectable s) (ok : ¬ s.atWorkOn name)
    (hs : renamePayload s name = some t) : Collectable t := by
  obtain ⟨hrecorded, hpayload, hsource, hphase, hno⟩ := h
  obtain ⟨move, entry, hmove, hentry, hp, hnone, rfl⟩ := renamePayload_cases hs
  refine ⟨?_, by grind, by grind, fun gc hg => ?_, hno⟩
  · grind [MovePhase.unrecorded, State.whole]
  · refine (hphase gc hg).of_entries (fun _ => rfl) fun other record hat => ?_
    have hne : other ≠ name := fun heq => ok ⟨gc, record, hg, heq ▸ hat⟩
    simp [hne]

theorem Collectable.renameFails (h : Collectable s) (hs : renameFails s name = some t) :
    Collectable t := by
  obtain ⟨hrecorded, hpayload, hsource, hphase, hno⟩ := h
  obtain ⟨move, hmove, hp, rfl⟩ := renameFails_cases hs
  refine ⟨?_, by grind, by grind, fun gc hg => ?_, hno⟩
  · grind [MovePhase.unrecorded, State.whole]
  · exact (hphase gc hg).of_entries (fun _ => rfl) fun _ _ _ => rfl

theorem Collectable.withdraw [DecidableEq S] (hw : WellFormed s) (h : Collectable s)
    (ok : ¬ s.atWorkOn name) (hs : withdraw s name = some t) : Collectable t := by
  have hunmoved := hw.unmoved
  obtain ⟨hrecorded, hpayload, hsource, hphase, hno⟩ := h
  obtain ⟨move, hmove, hstep⟩ := withdraw_cases hs
  -- when the record is gone the entry is empty, so that `remove_dir` succeeds
  have hempty : move.phase = .recordRemoved → s.entries name ≠ some Entry.empty →
      s.entries name = none := by
    intro hp he
    cases hn : s.entries name with
    | none => rfl
    | some e =>
      obtain ⟨hpay, hmiss⟩ := hunmoved name move e hmove (by simp [hp]) hn
      exact absurd (by rw [hn, Entry.eq_empty (hmiss hp) hpay]) he
  rcases hstep with ⟨e, hp, he, rfl⟩ | ⟨hp, he, rfl⟩ | ⟨hp, he, rfl⟩ | ⟨hp, he, rfl⟩
  all_goals
    refine ⟨?_, by grind, by grind, fun gc hg => ?_, hno⟩
    · grind [MovePhase.unrecorded, State.whole]
    · refine (hphase gc hg).of_entries (fun _ => rfl) fun other record hat => ?_
      have hne : other ≠ name := fun heq => ok ⟨gc, record, hg, heq ▸ hat⟩
      simp [hne]

theorem Collectable.endMove (h : Collectable s)
    (ok : (s.moves name).any (·.phase.unrecorded) = false ∨ s.entries name = none ∨
      s.readable name) : Collectable (s.setMove name none) := by
  obtain ⟨hrecorded, hpayload, hsource, hphase, hno⟩ := h
  have hwhole : s.readable name → s.whole name = true := whole_of_readable
  refine ⟨?_, by grind, by grind, fun gc hg => ?_, hno⟩
  · grind [State.whole]
  · exact (hphase gc hg).of_entries (fun _ => rfl) fun _ _ _ => rfl

end moves

/-! ### The collector -/

section collector

variable {s t : State S} {gc : Gc S} {name : Name}

/-- A new phase of the collector keeps the invariant if it is at work on an old entry. -/
theorem WellFormed.setGc {status : GcStatus S} (h : WellFormed s)
    (hnew : ∀ gc name record, status = .running gc → gc.phase.atWork = some (name, record) →
      s.issued name = some record ∧ gc.age ≤ gc.now - record.quarantinedAt ∧
        (s.moves name).any (·.phase.filling) = false) : WellFormed (s.setGc status) :=
  { h with atWork := hnew }

/-- A new phase keeps the invariant if the collector knows what it should, and leaves no entry
without a record behind. -/
theorem Collectable.setGc {status : GcStatus S} (h : Collectable s)
    (hsound : ∀ gc, status = .running gc → Sound s gc.phase)
    (hleft : ∀ name, s.gc.removes name = true → s.whole name = true ∨ s.entries name = none ∨
      status.removes name = true)
    (hno : ∀ error, status ≠ .finished (.error error)) : Collectable (s.setGc status) := by
  obtain ⟨hrecorded, hpayload, hsource, -, -⟩ := h
  refine ⟨fun name he => ?_, hpayload, hsource, fun gc hg => ?_, hno⟩
  · have he : (s.entries name).isSome = true := he
    rcases hrecorded name he with hw | hm | hr
    · exact .inl hw
    · exact .inr (.inl hm)
    · rcases hleft name hr with hw | hn | hr
      · exact .inl hw
      · simp [hn] at he
      · exact .inr (.inr hr)
  · exact (hsound gc hg).of_entries (fun _ => rfl) fun _ _ _ => rfl

/-- A step of the running collector, from the call that is in flight. -/
theorem collect_eq_some {f : State S → Gc S → Option (State S)} (h : collect s f = some t) :
    ∃ gc, s.gc = .running gc ∧ f s gc = some t := by
  unfold collect at h
  split at h
  · exact ⟨_, by assumption, h⟩
  · cases h

/-- What a collection step can be: it reads a young entry or an old one, fails, passes a check, or
unlinks something of the entry it is removing. -/
theorem gcRead_cases (hs : gcRead s gc = some t) :
    ∃ name, gc.phase = .opened name ∧
      ((∃ error, readQuarantineRecord (s.entries name) = .error error ∧
          t = s.setGc (.finished (.error error))) ∨
        (∃ record, readQuarantineRecord (s.entries name) = .ok record ∧
          gc.age ≤ gc.now - record.quarantinedAt ∧
          t = s.setGc (.running { gc with phase := .expired name record })) ∨
        (∃ record, readQuarantineRecord (s.entries name) = .ok record ∧
          ¬ gc.age ≤ gc.now - record.quarantinedAt ∧
          t = s.setGc (.running { gc with phase := .listing }))) := by
  unfold gcRead at hs
  split at hs
  case h_2 => cases hs
  case h_1 name hphase =>
    refine ⟨name, hphase, ?_⟩
    grind

theorem gcOpen_cases {now age : Nat} (hs : gcOpen s now age = some t) :
    t = s.setGc (.running
      { now, age, pending := s.names.filter (fun name => (s.entries name).isSome),
        phase := .listing, removed := 0 }) := by
  unfold gcOpen at hs
  split at hs
  · cases hs
  · exact (Option.some.inj hs).symm

theorem gcNext_cases (hs : gcNext name s gc = some t) :
    gc.phase = .listing ∧ (name ∈ gc.pending ∨ (s.entries name).isSome = true) ∧
      t = s.setGc (.running
        { gc with pending := gc.pending.filter (· ≠ name), phase := .opened name }) := by
  unfold gcNext at hs
  grind

theorem gcSync_cases (hs : gcSync s gc = some t) :
    ∃ name, gc.phase = .removed name ∧
      t = s.setGc (.running { gc with phase := .listing, removed := gc.removed + 1 }) := by
  unfold gcSync at hs
  grind

theorem gcEnd_cases (hs : gcEnd s gc = some t) :
    gc.phase = .listing ∧ gc.pending = [] ∧ t = s.setGc (.finished (.ok gc.removed)) := by
  unfold gcEnd at hs
  grind

theorem gcCheck_cases (hs : gcCheck s gc = some t) :
    ∃ name record, gc.phase = .expired name record ∧
      ((∃ error, s.unreferenced record = false ∧ t = s.setGc (.finished (.error error))) ∨
        (s.unreferenced record = true ∧
          t = s.setGc (.running { gc with phase := .unreferenced name record }))) := by
  unfold gcCheck at hs
  split at hs
  case h_2 => cases hs
  case h_1 name record hphase =>
    refine ⟨name, record, hphase, ?_⟩
    grind [State.unreferenced]

theorem gcMakeWritable_cases (hs : gcMakeWritable s gc = some t) :
    ∃ name record, gc.phase = .unreferenced name record ∧
      ((∃ error, makeWritable (s.entries name) = .error error ∧
          t = s.setGc (.finished (.error error))) ∨
        (∃ entry, s.entries name = some entry ∧
          t = s.setGc (.running { gc with phase := .removing name record entry.children }))) := by
  unfold gcMakeWritable at hs
  split at hs
  case h_2 => cases hs
  case h_1 name record hphase =>
    refine ⟨name, record, hphase, ?_⟩
    cases hentry : s.entries name with
    | none => exact .inl ⟨.walk, rfl, by simpa [hentry, makeWritable] using hs.symm⟩
    | some entry =>
      rw [hentry] at hs
      split at hs
      case h_1 error herror => exact .inl ⟨error, herror, by simpa using hs.symm⟩
      case h_2 hok => exact .inr ⟨entry, rfl, by simpa using hs.symm⟩

theorem gcUnlinkNode_cases {index : Nat} (hs : gcUnlinkNode index s gc = some t) :
    ∃ name record left entry, gc.phase = .removing name record left ∧
      s.entries name = some entry ∧ .payload ∈ left ∧
      t = s.setEntry name (some
        { entry with payload := entry.payload.map (·.eraseIdx index) }) := by
  unfold gcUnlinkNode at hs
  split at hs
  case h_2 => cases hs
  case h_1 name record left hphase =>
    grind

theorem gcUnlink_cases {child : Child} (hs : gcUnlink child s gc = some t) :
    ∃ name record left, gc.phase = .removing name record left ∧
      t = (s.setEntry name ((s.entries name).map fun entry => entry.unlink child)).setGc
        (.running { gc with phase := .removing name record (left.filter (· ≠ child)) }) := by
  unfold gcUnlink at hs
  split at hs
  case h_2 => cases hs
  case h_1 name record left hphase =>
    grind

theorem gcRmdir_cases [DecidableEq S] (hs : gcRmdir s gc = some t) :
    ∃ name record, gc.phase = .removing name record [] ∧
      ((s.entries name = some Entry.empty ∧
          t = (s.setEntry name none).setGc (.running { gc with phase := .removed name })) ∨
        (s.entries name ≠ some Entry.empty ∧ t = s.setGc (.finished (.error .io)))) := by
  unfold gcRmdir at hs
  split at hs
  case h_2 => cases hs
  case h_1 name record hphase =>
    refine ⟨name, record, hphase, ?_⟩
    grind

/-- An entry with a whole record is not being filled. -/
theorem WellFormed.not_filling (h : WellFormed s) {entry : Entry S} {record : QuarantineRecord S}
    (he : s.entries name = some entry) (hr : entry.record = .complete record) :
    (s.moves name).any (·.phase.filling) = false := by
  cases hmove : s.moves name with
  | none => rfl
  | some move =>
    by_contra hf
    obtain ⟨-, hrec⟩ := h.filling name move hmove (by simpa using hf)
    rcases hrec entry he with hm | ⟨-, hm⟩ <;> simp [hr] at hm

/-- The collector's own steps keep what holds in every run. -/
theorem WellFormed.collect [DecidableEq S] {action : Action S} (h : WellFormed s)
    (hcollecting : action.collecting = true) (hs : step s action = some t) : WellFormed t := by
  have hold := h.atWork
  cases action with
  | gcNext name =>
    obtain ⟨gc, hg, hs⟩ := collect_eq_some hs
    obtain ⟨hp, -, rfl⟩ := gcNext_cases hs
    exact h.setGc (by rintro _ _ _ ⟨⟩ ⟨⟩)
  | gcRead =>
    obtain ⟨gc, hg, hs⟩ := collect_eq_some hs
    obtain ⟨name, hp, ⟨e, he, rfl⟩ | ⟨record, hr, hage, rfl⟩ | ⟨record, hr, hage, rfl⟩⟩ :=
      gcRead_cases hs
    · exact h.setGc (by simp)
    · obtain ⟨entry, hentry, hcomplete⟩ := readQuarantineRecord_ok hr
      have hissued := h.recorded name entry record hentry hcomplete
      have hfilled := h.not_filling hentry hcomplete
      refine h.setGc ?_
      rintro _ _ _ ⟨⟩ ⟨⟩
      exact ⟨hissued, hage, hfilled⟩
    · exact h.setGc (by rintro _ _ _ ⟨⟩ ⟨⟩)
  | gcCheck =>
    obtain ⟨gc, hg, hs⟩ := collect_eq_some hs
    obtain ⟨name, record, hp, ⟨e, he, rfl⟩ | ⟨hunref, rfl⟩⟩ := gcCheck_cases hs
    · exact h.setGc (by simp)
    · refine h.setGc ?_
      grind [GcPhase.atWork]
  | gcMakeWritable =>
    obtain ⟨gc, hg, hs⟩ := collect_eq_some hs
    obtain ⟨name, record, hp, ⟨e, he, rfl⟩ | ⟨entry, he, rfl⟩⟩ := gcMakeWritable_cases hs
    · exact h.setGc (by simp)
    · refine h.setGc ?_
      grind [GcPhase.atWork]
  | gcUnlinkNode index =>
    obtain ⟨gc, hg, hs⟩ := collect_eq_some hs
    obtain ⟨name, record, left, entry, hp, he, hleft, rfl⟩ := gcUnlinkNode_cases hs
    have hidle := (hold gc name record hg (by rw [hp]; rfl)).2.2
    refine h.replace (by simp [he]) ((h.placed name).unlink hidle ?_)
    rintro _ ⟨⟩
    exact ⟨entry, he, .inl rfl, fun hnone => by simp [hnone]⟩
  | gcUnlink child =>
    obtain ⟨gc, hg, hs⟩ := collect_eq_some hs
    obtain ⟨name, record, left, hp, rfl⟩ := gcUnlink_cases hs
    have hat := hold gc name record hg (by rw [hp]; rfl)
    have hsmaller : WellFormed (s.setEntry name ((s.entries name).map (·.unlink child))) := by
      refine h.replace (by simp) ((h.placed name).unlink hat.2.2 ?_)
      intro e' he'
      obtain ⟨e, he, rfl⟩ := Option.map_eq_some_iff.1 he'
      cases child with
      | record => exact ⟨e, he, .inr rfl, id⟩
      | payload => exact ⟨e, he, .inl rfl, fun _ => rfl⟩
    refine hsmaller.setGc ?_
    rintro _ _ _ ⟨⟩ ⟨⟩
    exact hat
  | gcRmdir =>
    obtain ⟨gc, hg, hs⟩ := collect_eq_some hs
    obtain ⟨name, record, hp, ⟨he, rfl⟩ | ⟨he, rfl⟩⟩ := gcRmdir_cases hs
    · have hidle := (hold gc name record hg (by rw [hp]; rfl)).2.2
      refine WellFormed.setGc (h.replace (by simp) ((h.placed name).unlink hidle nofun)) ?_
      rintro _ _ _ ⟨⟩ ⟨⟩
    · exact h.setGc (by simp)
  | gcSync =>
    obtain ⟨gc, hg, hs⟩ := collect_eq_some hs
    obtain ⟨name, hp, rfl⟩ := gcSync_cases hs
    exact h.setGc (by rintro _ _ _ ⟨⟩ ⟨⟩)
  | gcEnd =>
    obtain ⟨gc, hg, hs⟩ := collect_eq_some hs
    obtain ⟨hp, -, rfl⟩ := gcEnd_cases hs
    exact h.setGc (by simp)
  | gcStop =>
    obtain ⟨gc, hg, hs⟩ := collect_eq_some hs
    cases hs
    exact h.setGc (by simp)
  | _ => cases hcollecting

theorem removes_eq_true_iff {status : GcStatus S} :
    status.removes name = true ↔
      ∃ gc record left, status = .running gc ∧ gc.phase = .removing name record left := by
  unfold GcStatus.removes
  constructor
  · intro h
    split at h
    · obtain rfl := eq_of_beq h
      exact ⟨_, _, _, rfl, rfl⟩
    · cases h
  · rintro ⟨gc, record, left, rfl, hp⟩
    obtain ⟨now, age, pending, phase, removed⟩ := gc
    obtain rfl : phase = .removing name record left := hp
    simp

/-- A collector that is not in `remove_dir_all` can go to any phase whose knowledge it has. -/
theorem Collectable.toPhase {gc' : Gc S} (h : Collectable s) (hg : s.gc = .running gc)
    (hp : ∀ name record left, gc.phase ≠ .removing name record left) (hsound : Sound s gc'.phase) :
    Collectable (s.setGc (.running gc')) := by
  refine h.setGc (fun gc'' heq => by cases heq; exact hsound) (fun name hr => ?_) (by simp)
  obtain ⟨gc₀, record, left, hg₀, hp₀⟩ := removes_eq_true_iff.1 hr
  cases hg.symm.trans hg₀
  exact absurd hp₀ (hp name record left)

theorem makeWritable_ok {entry : Entry S} {error : ModelsError S}
    (h : ∀ nodes, entry.payload = some nodes → ∀ node ∈ nodes, node.foreign = false) :
    makeWritable (some entry) ≠ .error error := by
  have hnone : (entry.payload.getD []).any PayloadNode.foreign = false := by
    cases hp : entry.payload with
    | none => rfl
    | some nodes => simpa using h nodes hp
  simp [makeWritable, hnone]

/-- Unlinking keeps what the collector knows of the entry it removes. -/
theorem Collectable.unlink {record : QuarantineRecord S} {left left' : List Child}
    {entry : Option (Entry S)} {gc' : Gc S} (h : Collectable s) (hg : s.gc = .running gc)
    (hp : gc.phase = .removing name record left) (hp' : gc'.phase = .removing name record left')
    (hsome : entry.isSome = true)
    (hpayload : ∀ e nodes, entry = some e → e.payload = some nodes →
      ∀ node ∈ nodes, node.foreign = false)
    (hleft : ∀ e, entry = some e →
      (e.record ≠ .missing → .record ∈ left') ∧ (e.payload ≠ none → .payload ∈ left')) :
    Collectable ((s.setEntry name entry).setGc (.running gc')) := by
  obtain ⟨hrecorded, hown, hsource, hphase, -⟩ := h
  have hsound := hphase gc hg
  rw [hp] at hsound
  refine ⟨fun other he => ?_, ?_, by grind, ?_, by simp⟩
  · by_cases hother : other = name
    · refine .inr (.inr (removes_eq_true_iff.2 ⟨gc', record, left', rfl, ?_⟩))
      rw [hother]
      exact hp'
    · have hrm : s.gc.removes other = false := by
        by_contra hr
        obtain ⟨gc₀, _, _, hg₀, hp₀⟩ := removes_eq_true_iff.1 (by simpa using hr)
        grind
      grind [State.whole]
  · grind
  · rintro _ ⟨⟩
    rw [hp']
    exact ⟨hsound.1, by simpa using hsome, by simpa using hleft⟩

/-- The collector's own steps keep every entry collectable, and none of them fails. -/
theorem Collectable.collect [DecidableEq S] {action : Action S} (h : Collectable s)
    (ok : Undisturbed s action) (hcollecting : action.collecting = true)
    (hs : step s action = some t) : Collectable t := by
  cases action with
  | gcNext name =>
    obtain ⟨gc, hg, hs⟩ := collect_eq_some hs
    obtain ⟨hp, -, rfl⟩ := gcNext_cases hs
    exact h.toPhase hg (by simp [hp]) trivial
  | gcRead =>
    obtain ⟨gc, hg, hs⟩ := collect_eq_some hs
    obtain ⟨name, hp, hcase⟩ := gcRead_cases hs
    have hreadable : s.readable name := ok name ⟨gc, hg, hp⟩
    rcases hcase with ⟨e, he, rfl⟩ | ⟨record, hr, hage, rfl⟩ | ⟨record, hr, hage, rfl⟩
    · obtain ⟨record, hr⟩ := hreadable
      rw [he] at hr
      cases hr
    · exact h.toPhase hg (by simp [hp]) (whole_of_readable hreadable)
    · exact h.toPhase hg (by simp [hp]) trivial
  | gcCheck =>
    obtain ⟨gc, hg, hs⟩ := collect_eq_some hs
    obtain ⟨name, record, hp, hcase⟩ := gcCheck_cases hs
    have hunref : s.unreferenced record = true := ok name record ⟨gc, hg, hp⟩
    have hwhole : Sound s gc.phase := h.phase gc hg
    rw [hp] at hwhole
    rcases hcase with ⟨e, he, rfl⟩ | ⟨-, rfl⟩
    · rw [he] at hunref
      cases hunref
    · exact h.toPhase hg (by simp [hp]) ⟨hwhole, hunref⟩
  | gcMakeWritable =>
    obtain ⟨gc, hg, hs⟩ := collect_eq_some hs
    obtain ⟨name, record, hp, hcase⟩ := gcMakeWritable_cases hs
    have hsound : Sound s gc.phase := h.phase gc hg
    rw [hp] at hsound
    rcases hcase with ⟨e, he, rfl⟩ | ⟨entry, he, rfl⟩
    · obtain ⟨entry, hentry⟩ : ∃ entry, s.entries name = some entry := by
        have hwhole := hsound.1
        unfold State.whole at hwhole
        cases hn : s.entries name with
        | none => simp [hn] at hwhole
        | some entry => exact ⟨entry, rfl⟩
      rw [hentry] at he
      exact absurd he (makeWritable_ok fun nodes => h.ownPayload name entry nodes hentry)
    · refine h.toPhase hg (by simp [hp]) ⟨hsound.2, by simp [he], ?_⟩
      grind [Entry.children]
  | gcUnlinkNode index =>
    obtain ⟨gc, hg, hs⟩ := collect_eq_some hs
    obtain ⟨name, record, left, entry, hp, he, hleft, rfl⟩ := gcUnlinkNode_cases hs
    have hsound : Sound s gc.phase := h.phase gc hg
    rw [hp] at hsound
    have hkeep : Collectable ((s.setEntry name (some
        { entry with payload := entry.payload.map (·.eraseIdx index) })).setGc (.running gc)) := by
      refine h.unlink hg hp hp rfl ?_ ?_
      · rintro e nodes ⟨⟩ hnodes node hnode
        obtain ⟨old, hold, rfl⟩ := Option.map_eq_some_iff.1 hnodes
        exact h.ownPayload name entry old he hold node (List.mem_of_mem_eraseIdx hnode)
      · rintro e ⟨⟩
        exact ⟨(hsound.2.2 entry he).1, fun _ => hleft⟩
    simpa [State.setGc, State.setEntry, hg] using hkeep
  | gcUnlink child =>
    obtain ⟨gc, hg, hs⟩ := collect_eq_some hs
    obtain ⟨name, record, left, hp, rfl⟩ := gcUnlink_cases hs
    have hsound : Sound s gc.phase := h.phase gc hg
    rw [hp] at hsound
    have hown := h.ownPayload name
    obtain ⟨entry, he⟩ := Option.isSome_iff_exists.1 hsound.2.1
    have hleft := hsound.2.2 entry he
    refine Collectable.unlink h hg hp (by rfl) (by simp [he]) ?_ ?_
    · cases child <;> grind [Entry.unlink]
    · cases child <;> grind [Entry.unlink]
  | gcRmdir =>
    obtain ⟨gc, hg, hs⟩ := collect_eq_some hs
    obtain ⟨name, record, hp, hcase⟩ := gcRmdir_cases hs
    have hsound : Sound s gc.phase := h.phase gc hg
    rw [hp] at hsound
    obtain ⟨entry, he⟩ := Option.isSome_iff_exists.1 hsound.2.1
    rcases hcase with ⟨-, rfl⟩ | ⟨hne, rfl⟩
    · obtain ⟨hrecorded, hown, hsource, hphase, -⟩ := h
      refine ⟨fun other hother => ?_, by grind, by grind, by rintro _ ⟨⟩; trivial, by simp⟩
      have hrm : s.gc.removes other = true → other = name := by
        intro hr
        obtain ⟨gc₀, _, _, hg₀, hp₀⟩ := removes_eq_true_iff.1 hr
        grind
      grind [State.whole]
    · obtain ⟨hr, hpay⟩ := hsound.2.2 entry he
      have hempty : entry = Entry.empty :=
        Entry.eq_empty (by simpa using hr) (by simpa using hpay)
      exact absurd (he.trans (congrArg some hempty)) hne
  | gcSync =>
    obtain ⟨gc, hg, hs⟩ := collect_eq_some hs
    obtain ⟨name, hp, rfl⟩ := gcSync_cases hs
    exact h.toPhase hg (by simp [hp]) trivial
  | gcEnd =>
    obtain ⟨gc, hg, hs⟩ := collect_eq_some hs
    obtain ⟨hp, -, rfl⟩ := gcEnd_cases hs
    refine h.setGc (by simp) (fun name hr => ?_) (by simp)
    obtain ⟨gc₀, _, _, hg₀, hp₀⟩ := removes_eq_true_iff.1 hr
    grind
  | gcStop =>
    obtain ⟨gc, hg, hs⟩ := collect_eq_some hs
    cases hs
    refine h.setGc (by simp) (fun name hr => .inl ?_) (by simp)
    obtain ⟨gc₀, record, left, hg₀, hp₀⟩ := removes_eq_true_iff.1 hr
    exact whole_of_readable (ok name record left ⟨gc₀, hg₀, hp₀⟩)
  | _ => cases hcollecting

end collector

end Quarantine

end Emelex

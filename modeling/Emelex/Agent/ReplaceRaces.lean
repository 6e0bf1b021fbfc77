import Mathlib.Data.List.Basic
import Emelex.Agent.AtomicReplace

/-!
# Concurrent replacements of one file

* `Chain` — the files in force at the target, each call's temporary name holding the file below its
  own.
* `Invariant` — what holds in every state of a settled run.

Principal results: `settled_writers_lose_no_data`, `three_writers_lose_data` (a swap back over another
call's file loses it), `foreign_rollback_unlinks` (and every such swap back does).
-/

set_option autoImplicit false

namespace Emelex

open Machine

namespace AtomicReplace

/-- `x` is at the target, put there by the first call, over what the second one had put there, … -/
def Chain (existing : Bool) (displaced : CallId → Option Inode) : List CallId → Option Inode → Prop
  | [], x => x = originalEntry existing
  | call :: rest, x => x = some (.temp call) ∧ Chain existing displaced rest (displaced call)

theorem Chain.congr {existing : Bool} {displaced displaced' : CallId → Option Inode}
    {calls : List CallId} {x : Option Inode} (h : Chain existing displaced calls x)
    (heq : ∀ call ∈ calls, displaced' call = displaced call) :
    Chain existing displaced' calls x := by
  induction calls generalizing x with
  | nil => exact h
  | cons call rest ih =>
    rw [Chain, heq call List.mem_cons_self]
    exact ⟨h.1, ih h.2 fun c hc => heq c (List.mem_cons_of_mem _ hc)⟩

/-- The calls whose files are in force at the target, newest first. -/
def State.forced (s : State) : List CallId :=
  s.installs.filter fun call => (s.phase call).inForce

/-- The call has put its file at the target, now or before. -/
def Phase.past : Phase → Bool
  | .idle | .opened | .created | .written => false
  | _ => true

/-- The temporary name of the call holds its own file. -/
def Phase.ownsTemp : Phase → Bool
  | .created | .written | .rolledBack _ | .dropping _ => true
  | _ => false

/-- The temporary name of the call holds what its swap took from the target. -/
def Phase.holdsDisplaced : Phase → Bool
  | .swapped | .matched | .rollingBack _ => true
  | _ => false

/-- The call knows that it replaced the expected file. -/
def Phase.verified : Phase → Bool
  | .matched | .replaced | .returned (.ok ()) => true
  | _ => false

/-- What holds in every state of a settled run. -/
structure Invariant (existing : Bool) (s : State) : Prop where
  fresh : ∀ call, (s.phase call).past = false → (s.phase call).ownsTemp = false →
    s.dir (.temp call) = none
  own : ∀ call, (s.phase call).ownsTemp = true → s.dir (.temp call) = some (.temp call)
  held : ∀ call, (s.phase call).holdsDisplaced = true → s.dir (.temp call) = s.displaced call
  kept : ∀ call, (s.phase call).holdsDisplaced = true → (s.displaced call).isSome = true
  chain : Chain existing s.displaced s.forced (s.dir .target)
  past : ∀ call, call ∈ s.installs → (s.phase call).past = true
  dropped : ∀ call inode, (call, inode) ∈ s.unlinked → (s.phase call).past = true
  listed : ∀ call, (s.phase call).inForce = true → call ∈ s.installs
  nodup : s.installs.Nodup
  verified : ∀ call inode, (s.phase call).verified = true → s.expected call = some inode →
    s.displaced call = some inode
  matched : ∀ call, s.phase call = .matched → s.expected call = s.displaced call
  unlinked : ∀ call inode, (call, inode) ∈ s.unlinked →
    inode = .temp call ∨ s.expected call = some inode ∧ s.displaced call = some inode

variable {existing : Bool} {s t : State}

theorem invariant_initial (existing : Bool) : Invariant existing (.initial existing) := by
  constructor <;> simp [State.initial, State.forced, Chain, Phase.past, Phase.ownsTemp,
    Phase.holdsDisplaced, Phase.inForce, Phase.verified]

/-! ## Steps -/

/-- A call that moves to a phase of the same kind. -/
theorem Invariant.setPhase {call : CallId} {phase : Phase} (h : Invariant existing s)
    (hforce : phase.inForce = (s.phase call).inForce)
    (hpast : (s.phase call).past = true → phase.past = true)
    (hfresh : phase.past = false → phase.ownsTemp = false → s.dir (.temp call) = none)
    (hown : phase.ownsTemp = true → s.dir (.temp call) = some (.temp call))
    (hheld : phase.holdsDisplaced = true → s.dir (.temp call) = s.displaced call ∧
      (s.displaced call).isSome = true)
    (hverified : phase.verified = true → ∀ inode, s.expected call = some inode →
      s.displaced call = some inode)
    (hmatched : phase = .matched → s.expected call = s.displaced call) :
    Invariant existing (s.setPhase call phase) := by
  have hforced : (s.setPhase call phase).forced = s.forced := by
    refine List.filter_congr fun other _ => ?_
    by_cases ho : other = call
    · subst ho
      simp [hforce]
    · simp [ho]
  obtain ⟨ifresh, iown, iheld, ikept, ichain, ipast, idropped, ilisted, inodup, iverified, imatched, iunlinked⟩ := h
  refine ⟨?_, ?_, ?_, ?_, hforced ▸ ichain, ?_, ?_, ?_, inodup, ?_, ?_, iunlinked⟩ <;> grind

/-- Unlinking the temporary name of a call that owns it, or that holds the expected file there. -/
theorem Invariant.unlinkTemp {call : CallId} (h : Invariant existing s)
    (hpast : (s.phase call).past = true)
    (hinode : ∀ inode, s.dir (.temp call) = some inode →
      inode = .temp call ∨ s.expected call = some inode ∧ s.displaced call = some inode)
    {phase : Phase} (hforce : phase.inForce = (s.phase call).inForce) (hpast' : phase.past = true)
    (hown : phase.ownsTemp = false) (hheld : phase.holdsDisplaced = false)
    (hverified : phase.verified = true → (s.phase call).verified = true) :
    Invariant existing ((s.unlinkTemp call).setPhase call phase) := by
  have hforced : ((s.unlinkTemp call).setPhase call phase).forced = s.forced := by
    refine List.filter_congr fun other _ => ?_
    by_cases ho : other = call
    · subst ho
      simp [hforce]
    · simp [ho, State.unlinkTemp]
  have hnotmatched : phase ≠ .matched := by
    rintro rfl
    cases hheld
  obtain ⟨ifresh, iown, iheld, ikept, ichain, ipast, idropped, ilisted, inodup, iverified, imatched,
    iunlinked⟩ := h
  cases hdir : s.dir (.temp call) <;>
    refine ⟨?_, ?_, ?_, ?_, hforced ▸ ichain, ?_, ?_, ?_, inodup, ?_, ?_, ?_⟩ <;>
    simp only [State.unlinkTemp, State.setPhase_dir, State.setPhase_phase, State.setName_dir,
      State.setPhase_expected, State.setPhase_displaced, State.setPhase_installs,
      State.setPhase_unlinked, hdir, Option.toList_some, Option.toList_none, List.map_cons,
      List.map_nil] <;> grind

/-- The newest file in force is the one at the target. -/
theorem Chain.newest {displaced : CallId → Option Inode} {calls : List CallId} {x : Option Inode}
    (h : Chain existing displaced calls x) :
    x = match calls.head? with
      | some call => some (.temp call)
      | none => originalEntry existing := by
  cases calls with
  | nil => exact h
  | cons call rest => exact h.1

/-- A call puts its file at the target, over what the chain has there. -/
theorem Invariant.force {call : CallId} {u : State} (h : Invariant existing s) (phase : Phase)
    (hwritten : s.phase call = .written) (hforce : phase.inForce = true) (hpast : phase.past = true)
    (hown : phase.ownsTemp = false)
    (hheld : phase.holdsDisplaced = true →
      u.dir (.temp call) = s.dir .target ∧ (s.dir .target).isSome = true)
    (hverified : phase.verified = true → s.expected call = none) (hmatched : phase ≠ .matched)
    (hu : ∀ other, u.phase other = if other = call then phase else s.phase other)
    (hdisplaced : ∀ other,
      u.displaced other = if other = call then s.dir .target else s.displaced other)
    (hinstalls : u.installs = call :: s.installs)
    (hexpected : ∀ other, u.expected other = s.expected other)
    (hunlinked : u.unlinked = s.unlinked) (htarget : u.dir .target = some (.temp call))
    (hother : ∀ other, other ≠ call → u.dir (.temp other) = s.dir (.temp other)) :
    Invariant existing u := by
  obtain ⟨ifresh, iown, iheld, ikept, ichain, ipast, idropped, ilisted, inodup, iverified, imatched, iunlinked⟩ := h
  have hnew : call ∉ s.installs := by
    intro hmem
    have := ipast call hmem
    simp [hwritten, Phase.past] at this
  have hnone : ∀ inode, (call, inode) ∉ s.unlinked := by
    intro inode hmem
    have := idropped call inode hmem
    simp [hwritten, Phase.past] at this
  have hforced : u.forced = call :: s.forced := by
    unfold State.forced
    rw [hinstalls, List.filter_cons_of_pos (by simpa [hu] using hforce)]
    congr 1
    refine List.filter_congr fun other hmem => ?_
    have ho : other ≠ call := fun heq => hnew (heq ▸ hmem)
    rw [hu, if_neg ho]
  refine ⟨?_, ?_, ?_, ?_, ?_, ?_, ?_, ?_, ?_, ?_, ?_, ?_⟩
  · grind
  · grind
  · grind
  · grind
  · rw [hforced, htarget]
    refine ⟨rfl, ?_⟩
    rw [hdisplaced, if_pos rfl]
    refine ichain.congr fun other hmem => ?_
    have ho : other ≠ call := fun heq => hnew (heq ▸ List.mem_of_mem_filter hmem)
    rw [hdisplaced, if_neg ho]
  · grind
  · grind
  · grind
  · rw [hinstalls]
    exact List.nodup_cons.2 ⟨hnew, inodup⟩
  · grind
  · grind
  · grind

/-- Taking back the newest file in force gives the target what was under it. -/
theorem Invariant.takeBack {call : CallId} {error : WorkspaceError} (h : Invariant existing s)
    (hphase : s.phase call = .rollingBack error) (htarget : s.dir .target = some (.temp call)) :
    Invariant existing ((s.swapEntries call).setPhase call (.rolledBack error)) := by
  obtain ⟨ifresh, iown, iheld, ikept, ichain, ipast, idropped, ilisted, inodup, iverified, imatched, iunlinked⟩ := h
  have hheld := iheld call (by rw [hphase]; rfl)
  -- the call is the newest one in force
  obtain ⟨rest, hrest⟩ : ∃ rest, s.forced = call :: rest := by
    have hnewest := ichain.newest
    rw [htarget] at hnewest
    cases hf : s.forced with
    | nil =>
      rw [hf] at hnewest
      cases existing <;> cases hnewest
    | cons other rest =>
      rw [hf] at hnewest
      cases hnewest
      exact ⟨rest, rfl⟩
  have hmem : call ∉ rest := by
    have : s.forced.Nodup := inodup.filter _
    rw [hrest] at this
    exact (List.nodup_cons.1 this).1
  have hforced : ((s.swapEntries call).setPhase call (.rolledBack error)).forced = rest := by
    have hfilter : ((s.swapEntries call).setPhase call (.rolledBack error)).forced =
        s.forced.filter fun other => other ≠ call := by
      unfold State.forced
      rw [List.filter_filter]
      refine List.filter_congr fun other _ => ?_
      by_cases ho : other = call
      · simp [ho, Phase.inForce]
      · simp [ho, State.swapEntries]
    rw [hfilter, hrest, List.filter_cons_of_neg (by simp)]
    exact List.filter_eq_self.2 fun other ho => by
      simpa using fun heq : other = call => hmem (heq ▸ ho)
  have hunder : Chain existing s.displaced rest (s.displaced call) := by
    rw [hrest] at ichain
    exact ichain.2
  refine ⟨?_, ?_, ?_, ?_, ?_, ?_, ?_, ?_, inodup, ?_, ?_, ?_⟩
  case refine_5 =>
    rw [hforced]
    change Chain existing s.displaced rest _
    simpa [State.swapEntries, hheld] using hunder
  all_goals
    simp only [State.swapEntries, State.setPhase_dir, State.setPhase_phase, State.setName_dir,
      State.setName_phase, State.setPhase_expected, State.setPhase_displaced,
      State.setPhase_installs, State.setPhase_unlinked, State.setName_installs,
      State.setName_unlinked, State.setName_expected, State.setName_displaced]
    grind [Phase.past, Phase.ownsTemp, Phase.holdsDisplaced, Phase.inForce, Phase.verified]

/-- A call that ends, or is about to unlink its own file, without having touched the target. -/
theorem Invariant.fail {call : CallId} {phase : Phase} (h : Invariant existing s)
    (hold : (s.phase call).inForce = false) (hforce : phase.inForce = false)
    (hpast : phase.past = true) (hheld : phase.holdsDisplaced = false)
    (hverified : phase.verified = false)
    (hown : phase.ownsTemp = true → (s.phase call).ownsTemp = true) :
    Invariant existing (s.setPhase call phase) := by
  have hmatched : phase ≠ .matched := by
    rintro rfl
    cases hheld
  exact h.setPhase (by rw [hforce, hold]) (fun _ => hpast) (by simp [hpast])
    (fun ho => h.own call (hown ho)) (by simp [hheld]) (by simp [hverified])
    (fun hm => absurd hm hmatched)

/-- `O_EXCL` gives the call its temporary name. -/
theorem Invariant.create {call : CallId} (h : Invariant existing s)
    (hphase : s.phase call = .opened) :
    Invariant existing ((s.setName (.temp call) (some (.temp call))).setPhase call .created) := by
  have hcreated : Invariant existing (s.setPhase call .opened) :=
    h.setPhase (by rw [hphase]) (by simp [hphase])
      (fun _ _ => h.fresh call (by rw [hphase]; rfl) (by rw [hphase]; rfl)) nofun nofun nofun nofun
  have hforced : ((s.setName (.temp call) (some (.temp call))).setPhase call .created).forced =
      s.forced := by
    refine List.filter_congr fun other _ => ?_
    by_cases ho : other = call
    · subst ho
      simp [hphase, Phase.inForce]
    · simp [ho]
  obtain ⟨ifresh, iown, iheld, ikept, ichain, ipast, idropped, ilisted, inodup, iverified, imatched,
    iunlinked⟩ := h
  refine ⟨?_, ?_, ?_, ?_, hforced ▸ ichain, ?_, ?_, ?_, inodup, ?_, ?_, iunlinked⟩ <;>
    grind [Phase.past, Phase.ownsTemp, Phase.holdsDisplaced, Phase.inForce, Phase.verified]

/-- Every settled step keeps the invariant. -/
theorem Invariant.step {action : Action} (h : Invariant existing s) (ok : Settled s action)
    (hs : step s action = some t) : Invariant existing t := by
  cases action with
  | openTarget call =>
    simp only [AtomicReplace.step, openTarget] at hs
    split at hs
    case h_2 => cases hs
    case h_1 hphase =>
      cases hs
      have hopen : Invariant existing (s.setPhase call .opened) :=
        h.setPhase (by rw [hphase]; rfl) (by simp [hphase, Phase.past])
          (fun _ _ => h.fresh call (by rw [hphase]; rfl) (by rw [hphase]; rfl))
          nofun nofun nofun nofun
      have hnone : ∀ inode, (call, inode) ∉ s.unlinked := by
        intro inode hmem
        have := h.dropped call inode hmem
        simp [hphase, Phase.past] at this
      obtain ⟨ifresh, iown, iheld, ikept, ichain, ipast, idropped, ilisted, inodup, iverified, imatched,
        iunlinked⟩ := hopen
      refine ⟨ifresh, iown, iheld, ikept, ichain, ipast, idropped, ilisted, inodup, ?_, ?_, ?_⟩ <;>
        grind [Phase.verified, Function.update_apply]
  | createTemp call ok =>
    simp only [AtomicReplace.step, createTemp] at hs
    split at hs
    case h_2 => cases hs
    case h_1 hphase =>
      split at hs <;> cases hs
      · exact h.create hphase
      · exact h.fail (by rw [hphase]; rfl) rfl rfl rfl rfl nofun
  | writeTemp call ok =>
    simp only [AtomicReplace.step, writeTemp] at hs
    split at hs
    case h_2 => cases hs
    case h_1 hphase =>
      have hown := h.own call (by rw [hphase]; rfl)
      split at hs <;> cases hs
      · exact h.setPhase (by rw [hphase]; rfl) (by simp [hphase, Phase.past]) nofun (fun _ => hown)
          nofun nofun nofun
      · exact h.fail (by rw [hphase]; rfl) rfl rfl rfl rfl (fun _ => by rw [hphase]; rfl)
  | swap call ok =>
    simp only [AtomicReplace.step, swap] at hs
    split at hs
    case h_2 => cases hs
    case h_1 inode hphase hexpected =>
      have hown := h.own call (by rw [hphase]; rfl)
      split at hs <;> cases hs
      case isTrue hc =>
        exact h.force .swapped hphase rfl rfl rfl
          (fun _ => ⟨by simp [State.swapEntries], hc.2.1⟩) nofun nofun
          (by intro other; simp [State.swapEntries])
          (fun other => Function.update_apply ..) rfl (fun _ => rfl) rfl
          (by simp [State.swapEntries, hown])
          (fun other ho => by simp [State.swapEntries, ho])
      case isFalse =>
        exact h.fail (by rw [hphase]; rfl) rfl rfl rfl rfl (fun _ => by rw [hphase]; rfl)
  | inspect call fault =>
    simp only [AtomicReplace.step, inspect] at hs
    split at hs
    case h_2 => cases hs
    case h_1 hphase =>
      have hheld := h.held call (by rw [hphase]; rfl)
      have hkept := h.kept call (by rw [hphase]; rfl)
      split at hs
      case h_1 fault =>
        cases hs
        exact h.setPhase (by rw [hphase]; rfl) (fun _ => rfl) nofun nofun (fun _ => ⟨hheld, hkept⟩) nofun nofun
      case h_2 =>
        split at hs <;> cases hs
        case isTrue heq =>
          exact h.setPhase (by rw [hphase]; rfl) (fun _ => rfl) nofun nofun (fun _ => ⟨hheld, hkept⟩)
            (fun _ inode he => by rw [← hheld, ← heq, he]) (fun _ => by rw [← hheld, ← heq])
        case isFalse =>
          exact h.setPhase (by rw [hphase]; rfl) (fun _ => rfl) nofun nofun (fun _ => ⟨hheld, hkept⟩) nofun nofun
  | unlinkReplaced call succeeds =>
    obtain rfl : succeeds = true := ok
    simp only [AtomicReplace.step, unlinkReplaced] at hs
    split at hs
    case h_2 => cases hs
    case h_1 hphase =>
      cases hs
      have hheld := h.held call (by rw [hphase]; rfl)
      have hmatched := h.matched call hphase
      refine h.unlinkTemp (by rw [hphase]; rfl) (fun inode hdir => .inr ⟨?_, ?_⟩) (by rw [hphase]; rfl)
        rfl rfl rfl (fun _ => by rw [hphase]; rfl)
      · rw [hmatched, ← hheld, hdir]
      · rw [← hheld, hdir]
  | rollBack call succeeds =>
    obtain ⟨htarget, rfl⟩ : s.dir .target = some (.temp call) ∧ succeeds = true := ok
    simp only [AtomicReplace.step, rollBack] at hs
    split at hs
    case h_2 => cases hs
    case h_1 error hphase =>
      split at hs <;> cases hs
      case isTrue => exact h.takeBack hphase htarget
      case isFalse hfail =>
        have hheld := h.held call (by rw [hphase]; rfl)
        have hkept := h.kept call (by rw [hphase]; rfl)
        exact absurd ⟨trivial, by rw [htarget]; rfl, by rw [hheld]; exact hkept⟩ hfail
  | syncRollback call succeeds =>
    simp only [AtomicReplace.step, syncRollback] at hs
    split at hs
    case h_2 => cases hs
    case h_1 error hphase =>
      split at hs <;> cases hs
      · exact h.fail (by rw [hphase]; rfl) rfl rfl rfl rfl (fun _ => by rw [hphase]; rfl)
      · exact h.fail (by rw [hphase]; rfl) rfl rfl rfl rfl nofun
  | install call succeeds =>
    simp only [AtomicReplace.step, install] at hs
    split at hs
    case h_2 => cases hs
    case h_1 hphase hexpected =>
      have hown := h.own call (by rw [hphase]; rfl)
      split at hs <;> cases hs
      case isTrue hc =>
        exact h.force .replaced hphase rfl rfl rfl nofun (fun _ => hexpected) nofun
          (by intro other; simp)
          (fun other => Function.update_apply ..) rfl (fun _ => rfl) rfl (by simp [hown])
          (fun other ho => by simp [ho])
      case isFalse =>
        exact h.fail (by rw [hphase]; rfl) rfl rfl rfl rfl (fun _ => by rw [hphase]; rfl)
  | syncParent call succeeds =>
    obtain rfl : succeeds = true := ok
    simp only [AtomicReplace.step, syncParent] at hs
    split at hs
    case h_2 => cases hs
    case h_1 hphase =>
      cases hs
      exact h.setPhase (by rw [hphase]; rfl) (fun _ => rfl) nofun nofun nofun
        (fun _ inode he => h.verified call inode (by rw [hphase]; rfl) he) nofun
  | dropTemp call succeeds =>
    simp only [AtomicReplace.step, dropTemp] at hs
    split at hs
    case h_2 => cases hs
    case h_1 error hphase =>
      have hown := h.own call (by rw [hphase]; rfl)
      split at hs <;> cases hs
      · refine h.unlinkTemp (by rw [hphase]; rfl) (fun inode hdir => .inl ?_) (by rw [hphase]; rfl) rfl rfl
          rfl nofun
        rw [hown] at hdir
        exact (Option.some.inj hdir).symm
      · exact h.fail (by rw [hphase]; rfl) rfl rfl rfl rfl nofun

/-! ## Runs -/

theorem invariant_run {as : List Action} (h : Run step Settled (.initial existing) as s) :
    Invariant existing s :=
  h.invariant (fun _ _ _ hi ok hs => Invariant.step hi ok hs) (invariant_initial existing)

/-- In a state of a settled run the target holds the newest file in force. -/
theorem Invariant.target_eq (h : Invariant existing s) :
    s.dir .target = s.newest existing Phase.inForce := by
  rw [h.chain.newest, State.forced, List.head?_filter]
  rfl

/-- When no call is in flight, the calls in force are those that returned `Ok`. -/
theorem newest_at_rest (hrest : ∀ call, (s.phase call).atRest = true) :
    s.newest existing Phase.inForce = s.newest existing Phase.returnedOk := by
  have hsame : ∀ call, (s.phase call).inForce = (s.phase call).returnedOk := by
    intro call
    have := hrest call
    cases hphase : s.phase call with
    | returned result => cases result <;> rfl
    | idle => rfl
    | _ => simp [hphase, Phase.atRest] at this
  simp only [State.newest, hsame]

/-- **Settled runs lose no data.**  Whatever the order of the system calls and whichever fail, as long
as a call swaps back only over its own file and nothing fails once it has replaced the target. -/
theorem settled_writers_lose_no_data {existing : Bool} {as : List Action} {s : State}
    (hrun : Run step Settled (.initial existing) as s) : NoWriterLosesData existing s := by
  have h := invariant_run hrun
  refine ⟨fun call inode hok he => ?_, fun call hchanged => ⟨h.target_eq, fun htarget => ?_⟩,
    fun hrest => ?_, h.unlinked⟩
  · exact h.verified call inode (by rw [hok]; rfl) he
  · have hnewest := h.chain.newest
    rw [htarget] at hnewest
    cases hf : s.forced with
    | nil =>
      rw [hf] at hnewest
      cases existing <;> cases hnewest
    | cons other rest =>
      rw [hf] at hnewest
      cases hnewest
      have hmem : call ∈ s.forced := hf ▸ List.mem_cons_self
      have hforce := (List.mem_filter.1 hmem).2
      rw [hchanged] at hforce
      cases hforce
  · rw [h.target_eq, newest_at_rest hrest]

/-- Two writers open the same file.  The second finds the file of the first and swaps back over its
own. -/
def twoWriters : List Action :=
  ([0, 1].flatMap fun call => [.openTarget call, .createTemp call true, .writeTemp call true]) ++
  [.swap 0 true, .inspect 0 none, .unlinkReplaced 0 true, .syncParent 0 true, .swap 1 true,
    .inspect 1 none]

theorem settled_writers_lose_no_data_two : ∃ s,
    run step (.initial true) (twoWriters ++
      [.rollBack 1 true, .syncRollback 1 true, .dropTemp 1 true]) = some s ∧
    NoWriterLosesData true s := by
  obtain ⟨s, hs⟩ : ∃ s, run step (.initial true) twoWriters = some s := ⟨_, rfl⟩
  obtain ⟨t, ht⟩ : ∃ t, step s (.rollBack 1 true) = some t := by cases hs; exact ⟨_, rfl⟩
  obtain ⟨u, hu⟩ : ∃ u, run step t [.syncRollback 1 true, .dropTemp 1 true] = some u := by
    cases hs
    cases ht
    exact ⟨_, rfl⟩
  have hown : Settled s (.rollBack 1 true) := ⟨by cases hs; rfl, rfl⟩
  have hswaps : Run step Settled (.initial true) twoWriters s :=
    .of_run hs (by simp [twoWriters, Settled])
  have hback : Run step Settled t [.syncRollback 1 true, .dropTemp 1 true] u :=
    .of_run hu (by simp [Settled])
  have hrun := hswaps.append (.cons hown ht hback)
  exact ⟨u, run_eq_some_iff.2 (hrun.mono fun _ _ _ => trivial), settled_writers_lose_no_data hrun⟩

/-! ## The swap back that loses data -/

/-- Three writers open the same file.  The first replaces it and returns `Ok`; the second and the
third swap, and each swaps back what the other has put there. -/
def threeWriters : List Action :=
  ([0, 1, 2].flatMap fun call =>
    [.openTarget call, .createTemp call true, .writeTemp call true]) ++
  [.swap 0 true, .inspect 0 none, .unlinkReplaced 0 true, .syncParent 0 true, .swap 1 true,
    .swap 2 true, .inspect 1 none, .rollBack 1 true, .syncRollback 1 true, .dropTemp 1 true,
    .inspect 2 none, .rollBack 2 true, .syncRollback 2 true, .dropTemp 2 true]

/-- **Three writers lose data**: the second call unlinks the file of the third, the third that of the
first, which had returned `Ok`. -/
theorem three_writers_lose_data : ¬ HoldsAlong anyStep := by
  intro h
  obtain ⟨s, hs⟩ : ∃ s, run step (.initial true) threeWriters = some s := ⟨_, rfl⟩
  have hunlinked := (h true _ s (run_eq_some_iff.1 hs)).unlinked 2 (.temp 0)
    (by cases hs; decide)
  rcases hunlinked with hown | ⟨-, hdisplaced⟩
  · cases hown
  · cases hs
    cases hdisplaced

/-- A swap back over another call's file, followed by the drop of the temporary name, unlinks that
file. -/
theorem foreign_rollback_unlinks {call other : CallId} {error : WorkspaceError} {u v : State}
    (hphase : s.phase call = .rollingBack error) (htarget : s.dir .target = some (.temp other))
    (hback : step s (.rollBack call true) = some t) (hrolled : t.phase call = .rolledBack error)
    (hsync : step t (.syncRollback call true) = some u)
    (hdrop : step u (.dropTemp call true) = some v) : (call, .temp other) ∈ v.unlinked := by
  simp only [step, rollBack, hphase] at hback
  split at hback
  case isFalse =>
    cases hback
    simp at hrolled
  case isTrue =>
    cases hback
    simp only [step, syncRollback, hrolled] at hsync
    cases hsync
    simp only [step, dropTemp, State.setPhase_phase] at hdrop
    cases hdrop
    simp [State.unlinkTemp, State.swapEntries, htarget]

end AtomicReplace

end Emelex

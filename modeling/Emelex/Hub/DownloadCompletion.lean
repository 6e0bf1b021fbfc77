import Emelex.Hub.DownloadProgress
import Mathlib.Algebra.Order.BigOperators.Group.Finset

/-!
# Every download comes to its end (`hub/mod.rs`)

Calls of `download_with_callbacks` in which nothing fails, from any staging directory whose partial
files are beginnings of what the server holds.

* `Faultless` — the steps of such a call.
* `TaskOk`, `CallOk` — where its tasks and its scheduler stand.
* `State.work` — a bound on the steps that are left.

Principal results: `Going.step`, `exists_step`, `downloads_complete_iff` (such a call returns, and
with one record for every planned file exactly when every file is completable).
-/

set_option autoImplicit false

namespace Emelex

open Text Machine

namespace Hub

/-- The whole content is what the contract of a server asks for. -/
theorem CorrectResponse.honest {content : Bytes} {f : RemoteFile} {existing : Nat} {r : Response}
    (h : CorrectResponse content existing r) :
    HonestResponse content f existing r ∧ ExpectedResponse existing r := by
  rcases h with ⟨hstatus, hbody⟩ | ⟨hstatus, hpos, hbody, hrange, -⟩
  · refine ⟨⟨fun _ => by rw [hbody], fun h => ?_⟩, fun _ _ => .inl hstatus⟩
    rw [hstatus] at h
    exact absurd h (by decide)
  · refine ⟨⟨fun h => ?_, fun _ _ value first last total hvalue hparse => ?_⟩,
      fun hzero => absurd hzero (Nat.ne_of_gt hpos)⟩
    · rw [hstatus] at h
      exact absurd h (by decide)
    · rw [hvalue, Option.bind_some, hparse] at hrange
      cases hrange
      rw [hbody, List.take_of_length_le]
      rw [List.length_drop]
      omega

section system

variable (sha256 : Bytes → List Char) (plan : DownloadPlan) (content : PathName → Bytes)
  (d₀ : Directory)

/-- Nothing fails, nobody cancels, and the server answers with what it holds. -/
def Faultless (s : State) : Action → Prop
  | .task index event => ∀ c f phase, s.status = .running c → plan.files[index]? = some f →
      c.tasks index = some phase → Answers f (content f.path) phase event
  | .collect _ => True
  | .finish outcome => outcome = .ok ()
  | .start _ | .stop | .cancel => False

/-- A file can be completed from the directory of the start. -/
def CompletableAt (f : RemoteFile) : Prop :=
  Completable sha256 f (d₀.find f.localPath) (d₀.find f.partPath)

/-- The bytes that a file has at the end: what is published already, or what the server holds. -/
def source (f : RemoteFile) : Bytes :=
  match d₀.find f.localPath with
  | some e => e.bytes
  | none => content f.path

/-- Where a task stands, by what its names hold. -/
def TaskOk (f : RemoteFile) (cancelled : Bool) (completed part : Option Entry) (phase : Phase) :
    Prop :=
  (CompletableAt sha256 d₀ f ∧ (completed = none → d₀.find f.localPath = none) ∧
      SlotOk (source content d₀ f) completed part ∧
      PhaseOk sha256 f (source content d₀ f) completed part phase ∧
      Ready sha256 f (source content d₀ f) cancelled completed part phase) ∨
    (¬ CompletableAt sha256 d₀ f ∧ completed = d₀.find f.localPath ∧ part = d₀.find f.partPath ∧
      Stuck f completed phase)

/-- Where a running call stands. -/
structure CallOk (d : Directory) (c : Call) : Prop where
  distinct : d.Distinct
  started : ∀ i phase, c.tasks i = some phase → i < c.next
  next_le : c.next ≤ plan.files.length
  waiting : ∀ i f, plan.files[i]? = some f → c.next ≤ i →
    d.find f.localPath = d₀.find f.localPath ∧ d.find f.partPath = d₀.find f.partPath
  tasks : ∀ i f phase, plan.files[i]? = some f → c.tasks i = some phase →
    TaskOk sha256 content d₀ f c.cancelled (d.find f.localPath) (d.find f.partPath) phase
  installed : ∀ i file, c.installed i = some file → i < c.next ∧ c.tasks i = none ∧
    ∀ f, plan.files[i]? = some f → CompletableAt sha256 d₀ f ∧
      Installed sha256 f (d.find f.localPath) (d.find f.partPath) file
  taken : c.firstError = none → ∀ i < c.next, c.tasks i = none → (c.installed i).isSome
  stopped : c.cancelled = c.firstError.isSome
  blamed : c.firstError.isSome → ∃ f ∈ plan.files, ¬ CompletableAt sha256 d₀ f

/-- A file that waits will be taken up. -/
def Busy (c : Call) : Prop :=
  c.firstError = none → c.next < plan.files.length → ∃ i, (c.tasks i).isSome

/-- What holds in every state of a call in which nothing fails. -/
def Going (s : State) : Prop :=
  match s.status with
  | .idle => False
  | .running c => CallOk sha256 plan content d₀ s.staging c ∧ Busy plan c
  | .returned (.ok files) => Complete sha256 plan s.staging files ∧
      ∀ f ∈ plan.files, CompletableAt sha256 d₀ f
  | .returned (.error _) => ∃ f ∈ plan.files, ¬ CompletableAt sha256 d₀ f

/-- What the call was given: the plan and the directory are admissible, the server holds the files
of the plan, and the partial files are beginnings of them. -/
structure Admissible : Prop where
  plan_ok : validateDownloadPlan plan = .ok ()
  staging_ok : validateDownloadStaging plan.files d₀ = .ok ()
  /-- No file stands under two names, and every name is one that a directory takes. -/
  distinct : d₀.Distinct
  names : ∀ entry ∈ d₀, FileName entry.1
  held : ∀ f ∈ plan.files, Matches sha256 f (content f.path)
  parts : ∀ f ∈ plan.files, ∀ e, d₀.find f.partPath = some e → e.bytes <+: content f.path

variable {sha256 plan content d₀} {retries : Nat} {s t : State} {f : RemoteFile}
  {d d' : Directory} {c : Call} {cancelled : Bool} {phase phase' : Phase} {event : Event}

/-! ## Tasks -/

theorem source_of_none (h : d₀.find f.localPath = none) :
    source content d₀ f = content f.path := by
  unfold source
  rw [h]

/-- What a request answers with does not matter for a file that is published. -/
theorem Answers.source {completed part : Option Entry} (h : Answers f (content f.path) phase event)
    (hstart : completed = none → d₀.find f.localPath = none)
    (hphase : PhaseOk sha256 f (Hub.source content d₀ f) completed part phase) :
    Answers f (Hub.source content d₀ f) phase event := by
  cases phase
  case request a existing =>
    rw [source_of_none (hstart hphase.1)]
    exact h
  all_goals cases event <;> exact h

theorem Answers.eventOk {content : Bytes} (h : Answers f content phase event) :
    EventOk content f phase event := by
  cases phase <;> cases event <;> first | trivial | exact h.honest

theorem matches_source (h : CompletableAt sha256 d₀ f) (hheld : Matches sha256 f (content f.path)) :
    Matches sha256 f (source content d₀ f) := by
  unfold CompletableAt at h
  unfold source
  cases hfind : d₀.find f.localPath with
  | none => exact hheld
  | some e =>
    rw [hfind] at h
    exact h

theorem TaskOk.step (hdistinct : d.Distinct) (hheld : Matches sha256 f (content f.path))
    (hlimit : f.size < U64_LIMIT)
    (h : TaskOk sha256 content d₀ f cancelled (d.find f.localPath) (d.find f.partPath) phase)
    (hanswer : Answers f (content f.path) phase event)
    (hstep : taskStep sha256 retries f cancelled d phase event = some (phase', d')) :
    Touches f d d' ∧
      TaskOk sha256 content d₀ f cancelled (d'.find f.localPath) (d'.find f.partPath) phase' := by
  rcases h with ⟨hgood, hstart, hslot, hphase, hready⟩ | ⟨hbad, hcompleted, hpart, hstuck⟩
  · have hmatches := matches_source hgood hheld
    have hanswer' := hanswer.source hstart hphase
    have hkept := taskStep_kept hdistinct hmatches.1 hslot hphase hanswer'.eventOk hstep
    refine ⟨hkept.touches, .inl ⟨hgood, fun hnone => ?_, hkept.slot, hkept.phase,
      taskStep_ready (fun _ => hmatches) hlimit hslot hphase hready hanswer' hstep⟩⟩
    cases hfind : d.find f.localPath with
    | none => exact hstart hfind
    | some e =>
      rw [hkept.touches.kept e hfind] at hnone
      cases hnone
  · have hnot : ¬ Completable sha256 f (d.find f.localPath) (d.find f.partPath) := by
      rw [hcompleted, hpart]
      exact hbad
    obtain ⟨rfl, hstuck'⟩ := taskStep_stuck hheld.1 hnot hstuck hanswer hstep
    exact ⟨⟨fun _ _ _ => rfl, fun _ h => h, hdistinct⟩, .inr ⟨hbad, hcompleted, hpart, hstuck'⟩⟩

theorem TaskOk.not_retrying {completed part : Option Entry}
    (h : TaskOk sha256 content d₀ f cancelled completed part phase) (b : Attempt) :
    phase ≠ .retrying b := by
  rintro rfl
  rcases h with ⟨-, -, -, -, hready⟩ | ⟨-, -, -, hstuck⟩
  · exact hready
  · exact hstuck

/-- A task that has come to its end has published a completable file. -/
theorem TaskOk.done {completed part : Option Entry} {file : Snapshot.ModelFile}
    (h : TaskOk sha256 content d₀ f cancelled completed part (.done file)) :
    CompletableAt sha256 d₀ f ∧ Installed sha256 f completed part file := by
  rcases h with ⟨hgood, -, -, hphase, -⟩ | ⟨-, -, -, hstuck⟩
  · exact ⟨hgood, hphase⟩
  · exact hstuck.elim

/-- A task that fails without being cancelled is that of another file. -/
theorem TaskOk.failed {completed part : Option Entry} {e : HubError}
    (h : TaskOk sha256 content d₀ f false completed part (.failed e)) :
    ¬ CompletableAt sha256 d₀ f := by
  rcases h with ⟨-, -, -, -, hready⟩ | ⟨hbad, -⟩
  · cases hready
  · exact hbad

/-- The scheduler may cancel at any time. -/
theorem TaskOk.cancel {completed part : Option Entry}
    (h : TaskOk sha256 content d₀ f cancelled completed part phase) :
    TaskOk sha256 content d₀ f true completed part phase := by
  rcases h with ⟨hgood, hstart, hslot, hphase, hready⟩ | hstuck
  · refine .inl ⟨hgood, hstart, hslot, hphase, ?_⟩
    cases phase
    case failed e => rfl
    all_goals exact hready
  · exact .inr hstuck

theorem validateDownloadStaging_apart {files : List RemoteFile}
    (h : validateDownloadStaging files d = .ok ()) :
    ∀ f ∈ files, d.find f.localPath = none ∨ d.find f.partPath = none := by
  unfold validateDownloadStaging at h
  split at h
  · cases h
  · split at h
    · cases h
    · split at h
      · cases h
      · rename_i hboth
        intro f hf
        rw [← Option.not_isSome_iff_eq_none, ← Option.not_isSome_iff_eq_none, ← not_and_or]
        exact fun hsome => hboth ⟨f, hf, hsome⟩

/-- The task of a file starts. -/
theorem Admissible.start (h : Admissible sha256 plan content d₀) (hf : f ∈ plan.files) :
    TaskOk sha256 content d₀ f cancelled (d₀.find f.localPath) (d₀.find f.partPath)
      .inspectCompleted := by
  by_cases hgood : CompletableAt sha256 d₀ f
  · have hnamed : ∀ name, (d₀.find name).isSome → FileName name := by
      intro name hsome
      obtain ⟨e, he⟩ := Option.isSome_iff_exists.1 hsome
      exact h.names _ (Directory.find_mem he)
    have hapart := validateDownloadStaging_apart h.staging_ok f hf
    refine .inl ⟨hgood, fun hnone => hnone, ⟨fun e he => ?_, fun e he => ?_, hapart⟩, trivial,
      hgood, hnamed _, hnamed _⟩
    · rw [source_of_none (hapart.resolve_right (by rw [he]; exact fun h => nomatch h))]
      exact h.parts f hf e he
    · unfold source
      rw [he]
  · exact .inr ⟨hgood, rfl, rfl, trivial⟩

/-! ## Calls -/

/-- A task takes a step. -/
theorem CallOk.task {index : Nat} (h : CallOk sha256 plan content d₀ d c)
    (hadmissible : Admissible sha256 plan content d₀) (hlimit : ∀ f ∈ plan.files, f.size < U64_LIMIT)
    (hf : plan.files[index]? = some f) (htask : c.tasks index = some phase)
    (hanswer : Answers f (content f.path) phase event)
    (hstep : taskStep sha256 retries f c.cancelled d phase event = some (phase', d')) :
    CallOk sha256 plan content d₀ d'
      { c with tasks := Function.update c.tasks index (some phase') } := by
  have hmem : f ∈ plan.files := List.mem_of_getElem? hf
  have hnames := namesApart_of_nodup (validateDownloadStaging_ok hadmissible.staging_ok)
  obtain ⟨htouches, htaskOk⟩ := (h.tasks index f phase hf htask).step h.distinct
    (hadmissible.held f hmem) (hlimit f hmem) hanswer hstep
  have hlt := h.started index phase htask
  have hother : ∀ i g, plan.files[i]? = some g → i ≠ index →
      d'.find g.localPath = d.find g.localPath ∧ d'.find g.partPath = d.find g.partPath :=
    fun i g hg hne => htouches.other hnames hf hg (Ne.symm hne)
  have hstill : ∀ i, Function.update c.tasks index (some phase') i = none → c.tasks i = none := by
    intro i hnone
    by_cases hi : i = index
    · rw [hi, Function.update_self] at hnone
      cases hnone
    · rwa [Function.update_of_ne hi] at hnone
  refine ⟨htouches.distinct, fun i p hp => ?_, h.next_le, fun i g hg hi => ?_,
    fun i g p hg hp => ?_, fun i file hfile => ?_, fun hnone i hi hfree => ?_, h.stopped, h.blamed⟩
  · dsimp only at hp ⊢
    by_cases hi : i = index
    · rwa [hi]
    · rw [Function.update_of_ne hi] at hp
      exact h.started i p hp
  · obtain ⟨h1, h2⟩ := hother i g hg (by
      dsimp only at hi
      omega)
    rw [h1, h2]
    exact h.waiting i g hg hi
  · dsimp only at hp ⊢
    by_cases hi : i = index
    · subst hi
      rw [Function.update_self] at hp
      cases hp
      rw [hf] at hg
      cases hg
      exact htaskOk
    · rw [Function.update_of_ne hi] at hp
      obtain ⟨h1, h2⟩ := hother i g hg hi
      rw [h1, h2]
      exact h.tasks i g p hg hp
  · obtain ⟨hi, hfree, hinstalled⟩ := h.installed i file hfile
    have hne : i ≠ index := by
      rintro rfl
      rw [htask] at hfree
      cases hfree
    refine ⟨hi, ?_, fun g hg => ?_⟩
    · dsimp only
      rwa [Function.update_of_ne hne]
    · obtain ⟨h1, h2⟩ := hother i g hg hne
      rw [h1, h2]
      exact hinstalled g hg
  · exact h.taken hnone i hi (hstill i hfree)

/-- The scheduler drops a task after its call has failed, or because it has. -/
theorem CallOk.drop {firstError : Option HubError} (h : CallOk sha256 plan content d₀ d c)
    (index : Nat) (hfailed : firstError.isSome) (hcancelled : cancelled = true)
    (hblamed : ∃ f ∈ plan.files, ¬ CompletableAt sha256 d₀ f) :
    CallOk sha256 plan content d₀ d
      { c with tasks := Function.update c.tasks index none, firstError, cancelled } := by
  subst hcancelled
  have hstill : ∀ i p, Function.update c.tasks index none i = some p → c.tasks i = some p := by
    intro i p hp
    by_cases hi : i = index
    · rw [hi, Function.update_self] at hp
      cases hp
    · rwa [Function.update_of_ne hi] at hp
  have hnot : firstError ≠ none := Option.isSome_iff_ne_none.1 hfailed
  refine ⟨h.distinct, fun i p hp => h.started i p (hstill i p hp), h.next_le, h.waiting,
    fun i g p hg hp => (h.tasks i g p hg (hstill i p hp)).cancel, fun i file hfile => ?_,
    fun hnone => absurd hnone hnot, hfailed.symm, fun _ => hblamed⟩
  obtain ⟨hi, hfree, hinstalled⟩ := h.installed i file hfile
  refine ⟨hi, ?_, hinstalled⟩
  dsimp only
  by_cases hne : i = index
  · rw [hne, Function.update_self]
  · rwa [Function.update_of_ne hne]

/-- The scheduler takes up a record. -/
theorem CallOk.install {index : Nat} {file : Snapshot.ModelFile}
    (h : CallOk sha256 plan content d₀ d c) (htask : c.tasks index = some (.done file)) :
    CallOk sha256 plan content d₀ d
      { c with
        tasks := Function.update c.tasks index none
        installed := Function.update c.installed index (some file) } := by
  have hstill : ∀ i p, Function.update c.tasks index none i = some p → c.tasks i = some p := by
    intro i p hp
    by_cases hi : i = index
    · rw [hi, Function.update_self] at hp
      cases hp
    · rwa [Function.update_of_ne hi] at hp
  refine ⟨h.distinct, fun i p hp => h.started i p (hstill i p hp), h.next_le, h.waiting,
    fun i g p hg hp => h.tasks i g p hg (hstill i p hp), fun i file' hfile => ?_,
    fun hnone i hi hfree => ?_, h.stopped, h.blamed⟩
  · dsimp only at hfile ⊢
    by_cases hi : i = index
    · subst hi
      rw [Function.update_self] at hfile ⊢
      cases hfile
      exact ⟨h.started i _ htask, rfl, fun f hf => (h.tasks i f _ hf htask).done⟩
    · rw [Function.update_of_ne hi] at hfile ⊢
      exact h.installed i file' hfile
  · dsimp only at hfree ⊢
    by_cases hne : i = index
    · rw [hne, Function.update_self]
      rfl
    · rw [Function.update_of_ne hne] at hfree ⊢
      exact h.taken hnone i hi hfree

/-- The scheduler takes up the next file. -/
theorem CallOk.startNext (h : CallOk sha256 plan content d₀ d c)
    (hadmissible : Admissible sha256 plan content d₀) (hless : c.next < plan.files.length) :
    CallOk sha256 plan content d₀ d
      { c with
        next := c.next + 1
        tasks := Function.update c.tasks c.next (some .inspectCompleted) } := by
  refine ⟨h.distinct, fun i p hp => ?_, hless, fun i g hg hi => h.waiting i g hg (by
    dsimp only at hi
    omega), fun i g p hg hp => ?_, fun i file hfile => ?_, fun hnone i hi hfree => ?_,
    h.stopped, h.blamed⟩
  · dsimp only at hp ⊢
    by_cases hi : i = c.next
    · omega
    · rw [Function.update_of_ne hi] at hp
      have := h.started i p hp
      omega
  · dsimp only at hp ⊢
    by_cases hi : i = c.next
    · subst hi
      rw [Function.update_self] at hp
      cases hp
      obtain ⟨h1, h2⟩ := h.waiting _ g hg (Nat.le_refl _)
      rw [h1, h2]
      exact hadmissible.start (List.mem_of_getElem? hg)
    · rw [Function.update_of_ne hi] at hp
      exact h.tasks i g p hg hp
  · obtain ⟨hi, hfree, hinstalled⟩ := h.installed i file hfile
    refine ⟨Nat.lt_succ_of_lt hi, ?_, hinstalled⟩
    dsimp only
    rwa [Function.update_of_ne (Nat.ne_of_lt hi)]
  · dsimp only at hi hfree
    by_cases hne : i = c.next
    · rw [hne, Function.update_self] at hfree
      cases hfree
    · rw [Function.update_of_ne hne] at hfree
      exact h.taken hnone i (by omega) hfree

theorem CallOk.collect {index : Nat} {c' : Call} (h : CallOk sha256 plan content d₀ d c)
    (hadmissible : Admissible sha256 plan content d₀)
    (hc : collectTask plan c index = some c') :
    CallOk sha256 plan content d₀ d c' ∧ Busy plan c' := by
  unfold collectTask at hc
  split at hc
  · rename_i file htask
    dsimp only at hc
    split at hc
    · rename_i hfailed
      cases hc
      exact ⟨h.drop index hfailed (h.stopped.trans hfailed) (h.blamed hfailed),
        fun hnone => absurd hnone (Option.isSome_iff_ne_none.1 hfailed)⟩
    · have hinstalled := h.install htask
      split at hc
      · rename_i hless
        cases hc
        refine ⟨hinstalled.startNext hadmissible hless, fun _ _ => ⟨c.next, ?_⟩⟩
        dsimp only
        rw [Function.update_self]
        rfl
      · rename_i hall
        cases hc
        exact ⟨hinstalled, fun _ hless => absurd hless hall⟩
  · rename_i e htask
    dsimp only at hc
    split at hc
    · rename_i hfailed
      cases hc
      exact ⟨h.drop index hfailed (h.stopped.trans hfailed) (h.blamed hfailed),
        fun hnone => absurd hnone (Option.isSome_iff_ne_none.1 hfailed)⟩
    · rename_i hnone
      cases hc
      refine ⟨h.drop index rfl rfl ?_, fun hnone => absurd hnone (Option.some_ne_none _)⟩
      -- nothing was cancelled, so the task failed by itself
      have hcancelled : c.cancelled = false := by
        rw [h.stopped]
        exact Bool.not_eq_true _ ▸ hnone
      have hlt := Nat.lt_of_lt_of_le (h.started index _ htask) h.next_le
      have hf := List.getElem?_eq_getElem hlt
      have htaskOk := h.tasks index _ _ hf htask
      rw [hcancelled] at htaskOk
      exact ⟨_, List.getElem_mem hlt, htaskOk.failed⟩
  · cases hc

/-- The sizes of an admissible plan fit in an `u64`. -/
theorem validateEachFile_sizes {files : List RemoteFile} {t t' : Totals}
    (h : validateEachFile t files = .ok t') : ∀ f ∈ files, f.size < U64_LIMIT := by
  induction files generalizing t with
  | nil => exact fun f hf => absurd hf List.not_mem_nil
  | cons file files ih =>
    unfold validateEachFile at h
    cases hfile : validateDownloadFile t file with
    | error e =>
      rw [hfile] at h
      cases h
    | ok t'' =>
      rw [hfile] at h
      intro f hf
      rcases List.mem_cons.1 hf with rfl | hf
      · unfold validateDownloadFile at hfile
        split at hfile
        · cases hfile
        · dsimp only at hfile
          split at hfile
          · cases hfile
          · split at hfile
            · cases hfile
            · split at hfile
              · cases hfile
              · omega
      · exact ih h f hf

theorem validateDownloadFiles_each {files : List RemoteFile} {total : Nat}
    (h : validateDownloadFiles files = .ok total) :
    ∃ t, validateEachFile ⟨[], [], 0, 0⟩ files = .ok t := by
  unfold validateDownloadFiles at h
  split at h
  · cases h
  · split at h
    · cases h
    · rename_i t heach
      exact ⟨t, heach⟩

theorem Admissible.sizes (h : Admissible sha256 plan content d₀) :
    ∀ f ∈ plan.files, f.size < U64_LIMIT := by
  have hplan := h.plan_ok
  unfold validateDownloadPlan at hplan
  split at hplan
  · cases hplan
  · cases hfiles : validateDownloadFiles plan.files with
    | error e =>
      rw [hfiles] at hplan
      cases hplan
    | ok total =>
      obtain ⟨t, heach⟩ := validateDownloadFiles_each hfiles
      exact validateEachFile_sizes heach

/-- The call starts. -/
theorem Admissible.going (h : Admissible sha256 plan content d₀) :
    Going sha256 plan content d₀ (startCall plan ⟨d₀, .idle⟩ (.ok ())) := by
  have hstart : startCall plan ⟨d₀, .idle⟩ (.ok ()) =
      ⟨d₀, .running (.initial plan.files)⟩ := by
    unfold startCall
    dsimp only
    rw [h.plan_ok, h.staging_ok]
    rfl
  rw [hstart]
  have hfirst : (Call.initial plan.files).next ≤ plan.files.length := Nat.min_le_right _ _
  have hnext : (Call.initial plan.files).next = min DOWNLOAD_FILE_CONCURRENCY plan.files.length :=
    rfl
  have htasks : ∀ i, (Call.initial plan.files).tasks i =
      if i < (Call.initial plan.files).next then some .inspectCompleted else none := fun _ => rfl
  refine ⟨⟨h.distinct, fun i p hp => ?_, hfirst, fun _ _ _ _ => ⟨rfl, rfl⟩, fun i g p hg hp => ?_,
    (fun i file hfile => by cases hfile), fun _ i hi hfree => ?_, rfl,
    (fun hsome => by cases hsome)⟩,
    fun _ hless => ⟨0, ?_⟩⟩
  · rw [htasks] at hp
    split at hp
    · assumption
    · cases hp
  · rw [htasks] at hp
    split at hp
    · cases hp
      exact h.start (List.mem_of_getElem? hg)
    · cases hp
  · rw [htasks, if_pos hi] at hfree
    cases hfree
  · rw [htasks, if_pos]
    · rfl
    · have hfour : DOWNLOAD_FILE_CONCURRENCY = 4 := rfl
      omega

/-- The results of the tasks are all there. -/
theorem mapM_isSome {α β : Type} {g : α → Option β} {xs : List α}
    (h : ∀ x ∈ xs, (g x).isSome) : ∃ ys, xs.mapM g = some ys := by
  induction xs with
  | nil => exact ⟨[], rfl⟩
  | cons x xs ih =>
    obtain ⟨y, hy⟩ := Option.isSome_iff_exists.1 (h x List.mem_cons_self)
    obtain ⟨ys, hys⟩ := ih fun z hz => h z (List.mem_cons_of_mem _ hz)
    refine ⟨y :: ys, ?_⟩
    rw [List.mapM_cons, hy, hys]
    rfl

/-- A call without tasks returns what is to be returned. -/
theorem CallOk.finish (h : CallOk sha256 plan content d₀ d c) (hbusy : Busy plan c)
    (hfree : ∀ i < c.next, c.tasks i = none) :
    Going sha256 plan content d₀ ⟨d, .returned (callResult plan c (.ok ()))⟩ := by
  unfold callResult
  cases herror : c.firstError with
  | some e => exact h.blamed (by rw [herror]; rfl)
  | none =>
    have hall : plan.files.length ≤ c.next := by
      by_contra hless
      obtain ⟨i, hi⟩ := hbusy herror (Nat.lt_of_not_le hless)
      obtain ⟨p, hp⟩ := Option.isSome_iff_exists.1 hi
      rw [hfree i (h.started i p hp)] at hp
      cases hp
    have hinstalled : ∀ i ∈ List.range plan.files.length, (c.installed i).isSome := by
      intro i hi
      have hlt : i < c.next := Nat.lt_of_lt_of_le (List.mem_range.1 hi) hall
      exact h.taken herror i hlt (hfree i hlt)
    obtain ⟨files, hfiles⟩ := mapM_isSome hinstalled
    have hcancelled : c.cancelled = false := by
      rw [h.stopped, herror]
      rfl
    obtain ⟨hlength, hget⟩ := mapM_some_get hfiles
    rw [List.length_range] at hlength
    have hrecord : ∀ (i : Nat) (f : RemoteFile), plan.files[i]? = some f → ∃ file,
        files[i]? = some file ∧ CompletableAt sha256 d₀ f ∧
          Installed sha256 f (d.find f.localPath) (d.find f.partPath) file := by
      intro i f hf
      have hi : i < plan.files.length := (List.getElem?_eq_some_iff.1 hf).1
      have hfile := hget i i (List.getElem?_range hi)
      have hsome : i < files.length := hlength ▸ hi
      rw [List.getElem?_eq_getElem hsome] at hfile
      obtain ⟨-, -, hinst⟩ := h.installed i _ hfile.symm
      exact ⟨files[i], List.getElem?_eq_getElem hsome, hinst f hf⟩
    rw [hfiles, hcancelled]
    refine ⟨⟨hlength, fun i f hf => ?_⟩, fun f hf => ?_⟩
    · obtain ⟨file, hfile, -, hinst⟩ := hrecord i f hf
      exact ⟨file, hfile, hinst⟩
    · obtain ⟨i, hi⟩ := List.mem_iff_getElem?.1 hf
      obtain ⟨-, -, hgood, -⟩ := hrecord i f hi
      exact hgood

/-! ## Every step gets nearer to the end -/

variable (plan content) in
/-- The length of a planned file. -/
def fileLength (i : Nat) : Nat :=
  match plan.files[i]? with
  | some f => (content f.path).length
  | none => 0

variable (plan content) in
/-- The steps that are left for a file: its task, what comes before it and what comes after. -/
def fileWork (c : Call) (i : Nat) : Nat :=
  match c.tasks i with
  | some phase => 1 + work (fileLength plan content i) phase
  | none =>
    if i < c.next then 0 else 2 + work (fileLength plan content i) .inspectCompleted

variable (plan content) in
/-- The steps that a call has left. -/
def State.work (s : State) : Nat :=
  match s.status with
  | .running c => 1 + ∑ i ∈ Finset.range plan.files.length, fileWork plan content c i
  | _ => 0

/-- Less work for one file and no more for the others is less work. -/
theorem work_lt {c' : Call} {index : Nat} (hlt : index < plan.files.length)
    (hless : fileWork plan content c' index < fileWork plan content c index)
    (hother : ∀ i, i ≠ index → fileWork plan content c' i ≤ fileWork plan content c i) :
    State.work plan content ⟨d', .running c'⟩ < State.work plan content ⟨d, .running c⟩ := by
  refine Nat.add_lt_add_left (Finset.sum_lt_sum (fun i _ => ?_)
    ⟨index, Finset.mem_range.2 hlt, hless⟩) 1
  by_cases hi : i = index
  · rw [hi]
    exact Nat.le_of_lt hless
  · exact hother i hi

theorem task_work {index : Nat} (hf : plan.files[index]? = some f)
    (htask : c.tasks index = some phase)
    (hless : work (content f.path).length phase' < work (content f.path).length phase) :
    State.work plan content
        ⟨d', .running { c with tasks := Function.update c.tasks index (some phase') }⟩ <
      State.work plan content ⟨d, .running c⟩ := by
  have hlength : fileLength plan content index = (content f.path).length := by
    unfold fileLength
    rw [hf]
  refine work_lt (List.getElem?_eq_some_iff.1 hf).1 ?_ fun i hi => ?_
  · unfold fileWork
    dsimp only
    rw [Function.update_self, htask]
    dsimp only
    rw [hlength]
    omega
  · unfold fileWork
    dsimp only
    rw [Function.update_of_ne hi]

theorem collect_work {index : Nat} {c' : Call} (h : CallOk sha256 plan content d₀ d c)
    (hc : collectTask plan c index = some c') :
    State.work plan content ⟨d, .running c'⟩ < State.work plan content ⟨d, .running c⟩ := by
  -- a task that is dropped, and perhaps the next one that starts
  have hdrop : ∀ p c'', c.tasks index = some p → c''.tasks = Function.update c.tasks index none →
      c''.next = c.next →
      State.work plan content ⟨d, .running c''⟩ < State.work plan content ⟨d, .running c⟩ := by
    intro p c'' htask htasks hnext
    have hlt := h.started index p htask
    refine work_lt (Nat.lt_of_lt_of_le hlt h.next_le) ?_ fun i hi => ?_
    · unfold fileWork
      rw [htasks, hnext, Function.update_self, htask]
      dsimp only
      rw [if_pos hlt]
      omega
    · unfold fileWork
      rw [htasks, hnext, Function.update_of_ne hi]
  unfold collectTask at hc
  split at hc
  · rename_i file htask
    have hlt := h.started index _ htask
    dsimp only at hc
    split at hc
    · cases hc
      exact hdrop _ _ htask rfl rfl
    · split at hc
      · cases hc
        have hfresh : c.tasks c.next = none := by
          cases hnext : c.tasks c.next with
          | none => rfl
          | some p => exact absurd (h.started _ _ hnext) (Nat.lt_irrefl _)
        refine work_lt (Nat.lt_of_lt_of_le hlt h.next_le) ?_ fun i hi => ?_
        · unfold fileWork
          dsimp only
          rw [Function.update_of_ne (Nat.ne_of_lt hlt), Function.update_self, htask]
          dsimp only
          rw [if_pos (by omega)]
          omega
        · unfold fileWork
          dsimp only
          by_cases hnext : i = c.next
          · rw [hnext, Function.update_self, hfresh]
            dsimp only
            rw [if_neg (Nat.lt_irrefl _)]
            omega
          · rw [Function.update_of_ne hnext, Function.update_of_ne hi]
            cases c.tasks i with
            | some p => exact Nat.le_refl _
            | none =>
              dsimp only
              split
              · exact Nat.zero_le _
              · rw [if_neg (by omega)]
      · cases hc
        exact hdrop _ _ htask rfl rfl
  · rename_i e htask
    dsimp only at hc
    split at hc
    · cases hc
      exact hdrop _ _ htask rfl rfl
    · cases hc
      exact hdrop _ _ htask rfl rfl
  · cases hc

theorem Going.step {action : Action} (h : Going sha256 plan content d₀ s)
    (hadmissible : Admissible sha256 plan content d₀) (hok : Faultless plan content s action)
    (hstep : Hub.step sha256 retries plan s action = some t) :
    Going sha256 plan content d₀ t ∧ State.work plan content t < State.work plan content s := by
  obtain ⟨d, status⟩ := s
  cases status with
  | idle => exact h.elim
  | returned result =>
    cases action with
    | start | stop | cancel => exact hok.elim
    | task | collect | finish => cases hstep
  | running c =>
    obtain ⟨hcall, hbusy⟩ : CallOk sha256 plan content d₀ d c ∧ Busy plan c := h
    cases action with
    | start | stop | cancel => exact hok.elim
    | task index event =>
      unfold Hub.step at hstep
      dsimp only at hstep
      split at hstep
      · rename_i phase f htask hf
        obtain ⟨⟨phase', d'⟩, htaskStep, rfl⟩ := Option.map_eq_some_iff.1 hstep
        have hanswer := hok c f phase rfl hf htask
        have hcall' := hcall.task hadmissible hadmissible.sizes hf htask hanswer htaskStep
        refine ⟨⟨hcall', fun _ _ => ⟨index, ?_⟩⟩, task_work hf htask ?_⟩
        · dsimp only
          rw [Function.update_self]
          rfl
        · exact taskStep_work hanswer htaskStep
            (hcall'.tasks index f phase' hf (Function.update_self _ _ _)).not_retrying
      · cases hstep
    | collect index =>
      obtain ⟨c', hc, rfl⟩ := Option.map_eq_some_iff.1 hstep
      exact ⟨hcall.collect hadmissible hc, collect_work hcall hc⟩
    | finish outcome =>
      have houtcome : outcome = .ok () := hok
      subst houtcome
      unfold Hub.step at hstep
      dsimp only at hstep
      split at hstep
      · rename_i hfree
        cases hstep
        exact ⟨hcall.finish hbusy hfree, Nat.lt_of_lt_of_le Nat.one_pos (Nat.le_add_right 1 _)⟩
      · cases hstep

theorem collectTask_done {index : Nat} {file : Snapshot.ModelFile}
    (h : c.tasks index = some (.done file)) : collectTask plan c index ≠ none := by
  unfold collectTask
  rw [h]
  dsimp only
  split
  · exact Option.some_ne_none _
  · split <;> exact Option.some_ne_none _

theorem collectTask_failed {index : Nat} {e : HubError}
    (h : c.tasks index = some (.failed e)) : collectTask plan c index ≠ none := by
  unfold collectTask
  rw [h]
  dsimp only
  split <;> exact Option.some_ne_none _

/-- A call that has not returned can take a step. -/
theorem Going.exists_step (h : Going sha256 plan content d₀ s)
    (hlast : ∀ a, Faultless plan content s a → Hub.step sha256 retries plan s a = none) :
    ∃ result, s.status = .returned result := by
  obtain ⟨d, status⟩ := s
  cases status with
  | idle => exact h.elim
  | returned result => exact ⟨result, rfl⟩
  | running c =>
    exfalso
    obtain ⟨hcall, -⟩ : CallOk sha256 plan content d₀ d c ∧ Busy plan c := h
    by_cases hfree : ∀ i < c.next, c.tasks i = none
    · have hnone := hlast (.finish (.ok ())) rfl
      unfold Hub.step at hnone
      dsimp only at hnone
      rw [if_pos hfree] at hnone
      cases hnone
    · push Not at hfree
      obtain ⟨i, hi, hne⟩ := hfree
      obtain ⟨phase, htask⟩ := Option.ne_none_iff_exists'.1 hne
      obtain ⟨f, hf⟩ : ∃ f, plan.files[i]? = some f :=
        ⟨_, List.getElem?_eq_getElem (Nat.lt_of_lt_of_le hi hcall.next_le)⟩
      have hcollect : collectTask plan c i = none :=
        Option.map_eq_none_iff.1 (hlast (.collect i) trivial)
      by_cases hdone : ∃ file, phase = .done file
      · obtain ⟨file, rfl⟩ := hdone
        exact collectTask_done htask hcollect
      · by_cases hfailed : ∃ e, phase = .failed e
        · obtain ⟨e, rfl⟩ := hfailed
          exact collectTask_failed htask hcollect
        · push Not at hdone hfailed
          obtain ⟨event, hanswer, hsome⟩ := @exists_answer sha256 retries f (content f.path) d
            c.cancelled phase hdone hfailed
          have hok : Faultless plan content ⟨d, .running c⟩ (.task i event) := by
            intro c' f p hc hf' hp
            cases hc
            rw [hf] at hf'
            cases hf'
            rw [htask] at hp
            cases hp
            exact hanswer
          have hnone := hlast _ hok
          unfold Hub.step at hnone
          dsimp only at hnone
          rw [htask, hf] at hnone
          rw [Option.map_eq_none_iff.1 hnone] at hsome
          cases hsome

/-! ## The calls -/

/-- Some run of the call returns. -/
theorem Admissible.exists_returned (retries : Nat) (h : Admissible sha256 plan content d₀) :
    ∃ as s result, Run (Hub.step sha256 retries plan) (Faultless plan content)
      (startCall plan ⟨d₀, .idle⟩ (.ok ())) as s ∧ s.status = .returned result ∧
      Going sha256 plan content d₀ s := by
  obtain ⟨as, s, hrun, hs, hlast⟩ :=
    Run.exists_last (fun s a t hs hok hstep => hs.step h hok hstep) _ h.going
  obtain ⟨result, hresult⟩ := hs.exists_step hlast
  exact ⟨as, s, result, hrun, hresult, hs⟩

/-- **A download in which nothing fails comes to its end**, whatever its tasks do in which order,
and it returns one record for every planned file exactly when every file is completable from the
directory of the start: there is something to transfer to a name that a directory takes, or what
is there is what the plan says. -/
theorem downloads_complete_iff (h : Admissible sha256 plan content d₀) :
    (∃ bound, ∀ as s, Run (Hub.step sha256 retries plan) (Faultless plan content)
      (startCall plan ⟨d₀, .idle⟩ (.ok ())) as s → as.length ≤ bound) ∧
    (∀ as s, Run (Hub.step sha256 retries plan) (Faultless plan content)
      (startCall plan ⟨d₀, .idle⟩ (.ok ())) as s →
      (∀ a, Faultless plan content s a → Hub.step sha256 retries plan s a = none) →
      ∃ result, s.status = .returned result) ∧
    ((∀ as s result, Run (Hub.step sha256 retries plan) (Faultless plan content)
      (startCall plan ⟨d₀, .idle⟩ (.ok ())) as s → s.status = .returned result →
      ∃ files, result = .ok files ∧ Complete sha256 plan s.staging files) ↔
      ∀ f ∈ plan.files, Completable sha256 f (d₀.find f.localPath) (d₀.find f.partPath)) := by
  have hgoing : ∀ as s, Run (Hub.step sha256 retries plan) (Faultless plan content)
      (startCall plan ⟨d₀, .idle⟩ (.ok ())) as s → Going sha256 plan content d₀ s :=
    fun as s hrun => hrun.invariant (fun s a t hs hok hs' => (hs.step h hok hs').1) h.going
  refine ⟨⟨_, fun as s hrun =>
    (Nat.le_add_right _ _).trans
      (hrun.length_le (fun s a t hs hok hstep => hs.step h hok hstep) h.going)⟩,
    fun as s hrun hlast => (hgoing as s hrun).exists_step hlast, fun hall => ?_,
    fun hgood as s result hrun hresult => ?_⟩
  · obtain ⟨as, s, result, hrun, hresult, hs⟩ := h.exists_returned retries
    obtain ⟨files, rfl, -⟩ := hall as s result hrun hresult
    unfold Going at hs
    rw [hresult] at hs
    exact hs.2
  · have hs := hgoing as s hrun
    unfold Going at hs
    rw [hresult] at hs
    cases result with
    | ok files => exact ⟨files, rfl, hs.1⟩
    | error e =>
      obtain ⟨f, hf, hbad⟩ := hs
      exact absurd (hgood f hf) hbad

end system

/-! ## A plan with an empty file -/

/-- A model whose files have one byte, and an empty file of merges. -/
def mergesPlan : DownloadPlan where
  mlx := true
  files := [⟨"config.json".toList, 1, none⟩, ⟨"tokenizer.json".toList, 1, none⟩,
    ⟨"model.safetensors".toList, 1, none⟩, ⟨"merges.txt".toList, 0, none⟩]
  totalBytes := 3

/-- What the server holds for it. -/
def mergesContent (path : PathName) : Bytes := if path = "merges.txt".toList then [] else [0]

/-- The digests of no byte and of one zero byte. -/
def mergesDigest (bytes : Bytes) : List Char :=
  if bytes = [] then "e3b0c44298fc1c149afbf4c8996fb92427ae41e4649b934ca495991b7852b855".toList
  else "6e340b9cffb37a989ca544e6bb780a2c78901d3fb33738768511a30617afa01d".toList

/-- The staging directory of an earlier call, with an empty partial file. -/
def mergesStaging : Directory := [("merges.txt.part".toList, ⟨7, [], 0⟩)]

theorem merges_admissible {d : Directory}
    (hstaging : validateDownloadStaging mergesPlan.files d = .ok ())
    (hdistinct : d.Distinct) (hnames : ∀ entry ∈ d, FileName entry.1)
    (hempty : ∀ entry ∈ d, entry.2.bytes = []) :
    Admissible mergesDigest mergesPlan mergesContent d := by
  refine ⟨by decide +kernel, hstaging, hdistinct, hnames, fun f hf => ?_, fun f hf e he => ?_⟩
  · simp only [mergesPlan, List.mem_cons, List.not_mem_nil, or_false] at hf
    rcases hf with rfl | rfl | rfl | rfl <;> exact ⟨rfl, fun _ h => nomatch h⟩
  · rw [hempty _ (Directory.find_mem he)]
    exact List.nil_prefix

/-- The empty partial file is completed. -/
theorem downloads_complete_resumed :
    (∃ bound, ∀ as s, Run (Hub.step mergesDigest 3 mergesPlan)
      (Faultless mergesPlan mergesContent)
      (startCall mergesPlan ⟨mergesStaging, .idle⟩ (.ok ())) as s → as.length ≤ bound) ∧
    ∀ as s result, Run (Hub.step mergesDigest 3 mergesPlan) (Faultless mergesPlan mergesContent)
      (startCall mergesPlan ⟨mergesStaging, .idle⟩ (.ok ())) as s → s.status = .returned result →
      ∃ files, result = .ok files ∧ Complete mergesDigest mergesPlan s.staging files := by
  have hone : ∀ name e, mergesStaging.find name = some e →
      (name, e) = ("merges.txt.part".toList, ⟨7, [], 0⟩) :=
    fun name e he => List.mem_singleton.1 (Directory.find_mem he)
  have hdistinct : mergesStaging.Distinct := by
    intro name name' e e' he he' _
    cases hone _ _ he
    cases hone _ _ he'
    rfl
  have h : Admissible mergesDigest mergesPlan mergesContent mergesStaging :=
    merges_admissible (by decide +kernel) hdistinct (List.forall_mem_singleton.2 (by decide))
      (List.forall_mem_singleton.2 rfl)
  refine ⟨(downloads_complete_iff h).1, (downloads_complete_iff h).2.2.2 fun f hf => ?_⟩
  simp only [mergesPlan, List.mem_cons, List.not_mem_nil, or_false] at hf
  rcases hf with rfl | rfl | rfl | rfl
  · exact ⟨Nat.one_pos, by decide⟩
  · exact ⟨Nat.one_pos, by decide⟩
  · exact ⟨Nat.one_pos, by decide⟩
  · trivial

/-- A file without bytes and without a partial file is not completed: no attempt creates one, and
there is nothing to hash. -/
theorem empty_file_fails :
    Admissible mergesDigest mergesPlan mergesContent [] ∧
      ∃ as s e, Run (Hub.step mergesDigest 3 mergesPlan) (Faultless mergesPlan mergesContent)
        (startCall mergesPlan ⟨[], .idle⟩ (.ok ())) as s ∧ s.status = .returned (.error e) := by
  have h : Admissible mergesDigest mergesPlan mergesContent [] :=
    merges_admissible (by decide +kernel) (fun _ _ _ _ he => nomatch he) (fun _ he => nomatch he)
      fun _ he => nomatch he
  refine ⟨h, ?_⟩
  obtain ⟨as, s, result, hrun, hresult, hs⟩ := h.exists_returned 3
  unfold Going at hs
  rw [hresult] at hs
  cases result with
  | ok files =>
    have hmerges := hs.2 ⟨"merges.txt".toList, 0, none⟩ (by decide)
    exact absurd hmerges.1 (Nat.lt_irrefl 0)
  | error e => exact ⟨as, s, e, hrun, hresult⟩

end Hub

end Emelex

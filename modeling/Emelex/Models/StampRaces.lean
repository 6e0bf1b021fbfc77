import Mathlib.Data.List.Nodup
import Emelex.Models.SnapshotStamp

/-!
# Installed snapshots under concurrency and crashes

* `Invariant` — in every state of an undisturbed run: what is visible has the contents of its
  manifest; it has a whole stamp for them, or one call has removed the stamp and is about to write
  such a one; a check in flight holds a stamp or files that the directory agrees with.
* `checkStep_accepts` — a check of such a directory goes on or accepts.
* `refreshStep_keeps` — a refresh that nobody overlaps keeps such a directory.

Principal results: `undisturbed_snapshots_stay_healthy` and, where a process stops while it replaces
the stamp, `interrupted_refresh_spoils_snapshot`.
-/

set_option autoImplicit false

namespace Emelex

open Machine

namespace Snapshot

variable {files : List ModelFile}

/-! ## Contents -/

theorem contentsEqual_iff {live : List LiveFile} :
    contentsEqual files live = true ↔ (files.map (·.path)).Nodup ∧
      (∀ l ∈ live, l.path ∈ files.map (·.path)) ∧
      ∀ file ∈ files, ∃ l, live.find? (fun l => l.path = file.path) = some l ∧
        l.size = file.size ∧ l.sha256 = file.sha256 := by
  simp only [contentsEqual, Bool.and_eq_true, decide_eq_true_eq, List.all_eq_true,
    Option.any_eq_true, and_assoc]

/-- The directory holds the files of the manifest, and all of them can be read. -/
structure Directory.Intact (files : List ModelFile) (d : Directory) : Prop where
  contents : contentsEqual files d.files = true
  readable : ∀ file ∈ d.files, file.readable = true

/-- What a stamped file records of the manifest. -/
def StampedFile.file (stamped : StampedFile) : ModelFile :=
  { path := stamped.path, size := stamped.size, sha256 := stamped.sha256 }

/-- The stamp is one for these files. -/
def VerificationStamp.Covers (stamp : VerificationStamp) (files : List ModelFile) : Prop :=
  stamp.schemaVersion = 1 ∧ stamp.files.map (·.file) = files

/-- The directory has a whole stamp, for these files and for its manifest. -/
def Directory.Stamped (files : List ModelFile) (d : Directory) : Prop :=
  ∃ inode stamp, d.stamp = some { inode, content := some stamp } ∧ stamp.Covers files ∧
    stamp.manifestSha256 = d.manifest

/-- The stamp made in a staging directory is one for the files of the manifest. -/
theorem stampOf_covers {manifest : Nat} {live : List LiveFile}
    (h : contentsEqual files live = true) : (stampOf manifest files live).Covers files := by
  obtain ⟨_, _, hfind⟩ := contentsEqual_iff.1 h
  refine ⟨rfl, ?_⟩
  have hall : ∀ part : List ModelFile, (∀ file ∈ part, file ∈ files) →
      (part.filterMap fun file => (live.find? fun l => l.path = file.path).map fun l =>
        ({ path := file.path, size := l.size, sha256 := l.sha256, metadata := l.metadata } :
          StampedFile)).map (·.file) = part := by
    intro part
    induction part with
    | nil => intro _; rfl
    | cons file rest ih =>
      intro hmem
      obtain ⟨l, hl, hsize, hsha⟩ := hfind file (hmem file (by simp))
      have hrest := ih fun other hother => hmem other (List.mem_cons_of_mem _ hother)
      simp only [List.filterMap_cons, hl, Option.map_some, List.map_cons, hrest]
      simp [StampedFile.file, hsize, hsha]
  exact hall files fun _ h => h

theorem Directory.Stamped.readStamp {d : Directory} (h : d.Stamped files) :
    ∃ stamp, readStamp files (some d) = some stamp ∧ stamp.Covers files ∧
      stamp.manifestSha256 = d.manifest := by
  obtain ⟨inode, stamp, hstamp, hcovers, hmanifest⟩ := h
  have hlength : stamp.files.length = files.length := by simp [← hcovers.2]
  refine ⟨stamp, ?_, hcovers, hmanifest⟩
  simp [Snapshot.readStamp, hstamp, Option.filter, hcovers.1, hlength]

namespace Directory.Intact

variable {d : Directory}

theorem inventory (h : d.Intact files) : verifyFileInventory files (some d) = .ok () := by
  obtain ⟨hnodup, hpaths, hfind⟩ := contentsEqual_iff.1 h.contents
  have hall : ∀ file ∈ files, file.path ∈ d.files.map (·.path) := by
    intro file hfile
    obtain ⟨l, hl, _⟩ := hfind file hfile
    have hpath := List.find?_some hl
    exact List.mem_map.2 ⟨l, List.mem_of_find?_eq_some hl, by simpa using hpath⟩
  simp only [verifyFileInventory]
  rw [if_pos ⟨hnodup, hpaths, hall⟩]

/-- A file of the manifest can be opened, and has its content. -/
theorem openRegular (h : d.Intact files) {file : ModelFile} (hfile : file ∈ files) :
    ∃ live, openRegular (some d) file.path = some live ∧ live.size = file.size ∧
      live.sha256 = file.sha256 := by
  obtain ⟨_, _, hfind⟩ := contentsEqual_iff.1 h.contents
  obtain ⟨live, hl, hsize, hsha⟩ := hfind file hfile
  have hread := h.readable live (List.mem_of_find?_eq_some hl)
  exact ⟨live, by simp [Snapshot.openRegular, Directory.find, hl, hread], hsize, hsha⟩

/-- A stamped file that is in the manifest never makes the stamp invalid. -/
theorem checkStamped (h : d.Intact files) {stamped : StampedFile} (hfile : stamped.file ∈ files) :
    ∃ drifted, checkStamped files (some d) stamped = some drifted := by
  obtain ⟨hnodup, _, _⟩ := contentsEqual_iff.1 h.contents
  obtain ⟨live, hopen, _, _⟩ := h.openRegular hfile
  have hfound : files.find? (fun file => file.path = stamped.path) = some stamped.file := by
    obtain ⟨found, hfound⟩ : ∃ found, files.find? (fun file => file.path = stamped.path) =
        some found := by
      rw [← Option.isSome_iff_exists, List.find?_isSome]
      exact ⟨stamped.file, hfile, by simp [StampedFile.file]⟩
    have hpath : found.path = stamped.path := by simpa using List.find?_some hfound
    have hsame := List.inj_on_of_nodup_map hnodup (List.mem_of_find?_eq_some hfound) hfile hpath
    rw [hfound, hsame]
  simp only [StampedFile.file] at hopen
  simp [Snapshot.checkStamped, hfound, StampedFile.file, hopen]

/-- Changes of metadata that leave a file readable leave the directory intact. -/
theorem drift (h : d.Intact files) (path : String) (metadata : Metadata) :
    Directory.Intact files { d with files := d.files.map fun file =>
      if file.path = path then { file with metadata, readable := true } else file } := by
  obtain ⟨hnodup, hpaths, hfind⟩ := contentsEqual_iff.1 h.contents
  have hsame : ∀ file : LiveFile,
      (if file.path = path then { file with metadata, readable := true } else file).path =
        file.path := by
    intro file
    split <;> rfl
  constructor
  · rw [contentsEqual_iff]
    refine ⟨hnodup, ?_, ?_⟩
    · simpa [hsame] using hpaths
    · intro file hfile
      obtain ⟨l, hl, hsize, hsha⟩ := hfind file hfile
      refine ⟨if l.path = path then { l with metadata, readable := true } else l, ?_, ?_, ?_⟩
      · simp only [List.find?_map, Function.comp_def]
        simp [hsame, hl]
      · split <;> exact hsize
      · split <;> exact hsha
  · intro file hfile
    obtain ⟨before, hbefore, rfl⟩ := List.mem_map.1 hfile
    split
    · rfl
    · exact h.readable before hbefore

end Directory.Intact

/-! ## What a call in flight knows -/

/-- The stamp that the refresh has removed is the one missing here, and the one it writes is for this
directory. -/
def Refresh.Repairs (d : Directory) : Refresh → Prop
  | .readManifest _ => d.stamp = none ∧ d.writable = true
  | .record _ digest _ _ | .recording _ digest _ _ _ _ =>
    d.stamp = none ∧ d.writable = true ∧ digest = d.manifest
  | .create _ stamp => d.stamp = none ∧ d.writable = true ∧ stamp.manifestSha256 = d.manifest
  | .write _ own _ => d.stamp = some { inode := own, content := none }
  | _ => False

def Phase.Repairs (d : Directory) : Phase → Prop
  | .refreshing refresh => refresh.Repairs d
  | _ => False

/-- What a refresh has collected so far. -/
def Refresh.Sound (files : List ModelFile) (visible : Option Directory) (nextInode : Nat) :
    Refresh → Prop
  | .record _ _ done rest => done.map (·.file) ++ rest = files
  | .recording _ _ done file live rest => done.map (·.file) ++ file :: rest = files ∧
    live.size = file.size ∧ live.sha256 = file.sha256
  | .create _ stamp => stamp.Covers files
  | .write _ own stamp => stamp.Covers files ∧ own < nextInode ∧
    ∀ d file, visible = some d → d.stamp = some file → file.inode = own →
      stamp.manifestSha256 = d.manifest
  | _ => True

/-- What a check has read so far. -/
def Check.Sound (files : List ModelFile) (visible : Option Directory) : Check → Prop
  | .manifestDigest read => read.Covers files ∧
    ∀ d, visible = some d → read.manifestSha256 = d.manifest
  | .metadata rest _ => ∀ stamped ∈ rest, stamped.file ∈ files
  | .hash rest => ∀ file ∈ rest, file ∈ files
  | _ => True

/-- What a call in flight knows; only a removal takes a directory away. -/
def Process.Sound (files : List ModelFile) (visible : Option Directory) (nextInode : Nat)
    (p : Process) : Prop :=
  match p.phase with
  | .checking check => check.Sound files visible
  | .refreshing refresh => refresh.Sound files visible nextInode
  | .leaving reason => reason = .removed ∧ p.intent.locked = true
  | _ => True

theorem Directory.Intact.setWritable {d : Directory} (h : d.Intact files)
    (writable : Bool) : Directory.Intact files { d with writable } :=
  ⟨h.contents, h.readable⟩

theorem Check.Sound.frame {check : Check} {visible visible' : Option Directory}
    (h : check.Sound files visible)
    (hdir : ∀ d', visible' = some d' → ∃ d, visible = some d ∧ d'.manifest = d.manifest) :
    check.Sound files visible' := by
  cases check with
  | manifestDigest stamp =>
    refine ⟨h.1, fun d' hd' => ?_⟩
    obtain ⟨d, hd, hmanifest⟩ := hdir d' hd'
    rw [hmanifest]
    exact h.2 d hd
  | _ => exact h

/-- What a call knows outlives a change of the mode and the files. -/
theorem Process.Sound.frame {p : Process} {visible visible' : Option Directory} {inode : Nat}
    (h : p.Sound files visible inode)
    (hdir : ∀ d', visible' = some d' →
      ∃ d, visible = some d ∧ d'.manifest = d.manifest ∧ d'.stamp = d.stamp) :
    p.Sound files visible' inode := by
  obtain ⟨intent, phase⟩ := p
  cases phase with
  | checking check =>
    refine Check.Sound.frame h fun d' hd' => ?_
    obtain ⟨d, hd, hmanifest, _⟩ := hdir d' hd'
    exact ⟨d, hd, hmanifest⟩
  | refreshing refresh =>
    cases refresh with
    | write permissions own stamp =>
      refine ⟨h.1, h.2.1, fun d' file hd' hfile howned => ?_⟩
      obtain ⟨d, hd, hmanifest, hstamp⟩ := hdir d' hd'
      rw [hmanifest]
      exact h.2.2 d file hd (hstamp ▸ hfile) howned
    | _ => exact h
  | _ => exact h

/-- What a call that is not replacing the stamp knows outlives a change of the stamp. -/
theorem Process.Sound.frame_of_quiet {p : Process} {visible visible' : Option Directory}
    {inode inode' : Nat} (h : p.Sound files visible inode)
    (hphase : p.phase.isRefreshing = false)
    (hdir : ∀ d', visible' = some d' → ∃ d, visible = some d ∧ d'.manifest = d.manifest) :
    p.Sound files visible' inode' := by
  obtain ⟨intent, phase⟩ := p
  cases phase with
  | checking check => exact Check.Sound.frame h hdir
  | refreshing refresh =>
    cases refresh with
    | prepare => trivial
    | _ => cases hphase
  | _ => exact h

/-- What a call knows outlives the arrival of a new directory with a stamp file of its own. -/
theorem Process.Sound.install {p : Process} {visible : Option Directory} {d : Directory}
    {inode : Nat} (h : p.Sound files visible inode)
    (hcheck : ∀ stamp, p.phase ≠ .checking (.manifestDigest stamp))
    (hfresh : ∀ file, d.stamp = some file → file.inode = inode) :
    p.Sound files (some d) (inode + 1) := by
  obtain ⟨intent, phase⟩ := p
  cases phase with
  | checking check =>
    cases check with
    | manifestDigest stamp => exact absurd rfl (hcheck stamp)
    | _ => exact h
  | refreshing refresh =>
    cases refresh with
    | write permissions own stamp =>
      have hlt : own < inode := h.2.1
      refine ⟨h.1, Nat.lt_succ_of_lt hlt, ?_⟩
      rintro _ file ⟨⟩ hfile howned
      have := hfresh file hfile
      omega
    | _ => exact h
  | _ => exact h

/-! ### Checks -/

section checks

variable {installed : Option Nat} {visible : Option Directory} {check next : Check}

/-- A check goes on with what it may know. -/
theorem checkStep_keeps (hc : check.Sound files visible)
    (hs : check = .stamp → ∀ d, visible = some d → d.Stamped files)
    (h : checkStep files installed visible check = .next next) : next.Sound files visible := by
  cases check with
  | manifest =>
    simp only [checkStep] at h
    split at h
    · cases h
    · split at h <;> cases h
      trivial
  | inventory =>
    simp only [checkStep] at h
    split at h <;> cases h
    trivial
  | stamp =>
    simp only [checkStep] at h
    split at h
    · cases h
    · rename_i stamp hread
      cases h
      cases hv : visible with
      | none => simp [readStamp, hv] at hread
      | some d =>
        obtain ⟨whole, hwhole, hcovers, hmanifest⟩ := (hs rfl d hv).readStamp
        rw [hv, hwhole] at hread
        cases hread
        exact ⟨hcovers, fun d' hd' => by cases hd'; exact hmanifest⟩
  | manifestDigest stamp =>
    simp only [checkStep] at h
    split at h
    · cases h
    · split at h <;> cases h
      intro stamped hmem
      rw [← hc.1.2]
      exact List.mem_map_of_mem hmem
  | metadata rest drift =>
    cases rest with
    | nil =>
      simp only [checkStep] at h
      split at h <;> cases h
      exact fun _ h => h
    | cons stamped rest =>
      simp only [checkStep] at h
      split at h <;> cases h
      exact fun other hmem => hc other (List.mem_cons_of_mem _ hmem)
  | hash rest =>
    cases rest with
    | nil => cases h
    | cons file rest =>
      simp only [checkStep] at h
      split at h
      · cases h
      · split at h <;> cases h
        exact fun other hmem => hc other (List.mem_cons_of_mem _ hmem)

/-- A check of an intact directory fails only where its caller expects another manifest. -/
theorem checkStep_accepts {d : Directory} {error : ModelsError} (hd : d.Intact files)
    (hc : check.Sound files (some d)) (hs : check = .stamp → d.Stamped files)
    (h : checkStep files installed (some d) check = .verdict (.error error)) :
    error = .manifestChanged ∧ installed ≠ none := by
  cases check with
  | manifest =>
    simp only [checkStep] at h
    split at h <;> cases h
    rename_i hall
    exact ⟨rfl, fun hnone => hall (by simp [hnone])⟩
  | inventory => simp [checkStep, hd.inventory] at h
  | stamp =>
    obtain ⟨stamp, hstamp, _⟩ := (hs rfl).readStamp
    simp [checkStep, hstamp] at h
  | manifestDigest stamp => simp [checkStep, hc.2 d rfl] at h
  | metadata rest drift =>
    cases rest with
    | nil => cases drift <;> simp [checkStep] at h
    | cons stamped rest =>
      obtain ⟨drifted, hdrifted⟩ := hd.checkStamped (hc stamped (by simp))
      simp [checkStep, hdrifted] at h
  | hash rest =>
    cases rest with
    | nil => simp [checkStep] at h
    | cons file rest =>
      obtain ⟨live, hopen, hsize, hsha⟩ := hd.openRegular (hc file (by simp))
      simp [checkStep, hopen, hsize, hsha] at h

end checks

/-! ### Refreshes -/

section refreshes

variable {visible directory : Option Directory} {inode : Nat} {refresh next : Refresh}

/-- The refresh has changed the mode of the directory. -/
def Refresh.isActive : Refresh → Bool
  | .prepare => false
  | _ => true

/-- A refresh that nobody overlaps keeps an intact directory intact, with a whole stamp or with one
that this refresh is about to write. -/
theorem refreshStep_keeps (hd : ∀ d, visible = some d → d.Intact files)
    (hs : ∀ d, visible = some d → d.Stamped files ∨ refresh.Repairs d)
    (hr : refresh.Sound files visible inode)
    (hquiet : ∀ permissions digest done file live rest,
      refresh = .recording permissions digest done file live rest → ¬ changedSince visible live)
    (h : refreshStep files visible inode refresh = .next directory next) :
    (∀ d, directory = some d → d.Intact files) ∧
    (∀ d, directory = some d → d.Stamped files ∨ next.Repairs d) ∧
    next.Sound files directory (inode + 1) := by
  cases refresh with
  | prepare =>
    simp only [refreshStep] at h
    split at h <;> cases h
    rename_i d
    refine ⟨?_, ?_, trivial⟩
    · rintro _ ⟨⟩
      exact ⟨(hd d rfl).contents, (hd d rfl).readable⟩
    · rintro _ ⟨⟩
      exact .inl ((hs d rfl).resolve_right id)
  | removeStamp permissions =>
    simp only [refreshStep] at h
    split at h
    · cases h
      exact ⟨hd, nofun, trivial⟩
    · rename_i d
      split at h
      · rename_i hnone
        cases h
        refine ⟨hd, ?_, trivial⟩
        rintro _ ⟨⟩
        exact .inl ((hs d rfl).resolve_right id)
      · split at h <;> cases h
        · rename_i hwritable
          refine ⟨?_, ?_, trivial⟩
          · rintro _ ⟨⟩
            exact ⟨(hd d rfl).contents, (hd d rfl).readable⟩
          · rintro _ ⟨⟩
            exact .inr ⟨rfl, hwritable⟩
        · refine ⟨hd, ?_, trivial⟩
          rintro _ ⟨⟩
          exact .inl ((hs d rfl).resolve_right id)
  | readManifest permissions =>
    simp only [refreshStep] at h
    split at h <;> cases h
    · exact ⟨hd, nofun, trivial⟩
    · rename_i d
      refine ⟨hd, ?_, rfl⟩
      rintro _ ⟨⟩
      exact (hs d rfl).imp_right fun hrepairs => ⟨hrepairs.1, hrepairs.2, rfl⟩
  | record permissions digest done rest =>
    cases rest with
    | nil =>
      cases h
      refine ⟨hd, hs, rfl, ?_⟩
      simpa [Refresh.Sound] using hr
    | cons file rest =>
      simp only [refreshStep] at h
      split at h <;> cases h
      · rename_i hopen
        refine ⟨hd, fun d hv => ?_, trivial⟩
        have hfile : file ∈ files := by rw [← hr]; simp
        obtain ⟨live, hlive, _⟩ := (hd d hv).openRegular hfile
        rw [hv, hlive] at hopen
        cases hopen
      · rename_i live hopen
        refine ⟨hd, hs, hr, ?_⟩
        have hfile : file ∈ files := by rw [← hr]; simp
        cases hv : visible with
        | none => simp [openRegular, hv] at hopen
        | some d =>
          obtain ⟨found, hfound, hsame⟩ := (hd d hv).openRegular hfile
          rw [hv, hfound] at hopen
          cases hopen
          exact hsame
  | recording permissions digest done file live rest =>
    simp only [refreshStep] at h
    rw [if_neg (hquiet _ _ _ _ _ _ rfl), if_pos hr.2] at h
    cases h
    refine ⟨hd, hs, ?_⟩
    simpa [Refresh.Sound, StampedFile.file, hr.2.1, hr.2.2] using hr.1
  | create permissions stamp =>
    simp only [refreshStep] at h
    split at h
    · cases h
      exact ⟨hd, nofun, trivial⟩
    · rename_i d
      split at h <;> cases h
      · rename_i hfree
        have hmanifest : stamp.manifestSha256 = d.manifest := by
          obtain ⟨_, _, hstamp, _⟩ | hrepairs := hs d rfl
          · rw [hfree.2] at hstamp
            cases hstamp
          · exact hrepairs.2.2
        refine ⟨?_, ?_, hr, Nat.lt_succ_self _, ?_⟩
        · rintro _ ⟨⟩
          exact ⟨(hd d rfl).contents, (hd d rfl).readable⟩
        · rintro _ ⟨⟩
          exact .inr rfl
        · rintro _ _ ⟨⟩ _ _
          exact hmanifest
      · rename_i hbusy
        refine ⟨hd, ?_, trivial⟩
        rintro _ ⟨⟩
        refine .inl ((hs d rfl).resolve_right ?_)
        rintro ⟨hnone, hwritable, _⟩
        exact hbusy ⟨hwritable, hnone⟩
  | write permissions own stamp =>
    simp only [refreshStep] at h
    split at h
    · cases h
      exact ⟨hd, nofun, trivial⟩
    · rename_i d
      split at h <;> cases h
      · rename_i hown
        refine ⟨?_, ?_, trivial⟩
        · rintro _ ⟨⟩
          exact ⟨(hd d rfl).contents, (hd d rfl).readable⟩
        · rintro _ ⟨⟩
          obtain ⟨file, hfile, hinode⟩ := (Option.any_eq_true _ _).1 hown
          exact .inl ⟨own, stamp, rfl, hr.1, hr.2.2 d file rfl hfile (by simpa using hinode)⟩
      · rename_i hother
        refine ⟨hd, ?_, trivial⟩
        rintro _ ⟨⟩
        refine .inl ((hs d rfl).resolve_right fun hrepairs => hother ?_)
        simp [show d.stamp = _ from hrepairs]
  | restore permissions result => cases h

/-- A step of a refresh leaves the manifest alone, and makes no stamp file but its own. -/
theorem refreshStep_frame (h : refreshStep files visible inode refresh = .next directory next) :
    directory.isSome = visible.isSome ∧ next.isActive = true ∧
    ∀ d', directory = some d' → ∃ d, visible = some d ∧ d'.manifest = d.manifest ∧
      ∀ file', d'.stamp = some file' →
        file'.inode = inode ∨ ∃ file, d.stamp = some file ∧ file.inode = file'.inode := by
  cases refresh with
  | record permissions digest done rest =>
    cases rest <;> simp only [refreshStep] at h <;> grind [Refresh.isActive]
  | _ => simp only [refreshStep] at h; grind [Refresh.isActive, Option.any_eq_true]

/-- A refresh ends by restoring the mode of the directory. -/
theorem refreshStep_finished {result : Except ModelsError Unit}
    (h : refreshStep files visible inode refresh = .finished directory result) :
    refresh = .prepare ∧ directory = visible ∧ visible = none ∨
    ∃ permissions, refresh = .restore permissions result ∧
      directory = visible.map fun d => permissions.restore d := by
  cases refresh with
  | record permissions digest done rest =>
    cases rest <;> simp only [refreshStep] at h <;> grind
  | _ => simp only [refreshStep] at h; grind

end refreshes

/-! ## The invariant -/

/-- The call installs the snapshot, or has found it where it would install it. -/
def Intent.installs : Intent → Bool
  | .reuse | .publish _ _ | .published => true
  | _ => false

def Phase.isChecking : Phase → Bool
  | .checking _ => true
  | _ => false

/-- What holds in every state of an undisturbed run. -/
structure Invariant (files : List ModelFile) (s : State) : Prop where
  intact : ∀ d, s.visible = some d → d.Intact files
  stamped : ∀ d, s.visible = some d →
    d.Stamped files ∨ ∃ process, (s.processes process).phase.Repairs d
  single : ∀ process other, (s.processes process).phase.isRefreshing = true →
    (s.processes other).phase.isRefreshing = true → process = other
  sound : ∀ process, (s.processes process).Sound files s.visible s.nextInode
  locked : ∀ process, (s.processes process).intent.locked = true →
    (s.processes process).phase.atRest = false → s.lock = some process
  there : ∀ process, (s.processes process).intent.installs = true →
    (s.processes process).phase.isChecking = true → s.visible.isSome = true
  fresh : ∀ d file, s.visible = some d → d.stamp = some file → file.inode < s.nextInode
  ready : ∀ process, (s.processes process).intent.ready files = true
  kept : .invalidExisting ∉ s.quarantined

theorem invariant_initial (referenced : Bool) : Invariant files (.initial referenced) := by
  constructor <;> simp [State.initial, Process.Sound, Phase.isChecking, Phase.atRest,
    Phase.isRefreshing, Intent.ready]

theorem Intent.locked_of_installs {intent : Intent} (h : intent.installs = true) :
    intent.locked = true := by
  cases intent <;> first | rfl | cases h

namespace Phase

variable {phase : Phase}

theorem inWindow_of_repairs {d : Directory} (h : phase.Repairs d) : phase.inWindow = true := by
  cases phase with
  | refreshing refresh => cases refresh <;> first | exact h.elim | rfl
  | _ => exact h.elim

theorem atRest_of_isChecking (h : phase.isChecking = true) : phase.atRest = false := by
  cases phase <;> first | rfl | cases h

/-- A refresh repairs a directory with the same manifest, stamp and mode. -/
theorem Repairs.frame {d d' : Directory} (h : phase.Repairs d) (hmanifest : d'.manifest = d.manifest)
    (hstamp : d'.stamp = d.stamp) (hwritable : d'.writable = d.writable) : phase.Repairs d' := by
  cases phase with
  | refreshing refresh =>
    cases refresh <;> simp_all [Repairs, Refresh.Repairs]
  | _ => exact h

theorem isRefreshing_of_inWindow (h : phase.inWindow = true) : phase.isRefreshing = true := by
  cases phase with
  | refreshing refresh => cases refresh <;> simp_all [inWindow, isRefreshing]
  | _ => simp [inWindow] at h

end Phase

/-! ## Steps -/

section steps

variable {s t : State} {process : ProcessId}

@[simp, grind =]
theorem setProcess_processes (s : State) (process other : ProcessId) (p : Process) :
    (s.setProcess process p).processes other =
      if other = process then p else s.processes other := by
  simp [State.setProcess, Function.update_apply]

@[simp, grind =]
theorem setProcess_lock (s : State) (process : ProcessId) (p : Process) :
    (s.setProcess process p).lock = s.lock := rfl

@[simp, grind =]
theorem setVisible_lock (s : State) (visible : Option Directory) :
    (s.setVisible visible).lock = s.lock := rfl

@[simp, grind =]
theorem setVisible_processes (s : State) (visible : Option Directory) :
    (s.setVisible visible).processes = s.processes := rfl

namespace Invariant

/-- One call moves on and the directory stays as it is. -/
theorem setProcess {p : Process} {lock : Option ProcessId} (h : Invariant files s)
    (hquiet : (s.processes process).phase.inWindow = false)
    (hphase : p.phase.isRefreshing = false) (hsound : p.Sound files s.visible s.nextInode)
    (hothers : ∀ other, other ≠ process → s.lock = some other → lock = some other)
    (hlock : p.intent.locked = true → p.phase.atRest = false → lock = some process)
    (hthere : p.intent.installs = true → p.phase.isChecking = true → s.visible.isSome = true)
    (hready : p.intent.ready files = true) :
    Invariant files { s.setProcess process p with lock } := by
  constructor
  · exact h.intact
  · intro d hd
    refine (h.stamped d hd).imp_right fun ⟨other, hother⟩ => ⟨other, ?_⟩
    have hne : other ≠ process := by
      rintro rfl
      rw [Phase.inWindow_of_repairs hother] at hquiet
      cases hquiet
    simpa [hne] using hother
  · intro first second
    have := h.single first second
    grind
  · intro other
    have := h.sound other
    simp only [setProcess_processes]
    split
    · exact hsound
    · exact this
  · intro other
    have := h.locked other
    grind
  · intro other
    have := h.there other
    simp only [setProcess_processes]
    split
    · exact hthere
    · exact this
  · exact h.fresh
  · intro other
    have := h.ready other
    simp only [setProcess_processes]
    split
    · exact hready
    · exact this
  · exact h.kept

/-- The mode of the directory changes while nobody is between removing a stamp and writing it. -/
theorem setWritable (writable : Directory → Bool) (h : Invariant files s)
    (hquiet : ∀ other, (s.processes other).phase.inWindow = false) :
    Invariant files
      (s.setVisible (s.visible.map fun d => { d with writable := writable d })) := by
  have hdir : ∀ d', s.visible.map (fun d => { d with writable := writable d }) = some d' →
      ∃ d, s.visible = some d ∧ d' = { d with writable := writable d } := by
    intro d' hd'
    obtain ⟨d, hd, rfl⟩ := Option.map_eq_some_iff.1 hd'
    exact ⟨d, hd, rfl⟩
  constructor
  · intro d' hd'
    obtain ⟨d, hd, rfl⟩ := hdir d' hd'
    exact (h.intact d hd).setWritable _
  · intro d' hd'
    obtain ⟨d, hd, rfl⟩ := hdir d' hd'
    refine .inl ((h.stamped d hd).resolve_right ?_)
    rintro ⟨other, hother⟩
    have := hquiet other
    rw [Phase.inWindow_of_repairs hother] at this
    cases this
  · exact h.single
  · intro other
    refine (h.sound other).frame fun d' hd' => ?_
    obtain ⟨d, hd, rfl⟩ := hdir d' hd'
    exact ⟨d, hd, rfl, rfl⟩
  · exact h.locked
  · intro other hinstalls hchecking
    have := h.there other hinstalls hchecking
    simpa [State.setVisible] using this
  · intro d' file hd' hfile
    obtain ⟨d, hd, rfl⟩ := hdir d' hd'
    exact h.fresh d file hd hfile
  · exact h.ready
  · exact h.kept

/-- The metadata of a file change and it stays readable. -/
theorem drift (h : Invariant files s) (path : String) (metadata : Metadata) :
    Invariant files (Snapshot.drift s path metadata true) := by
  have hdir : ∀ d', (Snapshot.drift s path metadata true).visible = some d' →
      ∃ d, s.visible = some d ∧ d' = { d with files := d.files.map fun file =>
        if file.path = path then { file with metadata, readable := true } else file } := by
    intro d' hd'
    obtain ⟨d, hd, rfl⟩ := Option.map_eq_some_iff.1 hd'
    exact ⟨d, hd, rfl⟩
  constructor
  · intro d' hd'
    obtain ⟨d, hd, rfl⟩ := hdir d' hd'
    exact (h.intact d hd).drift path metadata
  · intro d' hd'
    obtain ⟨d, hd, rfl⟩ := hdir d' hd'
    refine (h.stamped d hd).imp_right fun ⟨other, hother⟩ => ⟨other, ?_⟩
    exact hother.frame rfl rfl rfl
  · exact h.single
  · intro other
    refine (h.sound other).frame fun d' hd' => ?_
    obtain ⟨d, hd, rfl⟩ := hdir d' hd'
    exact ⟨d, hd, rfl, rfl⟩
  · exact h.locked
  · intro other hinstalls hchecking
    have := h.there other hinstalls hchecking
    simpa [Snapshot.drift, State.setVisible] using this
  · intro d' file hd' hfile
    obtain ⟨d, hd, rfl⟩ := hdir d' hd'
    exact h.fresh d file hd hfile
  · exact h.ready
  · exact h.kept

/-- The directory moves to quarantine by its removal. -/
theorem leave (h : Invariant files s) (hlock : s.lock = some process)
    {p : Process} {lock : Option ProcessId} (hp : p.phase.isRefreshing = false)
    (hsound : p.Sound files none s.nextInode)
    (hchecking : p.phase.isChecking = false)
    (hown : p.intent.locked = true → p.phase.atRest = false → lock = some process)
    (hready : p.intent.ready files = true) :
    Invariant files { s.setProcess process p with
      visible := none, quarantined := .removed :: s.quarantined, lock } := by
  constructor
  · nofun
  · nofun
  · intro first second
    have := h.single first second
    grind
  · intro other
    have hother : (s.processes other).Sound files none s.nextInode :=
      (h.sound other).frame nofun
    simp only [setProcess_processes]
    split
    · exact hsound
    · exact hother
  · intro other
    have := h.locked other
    grind
  · intro other hinstalls hchecked
    have := h.locked other
    simp only [setProcess_processes] at hinstalls hchecked
    split at hchecked
    · rw [hchecking] at hchecked
      cases hchecked
    · grind [Intent.locked_of_installs, Phase.atRest_of_isChecking]
  · nofun
  · intro other
    have := h.ready other
    simp only [setProcess_processes]
    split
    · exact hready
    · exact this
  · have := h.kept
    simpa using this

/-- A staging directory, verified and stamped, is renamed into place. -/
theorem publish (h : Invariant files s) {manifest : Nat} {live : List LiveFile}
    (hnone : s.visible = none) (hphase : (s.processes process).phase = .looking)
    (hintent : (s.processes process).intent = .publish manifest live)
    (hquiet : ∀ other stamp, (s.processes other).phase ≠ .checking (.manifestDigest stamp)) :
    Invariant files (look files s process (.publish manifest live)) := by
  have hready := h.ready process
  simp only [hintent, Intent.ready, Bool.and_eq_true, List.all_eq_true] at hready
  have hwritten : (stampOf manifest files live).Covers files := stampOf_covers hready.1
  simp only [look, hnone]
  constructor
  · rintro _ ⟨⟩
    exact ⟨hready.1, hready.2⟩
  · rintro _ ⟨⟩
    exact .inl ⟨_, _, rfl, hwritten, rfl⟩
  · intro first second
    have := h.single first second
    grind [Phase.isRefreshing]
  · intro other
    have hother := h.sound other
    have hchecks := hquiet other
    simp only [setProcess_processes]
    split
    · trivial
    · refine hother.install hchecks ?_
      rintro _ ⟨⟩
      rfl
  · intro other
    have hlock := h.locked process (by rw [hintent]; rfl) (by rw [hphase]; rfl)
    have := h.locked other
    grind
  · intro _ _ _
    rfl
  · rintro _ _ ⟨⟩ ⟨⟩
    exact Nat.lt_succ_self _
  · intro other
    have := h.ready other
    simp only [setProcess_processes]
    split
    · rfl
    · exact this
  · exact h.kept

/-- A refresh that nobody overlaps takes a step. -/
theorem refresh (h : Invariant files s) {refresh next : Refresh} {directory : Option Directory}
    (hphase : (s.processes process).phase = .refreshing refresh)
    (halone : refresh = .prepare →
      ∀ other, other ≠ process → (s.processes other).phase.isRefreshing = false)
    (hquiet : ∀ permissions digest done file live rest,
      refresh = .recording permissions digest done file live rest →
        ¬ changedSince s.visible live)
    (hstep : refreshStep files s.visible s.nextInode refresh = .next directory next) :
    Invariant files { (s.setVisible directory).setPhase process (.refreshing next) with
      nextInode := s.nextInode + 1 } := by
  have hothers : ∀ other, other ≠ process → (s.processes other).phase.isRefreshing = false := by
    intro other hne
    cases hrefresh : refresh.isActive with
    | false =>
      refine halone ?_ other hne
      cases refresh <;> first | rfl | cases hrefresh
    | true =>
      have hthis : (s.processes process).phase.isRefreshing = true := by
        rw [hphase]
        cases refresh <;> first | rfl | cases hrefresh
      cases hother : (s.processes other).phase.isRefreshing with
      | false => rfl
      | true => exact absurd (h.single other process hother hthis) hne
  have hstamped : ∀ d, s.visible = some d → d.Stamped files ∨ refresh.Repairs d := by
    intro d hd
    refine (h.stamped d hd).imp_right fun ⟨other, hother⟩ => ?_
    by_cases hne : other = process
    · rw [hne, hphase] at hother
      exact hother
    · have := Phase.isRefreshing_of_inWindow (Phase.inWindow_of_repairs hother)
      rw [hothers other hne] at this
      cases this
  have hsound := h.sound process
  simp only [Process.Sound, hphase] at hsound
  obtain ⟨hintact, hrepairs, hnext⟩ := refreshStep_keeps h.intact hstamped hsound hquiet hstep
  obtain ⟨hsome, _, hframe⟩ := refreshStep_frame hstep
  constructor
  · exact hintact
  · intro d hd
    refine (hrepairs d hd).imp_right fun hr => ⟨process, ?_⟩
    simpa [State.setPhase, Phase.Repairs] using hr
  · intro first second
    have h₁ := hothers first
    have h₂ := hothers second
    simp only [State.setPhase, setProcess_processes, State.setVisible]
    grind
  · intro other
    have hother := h.sound other
    have hquietOther := hothers other
    simp only [State.setPhase, setProcess_processes, State.setVisible]
    split
    · exact hnext
    · rename_i hne
      refine hother.frame_of_quiet (hquietOther hne) fun d' hd' => ?_
      obtain ⟨d, hd, hmanifest, _⟩ := hframe d' hd'
      exact ⟨d, hd, hmanifest⟩
  · intro other
    have := h.locked other
    simp only [State.setPhase]
    grind [Phase.atRest]
  · intro other
    have hthere := h.there other
    change _ → _ → directory.isSome = true
    rw [hsome]
    simp only [State.setPhase]
    grind [Phase.isChecking]
  · intro d' file' hd' hfile'
    obtain ⟨d, hd, _, hfiles⟩ := hframe d' hd'
    obtain hnew | ⟨file, hfile, hsame⟩ := hfiles file' hfile'
    · exact Nat.lt_succ_of_le (Nat.le_of_eq hnew)
    · have := h.fresh d file hd hfile
      exact Nat.lt_succ_of_lt (hsame ▸ this)
  · intro other
    have := h.ready other
    simp only [State.setPhase, setProcess_processes, State.setVisible]
    grind
  · exact h.kept

/-! ### Calls -/

theorem finish (h : Invariant files s)
    (hquiet : (s.processes process).phase.inWindow = false) (result : Except ModelsError Unit) :
    Invariant files (s.finish process result) := by
  refine h.setProcess hquiet rfl trivial ?_ nofun nofun (h.ready process)
  intro other hne hlock
  simp [State.unlock, hlock, hne]

theorem setPhase (h : Invariant files s) {phase : Phase}
    (hquiet : (s.processes process).phase.inWindow = false)
    (hbusy : (s.processes process).phase.atRest = false) (hphase : phase.isRefreshing = false)
    (hsound : Process.Sound files s.visible s.nextInode { (s.processes process) with phase })
    (hthere : (s.processes process).intent.installs = true → phase.isChecking = true →
      s.visible.isSome = true) :
    Invariant files (s.setPhase process phase) :=
  h.setProcess hquiet hphase hsound (fun _ _ h => h) (fun hlocked _ => h.locked process hlocked hbusy)
    hthere (h.ready process)

/-- A call acts on the verdict of its check: one that installs or reuses the snapshot never finds it
invalid. -/
theorem conclude (h : Invariant files s) {check : Check}
    {result : Except ModelsError InstalledVerification}
    (hphase : (s.processes process).phase = .checking check)
    (hstamp : check = .stamp → ∀ d, s.visible = some d → d.Stamped files)
    (hstep : checkStep files (s.processes process).intent.installed s.visible check =
      .verdict result) :
    Invariant files (conclude s process (s.processes process).intent result) := by
  have hquiet : (s.processes process).phase.inWindow = false := by rw [hphase]; rfl
  have hbusy : (s.processes process).phase.atRest = false := by rw [hphase]; rfl
  cases result with
  | error error =>
    have hinstalls : (s.processes process).intent.installs = false := by
      by_contra hinstalls
      simp only [Bool.not_eq_false] at hinstalls
      obtain ⟨d, hd⟩ := Option.isSome_iff_exists.1 (h.there process hinstalls (by rw [hphase]; rfl))
      have hsound := h.sound process
      simp only [Process.Sound, hphase, hd] at hsound
      rw [hd] at hstep
      have := (checkStep_accepts (h.intact d hd) hsound (fun he => hstamp he d hd) hstep).2
      cases hintent : (s.processes process).intent <;>
        simp_all [Intent.installs, Intent.installed]
    cases hintent : (s.processes process).intent with
    | reuse | publish | published => simp [hintent, Intent.installs] at hinstalls
    | inventory | revalidate | remove => exact h.finish hquiet _
  | ok verification =>
    cases hintent : (s.processes process).intent with
    | inventory | reuse | publish => exact h.finish hquiet _
    | published => exact h.setPhase hquiet hbusy rfl trivial nofun
    | revalidate =>
      cases verification with
      | stamped => exact h.finish hquiet _
      | rehashed => exact h.setPhase hquiet hbusy rfl trivial nofun
    | remove =>
      cases verification with
      | stamped => exact h.setPhase hquiet hbusy rfl ⟨rfl, by rw [hintent]; rfl⟩ nofun
      | rehashed => exact h.setPhase hquiet hbusy rfl trivial nofun

/-- A refresh ends. -/
theorem refreshed (h : Invariant files s) {refresh : Refresh} {directory : Option Directory}
    {result : Except ModelsError Unit}
    (hphase : (s.processes process).phase = .refreshing refresh)
    (hstep : refreshStep files s.visible s.nextInode refresh = .finished directory result) :
    Invariant files (s.setVisible directory) ∧
      (s.processes process).phase.inWindow = false := by
  obtain ⟨rfl, rfl, _⟩ | ⟨permissions, rfl, rfl⟩ := refreshStep_finished hstep
  · exact ⟨h, by rw [hphase]; rfl⟩
  · have hthis : (s.processes process).phase.inWindow = false := by rw [hphase]; rfl
    refine ⟨?_, hthis⟩
    have hmode : (fun d => permissions.restore d) = fun d : Directory => { d with
        writable := if d.inode = permissions.directory then permissions.original
          else d.writable } := by
      funext d
      simp only [DirectoryRenamePermissions.restore]
      split <;> rfl
    rw [hmode]
    refine h.setWritable _ fun other => ?_
    by_contra hwindow
    simp only [Bool.not_eq_false] at hwindow
    have hsame := h.single other process (Phase.isRefreshing_of_inWindow hwindow)
      (by rw [hphase]; rfl)
    rw [hsame, hthis] at hwindow
    cases hwindow

/-- The call looks at the destination, and publishes where there is nothing. -/
theorem look (h : Invariant files s) (hphase : (s.processes process).phase = .looking)
    (hquiet : s.visible = none →
      ∀ other stamp, (s.processes other).phase ≠ .checking (.manifestDigest stamp)) :
    Invariant files (Snapshot.look files s process (s.processes process).intent) := by
  have hwindow : (s.processes process).phase.inWindow = false := by rw [hphase]; rfl
  have hbusy : (s.processes process).phase.atRest = false := by rw [hphase]; rfl
  cases hvisible : s.visible with
  | some d =>
    simp only [Snapshot.look, hvisible]
    exact h.setPhase hwindow hbusy rfl trivial fun _ _ => by rw [hvisible]; rfl
  | none =>
    cases hintent : (s.processes process).intent with
    | publish manifest live => exact h.publish hvisible hphase hintent (hquiet hvisible)
    | _ =>
      simp only [Snapshot.look, hvisible]
      exact h.finish hwindow _

/-- Only a removal takes the directory away. -/
theorem leaving (h : Invariant files s) {reason : Reason}
    (hphase : (s.processes process).phase = .leaving reason) :
    Invariant files (Snapshot.leave s process (s.processes process).intent reason) := by
  have hwindow : (s.processes process).phase.inWindow = false := by rw [hphase]; rfl
  have hbusy : (s.processes process).phase.atRest = false := by rw [hphase]; rfl
  have hsound := h.sound process
  simp only [Process.Sound, hphase] at hsound
  obtain ⟨rfl, hlocked⟩ := hsound
  have hlock := h.locked process hlocked hbusy
  simp only [Snapshot.leave]
  split
  · exact h.finish hwindow _
  · split
    · exact h.finish hwindow _
    · split
      · exact h.leave hlock rfl trivial rfl (fun _ _ => hlock) (h.ready process)
      · exact h.leave hlock rfl trivial rfl nofun (h.ready process)

/-- A check that is about to read the stamp finds a whole one. -/
theorem stamped_of_checking (h : Invariant files s) (hok : Undisturbed s (.advance process))
    (hphase : (s.processes process).phase = .checking .stamp) (d : Directory)
    (hd : s.visible = some d) : d.Stamped files := by
  simp only [Undisturbed, hphase] at hok
  refine (h.stamped d hd).resolve_right ?_
  rintro ⟨other, hother⟩
  have := hok other
  rw [Phase.inWindow_of_repairs hother] at this
  cases this

/-- A call in flight takes its next step. -/
theorem advance (h : Invariant files s) (hok : Undisturbed s (.advance process))
    (hstep : Snapshot.advance files s process = some t) : Invariant files t := by
  cases hphase : (s.processes process).phase with
  | idle | done => simp [Snapshot.advance, hphase] at hstep
  | looking =>
    simp only [Snapshot.advance, hphase, Option.some.injEq] at hstep
    simp only [Undisturbed, hphase] at hok
    subst hstep
    exact h.look hphase hok
  | checking check =>
    have hstamp : check = .stamp → ∀ d, s.visible = some d → d.Stamped files := by
      rintro rfl
      exact h.stamped_of_checking hok hphase
    have hsound := h.sound process
    simp only [Process.Sound, hphase] at hsound
    simp only [Snapshot.advance, hphase] at hstep
    split at hstep
    · rename_i next hnext
      cases hstep
      refine h.setPhase (by rw [hphase]; rfl) (by rw [hphase]; rfl) rfl
        (checkStep_keeps hsound hstamp hnext) fun hinstalls _ => ?_
      exact h.there process hinstalls (by rw [hphase]; rfl)
    · rename_i result hresult
      cases hstep
      exact h.conclude hphase hstamp hresult
  | refreshing refresh =>
    simp only [Snapshot.advance, hphase] at hstep
    simp only [Undisturbed, hphase] at hok
    split at hstep
    · rename_i directory next hnext
      cases hstep
      refine h.refresh hphase ?_ ?_ hnext
      · rintro rfl
        exact hok
      · rintro permissions digest done file live rest rfl
        exact hok
    · rename_i directory result hresult
      obtain ⟨hkeeps, hwindow⟩ := h.refreshed hphase hresult
      have hbusy : (s.processes process).phase.atRest = false := by rw [hphase]; rfl
      split at hstep
      · rename_i hintent
        cases hstep
        exact hkeeps.setPhase hwindow hbusy rfl ⟨rfl, by rw [setVisible_processes, hintent]; rfl⟩ nofun
      · cases hstep
        exact hkeeps.finish hwindow _
  | leaving reason =>
    simp only [Snapshot.advance, hphase, Option.some.injEq] at hstep
    subst hstep
    exact h.leaving hphase
  | settingMode =>
    simp only [Snapshot.advance, hphase, Option.some.injEq] at hstep
    simp only [Undisturbed, hphase] at hok
    subst hstep
    have hquiet : ∀ other, (s.processes other).phase.inWindow = false := by
      intro other
      by_contra hwindow
      simp only [Bool.not_eq_false] at hwindow
      have := hok other
      rw [Phase.isRefreshing_of_inWindow hwindow] at this
      cases this
    exact (h.setWritable (fun _ => false) hquiet).finish (hquiet process) _

end Invariant

/-- An undisturbed step keeps the invariant. -/
theorem step_keeps {action : Action} (h : Invariant files s) (hok : Undisturbed s action)
    (hstep : step files s action = some t) : Invariant files t := by
  cases action with
  | start process intent =>
    simp only [step, start] at hstep
    split at hstep
    · rename_i phase hrest hbegin
      have hquiet : (s.processes process).phase.inWindow = false := by
        cases hphase : (s.processes process).phase <;> simp_all [Phase.atRest, Phase.inWindow]
      have hphase : phase.isRefreshing = false ∧ (phase = .checking .manifest ∨ phase = .looking) ∧
          (intent.installs = true → phase.isChecking = false) := by
        cases intent <;> cases hbegin <;> simp [Phase.isRefreshing, Phase.isChecking, Intent.installs]
      have hsound : Process.Sound files s.visible s.nextInode { intent, phase } := by
        obtain ⟨_, rfl | rfl, _⟩ := hphase <;> trivial
      split at hstep
      · rename_i hready
        split at hstep
        · split at hstep <;> cases hstep
          rename_i hfree
          refine h.setProcess hquiet hphase.1 hsound ?_ (fun _ _ => rfl) ?_ hready
          · intro other _ hlock
            rw [hfree] at hlock
            cases hlock
          · intro hinstalls hchecking
            rw [hphase.2.2 hinstalls] at hchecking
            cases hchecking
        · rename_i hunlocked
          cases hstep
          exact h.setProcess hquiet hphase.1 hsound (fun _ _ h => h)
            (fun hlocked => absurd hlocked hunlocked)
            (fun hinstalls => absurd (Intent.locked_of_installs hinstalls) hunlocked) hready
      · cases hstep
    · cases hstep
  | advance process => exact h.advance hok hstep
  | drift path metadata readable =>
    obtain rfl : readable = true := hok
    cases hstep
    exact h.drift path metadata
  | reference held =>
    cases hstep
    exact ⟨h.intact, h.stamped, h.single, h.sound, h.locked, h.there, h.fresh, h.ready, h.kept⟩
  | stop process =>
    cases hstep
    refine h.setProcess hok rfl trivial ?_ nofun nofun (h.ready process)
    intro other hne hlock
    simp [State.unlock, hlock, hne]

theorem invariant_run {referenced : Bool} {actions : List Action}
    (h : Run (step files) Undisturbed (.initial referenced) actions s) : Invariant files s :=
  h.invariant (I := Invariant files) (fun _ _ _ => step_keeps) (invariant_initial referenced)

/-- **Installed snapshots stay healthy along undisturbed runs.** -/
theorem undisturbed_snapshots_stay_healthy (files : List ModelFile) :
    HealthyAlong files Undisturbed where
  accepted := by
    intro referenced actions s process check error hrun hok hphase hstep hchanged
    have h := invariant_run hrun
    by_contra hvisible
    obtain ⟨d, hd⟩ := Option.ne_none_iff_exists'.1 hvisible
    have hsound := h.sound process
    simp only [Process.Sound, hphase, hd] at hsound
    have hstamp : check = .stamp → d.Stamped files := by
      rintro rfl
      exact h.stamped_of_checking hok hphase d hd
    rw [hd] at hstep
    exact hchanged (checkStep_accepts (h.intact d hd) hsound hstamp hstep).1
  kept := fun _ _ _ hrun => (invariant_run hrun).kept
  complete := by
    intro referenced actions s d hrun hd
    have h := invariant_run hrun
    refine ⟨(h.intact d hd).contents, ?_⟩
    obtain ⟨_, _, hstamp, _⟩ | ⟨process, hrepairs⟩ := h.stamped d hd
    · exact .inl (by rw [hstamp]; rfl)
    · exact .inr ⟨process,
        Phase.isRefreshing_of_inWindow (Phase.inWindow_of_repairs hrepairs)⟩

end steps

/-! ## The refresh that was interrupted -/

/-- A snapshot of one file is published.  Its file is touched, and a load that finds the drift stops
after it has removed the stamp.  An inventory reads the manifest and lists the files. -/
def interruptedRefresh : List Action :=
  .start 0 (.publish 7 [{
      path := "config.json", size := 3, sha256 := "c", readable := true, metadata := {
        inode := 1, mtimeSeconds := 0, mtimeNanoseconds := 0, ctimeSeconds := 0,
        ctimeNanoseconds := 0 } }]) ::
    List.replicate 8 (.advance 0) ++
  [.drift "config.json" {
      inode := 1, mtimeSeconds := 5, mtimeNanoseconds := 0, ctimeSeconds := 5,
      ctimeNanoseconds := 0 } true, .start 1 (.revalidate 7 false)] ++
    List.replicate 10 (.advance 1) ++
  [.stop 1, .start 2 .inventory, .advance 2, .advance 2]

/-- **An interrupted refresh spoils a healthy snapshot**: the files still equal the manifest, and
every later check ends with an invalid stamp. -/
theorem interrupted_refresh_spoils_snapshot :
    ¬ HealthyAlong [{ path := "config.json", size := 3, sha256 := "c" }] anyStep := by
  intro h
  obtain ⟨s, hs⟩ : ∃ s, run (step [{ path := "config.json", size := 3, sha256 := "c" }])
      (.initial false) interruptedRefresh = some s := ⟨_, rfl⟩
  have hvisible := h.accepted false _ s 2 .stamp .invalidVerificationStamp (run_eq_some_iff.1 hs)
    trivial (by cases hs; rfl) (by cases hs; rfl) (by decide)
  cases hs
  cases hvisible

end Snapshot

end Emelex

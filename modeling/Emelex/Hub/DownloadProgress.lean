import Emelex.Hub.DownloadSafety

/-!
# A download in which nothing fails

What a file task does when the server answers every request with what was asked for, the file
system takes every name that fits in a directory, and no callback refuses.

* `FileName` — the names that a directory can hold.
* `Completable` — what the two names of a planned file may hold for its task to come to an end.
* `Answers` — what the outside contributes to a step when it has no faults.
* `Ready`, `Stuck` — where the task of a completable file stands, and where that of another.
* `work` — a bound on the steps that a task has left.

Principal results: `taskStep_ready`, `taskStep_stuck`, `taskStep_work`, `exists_answer`.
-/

set_option autoImplicit false

namespace Emelex

open Text Machine

namespace Hub

/-! ## The environment -/

/-- The names that a directory can hold. -/
def FileName (name : PathName) : Prop :=
  '/' ∉ name ∧ '\x00' ∉ name ∧ utf8Len name ≤ MAX_RUNTIME_COMPONENT_BYTES

instance (name : PathName) : Decidable (FileName name) := inferInstanceAs (Decidable (_ ∧ _ ∧ _))

/-- The metadata of a name: a name with a slash stands below an entry that is not there or not a
directory, and the other names that no directory holds are refused. -/
def InspectAnswer (name : PathName) : Event → Prop
  | .proceed => FileName name ∨ '/' ∈ name
  | .fault e => e = .io name ∧ ¬ FileName name
  | _ => False

/-- The whole file, or what a range request asks for. -/
def CorrectResponse (content : Bytes) (existing : Nat) (r : Response) : Prop :=
  (r.status = 200 ∧ r.body = content) ∨
    (r.status = 206 ∧ 0 < existing ∧ r.body = content.drop existing ∧
      r.contentRange.bind parseContentRange =
        some (existing, content.length - 1, content.length) ∧
      ∀ length, r.contentLength = some length →
        (headerText length).bind parseHeaderU64 = some (content.length - existing))

example : parseContentRange "bytes 2-4/5".toList = some (2, 4, 5) := by decide

/-- The answers to a task when nothing fails. -/
def Answers (f : RemoteFile) (content : Bytes) : Phase → Event → Prop
  | .inspectCompleted, event => InspectAnswer f.localPath event
  | .attempt _, event => InspectAnswer f.partPath event
  | .request _ existing, .respond r => CorrectResponse content existing r
  | .open_ _ _ _, .opened _ _ => True
  | .body _ _ _ rest, .chunk count => 0 < count ∧ count ≤ rest.length
  | .body _ _ _ rest, .endOfBody => rest = []
  | .writing _ _ _ _ _, .wrote count _ => 0 < count
  | _, .proceed => True
  | _, _ => False

/-! ## Files that can be completed -/

/-- Bytes of the size and the digest of the plan. -/
def Matches (sha256 : Bytes → List Char) (f : RemoteFile) (bytes : Bytes) : Prop :=
  bytes.length = f.size ∧ ∀ expected, f.expectedSha256 = some expected → expected = sha256 bytes

/-- What the names of a file may hold at the start: a published file is that of the plan, and with
neither name there, something is to be transferred to a name that a directory takes. -/
def Completable (sha256 : Bytes → List Char) (f : RemoteFile) : Option Entry → Option Entry → Prop
  | some e, _ => Matches sha256 f e.bytes
  | none, some _ => True
  | none, none => 0 < f.size ∧ FileName f.partPath

/-- Where the task of a completable file stands, beside `PhaseOk`. -/
def Ready (sha256 : Bytes → List Char) (f : RemoteFile) (content : Bytes) (cancelled : Bool)
    (completed part : Option Entry) : Phase → Prop
  | .inspectCompleted => Completable sha256 f completed part ∧
      (completed.isSome → FileName f.localPath) ∧ (part.isSome → FileName f.partPath)
  | .openCompleted identity => ∃ e, completed = some e ∧ e.identity = identity ∧
      Matches sha256 f e.bytes
  | .hashCompleted snapshot => ∃ e, completed = some e ∧ e.snapshot = snapshot ∧
      Matches sha256 f e.bytes
  | .attempt a => a.partIdentity = none ∧ FileName f.partPath ∧ (part = none → 0 < f.size)
  | .request a existing => a.partIdentity = part.map Entry.identity ∧ FileName f.partPath ∧
      existing < f.size
  | .open_ a r persisted => a.partIdentity = part.map Entry.identity ∧ FileName f.partPath ∧
      r.body = content.drop persisted
  | .checkOpened a r persisted identity => (∀ x, a.partIdentity = some x → x = identity) ∧
      r.body = content.drop persisted
  | .body _ _ persisted rest => rest = content.drop persisted
  | .writing _ _ persisted data rest => data ++ rest = content.drop (persisted - data.length)
  | .retrying _ => False
  | .openPart identity => ∃ e, part = some e ∧ identity = some e.identity ∧ e.bytes = content
  | .hashPart snapshot => ∃ e, part = some e ∧ e.snapshot = snapshot ∧ e.bytes = content
  | .validate snapshot _ => ∃ e, part = some e ∧ e.snapshot = snapshot
  | .publish _ | .sync _ | .done _ => True
  | .failed _ => cancelled = true

/-- Where the task of another file stands. -/
def Stuck (f : RemoteFile) (completed : Option Entry) : Phase → Prop
  | .inspectCompleted | .failed _ => True
  | .openCompleted _ | .hashCompleted _ => completed.isSome
  | .attempt _ | .openPart _ => completed = none
  | .request _ existing => completed = none ∧ '/' ∈ f.partPath ∧ existing < f.size
  | .open_ _ _ _ => completed = none ∧ '/' ∈ f.partPath
  | _ => False

/-- The steps that a task has left, for a file of this length. -/
def work (length : Nat) : Phase → Nat
  | .done _ | .failed _ => 0
  | .hashCompleted _ | .sync _ => 1
  | .openCompleted _ | .publish _ => 2
  | .validate _ _ => 3
  | .hashPart _ => 4
  | .openPart _ => 5
  | .body _ _ _ rest => 6 + 3 * rest.length
  | .writing _ _ _ data rest => 7 + data.length + 3 * rest.length
  | .checkOpened _ r _ _ => 7 + 3 * r.body.length
  | .open_ _ r _ => 8 + 3 * r.body.length
  | .request _ _ => 9 + 3 * length
  | .attempt _ => 10 + 3 * length
  | .inspectCompleted | .retrying _ => 11 + 3 * length

variable {sha256 : Bytes → List Char} {retries : Nat} {f : RemoteFile} {content : Bytes}
  {completed part : Option Entry} {d d' : Directory} {cancelled : Bool} {a : Attempt}
  {phase phase' : Phase} {event : Event}

/-- A name is a shorter one with `.part` behind it. -/
theorem FileName.localPath (h : FileName f.partPath) : FileName f.localPath := by
  obtain ⟨hslash, hnul, hlength⟩ := h
  unfold RemoteFile.partPath at hslash hnul hlength
  refine ⟨fun hmem => hslash (List.mem_append_left _ hmem),
    fun hmem => hnul (List.mem_append_left _ hmem), le_trans ?_ hlength⟩
  rw [utf8Len_append]
  exact Nat.le_add_right _ _

/-! ## What the checks answer -/

theorem failAttempt_of_not_transient {e : HubError} (h : e.transient = false) :
    failAttempt retries a e = .failed e :=
  if_neg fun htransient => Bool.false_ne_true (h.symm.trans htransient.1)

theorem inspectPartial_none {name : PathName} {expected : Option FileIdentity}
    (h : d.find name = none) : inspectPartial d name expected = .ok (0, none) := by
  unfold inspectPartial
  rw [h]

theorem inspectPartial_some {name : PathName} {e : Entry} (h : d.find name = some e) :
    inspectPartial d name none = .ok (e.bytes.length, some e.identity) := by
  unfold inspectPartial
  rw [h]
  exact if_neg Bool.false_ne_true

theorem openForHash_some {name : PathName} {e : Entry} (h : d.find name = some e) :
    openForHash d name (some e.identity) = .ok e.snapshot := by
  unfold openForHash
  rw [h]
  refine if_neg ?_
  rw [Option.any_some, decide_eq_true_iff]
  exact not_not.2 rfl

theorem validateFileSnapshot_some {name : PathName} {e : Entry} (h : d.find name = some e) :
    validateFileSnapshot d name e.snapshot = .ok () := by
  unfold validateFileSnapshot
  rw [h]
  exact if_neg (not_not.2 rfl)

theorem validateStagedFileIntegrity_iff {bytes : Bytes} :
    validateStagedFileIntegrity f bytes.length (sha256 bytes) = .ok () ↔
      Matches sha256 f bytes := by
  unfold validateStagedFileIntegrity Matches
  by_cases hsize : bytes.length = f.size
  · rw [if_neg (not_not.2 hsize)]
    cases hexpected : f.expectedSha256 with
    | none => exact iff_of_true rfl ⟨hsize, fun _ h => nomatch h⟩
    | some expected =>
      dsimp only
      by_cases hdigest : expected = sha256 bytes
      · rw [if_neg (not_not.2 hdigest)]
        exact iff_of_true rfl ⟨hsize, fun _ h => (Option.some.inj h).symm.trans hdigest⟩
      · rw [if_pos hdigest]
        exact iff_of_false (fun h => nomatch h) fun h => hdigest (h.2 _ rfl)
  · rw [if_pos hsize]
    exact iff_of_false (fun h => nomatch h) fun h => hsize h.1

theorem hashChecked_some {name : PathName} {e : Entry} (h : d.find name = some e)
    (hmatches : Matches sha256 f e.bytes) :
    hashChecked sha256 f d name e.snapshot = .ok (sha256 e.bytes) := by
  unfold hashChecked
  rw [h]
  dsimp only
  rw [validateFileSnapshot_some h, validateStagedFileIntegrity_iff.2 hmatches]
  rfl

theorem hashChecked_matches {name : PathName} {snapshot : FileSnapshot} {digest : List Char}
    {e : Entry} (hfind : d.find name = some e)
    (h : hashChecked sha256 f d name snapshot = .ok digest) : Matches sha256 f e.bytes := by
  unfold hashChecked at h
  rw [hfind] at h
  dsimp only at h
  cases hvalid : validateFileSnapshot d name snapshot with
  | error error =>
    rw [hvalid] at h
    cases h
  | ok u =>
    cases hintegrity : validateStagedFileIntegrity f e.bytes.length (sha256 e.bytes) with
    | error error =>
      rw [hvalid, hintegrity] at h
      cases h
    | ok u' => exact validateStagedFileIntegrity_iff.1 hintegrity

/-- A correct response is accepted. -/
theorem acceptResponse_correct (retries : Nat) (cancelled : Bool) (a : Attempt) {existing : Nat}
    {r : Response} (hexisting : existing < content.length) (hlength : content.length = f.size)
    (h : CorrectResponse content existing r) :
    ∃ persisted, r.body = content.drop persisted ∧
      acceptResponse retries f cancelled a existing r =
        if cancelled then .failed .cancelled else .open_ a r persisted := by
  have hcancelled : failAttempt retries a .cancelled = .failed .cancelled :=
    failAttempt_of_not_transient rfl
  rcases h with ⟨hstatus, hbody⟩ | ⟨hstatus, hpos, hbody, hrange, hheader⟩
  · refine ⟨0, hbody, ?_⟩
    have hsuccess : r.isSuccess = true := by
      unfold Response.isSuccess
      rw [hstatus]
      rfl
    have hresumed : decide (r.status = 206) = false := by
      rw [hstatus]
      rfl
    unfold acceptResponse
    rw [if_neg (by rw [hsuccess]; exact fun h => nomatch h), hresumed]
    dsimp only
    rw [if_neg Bool.false_ne_true, if_neg fun h => h.2 hstatus]
    dsimp only
    have hstart : (if 0 < existing ∧ false = true then existing else 0) = 0 :=
      if_neg fun h => Bool.false_ne_true h.2
    rw [hcancelled, hstart]
  · refine ⟨existing, hbody, ?_⟩
    have hsuccess : r.isSuccess = true := by
      unfold Response.isSuccess
      rw [hstatus]
      rfl
    have hresumed : decide (r.status = 206) = true := decide_eq_true hstatus
    have hvalid : validateContentRange r existing f.size = .ok () := by
      obtain ⟨value, hvalue, hparse⟩ := Option.bind_eq_some_iff.1 hrange
      unfold validateContentRange
      rw [hvalue]
      dsimp only
      rw [hparse]
      dsimp only
      rw [if_neg (by omega)]
      cases hlen : r.contentLength with
      | none => rfl
      | some length =>
        dsimp only
        rw [hheader length hlen]
        dsimp only
        rw [if_neg (by omega)]
    unfold acceptResponse
    rw [if_neg (by rw [hsuccess]; exact fun h => nomatch h), hresumed]
    dsimp only
    rw [if_pos rfl, hvalid]
    dsimp only
    have hstart : (if 0 < existing ∧ true = true then existing else 0) = existing :=
      if_pos ⟨hpos, rfl⟩
    rw [hcancelled, hstart]

/-! ## The task of a completable file -/

theorem checked_ready {α : Type} {result : Except HubError α} {x : α} {next : α → Phase}
    (hresult : result = .ok x)
    (h : Ready sha256 f content cancelled completed part (next x)) :
    Ready sha256 f content cancelled completed part (checked cancelled result next) := by
  unfold checked
  split
  · assumption
  · rw [hresult]
    exact h

theorem reuseCompleted_ready (h : Completable sha256 f (d.find f.localPath) (d.find f.partPath))
    (hname : (d.find f.partPath).isSome → FileName f.partPath) :
    Ready sha256 f content cancelled (d.find f.localPath) (d.find f.partPath)
      (reuseCompleted f cancelled d) := by
  unfold reuseCompleted
  split
  · assumption
  · cases hcompleted : d.find f.localPath with
    | some e =>
      rw [hcompleted] at h
      rw [inspectPartial_some hcompleted]
      dsimp only
      rw [if_neg (not_not.2 h.1)]
      exact ⟨e, rfl, rfl, h⟩
    | none =>
      rw [hcompleted] at h
      rw [inspectPartial_none hcompleted]
      cases hpart : d.find f.partPath with
      | none =>
        rw [hpart] at h
        exact ⟨rfl, h.2, fun _ => h.1⟩
      | some e => exact ⟨rfl, hname (by rw [hpart]; rfl), fun hnone => nomatch hnone⟩

theorem startAttempt_ready (hlength : content.length = f.size)
    (hslot : SlotOk content (d.find f.localPath) (d.find f.partPath))
    (h : Ready sha256 f content cancelled (d.find f.localPath) (d.find f.partPath) (.attempt a)) :
    Ready sha256 f content cancelled (d.find f.localPath) (d.find f.partPath)
      (startAttempt retries f cancelled d a) := by
  obtain ⟨hidentity, hname, hpos⟩ := h
  unfold startAttempt
  split
  · assumption
  · dsimp only
    rw [hidentity]
    cases hpart : d.find f.partPath with
    | none =>
      have hsize := hpos hpart
      rw [inspectPartial_none hpart]
      dsimp only
      rw [if_neg (Nat.not_lt_zero _), if_neg (Nat.ne_of_lt hsize)]
      exact ⟨rfl, hname, hsize⟩
    | some e =>
      have hprefix := hslot.part_agrees e hpart
      have hle := hprefix.length_le
      rw [inspectPartial_some hpart]
      dsimp only
      rw [if_neg (by omega)]
      split
      · rename_i hwhole
        exact ⟨e, rfl, rfl, hprefix.eq_of_length (hwhole.trans hlength.symm)⟩
      · rename_i hless
        exact ⟨rfl, hname, by omega⟩

theorem openPartial_ready {r : Response} {persisted times : Nat} {identity : FileIdentity}
    (h : Ready sha256 f content cancelled (d.find f.localPath) (d.find f.partPath)
      (.open_ a r persisted))
    (hopen : openPartial retries f cancelled d a r persisted identity times = some (phase', d')) :
    Ready sha256 f content cancelled (d'.find f.localPath) (d'.find f.partPath) phase' := by
  obtain ⟨hidentity, hname, hbody⟩ := h
  unfold openPartial at hopen
  split at hopen
  · rename_i hcancelled
    rw [failAttempt_of_not_transient rfl] at hopen
    cases hopen
    exact hcancelled
  · cases hpart : d.find f.partPath with
    | none =>
      rw [hpart] at hidentity hopen
      rw [hidentity] at hopen
      dsimp only [Option.map_none] at hopen
      rw [if_neg hname.1] at hopen
      split at hopen
      · cases hopen
      · cases hopen
        exact ⟨fun x hx => absurd (hidentity.symm.trans hx) (Option.some_ne_none x).symm, hbody⟩
    | some e =>
      rw [hpart] at hidentity hopen
      rw [hidentity] at hopen
      dsimp only [Option.map_some] at hopen
      have hopened : Ready sha256 f content cancelled (d'.find f.localPath) (d'.find f.partPath)
          (.checkOpened a r persisted e.identity) :=
        ⟨fun x hx => (Option.some.inj (hidentity.symm.trans hx)).symm, hbody⟩
      split at hopen
      · cases hopen
        exact hopened
      · cases hopen
        exact hopened

theorem receiveChunk_ready {append : Bool} {persisted count : Nat} {rest : Bytes}
    (hlength : content.length = f.size) (hlimit : f.size < U64_LIMIT)
    (hpersisted : persisted ≤ content.length)
    (h : Ready sha256 f content cancelled completed part (.body a append persisted rest)) :
    Ready sha256 f content cancelled completed part
      (receiveChunk retries f cancelled a append persisted rest count) := by
  have hrest : rest = content.drop persisted := h
  have htake : (rest.take count).length ≤ content.length - persisted := by
    rw [List.length_take, hrest, List.length_drop]
    exact Nat.min_le_right _ _
  unfold receiveChunk
  split
  · rename_i hcancelled
    rw [failAttempt_of_not_transient rfl]
    exact hcancelled
  · dsimp only
    rw [if_neg (by omega), if_neg (by omega)]
    show rest.take count ++ rest.drop count = _
    rw [List.take_append_drop, hrest, Nat.add_sub_cancel]

theorem endBody_ready {append : Bool} {persisted : Nat} (hlength : content.length = f.size)
    (hslot : SlotOk content completed part)
    (hphase : PhaseOk sha256 f content completed part (.body a append persisted []))
    (h : Ready sha256 f content cancelled completed part (.body a append persisted [])) :
    Ready sha256 f content cancelled completed part (endBody retries f a persisted) := by
  obtain ⟨-, -, e, hpart, hidentity, hbytes⟩ := hphase
  have hprefix := hslot.part_agrees e hpart
  have hall : content.length ≤ persisted := List.drop_eq_nil_iff.1 (Eq.symm h)
  have hle := hprefix.length_le
  unfold endBody
  rw [if_neg (by omega)]
  exact ⟨e, hpart, hidentity, hprefix.eq_of_length (by omega)⟩

theorem writeChunk_ready (d d' : Directory) (count times : Nat) {append : Bool} {persisted : Nat}
    {data rest : Bytes} (hdata : data.length ≤ persisted)
    (h : Ready sha256 f content cancelled completed part
      (.writing a append persisted data rest)) :
    Ready sha256 f content cancelled (d'.find f.localPath) (d'.find f.partPath)
      (writeChunk d a append persisted data rest count times).1 := by
  have hwhole : data ++ rest = content.drop (persisted - data.length) := h
  unfold writeChunk
  split
  · rename_i hnil
    rw [hnil, List.nil_append] at hwhole
    exact hwhole
  · show data.drop count ++ rest = content.drop (persisted - (data.drop count).length)
    by_cases hcount : count ≤ data.length
    · have hposition : persisted - (data.drop count).length =
          persisted - data.length + count := by
        rw [List.length_drop]
        omega
      rw [hposition, ← List.drop_drop, ← hwhole, List.drop_append_of_le_length hcount]
    · have hnone : data.drop count = [] := List.drop_eq_nil_of_le (by omega)
      have hposition : persisted - ([] : Bytes).length =
          persisted - data.length + data.length := by
        rw [List.length_nil]
        omega
      rw [hnone, List.nil_append, hposition, ← List.drop_drop, ← hwhole, List.drop_left]

/-- The task of a completable file goes on, unless it is cancelled. -/
theorem taskStep_ready (hmatches : d.find f.localPath = none → Matches sha256 f content)
    (hlimit : f.size < U64_LIMIT)
    (hslot : SlotOk content (d.find f.localPath) (d.find f.partPath))
    (hphase : PhaseOk sha256 f content (d.find f.localPath) (d.find f.partPath) phase)
    (h : Ready sha256 f content cancelled (d.find f.localPath) (d.find f.partPath) phase)
    (hanswer : Answers f content phase event)
    (hstep : taskStep sha256 retries f cancelled d phase event = some (phase', d')) :
    Ready sha256 f content cancelled (d'.find f.localPath) (d'.find f.partPath) phase' := by
  cases phase
  case inspectCompleted =>
    cases event with
    | proceed =>
      cases hstep
      exact reuseCompleted_ready h.1 h.2.2
    | fault e =>
      obtain ⟨hready, hlocal, hname⟩ := h
      refine absurd ?_ hanswer.2
      cases hcompleted : d.find f.localPath with
      | some e => exact hlocal (by rw [hcompleted]; rfl)
      | none =>
        cases hpart : d.find f.partPath with
        | some e => exact (hname (by rw [hpart]; rfl)).localPath
        | none =>
          rw [hcompleted, hpart] at hready
          exact hready.2.localPath
    | _ => exact hanswer.elim
  case openCompleted identity =>
    cases event with
    | proceed =>
      cases hstep
      obtain ⟨e, hcompleted, rfl, hmatch⟩ := h
      exact checked_ready (openForHash_some hcompleted) ⟨e, hcompleted, rfl, hmatch⟩
    | _ => exact hanswer.elim
  case hashCompleted snapshot =>
    cases event with
    | proceed =>
      cases hstep
      obtain ⟨e, hcompleted, rfl, hmatch⟩ := h
      exact checked_ready (hashChecked_some hcompleted hmatch) trivial
    | _ => exact hanswer.elim
  case attempt a =>
    cases event with
    | proceed =>
      cases hstep
      exact startAttempt_ready (hmatches hphase).1 hslot h
    | fault e => exact absurd h.2.1 hanswer.2
    | _ => exact hanswer.elim
  case request a existing =>
    cases event with
    | respond r =>
      obtain ⟨hidentity, hpart, hexisting⟩ := h
      have hlength := (hmatches hphase.1).1
      obtain ⟨persisted, hbody, haccept⟩ := acceptResponse_correct retries cancelled a
        (by omega) hlength hanswer
      cases hstep
      rw [haccept]
      split
      · assumption
      · exact ⟨hidentity, hpart, hbody⟩
    | proceed => cases hstep
    | _ => exact hanswer.elim
  case open_ a r persisted =>
    cases event with
    | opened identity times => exact openPartial_ready h hstep
    | proceed => cases hstep
    | _ => exact hanswer.elim
  case checkOpened a r persisted identity =>
    cases event with
    | proceed =>
      cases hstep
      obtain ⟨hidentity, hbody⟩ := h
      unfold checkOpened
      split
      · rename_i hdiffers
        obtain ⟨x, hx, hne⟩ := (Option.any_eq_true _ _).1 hdiffers
        exact absurd (hidentity x hx) (decide_eq_true_iff.1 hne)
      · exact hbody
    | _ => exact hanswer.elim
  case body a append persisted rest =>
    obtain ⟨hcompleted, -, e, hpart, -, hbytes⟩ := id hphase
    have hle := (hslot.part_agrees e hpart).length_le
    cases event with
    | chunk count =>
      cases hstep
      exact receiveChunk_ready (hmatches hcompleted).1 hlimit (by omega) h
    | endOfBody =>
      cases hstep
      have hrest : rest = [] := hanswer
      subst hrest
      exact endBody_ready (hmatches hcompleted).1 hslot hphase h
    | proceed => cases hstep
    | _ => exact hanswer.elim
  case writing a append persisted data rest =>
    cases event with
    | wrote count times =>
      obtain ⟨-, e, -, -, hlen, -⟩ := hphase
      have hnext := writeChunk_ready d d' count times (by omega) h
      have heq : writeChunk d a append persisted data rest count times = (phase', d') :=
        Option.some.inj hstep
      rwa [heq] at hnext
    | proceed => cases hstep
    | _ => exact hanswer.elim
  case retrying a => exact h.elim
  case openPart identity =>
    cases event with
    | proceed =>
      cases hstep
      obtain ⟨e, hpart, rfl, hbytes⟩ := h
      exact checked_ready (openForHash_some hpart) ⟨e, hpart, rfl, hbytes⟩
    | _ => exact hanswer.elim
  case hashPart snapshot =>
    cases event with
    | proceed =>
      cases hstep
      obtain ⟨e, hpart, rfl, rfl⟩ := h
      exact checked_ready (hashChecked_some hpart (hmatches hphase)) ⟨e, hpart, rfl⟩
    | _ => exact hanswer.elim
  case validate snapshot digest =>
    cases event with
    | proceed =>
      cases hstep
      obtain ⟨e, hpart, rfl⟩ := h
      exact checked_ready (validateFileSnapshot_some hpart) trivial
    | _ => exact hanswer.elim
  case publish digest =>
    cases event with
    | proceed =>
      obtain ⟨hcompleted, e, hpart, -⟩ := hphase
      have heq : publishPart f cancelled d digest = (phase', d') := Option.some.inj hstep
      unfold publishPart at heq
      split at heq
      · rename_i hcancelled
        cases heq
        exact hcancelled
      · rw [hpart, hcompleted] at heq
        cases heq
        trivial
    | _ => exact hanswer.elim
  case sync digest =>
    cases event with
    | proceed =>
      cases hstep
      trivial
    | _ => exact hanswer.elim
  case done file => cases event <;> cases hstep
  case failed error => cases event <;> cases hstep

/-! ## The task of another file -/

theorem checked_stuck {α : Type} {result : Except HubError α} {next : α → Phase}
    (h : ∀ x, result = .ok x → Stuck f completed (next x)) :
    Stuck f completed (checked cancelled result next) := by
  unfold checked
  split
  · trivial
  · cases result with
    | error e => trivial
    | ok x => exact h x rfl

theorem reuseCompleted_stuck :
    Stuck f (d.find f.localPath) (reuseCompleted f cancelled d) := by
  unfold reuseCompleted
  split
  · trivial
  · cases hcompleted : d.find f.localPath with
    | none =>
      rw [inspectPartial_none hcompleted]
      rfl
    | some e =>
      rw [inspectPartial_some hcompleted]
      dsimp only
      split
      · trivial
      · rfl

theorem startAttempt_stuck (hcompleted : d.find f.localPath = none)
    (hpart : d.find f.partPath = none) (hslash : 0 < f.size → '/' ∈ f.partPath) :
    Stuck f (d.find f.localPath) (startAttempt retries f cancelled d a) := by
  unfold startAttempt
  split
  · trivial
  · dsimp only
    rw [inspectPartial_none hpart]
    dsimp only
    rw [if_neg (Nat.not_lt_zero _)]
    split
    · exact hcompleted
    · rename_i hsize
      have hpos : 0 < f.size := Nat.pos_of_ne_zero (Ne.symm hsize)
      exact ⟨hcompleted, hslash hpos, hpos⟩

theorem openPartial_stuck {r : Response} {persisted times : Nat} {identity : FileIdentity}
    (hpart : d.find f.partPath = none) (hslash : '/' ∈ f.partPath)
    (hopen : openPartial retries f cancelled d a r persisted identity times = some (phase', d')) :
    d' = d ∧ Stuck f completed phase' := by
  have hio : failAttempt retries a (.io f.partPath) = .failed (.io f.partPath) :=
    failAttempt_of_not_transient rfl
  unfold openPartial at hopen
  split at hopen
  · rw [failAttempt_of_not_transient rfl] at hopen
    cases hopen
    exact ⟨rfl, trivial⟩
  · rw [hpart] at hopen
    cases hidentity : a.partIdentity with
    | none =>
      rw [hidentity] at hopen
      dsimp only at hopen
      rw [hio] at hopen
      cases hopen
      exact ⟨rfl, trivial⟩
    | some x =>
      rw [hidentity] at hopen
      dsimp only at hopen
      rw [hio] at hopen
      cases hopen
      exact ⟨rfl, trivial⟩

/-- The task of a file that is not completable changes nothing, and it does not come to its end. -/
theorem taskStep_stuck (hlength : content.length = f.size)
    (hnot : ¬ Completable sha256 f (d.find f.localPath) (d.find f.partPath))
    (h : Stuck f (d.find f.localPath) phase)
    (hanswer : Answers f content phase event)
    (hstep : taskStep sha256 retries f cancelled d phase event = some (phase', d')) :
    d' = d ∧ Stuck f (d.find f.localPath) phase' := by
  -- without a published file there is no partial file, and no name for one or nothing to transfer
  have hpart : d.find f.localPath = none →
      d.find f.partPath = none ∧ (0 < f.size → ¬ FileName f.partPath) := by
    intro hcompleted
    rw [hcompleted] at hnot
    cases hpart : d.find f.partPath with
    | some e =>
      rw [hpart] at hnot
      exact absurd trivial hnot
    | none =>
      rw [hpart] at hnot
      exact ⟨rfl, fun hpos hname => hnot ⟨hpos, hname⟩⟩
  cases phase
  case inspectCompleted =>
    cases event with
    | proceed =>
      cases hstep
      exact ⟨rfl, reuseCompleted_stuck⟩
    | fault e =>
      cases hstep
      exact ⟨rfl, trivial⟩
    | _ => exact hanswer.elim
  case openCompleted identity =>
    cases event with
    | proceed =>
      cases hstep
      exact ⟨rfl, checked_stuck fun _ _ => h⟩
    | _ => exact hanswer.elim
  case hashCompleted snapshot =>
    cases event with
    | proceed =>
      cases hstep
      refine ⟨rfl, checked_stuck fun digest hdigest => ?_⟩
      obtain ⟨e, hcompleted⟩ := Option.isSome_iff_exists.1 h
      rw [hcompleted] at hnot
      exact hnot (hashChecked_matches hcompleted hdigest)
    | _ => exact hanswer.elim
  case attempt a =>
    obtain ⟨hnone, hname⟩ := hpart h
    cases event with
    | proceed =>
      cases hstep
      exact ⟨rfl, startAttempt_stuck h hnone fun hpos => hanswer.resolve_left (hname hpos)⟩
    | fault e =>
      obtain ⟨rfl, -⟩ := hanswer
      have hfail : failAttempt retries a (.io f.partPath) = .failed (.io f.partPath) :=
        failAttempt_of_not_transient rfl
      have heq : (failAttempt retries a (.io f.partPath), d) = (phase', d') :=
        Option.some.inj hstep
      rw [hfail] at heq
      cases heq
      exact ⟨rfl, trivial⟩
    | _ => exact hanswer.elim
  case request a existing =>
    obtain ⟨hcompleted, hslash, hexisting⟩ := h
    cases event with
    | respond r =>
      cases hstep
      refine ⟨rfl, ?_⟩
      obtain ⟨persisted, -, haccept⟩ := acceptResponse_correct retries cancelled a
        (by omega) hlength hanswer
      rw [haccept]
      split
      · trivial
      · exact ⟨hcompleted, hslash⟩
    | proceed => cases hstep
    | _ => exact hanswer.elim
  case open_ a r persisted =>
    cases event with
    | opened identity times => exact openPartial_stuck (hpart h.1).1 h.2 hstep
    | proceed => cases hstep
    | _ => exact hanswer.elim
  case openPart identity =>
    cases event with
    | proceed =>
      cases hstep
      refine ⟨rfl, checked_stuck fun snapshot hopened => ?_⟩
      unfold openForHash at hopened
      rw [(hpart h).1] at hopened
      cases hopened
    | _ => exact hanswer.elim
  case done file => exact h.elim
  case failed error => cases event <;> cases hstep
  all_goals exact h.elim

/-! ## Every step gets nearer to the end -/

theorem failAttempt_work {n k : Nat} {e : HubError} (hk : 0 < k)
    (h : ∀ b, failAttempt retries a e ≠ .retrying b) :
    work n (failAttempt retries a e) < k := by
  unfold failAttempt at h ⊢
  split
  · rename_i hretry
    rw [if_pos hretry] at h
    exact absurd rfl (h a)
  · exact hk

theorem checked_work {α : Type} {result : Except HubError α} {next : α → Phase} {n k : Nat}
    (hk : 0 < k) (h : ∀ x, work n (next x) < k) : work n (checked cancelled result next) < k := by
  unfold checked
  split
  · exact hk
  · cases result with
    | error e => exact hk
    | ok x => exact h x

theorem reuseCompleted_work {n : Nat} :
    work n (reuseCompleted f cancelled d) < 11 + 3 * n := by
  have hpos : 0 < 11 + 3 * n := by omega
  unfold reuseCompleted
  split
  · exact hpos
  · split
    · exact hpos
    · show 10 + 3 * n < 11 + 3 * n
      omega
    · split
      · exact hpos
      · show 2 < 11 + 3 * n
        omega

theorem startAttempt_work {n : Nat} (h : ∀ b, startAttempt retries f cancelled d a ≠ .retrying b) :
    work n (startAttempt retries f cancelled d a) < 10 + 3 * n := by
  have hpos : 0 < 10 + 3 * n := by omega
  unfold startAttempt at h ⊢
  by_cases hcancelled : cancelled = true
  · rw [if_pos hcancelled]
    exact hpos
  · rw [if_neg hcancelled] at h ⊢
    dsimp only at h ⊢
    cases hinspect : inspectPartial d f.partPath a.partIdentity with
    | error e =>
      rw [hinspect] at h
      exact failAttempt_work hpos h
    | ok found =>
      rw [hinspect] at h
      dsimp only at h ⊢
      by_cases hlarge : f.size < found.1
      · rw [if_pos hlarge] at h ⊢
        exact failAttempt_work hpos h
      · rw [if_neg hlarge]
        split
        · show 5 < 10 + 3 * n
          omega
        · show 9 + 3 * n < 10 + 3 * n
          omega

theorem acceptResponse_work {n existing : Nat} {r : Response} (hbody : r.body.length ≤ n)
    (h : ∀ b, acceptResponse retries f cancelled a existing r ≠ .retrying b) :
    work n (acceptResponse retries f cancelled a existing r) < 9 + 3 * n := by
  have hpos : 0 < 9 + 3 * n := by omega
  unfold acceptResponse at h ⊢
  by_cases hsuccess : r.isSuccess = false
  · rw [if_pos hsuccess] at h ⊢
    exact failAttempt_work hpos h
  · rw [if_neg hsuccess] at h ⊢
    dsimp only at h ⊢
    cases hchecked : (if decide (r.status = 206) = true then validateContentRange r existing f.size
        else if 0 < existing ∧ r.status ≠ 200 then
          .error (.protocol "Hub ignored range request with unexpected status")
        else .ok ()) with
    | error e =>
      rw [hchecked] at h
      exact failAttempt_work hpos h
    | ok u =>
      rw [hchecked] at h
      dsimp only at h ⊢
      by_cases hcancelled : cancelled = true
      · rw [if_pos hcancelled] at h ⊢
        exact failAttempt_work hpos h
      · rw [if_neg hcancelled]
        show 8 + 3 * r.body.length < 9 + 3 * n
        omega

theorem openPartial_work {n persisted times : Nat} {r : Response} {identity : FileIdentity}
    (hopen : openPartial retries f cancelled d a r persisted identity times = some (phase', d'))
    (h : ∀ b, phase' ≠ .retrying b) : work n phase' < 8 + 3 * r.body.length := by
  have hpos : 0 < 8 + 3 * r.body.length := by omega
  have hfail : ∀ e, some (failAttempt retries a e, d) = some (phase', d') →
      work n phase' < 8 + 3 * r.body.length := by
    intro e heq
    cases heq
    exact failAttempt_work hpos h
  have hopened : ∀ identity d'', some (Phase.checkOpened a r persisted identity, d'') =
      some (phase', d') → work n phase' < 8 + 3 * r.body.length := by
    intro identity d'' heq
    cases heq
    show 7 + 3 * r.body.length < 8 + 3 * r.body.length
    omega
  unfold openPartial at hopen
  split at hopen
  · exact hfail _ hopen
  · split at hopen
    · exact hfail _ hopen
    · split at hopen
      · exact hfail _ hopen
      · split at hopen
        · cases hopen
        · exact hopened _ _ hopen
    · exact hfail _ hopen
    · split at hopen
      · exact hopened _ _ hopen
      · exact hopened _ _ hopen

theorem receiveChunk_work {n persisted count : Nat} {append : Bool} {rest : Bytes}
    (hpos : 0 < count) (hcount : count ≤ rest.length)
    (h : ∀ b, receiveChunk retries f cancelled a append persisted rest count ≠ .retrying b) :
    work n (receiveChunk retries f cancelled a append persisted rest count) <
      6 + 3 * rest.length := by
  have hk : 0 < 6 + 3 * rest.length := by omega
  unfold receiveChunk at h ⊢
  by_cases hcancelled : cancelled = true
  · rw [if_pos hcancelled] at h ⊢
    exact failAttempt_work hk h
  · rw [if_neg hcancelled] at h ⊢
    dsimp only at h ⊢
    by_cases hoverflow : U64_LIMIT ≤ persisted + (rest.take count).length
    · rw [if_pos hoverflow] at h ⊢
      exact failAttempt_work hk h
    · rw [if_neg hoverflow] at h ⊢
      by_cases hlarge : f.size < persisted + (rest.take count).length
      · rw [if_pos hlarge] at h ⊢
        exact failAttempt_work hk h
      · rw [if_neg hlarge]
        show 7 + (rest.take count).length + 3 * (rest.drop count).length < 6 + 3 * rest.length
        rw [List.length_take, List.length_drop]
        omega

theorem writeChunk_work (n persisted times : Nat) (append : Bool) (data rest : Bytes)
    {count : Nat} (hpos : 0 < count) :
    work n (writeChunk d a append persisted data rest count times).1 <
      7 + data.length + 3 * rest.length := by
  unfold writeChunk
  split
  · show 6 + 3 * rest.length < _
    omega
  · rename_i hdata
    have hlength := List.length_pos_of_ne_nil hdata
    show 7 + (data.drop count).length + 3 * rest.length < _
    rw [List.length_drop]
    omega

/-- A step of a task leaves it less to do, unless it retries. -/
theorem taskStep_work (hanswer : Answers f content phase event)
    (hstep : taskStep sha256 retries f cancelled d phase event = some (phase', d'))
    (h : ∀ b, phase' ≠ .retrying b) : work content.length phase' < work content.length phase := by
  cases phase
  case inspectCompleted =>
    cases event with
    | proceed =>
      cases hstep
      exact reuseCompleted_work
    | fault e =>
      cases hstep
      show 0 < 11 + 3 * content.length
      omega
    | _ => exact hanswer.elim
  case attempt a =>
    cases event with
    | proceed =>
      cases hstep
      exact startAttempt_work h
    | fault e =>
      cases hstep
      exact failAttempt_work (Nat.lt_of_lt_of_le (Nat.succ_pos 9) (Nat.le_add_right 10 _)) h
    | _ => exact hanswer.elim
  case request a existing =>
    cases event with
    | respond r =>
      cases hstep
      refine acceptResponse_work ?_ h
      rcases hanswer with ⟨-, hbody⟩ | ⟨-, -, hbody, -⟩
      · rw [hbody]
      · rw [hbody, List.length_drop]
        exact Nat.sub_le _ _
    | proceed => cases hstep
    | _ => exact hanswer.elim
  case open_ a r persisted =>
    cases event with
    | opened identity times => exact openPartial_work hstep h
    | proceed => cases hstep
    | _ => exact hanswer.elim
  case body a append persisted rest =>
    cases event with
    | chunk count =>
      cases hstep
      exact receiveChunk_work hanswer.1 hanswer.2 h
    | endOfBody =>
      cases hstep
      have hpos : 5 < 6 + 3 * rest.length := by omega
      unfold endBody at h ⊢
      by_cases hshort : persisted < f.size
      · rw [if_pos hshort] at h ⊢
        exact failAttempt_work (Nat.zero_lt_of_lt hpos) h
      · rw [if_neg hshort]
        exact hpos
    | proceed => cases hstep
    | _ => exact hanswer.elim
  case writing a append persisted data rest =>
    cases event with
    | wrote count times =>
      have hless := @writeChunk_work d a content.length persisted times append data rest count hanswer
      have heq : writeChunk d a append persisted data rest count times = (phase', d') :=
        Option.some.inj hstep
      rwa [heq] at hless
    | proceed => cases hstep
    | _ => exact hanswer.elim
  case checkOpened a r persisted identity =>
    cases event with
    | proceed =>
      cases hstep
      have hpos : 6 + 3 * r.body.length < 7 + 3 * r.body.length := by omega
      unfold checkOpened at h ⊢
      split
      · rename_i hdiffers
        rw [if_pos hdiffers] at h
        exact failAttempt_work (Nat.zero_lt_of_lt hpos) h
      · exact hpos
    | _ => exact hanswer.elim
  case publish digest =>
    cases event with
    | proceed =>
      have heq : publishPart f cancelled d digest = (phase', d') := Option.some.inj hstep
      unfold publishPart at heq
      split at heq
      · cases heq
        exact Nat.succ_pos 1
      · split at heq
        · cases heq
          exact Nat.lt_succ_self 1
        · cases heq
          exact Nat.succ_pos 1
    | _ => exact hanswer.elim
  case retrying a =>
    cases event with
    | proceed =>
      cases hstep
      split
      · show 0 < 11 + 3 * content.length
        omega
      · show 10 + 3 * content.length < 11 + 3 * content.length
        omega
    | _ => exact hanswer.elim
  case done file => cases event <;> cases hstep
  case failed error => cases event <;> cases hstep
  -- the remaining steps make one check
  all_goals
    cases event with
    | proceed =>
      cases hstep
      first
        | exact checked_work (Nat.succ_pos _) fun _ => Nat.lt_succ_self _
        | exact checked_work (Nat.succ_pos _) fun _ => Nat.succ_pos _
        | exact Nat.succ_pos _
    | _ => exact hanswer.elim

/-- There is a number above those of all files. -/
theorem exists_identity (d : Directory) :
    ∃ identity : FileIdentity, ∀ entry ∈ d, entry.2.identity < identity := by
  induction d with
  | nil => exact ⟨0, fun _ h => nomatch h⟩
  | cons x d ih =>
    obtain ⟨identity, hd⟩ := ih
    refine ⟨max (x.2.identity + 1) identity, fun entry hentry => ?_⟩
    rcases List.mem_cons.1 hentry with rfl | hentry
    · exact Nat.lt_of_lt_of_le (Nat.lt_succ_self _) (Nat.le_max_left _ _)
    · exact Nat.lt_of_lt_of_le (hd entry hentry) (Nat.le_max_right _ _)

theorem openPartial_isSome {r : Response} {persisted times : Nat} {identity : FileIdentity}
    (h : ¬ ∃ entry ∈ d, entry.2.identity = identity) :
    (openPartial retries f cancelled d a r persisted identity times).isSome := by
  unfold openPartial
  split
  · rfl
  · split
    · rfl
    · split <;> rfl
    · rfl
    · split <;> rfl

theorem exists_inspectAnswer (name : PathName) :
    InspectAnswer name .proceed ∨ InspectAnswer name (.fault (.io name)) := by
  by_cases h : FileName name
  · exact .inl (.inl h)
  · exact .inr ⟨rfl, h⟩

/-- A task that has not come to its end can take a step. -/
theorem exists_answer (hdone : ∀ file, phase ≠ .done file) (hfailed : ∀ e, phase ≠ .failed e) :
    ∃ event, Answers f content phase event ∧
      (taskStep sha256 retries f cancelled d phase event).isSome := by
  cases phase with
  | inspectCompleted =>
    rcases exists_inspectAnswer f.localPath with h | h
    · exact ⟨.proceed, h, rfl⟩
    · exact ⟨.fault (.io f.localPath), h, rfl⟩
  | attempt a =>
    rcases exists_inspectAnswer f.partPath with h | h
    · exact ⟨.proceed, h, rfl⟩
    · exact ⟨.fault (.io f.partPath), h, rfl⟩
  | request a existing => exact ⟨.respond ⟨200, none, none, content⟩, .inl ⟨rfl, rfl⟩, rfl⟩
  | open_ a r persisted =>
    obtain ⟨identity, hfresh⟩ := exists_identity d
    refine ⟨.opened identity 0, trivial, openPartial_isSome ?_⟩
    rintro ⟨entry, hentry, heq⟩
    exact Nat.ne_of_lt (hfresh entry hentry) heq
  | body a append persisted rest =>
    by_cases hrest : rest = []
    · exact ⟨.endOfBody, hrest, rfl⟩
    · exact ⟨.chunk rest.length, ⟨List.length_pos_of_ne_nil hrest, Nat.le_refl _⟩, rfl⟩
  | writing a append persisted data rest => exact ⟨.wrote 1 0, Nat.one_pos, rfl⟩
  | done file => exact absurd rfl (hdone file)
  | failed e => exact absurd rfl (hfailed e)
  | _ => exact ⟨.proceed, trivial, rfl⟩

end Hub

end Emelex

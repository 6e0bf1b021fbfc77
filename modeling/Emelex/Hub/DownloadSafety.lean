import Emelex.Hub.Downloads
import Mathlib.Data.List.Nodup

/-!
# Safety of resumable downloads

`content` is what the server holds for each planned file.

* `Honest` — the servers of the contract: a 200 body is a beginning of the content, an accepted 206
  body a beginning of the announced slice.
* `Expected` — a request for a whole file is not answered by a success other than 200 and 206.
* `SlotOk`, `PhaseOk` — what the two names of a file hold, also while a task is at work on it;
  `taskStep_kept` (a step of the task keeps this and touches no other name).
* `Safe` — partial files are beginnings, published files are whole, a result tells what is there.

Principal results: `Invariant.step`, `downloads_are_safe`, `odd_success_corrupts`.
-/

set_option autoImplicit false

namespace Emelex

open Text Machine

namespace Hub

/-! ## Names and entries -/

namespace Directory

variable {d : Directory} {name m : PathName} {e : Entry}

theorem find_mem (h : d.find name = some e) : (name, e) ∈ d := by
  unfold find at h
  induction d with
  | nil => cases h
  | cons x d ih =>
    obtain ⟨n, e'⟩ := x
    rw [List.lookup_cons] at h
    split at h
    · rename_i hn
      cases h
      rw [eq_of_beq hn]
      exact List.mem_cons_self
    · exact List.mem_cons_of_mem _ (ih h)

theorem find_create : (d.create name e).find m = if m = name then some e else d.find m := by
  unfold create find
  rw [List.lookup_cons]
  by_cases h : m = name
  · rw [if_pos h, h, beq_self_eq_true]
  · rw [if_neg h, beq_eq_false_iff_ne.2 h]

theorem find_edit {identity : FileIdentity} {g : Entry → Entry} :
    (d.edit identity g).find m =
      (d.find m).map fun e => if e.identity = identity then g e else e := by
  unfold edit find
  induction d with
  | nil => rfl
  | cons x d ih =>
    obtain ⟨n, e'⟩ := x
    rw [List.map_cons, List.lookup_cons, List.lookup_cons, ih]
    cases m == n <;> rfl

theorem find_rename {source destination : PathName} (hne : source ≠ destination)
    (hfree : d.find destination = none) :
    (d.rename source destination).find m =
      if m = destination then d.find source else if m = source then none else d.find m := by
  unfold rename find at *
  induction d with
  | nil => by_cases h : m = destination <;> by_cases h' : m = source <;> simp [h, h']
  | cons x d ih =>
    obtain ⟨n, e'⟩ := x
    rw [List.lookup_cons] at hfree
    split at hfree
    · cases hfree
    · rename_i hn
      have hn : destination ≠ n := beq_eq_false_iff_ne.1 (by simpa using hn)
      rw [List.map_cons, List.lookup_cons, List.lookup_cons, List.lookup_cons, ih hfree]
      by_cases hs : n = source
      · subst hs
        by_cases hm : m = destination
        · simp [hm]
        · have hbeq : (m == destination) = false := beq_eq_false_iff_ne.2 hm
          by_cases hm' : m = n
          · subst hm'
            simp [hm, hbeq]
          · simp [hm, hm', hbeq, beq_eq_false_iff_ne.2 hm']
      · rw [if_neg hs, beq_eq_false_iff_ne.2 (Ne.symm hs)]
        by_cases hm : m = destination
        · subst hm
          simp [beq_eq_false_iff_ne.2 hn]
        · by_cases hm' : m = source
          · subst hm'
            simp [beq_eq_false_iff_ne.2 (Ne.symm hs), hm]
          · simp [hm, hm']

/-- No file stands under two names. -/
def Distinct (d : Directory) : Prop :=
  ∀ name name' e e', d.find name = some e → d.find name' = some e' → e.identity = e'.identity →
    name = name'

end Directory

theorem RemoteFile.partPath_ne (f : RemoteFile) : f.partPath ≠ f.localPath := by
  intro h
  have := congrArg List.length h
  unfold RemoteFile.partPath at this
  rw [List.length_append] at this
  have hlen : ".part".toList.length = 5 := by decide
  omega

/-! ## The names of one file -/

/-- What the names of a file hold between its tasks. -/
structure SlotOk (content : Bytes) (completed part : Option Entry) : Prop where
  part_agrees : ∀ e, part = some e → e.bytes <+: content
  completed_eq : ∀ e, completed = some e → e.bytes = content
  apart : completed = none ∨ part = none

/-- The file is published and `file` is its record. -/
def Installed (sha256 : Bytes → List Char) (f : RemoteFile) (completed part : Option Entry)
    (file : Snapshot.ModelFile) : Prop :=
  part = none ∧ ∃ e, completed = some e ∧ e.bytes.length = f.size ∧
    file = record f (sha256 e.bytes)

/-- What the names of a file hold when its task is at a phase. -/
def PhaseOk (sha256 : Bytes → List Char) (f : RemoteFile) (content : Bytes)
    (completed part : Option Entry) : Phase → Prop
  | .inspectCompleted | .openCompleted _ | .hashCompleted _ | .failed _ => True
  | .attempt _ | .retrying _ | .openPart _ | .hashPart _ => completed = none
  | .request _ existing => completed = none ∧
      (0 < existing → ∃ e, part = some e ∧ e.bytes.length = existing)
  | .open_ _ r persisted => completed = none ∧ r.body <+: content.drop persisted ∧
      (0 < persisted → ∃ e, part = some e ∧ e.bytes.length = persisted)
  | .checkOpened _ r persisted identity => completed = none ∧ r.body <+: content.drop persisted ∧
      ∃ e, part = some e ∧ e.identity = identity ∧ e.bytes.length = persisted
  | .body a _ persisted rest => completed = none ∧ rest <+: content.drop persisted ∧
      ∃ e, part = some e ∧ a.partIdentity = some e.identity ∧ e.bytes.length = persisted
  | .writing a _ persisted data rest => completed = none ∧
      ∃ e, part = some e ∧ a.partIdentity = some e.identity ∧
        e.bytes.length + data.length = persisted ∧ data ++ rest <+: content.drop e.bytes.length
  | .validate _ digest | .publish digest => completed = none ∧
      ∃ e, part = some e ∧ e.bytes.length = f.size ∧ digest = sha256 e.bytes
  | .sync digest => Installed sha256 f completed part (record f digest)
  | .done file => Installed sha256 f completed part file

/-- The servers of the contract. -/
def HonestResponse (content : Bytes) (f : RemoteFile) (existing : Nat) (r : Response) : Prop :=
  (r.status = 200 → r.body <+: content) ∧
  (r.status = 206 → validateContentRange r existing f.size = .ok () →
    ∀ value first last total, r.contentRange = some value →
      parseContentRange value = some (first, last, total) →
      r.body <+: (content.drop first).take (last + 1 - first))

/-- A request for a whole file is not answered by a success other than 200 and 206. -/
def ExpectedResponse (existing : Nat) (r : Response) : Prop :=
  existing = 0 → r.isSuccess = true → r.status = 200 ∨ r.status = 206

variable {sha256 : Bytes → List Char} {retries : Nat} {f : RemoteFile} {content : Bytes}
  {completed part : Option Entry} {d : Directory} {cancelled : Bool} {a : Attempt}

theorem failAttempt_ok (hcompleted : completed = none) (e : HubError) :
    PhaseOk sha256 f content completed part (failAttempt retries a e) := by
  unfold failAttempt
  split
  · exact hcompleted
  · trivial

theorem checked_ok {α : Type} {result : Except HubError α} {next : α → Phase}
    (h : ∀ x, result = .ok x → PhaseOk sha256 f content completed part (next x)) :
    PhaseOk sha256 f content completed part (checked cancelled result next) := by
  unfold checked
  split
  · trivial
  · cases result with
    | error e => trivial
    | ok x => exact h x rfl

theorem inspectPartial_ok {name : PathName} {expected identity : Option FileIdentity} {size : Nat}
    (h : inspectPartial d name expected = .ok (size, identity)) :
    (d.find name = none ∧ size = 0 ∧ identity = none) ∨
      ∃ e, d.find name = some e ∧ size = e.bytes.length ∧ identity = some e.identity := by
  unfold inspectPartial at h
  split at h
  · cases h
    rename_i hnone
    exact .inl ⟨hnone, rfl, rfl⟩
  · rename_i e hsome
    split at h
    · cases h
    · cases h
      exact .inr ⟨e, hsome, rfl, rfl⟩

theorem reuseCompleted_ok :
    PhaseOk sha256 f content (d.find f.localPath) (d.find f.partPath)
      (reuseCompleted f cancelled d) := by
  unfold reuseCompleted
  split
  · trivial
  · split
    · trivial
    · rename_i hinspect
      rcases inspectPartial_ok hinspect with ⟨hnone, -⟩ | ⟨e, -, -, hidentity⟩
      · exact hnone
      · cases hidentity
    · split
      · trivial
      · trivial

theorem startAttempt_ok (hcompleted : d.find f.localPath = none) :
    PhaseOk sha256 f content (d.find f.localPath) (d.find f.partPath)
      (startAttempt retries f cancelled d a) := by
  unfold startAttempt
  split
  · trivial
  · dsimp only
    split
    · exact failAttempt_ok hcompleted _
    · rename_i existing identity hinspect
      split
      · exact failAttempt_ok hcompleted _
      · split
        · exact hcompleted
        · refine ⟨hcompleted, fun hpos => ?_⟩
          rcases inspectPartial_ok hinspect with ⟨-, hzero, -⟩ | ⟨e, he, hsize, -⟩
          · omega
          · exact ⟨e, he, hsize.symm⟩

theorem acceptResponse_ok {existing : Nat} {r : Response} (hcompleted : completed = none)
    (hexisting : 0 < existing → ∃ e, part = some e ∧ e.bytes.length = existing)
    (hhonest : HonestResponse content f existing r) (hexpected : ExpectedResponse existing r) :
    PhaseOk sha256 f content completed part
      (acceptResponse retries f cancelled a existing r) := by
  unfold acceptResponse
  split
  · exact failAttempt_ok hcompleted _
  · rename_i hsuccess
    dsimp only
    split
    · exact failAttempt_ok hcompleted _
    · rename_i hchecked
      split
      · exact failAttempt_ok hcompleted _
      · by_cases hresumed : r.status = 206
        · rw [if_pos (decide_eq_true hresumed)] at hchecked
          obtain ⟨value, last, hvalue, hparse, -, -⟩ := contentRange_accepted hchecked
          have hbody := (hhonest.2 hresumed hchecked value _ _ _ hvalue hparse).trans
            (List.take_prefix _ _)
          have hpersisted : (if 0 < existing ∧ decide (r.status = 206) = true then existing else 0) =
              existing := by
            by_cases hpos : 0 < existing
            · rw [if_pos ⟨hpos, decide_eq_true hresumed⟩]
            · rw [if_neg fun h => hpos h.1]
              omega
          rw [hpersisted]
          exact ⟨hcompleted, hbody, hexisting⟩
        · have hfresh : decide (r.status = 206) = false := decide_eq_false hresumed
          rw [hfresh, if_neg nofun] at hchecked
          rw [hfresh, if_neg fun h => nomatch h.2]
          have hstatus : r.status = 200 := by
            by_contra hother
            split at hchecked
            · cases hchecked
            · rename_i hguard
              rcases hexpected (by
                by_contra hpos
                exact hguard ⟨by omega, hother⟩) (by simpa using hsuccess) with h | h
              · exact hother h
              · exact hresumed h
          exact ⟨hcompleted, hhonest.1 hstatus, fun h => absurd h (Nat.lt_irrefl 0)⟩

/-- What a step of a task leaves alone: the other names, and a published file. -/
structure Touches (f : RemoteFile) (d d' : Directory) : Prop where
  others : ∀ name, name ≠ f.localPath → name ≠ f.partPath → d'.find name = d.find name
  kept : ∀ e, d.find f.localPath = some e → d'.find f.localPath = some e
  distinct : d'.Distinct

/-- What one step of a task keeps. -/
structure Kept (sha256 : Bytes → List Char) (f : RemoteFile) (content : Bytes) (d : Directory)
    (phase' : Phase) (d' : Directory) : Prop where
  touches : Touches f d d'
  slot : SlotOk content (d'.find f.localPath) (d'.find f.partPath)
  phase : PhaseOk sha256 f content (d'.find f.localPath) (d'.find f.partPath) phase'

section mutations

variable {phase' : Phase} {d' : Directory} {r : Response} {persisted : Nat}
  {identity : FileIdentity} {times : Nat}

theorem Kept.unchanged (hdistinct : d.Distinct)
    (hslot : SlotOk content (d.find f.localPath) (d.find f.partPath))
    (hphase : PhaseOk sha256 f content (d.find f.localPath) (d.find f.partPath) phase') :
    Kept sha256 f content d phase' d :=
  ⟨⟨fun _ _ _ => rfl, fun _ h => h, hdistinct⟩, hslot, hphase⟩

/-- Changing the partial file changes no other. -/
theorem find_edit_part {e : Entry} {g : Entry → Entry} (hdistinct : d.Distinct)
    (hpart : d.find f.partPath = some e) (hg : ∀ e, (g e).identity = e.identity) :
    Touches f d (d.edit e.identity g) ∧
      (d.edit e.identity g).find f.partPath = some (g e) ∧
      (d.edit e.identity g).find f.localPath = d.find f.localPath := by
  have hother : ∀ name, name ≠ f.partPath → (d.edit e.identity g).find name = d.find name := by
    intro name hname
    rw [Directory.find_edit]
    cases hfind : d.find name with
    | none => rfl
    | some e' =>
      have hne : e'.identity ≠ e.identity := fun h =>
        hname (hdistinct _ _ _ _ hfind hpart h)
      rw [Option.map_some, if_neg hne]
  have hpart' : (d.edit e.identity g).find f.partPath = some (g e) := by
    rw [Directory.find_edit, hpart, Option.map_some, if_pos rfl]
  refine ⟨⟨fun name _ hname => hother name hname, fun e' he' => ?_, ?_⟩, hpart',
    hother _ (Ne.symm f.partPath_ne)⟩
  · rw [hother _ (Ne.symm f.partPath_ne)]
    exact he'
  · intro name name' x x' hx hx' hid
    rw [Directory.find_edit] at hx hx'
    obtain ⟨y, hy, rfl⟩ := Option.map_eq_some_iff.1 hx
    obtain ⟨y', hy', rfl⟩ := Option.map_eq_some_iff.1 hx'
    refine hdistinct _ _ _ _ hy hy' ?_
    have hsame : ∀ z : Entry, (if z.identity = e.identity then g z else z).identity = z.identity := by
      intro z
      split
      · exact hg z
      · rfl
    rwa [hsame, hsame] at hid

theorem openPartial_kept (hdistinct : d.Distinct)
    (hslot : SlotOk content (d.find f.localPath) (d.find f.partPath))
    (hphase : PhaseOk sha256 f content (d.find f.localPath) (d.find f.partPath)
      (.open_ a r persisted))
    (h : openPartial retries f cancelled d a r persisted identity times = some (phase', d')) :
    Kept sha256 f content d phase' d' := by
  obtain ⟨hcompleted, hbody, hheld⟩ := hphase
  unfold openPartial at h
  split at h
  · cases h
    exact .unchanged hdistinct hslot (failAttempt_ok hcompleted _)
  · split at h
    · cases h
      exact .unchanged hdistinct hslot (failAttempt_ok hcompleted _)
    · rename_i hnone
      split at h
      · cases h
        exact .unchanged hdistinct hslot (failAttempt_ok hcompleted _)
      · split at h
        · cases h
        · rename_i hfresh
          cases h
          have hzero : persisted = 0 := by
            by_contra hpos
            obtain ⟨e, he, -⟩ := hheld (Nat.pos_of_ne_zero hpos)
            rw [hnone] at he
            cases he
          have hpart : (d.create f.partPath ⟨identity, [], times⟩).find f.partPath =
              some ⟨identity, [], times⟩ := by
            rw [Directory.find_create, if_pos rfl]
          have hother : ∀ name, name ≠ f.partPath →
              (d.create f.partPath ⟨identity, [], times⟩).find name = d.find name := by
            intro name hname
            rw [Directory.find_create, if_neg hname]
          have hdest := hother _ (Ne.symm f.partPath_ne)
          refine ⟨⟨fun name _ hname => hother name hname, fun e he => hdest.trans he, ?_⟩, ?_, ?_⟩
          · intro name name' x x' hx hx' hid
            rw [Directory.find_create] at hx hx'
            have hunused : ∀ n z, d.find n = some z → z.identity ≠ identity := fun n z hz hsame =>
              hfresh ⟨(n, z), Directory.find_mem hz, hsame⟩
            split at hx
            · rename_i hn
              cases hx
              split at hx'
              · rename_i hn'
                rw [hn, hn']
              · exact absurd hid.symm (hunused _ _ hx')
            · split at hx'
              · cases hx'
                exact absurd hid (hunused _ _ hx)
              · exact hdistinct _ _ _ _ hx hx' hid
          · rw [hpart, hdest]
            refine ⟨fun e he => ?_, hslot.completed_eq, .inl hcompleted⟩
            cases he
            exact List.nil_prefix
          · rw [hpart, hdest]
            exact ⟨hcompleted, hbody, _, rfl, rfl, hzero.symm⟩
    · cases h
      exact .unchanged hdistinct hslot (failAttempt_ok hcompleted _)
    · rename_i _ e _ hpart
      split at h
      · rename_i hpos
        cases h
        obtain ⟨e', he', hlen⟩ := hheld hpos
        rw [hpart] at he'
        cases he'
        refine .unchanged hdistinct hslot ⟨hcompleted, hbody, e, hpart, rfl, hlen⟩
      · rename_i hzero
        cases h
        obtain ⟨htouches, hpart', hdest⟩ := find_edit_part (f := f) hdistinct hpart
          (g := fun e => { e with bytes := [], times }) fun _ => rfl
        refine ⟨htouches, ?_, ?_⟩
        · rw [hpart', hdest]
          refine ⟨fun e he => ?_, hslot.completed_eq, .inl hcompleted⟩
          cases he
          exact List.nil_prefix
        · rw [hpart', hdest]
          exact ⟨hcompleted, hbody, _, rfl, rfl, by
            show 0 = persisted
            omega⟩

/-- At the end of a file a write appends, in either mode. -/
theorem writeAt_length (bytes data : Bytes) : writeAt bytes bytes.length data = bytes ++ data := by
  unfold writeAt
  rw [List.take_length, List.drop_eq_nil_of_le (by omega), List.append_nil]

theorem writeChunk_kept {append : Bool} {data rest : Bytes} {count : Nat} (hdistinct : d.Distinct)
    (hslot : SlotOk content (d.find f.localPath) (d.find f.partPath))
    (hphase : PhaseOk sha256 f content (d.find f.localPath) (d.find f.partPath)
      (.writing a append persisted data rest)) :
    Kept sha256 f content d (writeChunk d a append persisted data rest count times).1
      (writeChunk d a append persisted data rest count times).2 := by
  obtain ⟨hcompleted, e, hpart, hidentity, hlen, hdata⟩ := hphase
  unfold writeChunk
  split
  · rename_i hnil
    subst hnil
    rw [List.length_nil, Nat.add_zero] at hlen
    subst hlen
    exact .unchanged hdistinct hslot ⟨hcompleted, hdata, e, hpart, hidentity, rfl⟩
  · have hposition : persisted - data.length = e.bytes.length := by omega
    dsimp only
    rw [hidentity, hposition]
    dsimp only
    obtain ⟨htouches, hpart', hdest⟩ := find_edit_part (f := f) hdistinct hpart
      (g := fun e' => { e' with
        bytes := if append = true then e'.bytes ++ data.take count
          else writeAt e'.bytes e.bytes.length (data.take count)
        times }) fun _ => rfl
    have hbytes : (if append = true then e.bytes ++ data.take count
        else writeAt e.bytes e.bytes.length (data.take count)) = e.bytes ++ data.take count := by
      rw [writeAt_length, ite_self]
    have hsplit : data.take count ++ (data.drop count ++ rest) = data ++ rest := by
      rw [← List.append_assoc, List.take_append_drop]
    have hnext : data.take count ++ (data.drop count ++ rest) <+: content.drop e.bytes.length := by
      rw [hsplit]
      exact hdata
    obtain ⟨before, hbefore⟩ := hslot.part_agrees e hpart
    have hrest : content.drop e.bytes.length = before := by
      rw [← hbefore, List.drop_left]
    refine ⟨htouches, ?_, ?_⟩
    · rw [hpart', hdest]
      refine ⟨fun e' he' => ?_, hslot.completed_eq, .inl hcompleted⟩
      cases he'
      show (if append = true then _ else _) <+: content
      rw [hbytes, ← hbefore]
      exact (List.prefix_append_right_inj _).2
        (hrest ▸ (List.prefix_append _ _).trans hnext)
    · rw [hpart', hdest]
      refine ⟨hcompleted, _, rfl, hidentity, ?_, ?_⟩
      · show (if append = true then e.bytes ++ data.take count
          else writeAt e.bytes e.bytes.length (data.take count)).length + _ = _
        rw [hbytes]
        have := congrArg List.length (List.take_append_drop count data)
        simp only [List.length_append] at *
        omega
      · show _ <+: content.drop (if append = true then e.bytes ++ data.take count
          else writeAt e.bytes e.bytes.length (data.take count)).length
        rw [hbytes, List.length_append, ← List.drop_drop, hrest]
        rw [hrest] at hnext
        obtain ⟨tail, htail⟩ := hnext
        rw [← htail, List.append_assoc, List.drop_left]
        exact List.prefix_append _ _

theorem publishPart_kept {digest : List Char} (hdistinct : d.Distinct)
    (hlength : content.length = f.size)
    (hslot : SlotOk content (d.find f.localPath) (d.find f.partPath))
    (hphase : PhaseOk sha256 f content (d.find f.localPath) (d.find f.partPath)
      (.publish digest)) :
    Kept sha256 f content d (publishPart f cancelled d digest).1
      (publishPart f cancelled d digest).2 := by
  obtain ⟨hcompleted, e, hpart, hsize, hdigest⟩ := hphase
  have hwhole : e.bytes = content :=
    (hslot.part_agrees e hpart).eq_of_length (hsize.trans hlength.symm)
  unfold publishPart
  split
  · exact .unchanged hdistinct hslot trivial
  · rw [hpart, hcompleted]
    dsimp only
    have hfind := fun m => Directory.find_rename (m := m) f.partPath_ne hcompleted
    have hdest : (d.rename f.partPath f.localPath).find f.localPath = some e := by
      rw [hfind, if_pos rfl, hpart]
    have hgone : (d.rename f.partPath f.localPath).find f.partPath = none := by
      rw [hfind, if_neg f.partPath_ne, if_pos rfl]
    refine ⟨⟨fun name hname hname' => ?_, fun e' he' => ?_, ?_⟩, ?_, ?_⟩
    · rw [hfind, if_neg hname, if_neg hname']
    · rw [hcompleted] at he'
      cases he'
    · intro name name' x x' hx hx' hid
      have hback : ∀ n z, (d.rename f.partPath f.localPath).find n = some z →
          ∃ n', d.find n' = some z ∧ (n = f.localPath → n' = f.partPath) ∧
            (n ≠ f.localPath → n' = n) := by
        intro n z hz
        rw [hfind] at hz
        split at hz
        · rename_i hn
          exact ⟨_, hz, fun _ => rfl, fun h => absurd hn h⟩
        · rename_i hn
          split at hz
          · cases hz
          · exact ⟨_, hz, fun h => absurd h hn, fun _ => rfl⟩
      obtain ⟨n, hn, hn1, hn2⟩ := hback _ _ hx
      obtain ⟨n', hn', hn1', hn2'⟩ := hback _ _ hx'
      have hsame := hdistinct _ _ _ _ hn hn' hid
      by_cases h1 : name = f.localPath <;> by_cases h2 : name' = f.localPath
      · rw [h1, h2]
      · -- the other file would have stood under the name of the partial file
        exfalso
        rw [hn1 h1, hn2' h2] at hsame
        rw [← hsame, hgone] at hx'
        cases hx'
      · exfalso
        rw [hn2 h1, hn1' h2] at hsame
        rw [hsame, hgone] at hx
        cases hx
      · rwa [hn2 h1, hn2' h2] at hsame
    · rw [hdest, hgone]
      refine ⟨nofun, fun e' he' => ?_, .inr rfl⟩
      cases he'
      exact hwhole
    · rw [hdest, hgone]
      exact ⟨rfl, e, rfl, hsize, by rw [hdigest]⟩

end mutations

/-! ## One step of a task -/

theorem faultStep_ok {phase phase' : Phase} {e : HubError}
    (h : faultStep retries e phase = some phase')
    (hphase : PhaseOk sha256 f content completed part phase) :
    PhaseOk sha256 f content completed part phase' := by
  cases phase <;> cases h
  case attempt => exact failAttempt_ok hphase e
  case request => exact failAttempt_ok hphase.1 e
  case open_ => exact failAttempt_ok hphase.1 e
  case checkOpened => exact failAttempt_ok hphase.1 e
  case body => exact failAttempt_ok hphase.1 e
  case writing => exact failAttempt_ok hphase.1 e
  all_goals trivial

theorem hashChecked_ok {name : PathName} {snapshot : FileSnapshot} {digest : List Char}
    (h : hashChecked sha256 f d name snapshot = .ok digest) :
    ∃ e, d.find name = some e ∧ e.bytes.length = f.size ∧ digest = sha256 e.bytes := by
  unfold hashChecked at h
  cases hfind : d.find name with
  | none =>
    rw [hfind] at h
    cases h
  | some e =>
    rw [hfind] at h
    cases hvalidate : validateFileSnapshot d name snapshot with
    | error err =>
      simp only [hvalidate, bind, Except.bind] at h
      cases h
    | ok u =>
      cases hintegrity : validateStagedFileIntegrity f e.bytes.length (sha256 e.bytes) with
      | error err =>
        simp only [hvalidate, hintegrity, bind, Except.bind] at h
        cases h
      | ok u' =>
        simp only [hvalidate, hintegrity, bind, Except.bind, pure, Except.pure] at h
        cases h
        refine ⟨e, rfl, ?_, rfl⟩
        unfold validateStagedFileIntegrity at hintegrity
        split at hintegrity
        · cases hintegrity
        · rename_i hsize
          exact not_not.1 hsize

/-- A response is one of the contract, and of the expected kind. -/
def EventOk (content : Bytes) (f : RemoteFile) : Phase → Event → Prop
  | .request _ existing, .respond r => HonestResponse content f existing r ∧
      ExpectedResponse existing r
  | _, _ => True

/-- A step of a task keeps what its names hold and touches nothing else. -/
theorem taskStep_kept {phase phase' : Phase} {event : Event} {d' : Directory}
    (hdistinct : d.Distinct) (hlength : content.length = f.size)
    (hslot : SlotOk content (d.find f.localPath) (d.find f.partPath))
    (hphase : PhaseOk sha256 f content (d.find f.localPath) (d.find f.partPath) phase)
    (hevent : EventOk content f phase event)
    (h : taskStep sha256 retries f cancelled d phase event = some (phase', d')) :
    Kept sha256 f content d phase' d' := by
  cases event with
  | fault e =>
    have hfault : (faultStep retries e phase).map (·, d) = some (phase', d') := by
      cases phase <;> exact h
    obtain ⟨p, hp, he⟩ := Option.map_eq_some_iff.1 hfault
    cases he
    exact .unchanged hdistinct hslot (faultStep_ok hp hphase)
  | proceed =>
    cases phase
    case publish digest =>
      have hstep : publishPart f cancelled d digest = (phase', d') := Option.some.inj h
      have hkept : Kept sha256 f content d (publishPart f cancelled d digest).1
          (publishPart f cancelled d digest).2 :=
        publishPart_kept hdistinct hlength hslot hphase
      rwa [hstep] at hkept
    case inspectCompleted =>
      cases h
      exact .unchanged hdistinct hslot reuseCompleted_ok
    case openCompleted =>
      cases h
      exact .unchanged hdistinct hslot (checked_ok fun _ _ => trivial)
    case hashCompleted =>
      cases h
      refine .unchanged hdistinct hslot (checked_ok fun digest hdigest => ?_)
      obtain ⟨e, he, hsize, rfl⟩ := hashChecked_ok hdigest
      exact ⟨hslot.apart.resolve_left (by rw [he]; nofun), e, he, hsize, rfl⟩
    case attempt =>
      cases h
      exact .unchanged hdistinct hslot (startAttempt_ok hphase)
    case checkOpened a r persisted identity =>
      cases h
      obtain ⟨hcompleted, hbody, e, hpart, rfl, hlen⟩ := hphase
      refine .unchanged hdistinct hslot ?_
      unfold checkOpened
      split
      · exact failAttempt_ok hcompleted _
      · exact ⟨hcompleted, hbody, e, hpart, rfl, hlen⟩
    case retrying a =>
      cases h
      refine .unchanged hdistinct hslot ?_
      split
      · trivial
      · exact hphase
    case openPart =>
      cases h
      exact .unchanged hdistinct hslot (checked_ok fun _ _ => hphase)
    case hashPart =>
      cases h
      refine .unchanged hdistinct hslot (checked_ok fun digest hdigest => ?_)
      exact ⟨hphase, hashChecked_ok hdigest⟩
    case validate =>
      cases h
      exact .unchanged hdistinct hslot (checked_ok fun _ _ => hphase)
    case sync =>
      cases h
      exact .unchanged hdistinct hslot hphase
    all_goals cases h
  | respond r =>
    cases phase
    case request =>
      cases h
      exact .unchanged hdistinct hslot (acceptResponse_ok hphase.1 hphase.2 hevent.1 hevent.2)
    all_goals cases h
  | opened identity times =>
    cases phase
    case open_ => exact openPartial_kept hdistinct hslot hphase h
    all_goals cases h
  | chunk count =>
    cases phase
    case body a append persisted rest =>
      cases h
      obtain ⟨hcompleted, hrest, e, hpart, hidentity, rfl⟩ := hphase
      refine .unchanged hdistinct hslot ?_
      unfold receiveChunk
      split
      · exact failAttempt_ok hcompleted _
      · dsimp only
        split
        · exact failAttempt_ok hcompleted _
        · split
          · exact failAttempt_ok hcompleted _
          · exact ⟨hcompleted, e, hpart, hidentity, rfl, by rwa [List.take_append_drop]⟩
    all_goals cases h
  | endOfBody =>
    cases phase
    case body a append persisted rest =>
      cases h
      refine .unchanged hdistinct hslot ?_
      unfold endBody
      split
      · exact failAttempt_ok hphase.1 _
      · exact hphase.1
    all_goals cases h
  | wrote count times =>
    cases phase
    case writing a append persisted data rest =>
      have hstep : writeChunk d a append persisted data rest count times = (phase', d') :=
        Option.some.inj h
      have hkept : Kept sha256 f content d
          (writeChunk d a append persisted data rest count times).1
          (writeChunk d a append persisted data rest count times).2 :=
        writeChunk_kept hdistinct hslot hphase
      rwa [hstep] at hkept
    all_goals cases h

/-! ## The system -/

section system

variable (sha256 : Bytes → List Char) (plan : DownloadPlan) (content : PathName → Bytes)

/-- The names of the planned files differ. -/
def NamesApart (files : List RemoteFile) : Prop :=
  ∀ (i j : Nat) (f g : RemoteFile), files[i]? = some f → files[j]? = some g → i ≠ j →
    f.localPath ≠ g.localPath ∧ f.localPath ≠ g.partPath ∧ f.partPath ≠ g.localPath ∧
      f.partPath ≠ g.partPath

/-- What holds while a call runs. -/
structure RunningOk (d : Directory) (c : Call) : Prop where
  names : NamesApart plan.files
  started : ∀ i phase, c.tasks i = some phase → i < c.next
  tasks : ∀ i f phase, plan.files[i]? = some f → c.tasks i = some phase →
    PhaseOk sha256 f (content f.path) (d.find f.localPath) (d.find f.partPath) phase
  installed : ∀ i file, c.installed i = some file → i < c.next ∧ c.tasks i = none ∧
    ∀ f, plan.files[i]? = some f →
      Installed sha256 f (d.find f.localPath) (d.find f.partPath) file

/-- What a result tells: every planned file is published with the size of the plan and the digest
of its record, the records are in the order of the plan, and no partial file is left. -/
def Complete (d : Directory) (files : List Snapshot.ModelFile) : Prop :=
  files.length = plan.files.length ∧
    ∀ (i : Nat) (f : RemoteFile), plan.files[i]? = some f → ∃ file, files[i]? = some file ∧
      Installed sha256 f (d.find f.localPath) (d.find f.partPath) file

/-- What holds in every state of an honest run. -/
structure Invariant (s : State) : Prop where
  distinct : s.staging.Distinct
  slots : ∀ f ∈ plan.files,
    SlotOk (content f.path) (s.staging.find f.localPath) (s.staging.find f.partPath)
  running : ∀ c, s.status = .running c → RunningOk sha256 plan content s.staging c
  returned : ∀ files, s.status = .returned (.ok files) → Complete sha256 plan s.staging files

/-- The environment answers a task with a response of the contract. -/
def Honest (s : State) : Action → Prop
  | .task index (.respond r) => ∀ c f a existing, s.status = .running c →
      plan.files[index]? = some f → c.tasks index = some (.request a existing) →
      HonestResponse (content f.path) f existing r
  | _ => True

/-- A request for a whole file is not answered by a success other than 200 and 206. -/
def Expected (s : State) : Action → Prop
  | .task index (.respond r) => ∀ c a existing, s.status = .running c →
      c.tasks index = some (.request a existing) → ExpectedResponse existing r
  | _ => True

variable {sha256 plan content} {s t : State}

theorem invariant_initial : Invariant sha256 plan content State.initial :=
  ⟨nofun, fun _ _ => ⟨nofun, nofun, .inl rfl⟩, nofun, nofun⟩

theorem namesApart_of_nodup {files : List RemoteFile} (h : (allowedNames files).Nodup) :
    NamesApart files := by
  obtain ⟨-, hpairs⟩ := List.nodup_flatMap.1 h
  have hlt : ∀ (i j : Nat) (f g : RemoteFile), files[i]? = some f → files[j]? = some g → i < j →
      ∀ n ∈ [f.localPath, f.partPath], n ∉ [g.localPath, g.partPath] := by
    intro i j f g hi hj hij n hn hn'
    obtain ⟨hi', rfl⟩ := List.getElem?_eq_some_iff.1 hi
    obtain ⟨hj', rfl⟩ := List.getElem?_eq_some_iff.1 hj
    exact List.pairwise_iff_getElem.1 hpairs i j hi' hj' hij hn hn'
  intro i j f g hi hj hij
  rcases Nat.lt_or_gt_of_ne hij with h' | h'
  · have := hlt i j f g hi hj h'
    simp only [List.mem_cons, List.not_mem_nil, or_false, forall_eq_or_imp, forall_eq] at this
    tauto
  · have := hlt j i g f hj hi h'
    simp only [List.mem_cons, List.not_mem_nil, or_false, forall_eq_or_imp, forall_eq] at this
    tauto

theorem validateDownloadStaging_ok {files : List RemoteFile} {d : Directory}
    (h : validateDownloadStaging files d = .ok ()) : (allowedNames files).Nodup := by
  unfold validateDownloadStaging at h
  split at h
  · cases h
  · rename_i hnodup
    exact not_not.1 hnodup

/-- The files of a step of another task are left alone. -/
theorem Touches.other {f g : RemoteFile} {d d' : Directory} (h : Touches f d d') {i j : Nat}
    (hnames : NamesApart plan.files) (hi : plan.files[i]? = some f) (hj : plan.files[j]? = some g)
    (hij : i ≠ j) : d'.find g.localPath = d.find g.localPath ∧
      d'.find g.partPath = d.find g.partPath := by
  obtain ⟨h1, h2, h3, h4⟩ := hnames i j f g hi hj hij
  exact ⟨h.others _ h1.symm h3.symm, h.others _ h2.symm h4.symm⟩

theorem Invariant.start {outcome : Except HubError Unit} (h : Invariant sha256 plan content s) :
    Invariant sha256 plan content (startCall plan s outcome) := by
  unfold startCall
  dsimp only
  split
  · exact ⟨h.distinct, h.slots, nofun, nofun⟩
  · rename_i hstarted
    have hnames : NamesApart plan.files := by
      cases hplan : validateDownloadPlan plan with
      | error e =>
        simp only [hplan, bind, Except.bind] at hstarted
        cases hstarted
      | ok u =>
        cases hstaging : validateDownloadStaging plan.files s.staging with
        | error e =>
          simp only [hplan, hstaging, bind, Except.bind] at hstarted
          cases hstarted
        | ok u' => exact namesApart_of_nodup (validateDownloadStaging_ok hstaging)
    refine ⟨h.distinct, h.slots, fun c hc => ?_, nofun⟩
    cases hc
    refine ⟨hnames, fun i phase hphase => ?_, fun i f phase _ hphase => ?_, nofun⟩
    · unfold Call.initial at hphase ⊢
      dsimp only at hphase ⊢
      split at hphase
      · assumption
      · cases hphase
    · unfold Call.initial at hphase
      dsimp only at hphase
      split at hphase
      · cases hphase
        trivial
      · cases hphase

theorem RunningOk.task {d d' : Directory} {c : Call} {index : Nat} {phase' : Phase}
    {f : RemoteFile} (h : RunningOk sha256 plan content d c) (hf : plan.files[index]? = some f)
    {phase : Phase} (htask : c.tasks index = some phase)
    (hkept : Kept sha256 f (content f.path) d phase' d') :
    RunningOk sha256 plan content d'
      { c with tasks := Function.update c.tasks index (some phase') } := by
  refine ⟨h.names, fun i phase hphase => ?_, fun i g phase hg hphase => ?_, fun i file hfile => ?_⟩
  · dsimp only at hphase ⊢
    by_cases hi : i = index
    · subst hi
      exact h.started _ _ htask
    · rw [Function.update_of_ne hi] at hphase
      exact h.started _ _ hphase
  · dsimp only at hphase
    by_cases hi : i = index
    · subst hi
      rw [Function.update_self] at hphase
      cases hphase
      rw [hf] at hg
      cases hg
      exact hkept.phase
    · rw [Function.update_of_ne hi] at hphase
      obtain ⟨h1, h2⟩ := hkept.touches.other h.names hf hg (Ne.symm hi)
      rw [h1, h2]
      exact h.tasks _ _ _ hg hphase
  · obtain ⟨hlt, hnone, hinstalled⟩ := h.installed i file hfile
    have hi : i ≠ index := by
      rintro rfl
      rw [htask] at hnone
      cases hnone
    refine ⟨hlt, ?_, fun g hg => ?_⟩
    · dsimp only
      rw [Function.update_of_ne hi]
      exact hnone
    · obtain ⟨h1, h2⟩ := hkept.touches.other h.names hf hg (Ne.symm hi)
      rw [h1, h2]
      exact hinstalled g hg

/-- A task that is taken up is gone. -/
theorem RunningOk.drop {d : Directory} {c : Call} (h : RunningOk sha256 plan content d c)
    (index : Nat) (firstError : Option HubError) (cancelled : Bool) :
    RunningOk sha256 plan content d
      { c with tasks := Function.update c.tasks index none, firstError, cancelled } := by
  have hstill : ∀ i phase, Function.update c.tasks index none i = some phase →
      c.tasks i = some phase := by
    intro i phase hphase
    by_cases hi : i = index
    · subst hi
      rw [Function.update_self] at hphase
      cases hphase
    · rwa [Function.update_of_ne hi] at hphase
  refine ⟨h.names, fun i phase hphase => h.started _ _ (hstill _ _ hphase),
    fun i f phase hf hphase => h.tasks _ _ _ hf (hstill _ _ hphase), fun i file hfile => ?_⟩
  obtain ⟨hlt, hnone, hinstalled⟩ := h.installed i file hfile
  refine ⟨hlt, ?_, hinstalled⟩
  dsimp only
  by_cases hi : i = index
  · rw [hi, Function.update_self]
  · rw [Function.update_of_ne hi]
    exact hnone

theorem RunningOk.install {d : Directory} {c : Call} {index : Nat} {file : Snapshot.ModelFile}
    (h : RunningOk sha256 plan content d c) (hlt : index < c.next) (hnone : c.tasks index = none)
    (hfile : ∀ f, plan.files[index]? = some f →
      Installed sha256 f (d.find f.localPath) (d.find f.partPath) file) :
    RunningOk sha256 plan content d
      { c with installed := Function.update c.installed index (some file) } := by
  refine ⟨h.names, h.started, h.tasks, fun i file' hfile' => ?_⟩
  dsimp only at hfile'
  by_cases hi : i = index
  · subst hi
    rw [Function.update_self] at hfile'
    cases hfile'
    exact ⟨hlt, hnone, hfile⟩
  · rw [Function.update_of_ne hi] at hfile'
    exact h.installed i file' hfile'

theorem RunningOk.startNext {d : Directory} {c : Call} (h : RunningOk sha256 plan content d c) :
    RunningOk sha256 plan content d
      { c with
        next := c.next + 1
        tasks := Function.update c.tasks c.next (some .inspectCompleted) } := by
  refine ⟨h.names, fun i phase hphase => ?_, fun i f phase hf hphase => ?_,
    fun i file hfile => ?_⟩
  · dsimp only at hphase ⊢
    by_cases hi : i = c.next
    · omega
    · rw [Function.update_of_ne hi] at hphase
      have := h.started i phase hphase
      omega
  · dsimp only at hphase
    by_cases hi : i = c.next
    · subst hi
      rw [Function.update_self] at hphase
      cases hphase
      trivial
    · rw [Function.update_of_ne hi] at hphase
      exact h.tasks _ _ _ hf hphase
  · obtain ⟨hlt, hnone, hinstalled⟩ := h.installed i file hfile
    refine ⟨Nat.lt_succ_of_lt hlt, ?_, hinstalled⟩
    dsimp only
    rw [Function.update_of_ne (Nat.ne_of_lt hlt)]
    exact hnone

theorem RunningOk.collect {d : Directory} {c c' : Call} {index : Nat}
    (h : RunningOk sha256 plan content d c) (hc : collectTask plan c index = some c') :
    RunningOk sha256 plan content d c' := by
  unfold collectTask at hc
  split at hc
  · rename_i file htask
    have hdrop := h.drop index c.firstError c.cancelled
    dsimp only at hc
    split at hc
    · cases hc
      exact hdrop
    · have hinstall := hdrop.install (h.started _ _ htask) (Function.update_self _ _ _)
        fun f hf => h.tasks _ _ _ hf htask
      split at hc
      · cases hc
        exact hinstall.startNext
      · cases hc
        exact hinstall
  · dsimp only at hc
    split at hc
    · cases hc
      exact h.drop index c.firstError c.cancelled
    · cases hc
      exact h.drop index _ true
  · cases hc

/-- What `mapM` collects, by place. -/
theorem mapM_some_get {α β : Type} {g : α → Option β} {xs : List α} {ys : List β}
    (h : xs.mapM g = some ys) :
    ys.length = xs.length ∧ ∀ (i : Nat) (x : α), xs[i]? = some x → ys[i]? = g x := by
  induction xs generalizing ys with
  | nil =>
    cases h
    exact ⟨rfl, nofun⟩
  | cons x xs ih =>
    rw [List.mapM_cons] at h
    obtain ⟨y, hy, h⟩ := Option.bind_eq_some_iff.1 h
    obtain ⟨rest, hrest, h⟩ := Option.bind_eq_some_iff.1 h
    cases h
    obtain ⟨hlength, hget⟩ := ih hrest
    refine ⟨by rw [List.length_cons, List.length_cons, hlength], fun i z hz => ?_⟩
    cases i with
    | zero =>
      cases hz
      exact hy.symm
    | succ i => exact hget i z hz

theorem callResult_ok {c : Call} {outcome : Except HubError Unit}
    {files : List Snapshot.ModelFile} (h : callResult plan c outcome = .ok files) :
    (List.range plan.files.length).mapM c.installed = some files := by
  unfold callResult at h
  split at h
  · cases h
  · split at h
    · cases h
    · rename_i hfiles
      split at h
      · cases h
      · split at h
        · cases h
        · cases h
          exact hfiles

/-- A result has a record for every file, in the order of the plan. -/
theorem RunningOk.complete {d : Directory} {c : Call} {outcome : Except HubError Unit}
    {files : List Snapshot.ModelFile} (h : RunningOk sha256 plan content d c)
    (hresult : callResult plan c outcome = .ok files) : Complete sha256 plan d files := by
  obtain ⟨hlength, hget⟩ := mapM_some_get (callResult_ok hresult)
  rw [List.length_range] at hlength
  refine ⟨hlength, fun i f hf => ?_⟩
  have hi : i < plan.files.length := (List.getElem?_eq_some_iff.1 hf).1
  have hfile := hget i i (List.getElem?_range hi)
  have hsome : i < files.length := hlength ▸ hi
  rw [List.getElem?_eq_getElem hsome] at hfile
  exact ⟨files[i], List.getElem?_eq_getElem hsome, (h.installed i _ hfile.symm).2.2 f hf⟩

/-- What a step brings: the invariant again, and every published file as it was. -/
structure Advances (sha256 : Bytes → List Char) (plan : DownloadPlan)
    (content : PathName → Bytes) (s t : State) : Prop where
  invariant : Invariant sha256 plan content t
  kept : ∀ f ∈ plan.files, ∀ e, s.staging.find f.localPath = some e →
    t.staging.find f.localPath = some e

theorem Invariant.task {c : Call} {index : Nat} {phase phase' : Phase} {event : Event}
    {f : RemoteFile} {d' : Directory} (h : Invariant sha256 plan content s)
    (hlength : ∀ f ∈ plan.files, (content f.path).length = f.size) (hc : s.status = .running c)
    (htask : c.tasks index = some phase) (hf : plan.files[index]? = some f)
    (hevent : EventOk (content f.path) f phase event)
    (hstep : taskStep sha256 retries f c.cancelled s.staging phase event = some (phase', d')) :
    Advances sha256 plan content s
      ⟨d', .running { c with tasks := Function.update c.tasks index (some phase') }⟩ := by
  have hrunning := h.running c hc
  have hmem : f ∈ plan.files := List.mem_of_getElem? hf
  have hkept := taskStep_kept h.distinct (hlength f hmem) (h.slots f hmem)
    (hrunning.tasks _ _ _ hf htask) hevent hstep
  -- the files of the plan: that of the task, and the others
  have hfiles : ∀ g ∈ plan.files, g = f ∨ (d'.find g.localPath = s.staging.find g.localPath ∧
      d'.find g.partPath = s.staging.find g.partPath) := by
    intro g hg
    obtain ⟨j, hj⟩ := List.mem_iff_getElem?.1 hg
    by_cases hij : index = j
    · subst hij
      rw [hf] at hj
      exact .inl (Option.some.inj hj).symm
    · exact .inr (hkept.touches.other hrunning.names hf hj hij)
  refine ⟨⟨hkept.touches.distinct, fun g hg => ?_, fun c' hc' => ?_, nofun⟩, fun g hg e he => ?_⟩
  · rcases hfiles g hg with rfl | ⟨h1, h2⟩
    · exact hkept.slot
    · rw [h1, h2]
      exact h.slots g hg
  · cases hc'
    exact hrunning.task hf htask hkept
  · rcases hfiles g hg with rfl | ⟨h1, -⟩
    · exact hkept.touches.kept e he
    · rw [h1]
      exact he

theorem Invariant.step {action : Action} (h : Invariant sha256 plan content s)
    (hlength : ∀ f ∈ plan.files, (content f.path).length = f.size)
    (hhonest : Honest plan content s action) (hexpected : Expected s action)
    (hstep : Hub.step sha256 retries plan s action = some t) :
    Advances sha256 plan content s t := by
  cases action with
  | start outcome =>
    have hstart : startCall plan s outcome = t := by
      unfold Hub.step at hstep
      dsimp only at hstep
      split at hstep
      · cases hstep
      · exact Option.some.inj hstep
    have hstaging : (startCall plan s outcome).staging = s.staging := by
      unfold startCall
      dsimp only
      split <;> rfl
    subst hstart
    exact ⟨h.start, fun f _ e he => by rwa [hstaging]⟩
  | stop =>
    cases hstep
    exact ⟨⟨h.distinct, h.slots, nofun, nofun⟩, fun _ _ _ he => he⟩
  | cancel =>
    unfold Hub.step at hstep
    dsimp only at hstep
    split at hstep
    · rename_i c hc
      cases hstep
      have hrunning := h.running c hc
      refine ⟨⟨h.distinct, h.slots, fun c' hc' => ?_, nofun⟩, fun _ _ _ he => he⟩
      cases hc'
      exact ⟨hrunning.names, hrunning.started, hrunning.tasks, hrunning.installed⟩
    · cases hstep
  | task index event =>
    unfold Hub.step at hstep
    dsimp only at hstep
    split at hstep
    · rename_i c hc
      split at hstep
      · rename_i phase f htask hf
        obtain ⟨⟨phase', d'⟩, htaskStep, rfl⟩ := Option.map_eq_some_iff.1 hstep
        refine h.task hlength hc htask hf ?_ htaskStep
        unfold EventOk
        split
        · exact ⟨hhonest c f _ _ hc hf htask, hexpected c _ _ hc htask⟩
        · trivial
      · cases hstep
    · cases hstep
  | collect index =>
    unfold Hub.step at hstep
    dsimp only at hstep
    split at hstep
    · rename_i c hc
      obtain ⟨c', hcollect, rfl⟩ := Option.map_eq_some_iff.1 hstep
      refine ⟨⟨h.distinct, h.slots, fun c'' hc'' => ?_, nofun⟩, fun _ _ _ he => he⟩
      cases hc''
      exact (h.running c hc).collect hcollect
    · cases hstep
  | finish outcome =>
    unfold Hub.step at hstep
    dsimp only at hstep
    split at hstep
    · rename_i c hc
      split at hstep
      · cases hstep
        refine ⟨⟨h.distinct, h.slots, nofun, fun files hfiles => ?_⟩, fun _ _ _ he => he⟩
        exact (h.running c hc).complete (Status.returned.inj hfiles)
      · cases hstep
    · cases hstep

/-- An honest run whose requests for a whole file are answered as expected. -/
def Contract (plan : DownloadPlan) (content : PathName → Bytes) (s : State) (action : Action) :
    Prop :=
  Honest plan content s action ∧ Expected s action

theorem run_invariant {as : List Action}
    (hlength : ∀ f ∈ plan.files, (content f.path).length = f.size)
    (h : Run (Hub.step sha256 retries plan) (Contract plan content) s as t)
    (hs : Invariant sha256 plan content s) : Invariant sha256 plan content t :=
  h.invariant
    (fun _ _ _ hI hok hstep => (Invariant.step hI hlength hok.1 hok.2 hstep).invariant) hs

/-- A published file stays as it is. -/
theorem run_kept {as : List Action}
    (hlength : ∀ f ∈ plan.files, (content f.path).length = f.size)
    (h : Run (Hub.step sha256 retries plan) (Contract plan content) s as t)
    (hs : Invariant sha256 plan content s) {f : RemoteFile} (hf : f ∈ plan.files) {e : Entry}
    (he : s.staging.find f.localPath = some e) : t.staging.find f.localPath = some e := by
  induction h with
  | nil => exact he
  | cons hok hstep _ ih =>
    have hadvances := Invariant.step hs hlength hok.1 hok.2 hstep
    exact ih hadvances.invariant (hadvances.kept f hf e he)

/-- What the staging directory and the status hold in a state. -/
structure Safe (sha256 : Bytes → List Char) (plan : DownloadPlan) (content : PathName → Bytes)
    (s : State) : Prop where
  part_agrees : ∀ f ∈ plan.files, ∀ e, s.staging.find f.partPath = some e →
    e.bytes <+: content f.path
  published : ∀ f ∈ plan.files, ∀ e, s.staging.find f.localPath = some e →
    e.bytes = content f.path
  apart : ∀ f ∈ plan.files, s.staging.find f.localPath = none ∨ s.staging.find f.partPath = none
  complete : ∀ files, s.status = .returned (.ok files) → Complete sha256 plan s.staging files

theorem Invariant.safe (h : Invariant sha256 plan content s) : Safe sha256 plan content s :=
  ⟨fun f hf => (h.slots f hf).part_agrees, fun f hf => (h.slots f hf).completed_eq,
    fun f hf => (h.slots f hf).apart, h.returned⟩

/-- **Resumable downloads are safe** when a request for a whole file is not answered by a success
other than 200 and 206: every state `s` of every run is safe, and what is published in it is the
same entry in every state `t` that follows. -/
theorem downloads_are_safe (sha256 : Bytes → List Char) (retries : Nat) (plan : DownloadPlan)
    (content : PathName → Bytes) (hlength : ∀ f ∈ plan.files, (content f.path).length = f.size)
    {before after : List Action} {s t : State}
    (h : Run (Hub.step sha256 retries plan) (Contract plan content) .initial before s)
    (h' : Run (Hub.step sha256 retries plan) (Contract plan content) s after t) :
    Safe sha256 plan content s ∧ ∀ f ∈ plan.files, ∀ e,
      s.staging.find f.localPath = some e → t.staging.find f.localPath = some e := by
  have hs := run_invariant hlength h invariant_initial
  exact ⟨hs.safe, fun f hf e he => run_kept hlength h' hs hf he⟩

end system

/-! ## A transfer of one file -/

/-- A plan of three small files. -/
def smallPlan : DownloadPlan :=
  { mlx := true
    files := [⟨"config.json".toList, 2, none⟩, ⟨"model.safetensors".toList, 1, none⟩,
      ⟨"tokenizer.json".toList, 2, none⟩]
    totalBytes := 5 }

def smallContent (path : PathName) : Bytes :=
  if path = "model.safetensors".toList then [0] else [123, 125]

/-- A response to the request for the first file. -/
def answer (status : Nat) (body : Bytes) : Response := ⟨status, none, some ['2'], body⟩

/-- The transfer of the first file in one chunk, up to its publication. -/
def transfer (r : Response) : List Action :=
  [.start (.ok ()), .task 0 .proceed, .task 0 .proceed, .task 0 (.respond r),
    .task 0 (.opened 1 1), .task 0 .proceed, .task 0 (.chunk 2), .task 0 (.wrote 2 2),
    .task 0 (.wrote 0 2), .task 0 .endOfBody, .task 0 .proceed, .task 0 .proceed,
    .task 0 .proceed, .task 0 .proceed]

/-- Only the response of a transfer is subject to a condition. -/
theorem mem_transfer {r : Response} {action : Action} (h : action ∈ transfer r) :
    action = .task 0 (.respond r) ∨ ∀ plan content s, Contract plan content s action := by
  simp only [transfer, List.mem_cons, List.not_mem_nil, or_false] at h
  rcases h with rfl | rfl | rfl | rfl | rfl | rfl | rfl | rfl | rfl | rfl | rfl | rfl | rfl | rfl
  case inr.inr.inr.inl => exact .inl rfl
  all_goals exact .inr fun _ _ _ => ⟨trivial, trivial⟩

/-- What stands under the name of the first file. -/
def firstFile (s : State) : Option Bytes :=
  (s.staging.find "config.json".toList).map (·.bytes)

theorem downloads_are_safe_transfer : validateDownloadPlan smallPlan = .ok () ∧
    ∃ s : State, firstFile s = some [123, 125] ∧
      Safe (fun _ => []) smallPlan smallContent s := by
  have hok : ∀ action ∈ transfer (answer 200 [123, 125]), ∀ s : State,
      Contract smallPlan smallContent s action := by
    intro action haction s
    rcases mem_transfer haction with rfl | hcontract
    · refine ⟨fun c f a existing _ hf _ => ?_, fun _ _ _ _ _ _ _ => .inl rfl⟩
      cases hf
      exact ⟨fun _ => List.prefix_rfl, nofun⟩
    · exact hcontract _ _ _
  have hrun : (run (Hub.step (fun _ => []) 3 smallPlan) .initial
      (transfer (answer 200 [123, 125]))).map firstFile = some (some [123, 125]) := by
    decide +kernel
  obtain ⟨s, hs, hpublished⟩ := Option.map_eq_some_iff.1 hrun
  exact ⟨by decide +kernel, s, hpublished,
    (downloads_are_safe _ 3 smallPlan smallContent (by decide) (.of_run hs hok) (.nil s)).1⟩

/-- A 203 response to a request for a whole file is taken for the file, and published. -/
theorem odd_success_corrupts : validateDownloadPlan smallPlan = .ok () ∧
    (∀ f ∈ smallPlan.files, (smallContent f.path).length = f.size) ∧
    ∃ s : State, Run (Hub.step (fun _ => []) 3 smallPlan) (Honest smallPlan smallContent) .initial
        (transfer (answer 203 [120, 120])) s ∧
      firstFile s = some [120, 120] ∧ ¬ Safe (fun _ => []) smallPlan smallContent s := by
  have hok : ∀ action ∈ transfer (answer 203 [120, 120]), ∀ s : State,
      Honest smallPlan smallContent s action := by
    intro action haction s
    rcases mem_transfer haction with rfl | hcontract
    · exact fun _ _ _ _ _ _ _ => ⟨nofun, nofun⟩
    · exact (hcontract _ _ _).1
  have hrun : (run (Hub.step (fun _ => []) 3 smallPlan) .initial
      (transfer (answer 203 [120, 120]))).map firstFile = some (some [120, 120]) := by
    decide +kernel
  obtain ⟨s, hs, hpublished⟩ := Option.map_eq_some_iff.1 hrun
  refine ⟨by decide +kernel, by decide, s, .of_run hs hok, hpublished, fun hsafe => ?_⟩
  obtain ⟨e, he, hbytes⟩ := Option.map_eq_some_iff.1 hpublished
  have hwhole := hsafe.published ⟨"config.json".toList, 2, none⟩ (by decide) e he
  rw [hbytes] at hwhole
  revert hwhole
  decide

end Hub

end Emelex

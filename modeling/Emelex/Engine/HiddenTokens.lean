import Emelex.Engine.Rechunking

/-!
# Hidden special tokens (`engine/streaming.rs`)

The classifier fed with pieces some of which are special tokens, present in the raw text and
absent from the display text.  The code keeps two pending strings and finds the place of a cut of
the raw text in the display text by looking at the two; here every character of the raw text
carries whether it is visible, so that the place is known.

* `markedLoop`, `markedRun` — the classification of the raw text, with the cuts it makes.
* `Split.Exact` — the code cuts the display text where the raw text is cut.
* `Split.Discernible` — when it does, in terms of what is visible around the cut.

Principal results: `exact_iff_discernible`, `hidden_tokens_exact_iff`.
-/

set_option autoImplicit false

namespace Emelex

open Text

/-! ## Marked text -/

/-- Raw text, each character with whether it is displayed. -/
abbrev Marked := List (Char × Bool)

namespace Marked

/-- The raw text. -/
def raw (p : Marked) : Str := p.map Prod.fst

/-- The display text. -/
def visible (p : Marked) : Str := (p.filter Prod.snd).map Prod.fst

/-- Every character is displayed. -/
def AllVisible (p : Marked) : Prop := ∀ x ∈ p, x.2 = true

@[simp] theorem raw_length (p : Marked) : p.raw.length = p.length := List.length_map _

@[simp] theorem raw_append (p q : Marked) : raw (p ++ q) = raw p ++ raw q := List.map_append

@[simp] theorem visible_append (p q : Marked) : visible (p ++ q) = visible p ++ visible q := by
  simp [visible]

theorem raw_take (p : Marked) (n : Nat) : raw (p.take n) = p.raw.take n := List.map_take

theorem raw_drop (p : Marked) (n : Nat) : raw (p.drop n) = p.raw.drop n := List.map_drop

theorem visible_length_le (p : Marked) : p.visible.length ≤ p.length := by
  unfold visible
  rw [List.length_map]
  exact List.length_filter_le _ _

theorem visible_split (p : Marked) (n : Nat) :
    p.visible = visible (p.take n) ++ visible (p.drop n) := by
  rw [← visible_append, List.take_append_drop]

theorem allVisible_of_length {p : Marked} (h : p.visible.length = p.length) : p.AllVisible := by
  unfold visible at h
  rw [List.length_map] at h
  exact List.length_filter_eq_length_iff.1 h

/-- The display text is the raw text when all of it is visible, and only then. -/
theorem visible_eq_raw {p : Marked} : p.visible = p.raw ↔ p.AllVisible := by
  constructor
  · intro h
    exact allVisible_of_length ((congrArg List.length h).trans (raw_length p))
  · intro h
    unfold visible raw
    rw [List.filter_eq_self.2 h]

theorem AllVisible.take {p : Marked} (h : p.AllVisible) (n : Nat) : AllVisible (p.take n) :=
  fun x hx => h x (List.mem_of_mem_take hx)

theorem AllVisible.drop {p : Marked} (h : p.AllVisible) (n : Nat) : AllVisible (p.drop n) :=
  fun x hx => h x (List.mem_of_mem_drop hx)

end Marked

open Marked

/-- A piece with whether it is displayed. -/
def markedPiece (piece : Str × Bool) : Marked := piece.1.map fun c => (c, piece.2)

/-- The raw and display text of a piece. -/
def shownPiece (piece : Str × Bool) : Str × Str := (piece.1, if piece.2 then piece.1 else [])

@[simp] theorem raw_markedPiece (piece : Str × Bool) : raw (markedPiece piece) = piece.1 := by
  simp [raw, markedPiece, Function.comp_def]

@[simp] theorem visible_markedPiece (piece : Str × Bool) :
    visible (markedPiece piece) = (shownPiece piece).2 := by
  obtain ⟨text, shown⟩ := piece
  cases shown with
  | true => exact (visible_eq_raw.2 (by simp [AllVisible, markedPiece])).trans (raw_markedPiece _)
  | false => simp [visible, markedPiece, shownPiece]

/-! ## Cuts -/

/-- A cut of the pending text: at a marker, or before what is held back. -/
inductive Split where
  | marker (pending : Marked) (pos : Nat) (marker : Str)
  | safe (pending : Marked) (safe : Nat)
  deriving DecidableEq, Repr

/-- When `view` is displayed, the two functions of the code cut it where the raw text is cut. -/
def Split.CutsAt (view : Marked → Str) : Split → Prop
  | marker p pos m =>
    splitDisplayAtMarker p.raw (view p) pos m =
      (view (p.take pos), view (p.drop (pos + m.length)))
  | safe p n => splitDisplayForSafePrefix p.raw (view p) n = (view (p.take n), view (p.drop n))

/-- The display text is cut where the raw text is cut. -/
def Split.Exact (s : Split) : Prop := s.CutsAt visible

/-- `v` is the longest beginning of `v ++ rest` that is an end of `m`. -/
def LongestEnd (m v rest : Str) : Prop :=
  v <:+ m ∧ ∀ n ≤ (v ++ rest).length, v.length < n → ¬ (v ++ rest).take n <:+ m

instance (m v rest : Str) : Decidable (LongestEnd m v rest) :=
  inferInstanceAs (Decidable (_ ∧ ∀ n ≤ (v ++ rest).length, _))

/-- What is visible tells where the cut is.

At a marker: nothing is hidden; or the marker is displayed and does not occur in the display text
before its place; or it does not occur there at all, the text before it is displayed in full (or
not at all, and the display text does not begin like it), and the part of the marker that is
displayed is the longest beginning of the rest that is an end of the marker.

Before held-back text: nothing is hidden, or nothing is held back; or the released text is
displayed in full; or the held-back text is, and the display text does not begin like the released
text; or the held-back text is not displayed, and the display text neither begins like the one nor
ends like the other. -/
def Split.Discernible : Split → Prop
  | marker p pos m =>
    let before := p.take pos
    let shown := visible ((p.drop pos).take m.length)
    let after := visible (p.drop (pos + m.length))
    p.AllVisible ∨
    (shown = m ∧ find m p.visible = some (visible before).length) ∨
    (find m p.visible = none ∧ LongestEnd m shown after ∧
      (AllVisible before ∨ (visible before = [] ∧ ¬ raw before <+: p.visible)))
  | safe p n =>
    let released := p.take n
    let held := p.drop n
    p.AllVisible ∨ held = [] ∨ AllVisible released ∨
    (¬ raw released <+: p.visible ∧
      (AllVisible held ∨ (visible held = [] ∧ ¬ raw held <:+ p.visible)))

instance (p : Marked) : Decidable p.AllVisible := inferInstanceAs (Decidable (∀ x ∈ p, _))

instance : (s : Split) → Decidable s.Discernible
  | .marker p pos m => inferInstanceAs (Decidable (p.AllVisible ∨ (_ ∧ _) ∨ (_ ∧ LongestEnd m _ _ ∧
      (AllVisible (p.take pos) ∨ (_ ∧ _)))))
  | .safe p n => inferInstanceAs (Decidable (p.AllVisible ∨ _ ∨ AllVisible (p.take n) ∨
      (_ ∧ (AllVisible (p.drop n) ∨ (_ ∧ _)))))

/-- Where the loop makes a cut. -/
def Split.Placed : Split → Prop
  | marker p pos m => m <+: p.raw.drop pos ∧ pos + m.length ≤ p.length
  | safe p n => 0 < n ∧ n ≤ p.length

/-- The heuristic for the displayed part of a marker finds the longest possible part. -/
theorem findGreatest_eq_iff_longestEnd {m v rest : Str} :
    Nat.findGreatest (fun n => (v ++ rest).take n <:+ m) (min m.length (v ++ rest).length) =
      v.length ↔ LongestEnd m v rest := by
  rw [Nat.findGreatest_eq_iff]
  constructor
  · rintro ⟨hle, hend, hlongest⟩
    refine ⟨?_, fun n hbound hn hsuffix => ?_⟩
    · by_cases hv : v.length = 0
      · rw [List.eq_nil_of_length_eq_zero hv]
        exact List.nil_suffix
      · have := hend hv
        rwa [List.take_left] at this
    · have hlen := hsuffix.length_le
      rw [List.length_take, Nat.min_eq_left hbound] at hlen
      exact hlongest hn (Nat.le_min.2 ⟨hlen, hbound⟩) hsuffix
  · rintro ⟨hend, hlongest⟩
    refine ⟨Nat.le_min.2 ⟨hend.length_le, ?_⟩, fun _ => ?_, fun n hn hbound => ?_⟩
    · rw [List.length_append]
      omega
    · rw [List.take_left]
      exact hend
    · exact hlongest n (hbound.trans (Nat.min_le_right _ _)) hn

theorem drop_findGreatest_eq_iff {m v rest : Str} :
    (v ++ rest).drop (Nat.findGreatest (fun n => (v ++ rest).take n <:+ m)
      (min m.length (v ++ rest).length)) = rest ↔ LongestEnd m v rest := by
  rw [← findGreatest_eq_iff_longestEnd]
  generalize hk : Nat.findGreatest (fun n => (v ++ rest).take n <:+ m)
    (min m.length (v ++ rest).length) = k
  have hle : k ≤ (v ++ rest).length :=
    hk ▸ (Nat.findGreatest_le _).trans (Nat.min_le_right _ _)
  constructor
  · intro h
    have := congrArg List.length h
    rw [List.length_drop] at this
    rw [List.length_append] at this hle
    omega
  · rintro rfl
    exact List.drop_left

/-- A cut of a text is where its first part ends. -/
theorem take_drop_eq_iff {a b c : Str} {i j : Nat} (hij : i ≤ j) (hj : j ≤ (a ++ b ++ c).length) :
    ((a ++ b ++ c).take i, (a ++ b ++ c).drop j) = (a, c) ↔ i = a.length ∧ j = a.length + b.length := by
  constructor
  · intro h
    have h1 := congrArg (List.length ∘ Prod.fst) h
    have h2 := congrArg (List.length ∘ Prod.snd) h
    simp only [Function.comp_apply, List.length_take, List.length_drop, List.length_append] at h1 h2 hj
    omega
  · rintro ⟨rfl, rfl⟩
    rw [← List.length_append, List.drop_left, List.append_assoc, List.take_left]

/-- At a marker the code cuts the display text where the raw text is cut exactly when what is
visible tells the place. -/
theorem marker_exact_iff {p : Marked} {pos : Nat} {m : Str}
    (hplaced : (Split.marker p pos m).Placed) :
    (Split.marker p pos m).Exact ↔ (Split.marker p pos m).Discernible := by
  obtain ⟨hm, hle⟩ := hplaced
  have hpos : pos ≤ p.length := by omega
  have hafter : p.drop (pos + m.length) = (p.drop pos).drop m.length := by
    rw [List.drop_drop]
  have hcut : p.visible = visible (p.take pos) ++ visible ((p.drop pos).take m.length) ++
      visible (p.drop (pos + m.length)) := by
    rw [List.append_assoc, hafter, ← visible_split, ← visible_split]
  unfold Split.Exact Split.CutsAt Split.Discernible splitDisplayAtMarker
  dsimp only
  by_cases hall : p.AllVisible
  · have hsame := visible_eq_raw.2 hall
    rw [if_pos hsame.symm, visible_eq_raw.2 (hall.take pos), visible_eq_raw.2 (hall.drop _), hsame,
      raw_take, raw_drop]
    exact iff_of_true rfl (.inl hall)
  · rw [if_neg fun h => hall (visible_eq_raw.1 h.symm), or_iff_right hall]
    have hraw : raw ((p.drop pos).take m.length) = m := by
      rw [raw_take, raw_drop]
      exact (List.prefix_iff_eq_take.1 hm).symm
    have hlength : ((p.drop pos).take m.length).length = m.length := by
      rw [List.length_take, List.length_drop]
      omega
    have hshown : (visible ((p.drop pos).take m.length)).length = m.length →
        visible ((p.drop pos).take m.length) = m := by
      intro h
      rw [visible_eq_raw.2 (allVisible_of_length (h.trans hlength.symm)), hraw]
    have hvisible : visible (p.take pos) = raw (p.take pos) ↔ AllVisible (p.take pos) :=
      visible_eq_raw
    rw [← raw_take p pos]
    generalize visible (p.take pos) = before at *
    generalize visible ((p.drop pos).take m.length) = shown at *
    generalize visible (p.drop (pos + m.length)) = after at *
    cases hf : find m p.visible with
    | some d =>
      have hd := find_le hf
      dsimp only
      rw [hcut] at hd ⊢
      rw [take_drop_eq_iff (by omega) hd]
      constructor
      · rintro ⟨rfl, hj⟩
        exact .inl ⟨hshown (by omega), rfl⟩
      · rintro (⟨rfl, hplace⟩ | ⟨hnone, -⟩)
        · have := Option.some.inj hplace
          exact ⟨this, by omega⟩
        · cases hnone
    | none =>
      dsimp only
      have hnever : ¬ (shown = m ∧ (none : Option Nat) = some before.length) := fun h => nomatch h.2
      rw [or_iff_right hnever, and_iff_right rfl]
      cases hs : stripPrefix (raw (p.take pos)) p.visible with
      | some remaining =>
        have hsplit := stripPrefix_eq_some.1 hs
        have hpre : raw (p.take pos) <+: p.visible := ⟨remaining, hsplit.symm⟩
        dsimp only
        rw [or_iff_left fun h => h.2 hpre, ← hvisible, Prod.mk.injEq, @eq_comm _ _ before, and_comm]
        refine and_congr_left fun hbefore => ?_
        have hremaining : remaining = shown ++ after := by
          rw [hcut, ← hbefore, List.append_assoc] at hsplit
          exact (List.append_cancel_left hsplit).symm
        rw [hremaining]
        exact drop_findGreatest_eq_iff
      | none =>
        have hpre := stripPrefix_eq_none.1 hs
        have hhidden : ¬ AllVisible (p.take pos) := by
          intro h
          refine hpre ?_
          rw [hcut, ← hvisible.2 h, List.append_assoc]
          exact List.prefix_append _ _
        dsimp only
        rw [or_iff_right hhidden, and_iff_left hpre, Prod.mk.injEq, @eq_comm _ _ before, and_comm]
        refine and_congr_left fun hnil => ?_
        rw [hcut, hnil, List.nil_append]
        exact drop_findGreatest_eq_iff

/-- Before held-back text the code cuts the display text where the raw text is cut exactly when
what is visible tells the place. -/
theorem safe_exact_iff {p : Marked} {n : Nat} (hplaced : (Split.safe p n).Placed) :
    (Split.safe p n).Exact ↔ (Split.safe p n).Discernible := by
  obtain ⟨hpos, hle⟩ := hplaced
  have hcut := visible_split p n
  unfold Split.Exact Split.CutsAt Split.Discernible splitDisplayForSafePrefix
  dsimp only
  by_cases hall : p.AllVisible
  · have hsame := visible_eq_raw.2 hall
    rw [if_pos hsame.symm, visible_eq_raw.2 (hall.take n), visible_eq_raw.2 (hall.drop n), hsame,
      raw_take, raw_drop]
    exact iff_of_true rfl (.inl hall)
  · rw [if_neg fun h => hall (visible_eq_raw.1 h.symm), or_iff_right hall, raw_length]
    by_cases hnil : n = p.length
    · have htake : p.take n = p := by rw [hnil, List.take_length]
      have hdrop : p.drop n = [] := by rw [hnil, List.drop_length]
      rw [if_pos hnil, htake, hdrop]
      exact iff_of_true rfl (.inl rfl)
    · have hheld : p.drop n ≠ [] := fun h => hnil (by
        have := List.drop_eq_nil_iff.1 h
        omega)
      rw [if_neg hnil, if_neg (by omega), or_iff_right hheld, ← raw_take, ← raw_drop]
      have hreleased : visible (p.take n) = raw (p.take n) ↔ AllVisible (p.take n) :=
        visible_eq_raw
      have htail : visible (p.drop n) = raw (p.drop n) ↔ AllVisible (p.drop n) := visible_eq_raw
      have hne : raw (p.drop n) ≠ [] := by
        unfold raw
        exact fun h => hheld (List.map_eq_nil_iff.1 h)
      generalize visible (p.take n) = released at *
      generalize visible (p.drop n) = held at *
      cases hs : stripPrefix (raw (p.take n)) p.visible with
      | some remaining =>
        have hsplit := stripPrefix_eq_some.1 hs
        have hpre : raw (p.take n) <+: p.visible := ⟨remaining, hsplit.symm⟩
        dsimp only
        rw [or_iff_left fun h => h.1 hpre, ← hreleased, Prod.mk.injEq, @eq_comm _ _ released]
        refine and_iff_left_of_imp fun h => ?_
        rw [hcut, h] at hsplit
        exact (List.append_cancel_left hsplit).symm
      | none =>
        have hpre := stripPrefix_eq_none.1 hs
        have hhidden : ¬ AllVisible (p.take n) := by
          intro h
          refine hpre ?_
          rw [hcut, ← hreleased.2 h]
          exact List.prefix_append _ _
        dsimp only
        rw [or_iff_right hhidden, and_iff_right hpre]
        cases ht : stripSuffix (raw (p.drop n)) p.visible with
        | some shown =>
          have hsplit' := stripSuffix_eq_some.1 ht
          have hsuffix : raw (p.drop n) <:+ p.visible := ⟨shown, hsplit'.symm⟩
          dsimp only
          rw [or_iff_left fun h => h.2 hsuffix, ← htail, Prod.mk.injEq, @eq_comm _ _ held]
          refine and_iff_right_of_imp fun h => ?_
          rw [hcut, h] at hsplit'
          exact (List.append_cancel_right hsplit').symm
        | none =>
          have hsuffix := stripSuffix_eq_none.1 ht
          have hhidden' : ¬ AllVisible (p.drop n) := by
            intro h
            refine hsuffix ?_
            rw [hcut, ← htail.2 h]
            exact List.suffix_append _ _
          dsimp only
          rw [or_iff_right hhidden', and_iff_left hsuffix, Prod.mk.injEq, @eq_comm _ _ held]
          refine and_iff_right_of_imp fun h => ?_
          rw [hcut, h, List.append_nil]

/-- The code cuts the display text where the raw text is cut exactly when what is visible tells
the place. -/
theorem Split.exact_iff_discernible {s : Split} (hplaced : s.Placed) :
    s.Exact ↔ s.Discernible := by
  cases s with
  | marker p pos m => exact marker_exact_iff hplaced
  | safe p n => exact safe_exact_iff hplaced

/-! ## The classification of the raw text -/

/-- An event with the part of the marked text it covers. -/
inductive MarkedEvent where
  | segment (kind : TokenKind) (part : Marked)
  | removed (part : Marked) (boundary : Boundary)
  deriving DecidableEq, Repr

namespace MarkedEvent

/-- The part of the text. -/
def part : MarkedEvent → Marked
  | segment _ part => part
  | removed part _ => part

/-- The event when `view` is what a segment shows of its part. -/
def shown (view : Marked → Str) : MarkedEvent → StreamEvent
  | segment kind part => .segment kind (view part)
  | removed part boundary => .removed (raw part) boundary

end MarkedEvent

namespace StreamClassifier

/-- The classifier with `p` pending, of which `view` is displayed. -/
def viewing (view : Marked → Str) (c : StreamClassifier) (p : Marked) : StreamClassifier :=
  { c with rawPending := p.raw, displayPending := view p }

/-- The events of a boundary found in `p`. -/
def markedBoundary (state : TokenKind) (p : Marked) (pos : Nat) (marker : Str) :
    Boundary → List MarkedEvent
  | .reasoningOpen close => [.removed (p.take (pos + marker.length)) (.reasoningOpen close)]
  | boundary =>
    [.segment state (p.take pos), .removed ((p.drop pos).take marker.length) boundary]

/-- The `loop` of `push` on the raw text: the marked text is cut where the raw text is. -/
def markedLoop : Nat → StreamClassifier → Marked →
    Option (StreamClassifier × Marked × List MarkedEvent × List Split)
  | 0, _, _ => none
  | fuel + 1, c, p =>
    match (c.withPending p.raw).findBoundary with
    | some (pos, marker, boundary) =>
      (markedLoop fuel (c.applyBoundary boundary) (p.drop (pos + marker.length))).map
        fun (c', rest, events, splits) =>
          (c', rest, markedBoundary c.state p pos marker boundary ++ events,
            .marker p pos marker :: splits)
    | none =>
      let retained := (c.withPending p.raw).partialMarkerSuffixLen
      let safe := p.length - retained
      if safe = 0 then some (c, p, [], [])
      else
        let c' := c.released (p.raw.take safe)
        if retained = 0 then
          some (c', p.drop safe, [.segment c.state (p.take safe)], [.safe p safe])
        else
          (markedLoop fuel c' (p.drop safe)).map fun (c', rest, events, splits) =>
            (c', rest, .segment c.state (p.take safe) :: events, .safe p safe :: splits)

/-- A run over marked pieces: the events and the cuts; the terminal flush takes what is
pending. -/
def markedRun (c : StreamClassifier) (p : Marked) :
    List (Str × Bool) → Option (List MarkedEvent × List Split)
  | [] => some ([.segment c.state p], [])
  | piece :: pieces =>
    match markedLoop ((p ++ markedPiece piece).length + 2) c (p ++ markedPiece piece) with
    | none => none
    | some (c', rest, events, splits) =>
      (markedRun c' rest pieces).map fun r => (events ++ r.1, splits ++ r.2)

/-- The marker of a boundary is what its part of the text says. -/
theorem raw_of_boundary {c : StreamClassifier} (hc : c.Scans) {p : Marked} {pos : Nat}
    {marker : Str} {boundary : Boundary}
    (h : (c.withPending p.raw).findBoundary = some (pos, marker, boundary)) :
    (Split.marker p pos marker).Placed ∧ raw ((p.drop pos).take marker.length) = marker := by
  obtain ⟨hsplit, hne⟩ := findBoundary_split hc h
  have hlen := congrArg List.length hsplit
  have hpos := List.length_pos_iff.2 hne
  simp only [List.length_append, List.length_take, List.length_drop, raw_length] at hlen
  have hdrop : p.raw.drop pos = marker ++ p.raw.drop (pos + marker.length) := by
    conv_lhs => rw [hsplit]
    rw [List.append_assoc, List.drop_left' (by rw [List.length_take, raw_length]; omega)]
  have hpre : marker <+: p.raw.drop pos := ⟨_, hdrop.symm⟩
  refine ⟨⟨hpre, by omega⟩, ?_⟩
  rw [raw_take, raw_drop]
  exact (List.prefix_iff_eq_take.1 hpre).symm

theorem map_shown_markedBoundary {view : Marked → Str} {state : TokenKind} {p : Marked}
    {pos : Nat} {marker : Str} (hmarker : raw ((p.drop pos).take marker.length) = marker)
    (boundary : Boundary) :
    (markedBoundary state p pos marker boundary).map (MarkedEvent.shown view) =
      boundaryEvents state p.raw (view (p.take pos)) pos marker boundary := by
  cases boundary <;>
    simp [markedBoundary, boundaryEvents, MarkedEvent.shown, hmarker, raw_take]

/-- While the cuts are right, the code's loop does what the loop on the raw text does. -/
theorem loopEvents_viewing {view : Marked → Str} : ∀ {fuel : Nat} {c c' : StreamClassifier}
    {p rest : Marked} {events : List MarkedEvent} {splits : List Split}, c.Scans →
      markedLoop fuel c p = some (c', rest, events, splits) → (∀ s ∈ splits, s.CutsAt view) →
      loopEvents fuel (c.viewing view p) =
        some (c'.viewing view rest, events.map (MarkedEvent.shown view)) ∧ c'.Scans
  | 0, _, _, _, _, _, _, _, h, _ => by cases h
  | fuel + 1, c, c', p, rest, events, splits, hc, h, hcuts => by
    have hfind : (c.viewing view p).findBoundary = (c.withPending p.raw).findBoundary := rfl
    unfold markedLoop at h
    unfold loopEvents
    rw [hfind]
    cases hb : (c.withPending p.raw).findBoundary with
    | some found =>
      obtain ⟨pos, marker, boundary⟩ := found
      rw [hb] at h
      dsimp only at h ⊢
      obtain ⟨⟨c₁, rest₁, events₁, splits₁⟩, hloop, he⟩ := Option.map_eq_some_iff.1 h
      cases he
      have hcut : splitDisplayAtMarker (c.viewing view p).rawPending
          (c.viewing view p).displayPending pos marker = _ := hcuts _ List.mem_cons_self
      obtain ⟨ih, hc'⟩ := loopEvents_viewing (applyBoundary_scans hc hb) hloop
        fun s hs => hcuts s (List.mem_cons_of_mem _ hs)
      have hnext : applyBoundary { c.viewing view p with
          rawPending := (c.viewing view p).rawPending.drop (pos + marker.length)
          displayPending := view (p.drop (pos + marker.length)) } boundary =
          (c.applyBoundary boundary).viewing view (p.drop (pos + marker.length)) := by
        cases boundary <;> simp [applyBoundary, viewing, raw_drop]
      refine ⟨?_, hc'⟩
      rw [hcut, hnext, ih, Option.map_some, List.map_append,
        map_shown_markedBoundary (raw_of_boundary hc hb).2]
      rfl
    | none =>
      rw [hb] at h
      dsimp only at h ⊢
      have hretained : (c.viewing view p).partialMarkerSuffixLen =
          (c.withPending p.raw).partialMarkerSuffixLen := rfl
      have hlength : (c.viewing view p).rawPending.length = p.length := raw_length p
      rw [hretained, hlength]
      generalize (c.withPending p.raw).partialMarkerSuffixLen = retained at h ⊢
      split at h
      · rename_i hsafe
        cases h
        rw [if_pos hsafe]
        exact ⟨rfl, hc⟩
      · rename_i hsafe
        rw [if_neg hsafe]
        generalize p.length - retained = safe at h ⊢
        have hnext : ({ c.viewing view p with
            rawPending := (c.viewing view p).rawPending.drop safe
            displayPending := view (p.drop safe)
            reasoningPrefixPossible :=
              if (c.viewing view p).state = .text ∧
                  trim ((c.viewing view p).rawPending.take safe) ≠ [] then false
              else (c.viewing view p).reasoningPrefixPossible } : StreamClassifier) =
            (c.released (p.raw.take safe)).viewing view (p.drop safe) := by
          unfold released viewing
          rw [raw_drop]
        split at h
        · rename_i hnone
          cases h
          have hcut : splitDisplayForSafePrefix (c.viewing view p).rawPending
              (c.viewing view p).displayPending safe = _ := hcuts _ List.mem_cons_self
          rw [if_pos hnone, hcut, hnext]
          exact ⟨rfl, hc.released _⟩
        · rename_i hsome
          obtain ⟨⟨c₁, rest₁, events₁, splits₁⟩, hloop, he⟩ := Option.map_eq_some_iff.1 h
          cases he
          have hcut : splitDisplayForSafePrefix (c.viewing view p).rawPending
              (c.viewing view p).displayPending safe = _ := hcuts _ List.mem_cons_self
          obtain ⟨ih, hc'⟩ := loopEvents_viewing (hc.released _) hloop
            fun s hs => hcuts s (List.mem_cons_of_mem _ hs)
          rw [if_neg hsome, hcut, hnext, ih]
          exact ⟨rfl, hc'⟩

theorem runEvents_viewing {view : Marked → Str} (hview : ∀ p q, view (p ++ q) = view p ++ view q) :
    ∀ {pieces : List (Str × Bool)} {c : StreamClassifier} {p : Marked} {events : List MarkedEvent}
      {splits : List Split}, c.Scans → c.markedRun p pieces = some (events, splits) →
      (∀ s ∈ splits, s.CutsAt view) →
      (c.viewing view p).runEvents (pieces.map fun piece => (piece.1, view (markedPiece piece))) =
        some (events.map (MarkedEvent.shown view))
  | [], c, p, events, splits, _, h, _ => by
    cases h
    rfl
  | piece :: pieces, c, p, events, splits, hc, h, hcuts => by
    unfold markedRun at h
    cases hloop : markedLoop ((p ++ markedPiece piece).length + 2) c (p ++ markedPiece piece) with
    | none =>
      rw [hloop] at h
      cases h
    | some r =>
      obtain ⟨c', rest, events₁, splits₁⟩ := r
      rw [hloop] at h
      obtain ⟨⟨events₂, splits₂⟩, hrun, he⟩ := Option.map_eq_some_iff.1 h
      cases he
      obtain ⟨hevents, hc'⟩ := loopEvents_viewing hc hloop
        fun s hs => hcuts s (List.mem_append_left _ hs)
      have ih := runEvents_viewing hview hc' hrun fun s hs => hcuts s (List.mem_append_right _ hs)
      have hpush : (c.viewing view p).pushEvents piece.1 (view (markedPiece piece)) =
          some (c'.viewing view rest, events₁.map (MarkedEvent.shown view)) := by
        rw [← hevents]
        have hraw : raw (p ++ markedPiece piece) = p.raw ++ piece.1 := by
          rw [raw_append, raw_markedPiece]
        have hfuel : (p ++ markedPiece piece).length = (p.raw ++ piece.1).length := by
          rw [← raw_length, hraw]
        unfold pushEvents viewing
        rw [hview, hraw, hfuel]
      rw [List.map_cons]
      unfold runEvents
      rw [hpush]
      dsimp only
      rw [ih, Option.map_some, List.map_append]

/-- The loop on the raw text comes to an end. -/
theorem markedLoop_total : ∀ {fuel : Nat} {c : StreamClassifier} {p : Marked}, c.Scans →
    p.length < fuel → ∃ r, markedLoop fuel c p = some r
  | 0, _, _, _, hlt => absurd hlt (Nat.not_lt_zero _)
  | fuel + 1, c, p, hc, hlt => by
    unfold markedLoop
    cases hb : (c.withPending p.raw).findBoundary with
    | some found =>
      obtain ⟨pos, marker, boundary⟩ := found
      obtain ⟨⟨-, hplaced⟩, -⟩ := raw_of_boundary hc hb
      have hpos := List.length_pos_iff.2 (findBoundary_split hc hb).2
      have hdrop : (p.drop (pos + marker.length)).length < fuel := by
        rw [List.length_drop]
        omega
      obtain ⟨r, hr⟩ := markedLoop_total (applyBoundary_scans hc hb) hdrop
      dsimp only
      rw [hr]
      exact ⟨_, rfl⟩
    | none =>
      dsimp only
      split
      · exact ⟨_, rfl⟩
      · split
        · exact ⟨_, rfl⟩
        · rename_i hsafe _
          have hdrop : (p.drop (p.length -
              (c.withPending p.raw).partialMarkerSuffixLen)).length < fuel := by
            rw [List.length_drop]
            omega
          obtain ⟨r, hr⟩ := markedLoop_total (hc.released _) hdrop
          rw [hr]
          exact ⟨_, rfl⟩

/-- The cuts are well placed, and the events with what is left make up the text. -/
structure Covers (p : Marked) (c' : StreamClassifier) (rest : Marked) (events : List MarkedEvent)
    (splits : List Split) : Prop where
  scans : c'.Scans
  placed : ∀ s ∈ splits, s.Placed
  parts : (events.map MarkedEvent.part).flatten ++ rest = p

theorem markedBoundary_parts {state : TokenKind} {p : Marked} {pos : Nat} {marker : Str}
    (boundary : Boundary) :
    ((markedBoundary state p pos marker boundary).map MarkedEvent.part).flatten =
      p.take (pos + marker.length) := by
  have hsplit : p.take pos ++ (p.drop pos).take marker.length = p.take (pos + marker.length) :=
    List.take_add.symm
  cases boundary <;> simp [markedBoundary, MarkedEvent.part, hsplit]

theorem markedLoop_covers : ∀ {fuel : Nat} {c c' : StreamClassifier} {p rest : Marked}
    {events : List MarkedEvent} {splits : List Split}, c.Scans →
      markedLoop fuel c p = some (c', rest, events, splits) → Covers p c' rest events splits
  | 0, _, _, _, _, _, _, _, h => by cases h
  | fuel + 1, c, c', p, rest, events, splits, hc, h => by
    unfold markedLoop at h
    cases hb : (c.withPending p.raw).findBoundary with
    | some found =>
      obtain ⟨pos, marker, boundary⟩ := found
      rw [hb] at h
      obtain ⟨⟨c₁, rest₁, events₁, splits₁⟩, hloop, he⟩ := Option.map_eq_some_iff.1 h
      cases he
      have ih := markedLoop_covers (applyBoundary_scans hc hb) hloop
      refine ⟨ih.scans, ?_, ?_⟩
      · rw [List.forall_mem_cons]
        exact ⟨(raw_of_boundary hc hb).1, ih.placed⟩
      · rw [List.map_append, List.flatten_append, markedBoundary_parts, List.append_assoc, ih.parts,
          List.take_append_drop]
    | none =>
      rw [hb] at h
      dsimp only at h
      split at h
      · cases h
        exact ⟨hc, nofun, rfl⟩
      · rename_i hsafe
        generalize hn : p.length - (c.withPending p.raw).partialMarkerSuffixLen = safe at h hsafe
        have hplaced : (Split.safe p safe).Placed := ⟨by omega, by omega⟩
        split at h
        · cases h
          refine ⟨hc.released _, ?_, ?_⟩
          · rw [List.forall_mem_singleton]
            exact hplaced
          · rw [List.map_singleton, List.flatten_singleton]
            exact List.take_append_drop _ _
        · obtain ⟨⟨c₁, rest₁, events₁, splits₁⟩, hloop, he⟩ := Option.map_eq_some_iff.1 h
          cases he
          have ih := markedLoop_covers (hc.released _) hloop
          refine ⟨ih.scans, ?_, ?_⟩
          · rw [List.forall_mem_cons]
            exact ⟨hplaced, ih.placed⟩
          · rw [List.map_cons, List.flatten_cons, List.append_assoc, ih.parts]
            exact List.take_append_drop _ _

theorem markedRun_covers : ∀ (pieces : List (Str × Bool)) {c : StreamClassifier} (p : Marked),
    c.Scans → ∃ events splits, c.markedRun p pieces = some (events, splits) ∧
      (∀ s ∈ splits, s.Placed) ∧
      (events.map MarkedEvent.part).flatten = p ++ (pieces.map markedPiece).flatten
  | [], c, p, _ => by
    refine ⟨_, _, rfl, nofun, ?_⟩
    rw [List.map_singleton, List.flatten_singleton, List.map_nil, List.flatten_nil, List.append_nil]
    rfl
  | piece :: pieces, c, p, hc => by
    have htotal : ∃ r, markedLoop ((p ++ markedPiece piece).length + 2) c (p ++ markedPiece piece) =
        some r := markedLoop_total hc (by omega)
    obtain ⟨⟨c', rest, events, splits⟩, hloop⟩ := htotal
    have hcovers := markedLoop_covers hc hloop
    obtain ⟨events', splits', hrun, hplaced, hparts⟩ := markedRun_covers pieces rest hcovers.scans
    refine ⟨events ++ events', splits ++ splits', ?_, ?_, ?_⟩
    · unfold markedRun
      rw [hloop]
      dsimp only
      rw [hrun, Option.map_some]
    · rw [List.forall_mem_append]
      exact ⟨hcovers.placed, hplaced⟩
    · rw [List.map_append, List.flatten_append, hparts, ← List.append_assoc, hcovers.parts,
        List.map_cons, List.flatten_cons, List.append_assoc]

theorem cutsAt_raw (s : Split) : s.CutsAt raw := by
  cases s with
  | marker p pos m =>
    unfold Split.CutsAt
    dsimp only
    rw [splitDisplayAtMarker_same, raw_take, raw_drop]
  | safe p n =>
    unfold Split.CutsAt
    dsimp only
    rw [splitDisplayForSafePrefix_same, raw_take, raw_drop]

/-- Ordinary and special tokens in any order.  The cuts are those of the raw text, and the events
make up the marked text.  The code cuts the display text there exactly when at every cut what is
visible tells the place; it then emits the visible text of the segments, each character under the
kind that the raw text gives it. -/
theorem hidden_tokens_exact_iff {format : ToolCallFormat} (hformat : format ≠ .llamaJson)
    {seed : Option Str} (hseed : seed ≠ some []) (pieces : List (Str × Bool)) :
    ∃ events splits, (start format seed).markedRun [] pieces = some (events, splits) ∧
      (start format seed).runEvents (pieces.map fun piece => (piece.1, piece.1)) =
        some (events.map (MarkedEvent.shown raw)) ∧
      (events.map MarkedEvent.part).flatten = (pieces.map markedPiece).flatten ∧
      ((∀ s ∈ splits, s.Exact) ↔ ∀ s ∈ splits, s.Discernible) ∧
      ((∀ s ∈ splits, s.Discernible) → ∃ output,
        (start format seed).run (pieces.map shownPiece) = some output ∧
        segmentChars output = itemChars (trace (events.map (MarkedEvent.shown visible)))) := by
  have hc := scans_start hformat hseed
  obtain ⟨events, splits, hrun, hplaced, hparts⟩ := markedRun_covers pieces [] hc
  have hiff : (∀ s ∈ splits, s.Exact) ↔ ∀ s ∈ splits, s.Discernible :=
    forall₂_congr fun s hs => Split.exact_iff_discernible (hplaced s hs)
  have hempty : ∀ view : Marked → Str, view [] = [] →
      (start format seed).viewing view [] = start format seed := by
    intro view hnil
    rw [← start_empty format seed]
    unfold viewing StreamClassifier.withPending
    rw [hnil]
    rfl
  refine ⟨events, splits, hrun, ?_, hparts, hiff, fun hdiscernible => ?_⟩
  · have hraw := runEvents_viewing raw_append hc hrun fun s _ => cutsAt_raw s
    rw [hempty raw rfl] at hraw
    simpa only [raw_markedPiece] using hraw
  · have hvisible := runEvents_viewing visible_append hc hrun (hiff.2 hdiscernible)
    rw [hempty visible rfl] at hvisible
    obtain ⟨through, output, hemits⟩ := emits (pieces.map shownPiece) hc.wellFormed hc.defer
    have hpieces : pieces.map (fun piece => (piece.1, visible (markedPiece piece))) =
        pieces.map shownPiece := by
      refine List.map_congr_left fun piece _ => ?_
      rw [visible_markedPiece]
      rfl
    rw [hpieces, hemits.through] at hvisible
    cases hvisible
    exact ⟨output, hemits.ran, hemits.emitted⟩

/-- An opener of which only the second half is displayed. -/
theorem hidden_tokens_exact_channel :
    ∃ output, (start .none none).run ([("<|channel>".toList, false),
        ("thoughtsecret".toList, true), ("<channel|>".toList, false),
        ("answer".toList, true)].map shownPiece) = some output ∧
      segmentChars output =
        "secret".toList.map (Prod.mk .reasoning) ++ "answer".toList.map (Prod.mk .text) := by
  obtain ⟨events, splits, hrun, -, -, -, hshown⟩ :=
    hidden_tokens_exact_iff (show ToolCallFormat.none ≠ .llamaJson by decide)
      (show (none : Option Str) ≠ some [] by decide)
      [("<|channel>".toList, false), ("thoughtsecret".toList, true), ("<channel|>".toList, false),
        ("answer".toList, true)]
  have hcuts : ((start .none none).markedRun [] [("<|channel>".toList, false),
      ("thoughtsecret".toList, true), ("<channel|>".toList, false), ("answer".toList, true)]).all
        (fun r => r.2.all fun s => decide s.Discernible) = true := by
    decide +kernel
  have hchars : ((start .none none).markedRun [] [("<|channel>".toList, false),
      ("thoughtsecret".toList, true), ("<channel|>".toList, false), ("answer".toList, true)]).map
        (fun r => itemChars (trace (r.1.map (MarkedEvent.shown visible)))) =
      some ("secret".toList.map (Prod.mk .reasoning) ++ "answer".toList.map (Prod.mk .text)) := by
    decide +kernel
  rw [hrun] at hcuts hchars
  obtain ⟨output, hout, he⟩ := hshown fun s hs =>
    of_decide_eq_true (List.all_eq_true.1 hcuts s hs)
  exact ⟨output, hout, he.trans (Option.some.inj hchars)⟩

/-- The first token of an opener is hidden, the text after it is not, and a tool call follows:
the visible text is emitted inside the call. -/
theorem hidden_opener_moves_text : ¬ ∀ (format : ToolCallFormat) (seed : Option Str)
    (pieces : List (Str × Bool)), format ≠ .llamaJson → seed ≠ some [] →
    ∃ events splits output, (start format seed).markedRun [] pieces = some (events, splits) ∧
      (start format seed).run (pieces.map shownPiece) = some output ∧
      segmentChars output = itemChars (trace (events.map (MarkedEvent.shown visible))) := by
  intro h
  obtain ⟨events, splits, output, hrun, hout, he⟩ := h .gemma none
    [("<|channel>".toList, false), ("th".toList, true), ("<|tool_call>".toList, false)] (by decide)
    (by decide)
  have hchars : ((start .gemma none).markedRun [] [("<|channel>".toList, false),
      ("th".toList, true), ("<|tool_call>".toList, false)]).map
        (fun r => itemChars (trace (r.1.map (MarkedEvent.shown visible)))) =
      some ("th".toList.map (Prod.mk .text)) := by
    decide +kernel
  have hcode : ((start .gemma none).run ([("<|channel>".toList, false), ("th".toList, true),
      ("<|tool_call>".toList, false)].map shownPiece)).map segmentChars =
      some ("th".toList.map (Prod.mk .toolCall)) := by
    decide +kernel
  rw [hrun] at hchars
  rw [hout] at hcode
  rw [Option.map_some, Option.some.injEq] at hchars hcode
  rw [hcode, hchars] at he
  exact absurd he (by decide)

end StreamClassifier

end Emelex

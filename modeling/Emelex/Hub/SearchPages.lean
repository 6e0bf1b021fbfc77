import Emelex.Hub.Search

/-!
# One page of a search

* `accept`, `accepted` — the models of a page of the Hub that a search takes, with their ranks.
* `Settled` — every candidate is accepted, or refused for a reason of its own.
* `Stopped` — the loop took the first of them, up to as many as are asked for.

Principal results: `inspectRanked_spec`, `rankedCandidates_accept`, `decode_encode`.
-/

set_option autoImplicit false

namespace Emelex

open Checks

namespace Hub

namespace Search

/-! ## Candidates -/

section candidates

variable {T : Type} (w : World T) (client : Client) (require : List String) (available : Option Nat)

/-- A model fits where the free space is not known, or is enough. -/
def storageFits (model : HubModel T) : Bool :=
  match available with
  | none => true
  | some available => (fitsStorage available model).isOk

/-- The model of a candidate that is inspected, if it is taken. -/
def accept (candidate : Nat × String) : Option (Nat × HubModel T) :=
  match w.inspect candidate.2 with
  | .ok model =>
    if (model.compatible = true ∧ require.all (w.satisfies model.traits) = true) ∧
        storageFits available model = true then
      some (candidate.1, model)
    else none
  | .error _ => none

/-- The models of a page of the Hub that are taken, with their ranks. -/
def accepted (response : Response) : List (Nat × HubModel T) :=
  (rankedCandidates client response.candidates.zipIdx).filterMap (accept w require available)

/-- The inspection of a candidate gives a model, or an error of that candidate. -/
def Settled (id : String) : Prop :=
  (∃ model, w.inspect id = .ok model) ∨
    ∃ error, w.inspect id = .error error ∧ candidateInspectionDiagnostic error = true

variable {w client require available}

theorem accept_rank {candidate : Nat × String} {entry : Nat × HubModel T}
    (h : accept w require available candidate = some entry) : entry.1 = candidate.1 := by
  unfold accept at h
  split at h
  · split at h
    · rw [← Option.some.inj h]
    · cases h
  · cases h

theorem filterSearchStorage_fst (ranked : List (Nat × HubModel T)) :
    (filterSearchStorage available ranked).1 =
      ranked.filter fun entry => storageFits available entry.2 := by
  cases available with
  | none => exact (List.filter_true ranked).symm
  | some available => rfl

/-- The candidates of a chunk are inspected. -/
theorem inspectAll_spec {candidates : List (Nat × String)} (h : ∀ c ∈ candidates, Settled w c.2) :
    ∃ outcomes, (candidates.map fun c => (c.1, c.2, w.inspect c.2)).mapM (inspectCandidate w require) =
        .ok outcomes ∧
      (outcomes.flatMap fun outcome => outcome.1).filter (fun entry => storageFits available entry.2) =
        candidates.filterMap (accept w require available) := by
  induction candidates with
  | nil => exact ⟨[], rfl, rfl⟩
  | cons candidate candidates ih =>
    obtain ⟨hcandidate, hrest⟩ := List.forall_mem_cons.1 h
    obtain ⟨outcomes, hmap, haccepted⟩ := ih hrest
    have hfirst : ∃ outcome, inspectCandidate w require
        (candidate.1, candidate.2, w.inspect candidate.2) = .ok outcome ∧
        outcome.1.filter (fun entry => storageFits available entry.2) =
          (accept w require available candidate).toList := by
      unfold inspectCandidate accept
      rcases hcandidate with ⟨model, hmodel⟩ | ⟨error, herror, hdiagnostic⟩
      · simp only [hmodel]
        by_cases htaken : model.compatible = true ∧
            require.all (w.satisfies model.traits) = true
        · rw [if_pos htaken]
          refine ⟨_, rfl, ?_⟩
          by_cases hfits : storageFits available model = true
          · rw [if_pos ⟨htaken, hfits⟩]
            simp [hfits]
          · rw [if_neg fun hboth => hfits hboth.2]
            simp [hfits]
        · rw [if_neg htaken, if_neg fun hboth => htaken hboth.1]
          exact ⟨_, rfl, rfl⟩
      · simp only [herror, hdiagnostic, if_true]
        exact ⟨_, rfl, rfl⟩
    obtain ⟨outcome, hok, houtcome⟩ := hfirst
    refine ⟨outcome :: outcomes, ?_, ?_⟩
    · rw [List.map_cons, List.mapM_cons, hok]
      simp only [hmap]
      rfl
    · rw [List.flatMap_cons, List.filter_append, houtcome, haccepted, List.filterMap_cons]
      cases accept w require available candidate <;> rfl

/-- A chunk with candidates in the order of their ranks. -/
theorem inspectChunk_spec {chunk : List (Nat × String)} (hsettled : ∀ c ∈ chunk, Settled w c.2)
    (hranks : chunk.Pairwise fun a b => a.1 ≤ b.1) :
    ∃ diagnostics, inspectChunk w require available chunk =
      .ok (chunk.filterMap (accept w require available), diagnostics) := by
  obtain ⟨outcomes, hmap, haccepted⟩ := @inspectAll_spec T w require available chunk hsettled
  have hsorted : (chunk.map fun c => (c.1, c.2, w.inspect c.2)).insertionSort
      (fun a b => a.1 ≤ b.1) = chunk.map fun c => (c.1, c.2, w.inspect c.2) :=
    List.Pairwise.insertionSort_eq (List.pairwise_map.2 hranks)
  unfold inspectChunk
  simp only [hsorted, hmap]
  rw [← haccepted, ← filterSearchStorage_fst]
  exact ⟨_, rfl⟩

end candidates

/-! ## Chunks -/

/-- The chunks of a list. -/
theorem flatten_chunksFrom {α : Type} {size : Nat} (hsize : 0 < size) {left : Nat} {xs : List α}
    (hleft : xs.length ≤ left) : (chunksFrom size left xs).flatten = xs := by
  induction left generalizing xs with
  | zero =>
    rw [List.length_eq_zero_iff.1 (Nat.le_zero.1 hleft)]
    rfl
  | succ left ih =>
    cases xs with
    | nil => rfl
    | cons x xs =>
      have hdrop : ((x :: xs).drop size).length ≤ left := by
        rw [List.length_drop]
        omega
      rw [chunksFrom, List.flatten_cons, ih hdrop, List.take_append_drop]

theorem flatten_chunks {α : Type} {size : Nat} (hsize : 0 < size) (xs : List α) :
    (chunks size xs).flatten = xs :=
  flatten_chunksFrom hsize (Nat.le_refl _)

/-- What a loop took: the first of what there is, up to as many as are asked for, or all. -/
inductive Stopped {α : Type} (limit : Nat) (items : List α) (ranked : List (Nat × α)) :
    List α → Option Nat → Prop
  | full {before after : List (Nat × α)} {rank : Nat} {item : α}
    (hsplit : ranked = before ++ (rank, item) :: after)
    (hlength : (items ++ before.map Prod.snd ++ [item]).length = limit) :
    Stopped limit items ranked (items ++ before.map Prod.snd ++ [item]) (some (rank + 1))
  | rest (hlength : (items ++ ranked.map Prod.snd).length < limit) :
    Stopped limit items ranked (items ++ ranked.map Prod.snd) none

theorem appendCompatiblePage_spec {α : Type} {limit : Nat} {items : List α}
    {ranked : List (Nat × α)} (hlimit : items.length < limit)
    (hranks : ∀ entry ∈ ranked, entry.1 < USIZE_MAX) :
    Stopped limit items ranked (appendCompatiblePage limit items ranked).1
      (appendCompatiblePage limit items ranked).2 := by
  induction ranked generalizing items with
  | nil =>
    have hrest : Stopped limit items ([] : List (Nat × α)) (items ++ [].map Prod.snd) none :=
      .rest (by simpa using hlimit)
    rw [List.map_nil, List.append_nil] at hrest
    exact hrest
  | cons entry ranked ih =>
    obtain ⟨rank, item⟩ := entry
    obtain ⟨hrank, hothers⟩ := List.forall_mem_cons.1 hranks
    rw [appendCompatiblePage]
    by_cases hfull : (items ++ [item]).length = limit
    · rw [if_pos hfull, if_pos (Nat.succ_le_of_lt hrank)]
      have hstop : Stopped limit items ((rank, item) :: ranked)
          (items ++ ([] : List (Nat × α)).map Prod.snd ++ [item]) (some (rank + 1)) :=
        .full rfl (by simpa using hfull)
      rw [List.map_nil, List.append_nil] at hstop
      exact hstop
    · rw [if_neg hfull]
      have hlength : (items ++ [item]).length < limit := by
        rw [List.length_append, List.length_singleton] at hfull ⊢
        omega
      have hnext := ih hlength hothers
      generalize appendCompatiblePage limit (items ++ [item]) ranked = outcome at hnext
      obtain ⟨items', offset⟩ := outcome
      cases hnext with
      | @full before after rank' item' hsplit hfull' =>
        have hstop : Stopped limit items ((rank, item) :: ranked)
            (items ++ ((rank, item) :: before).map Prod.snd ++ [item']) (some (rank' + 1)) :=
          .full (by rw [hsplit]; rfl) (by simpa using hfull')
        simpa using hstop
      | rest hfew =>
        have hstop : Stopped limit items ((rank, item) :: ranked)
            (items ++ ((rank, item) :: ranked).map Prod.snd) none :=
          .rest (by simpa using hfew)
        simpa using hstop

section stopped

variable {α : Type} {limit : Nat} {items items' : List α} {first : List (Nat × α)}

/-- Where a loop stopped, what comes behind does not matter. -/
theorem Stopped.more {rank : Nat} (h : Stopped limit items first items' (some rank))
    (rest : List (Nat × α)) : Stopped limit items (first ++ rest) items' (some rank) := by
  cases h with
  | full hsplit hlength =>
    exact .full (by rw [hsplit, List.append_assoc, List.cons_append]) hlength

theorem Stopped.all (h : Stopped limit items first items' none) :
    items' = items ++ first.map Prod.snd ∧ items'.length < limit := by
  cases h with
  | rest hlength => exact ⟨rfl, hlength⟩

/-- Where a loop took all, it goes on with what comes behind. -/
theorem Stopped.append {rest : List (Nat × α)} {offset : Option Nat}
    (h : Stopped limit (items ++ first.map Prod.snd) rest items' offset) :
    Stopped limit items (first ++ rest) items' offset := by
  cases h with
  | @full before after rank item hsplit hlength =>
    have hstop : Stopped limit items (first ++ rest)
        (items ++ (first ++ before).map Prod.snd ++ [item]) (some (rank + 1)) :=
      .full (by rw [hsplit, List.append_assoc]) (by simpa using hlength)
    simpa using hstop
  | rest hlength =>
    have hstop : Stopped limit items (first ++ rest) (items ++ (first ++ rest).map Prod.snd) none :=
      .rest (by simpa using hlength)
    simpa using hstop

end stopped

section loop

variable {T : Type} {w : World T} {client : Client} {require : List String} {available : Option Nat}

/-- The loop over the chunks takes of all candidates together. -/
theorem inspectRanked_spec {limit : Nat} {blocks : List (List (Nat × String))}
    (hsettled : ∀ c ∈ blocks.flatten, Settled w c.2)
    (hranks : blocks.flatten.Pairwise fun a b => a.1 ≤ b.1)
    (hbound : ∀ c ∈ blocks.flatten, c.1 < USIZE_MAX) {progress : Progress T}
    (hlimit : progress.compatible.length < limit) :
    ∃ progress' offset, inspectRanked w require available limit progress blocks =
        .ok (progress', offset) ∧
      Stopped limit progress.compatible
        (blocks.flatten.filterMap (accept w require available)) progress'.compatible offset := by
  induction blocks generalizing progress with
  | nil =>
    refine ⟨progress, none, rfl, ?_⟩
    have hrest : Stopped limit progress.compatible ([] : List (Nat × HubModel T))
        (progress.compatible ++ [].map Prod.snd) none := .rest (by simpa using hlimit)
    rw [List.map_nil, List.append_nil] at hrest
    exact hrest
  | cons chunk blocks ih =>
    rw [List.flatten_cons] at hsettled hranks hbound
    obtain ⟨hfirst, hrest⟩ := List.forall_mem_append.1 hsettled
    obtain ⟨hbound', hbounds⟩ := List.forall_mem_append.1 hbound
    obtain ⟨hranks', hranksRest, -⟩ := List.pairwise_append.1 hranks
    obtain ⟨diagnostics, hchunk⟩ := @inspectChunk_spec T w require available chunk hfirst hranks'
    have htaken : ∀ entry ∈ chunk.filterMap (accept w require available), entry.1 < USIZE_MAX := by
      intro entry hentry
      obtain ⟨candidate, hcandidate, haccept⟩ := List.mem_filterMap.1 hentry
      rw [accept_rank haccept]
      exact hbound' candidate hcandidate
    have happend := appendCompatiblePage_spec hlimit htaken
    rw [inspectRanked, hchunk, List.flatten_cons, List.filterMap_append]
    cases hoffset : appendCompatiblePage limit progress.compatible
      (chunk.filterMap (accept w require available)) with
    | mk compatible offset =>
      rw [hoffset] at happend
      simp only [bind, Except.bind, hoffset]
      cases offset with
      | some rank => exact ⟨⟨compatible, _, _⟩, some rank, rfl, happend.more _⟩
      | none =>
        obtain ⟨hitems, hfew⟩ := happend.all
        obtain ⟨progress', offset, hrun, hstopped⟩ := @ih hrest hranksRest hbounds ⟨compatible,
          progress.metadataScanned + chunk.length, progress.diagnostics ++ diagnostics⟩ hfew
        refine ⟨progress', offset, hrun, ?_⟩
        rw [show compatible = _ from hitems] at hstopped
        exact hstopped.append

/-! ## Ranks -/

theorem toOption_eq_some {ε α : Type} {x : Except ε α} {a : α} (h : x.toOption = some a) :
    x = .ok a := by
  cases x with
  | error _ => cases h
  | ok b => rw [Option.some.inj h]

/-- A filter on what a function keeps commutes with it. -/
theorem filterMap_filter_comm {α β : Type} {f : α → Option β} {p : α → Bool} {q : β → Bool}
    (h : ∀ a b, f a = some b → q b = p a) (xs : List α) :
    (xs.filter p).filterMap f = (xs.filterMap f).filter q := by
  induction xs with
  | nil => rfl
  | cons x xs ih =>
    cases hx : f x with
    | none =>
      rw [List.filterMap_cons_none hx, ← ih]
      cases hp : p x with
      | true => rw [List.filter_cons_of_pos hp, List.filterMap_cons_none hx]
      | false => rw [List.filter_cons_of_neg (by simp [hp])]
    | some b =>
      rw [List.filterMap_cons_some hx]
      cases hp : p x with
      | true =>
        rw [List.filter_cons_of_pos hp, List.filterMap_cons_some hx, ih,
          List.filter_cons_of_pos ((h x b hx).trans hp)]
      | false =>
        rw [List.filter_cons_of_neg (by simp [hp]), ih,
          List.filter_cons_of_neg (by simp [h x b hx, hp])]

theorem rankCandidate_rank {candidate : ModelWire × Nat} {entry : Nat × String}
    (h : rankCandidate client candidate = .ok entry) : entry.1 = candidate.2 := by
  unfold rankCandidate at h
  split at h
  · cases h
  · split at h
    · rw [← Except.ok.inj h]
    · cases h

/-- The candidates from an offset on are those with a rank from there on. -/
theorem zipIdx_drop {α : Type} (xs : List α) (start offset : Nat) :
    (xs.zipIdx start).drop offset = (xs.zipIdx start).filter fun x => start + offset ≤ x.2 := by
  induction xs generalizing start offset with
  | nil => rw [List.zipIdx_nil, List.drop_nil, List.filter_nil]
  | cons x xs ih =>
    rw [List.zipIdx_cons]
    cases offset with
    | zero =>
      rw [List.drop_zero, List.filter_cons_of_pos (by simp)]
      have hrest := ih (start + 1) 0
      rw [List.drop_zero] at hrest
      conv_lhs => rw [hrest]
      congr 1
      refine List.filter_congr fun y hy => ?_
      have hle : start + 1 ≤ y.2 := (List.mem_zipIdx hy).1
      simp only [decide_eq_decide]
      omega
    | succ offset =>
      rw [List.drop_succ_cons, ih, List.filter_cons_of_neg (by simp)]
      refine List.filter_congr fun y _ => ?_
      simp only [decide_eq_decide]
      omega

theorem zipIdx_ranks {α : Type} (xs : List α) (start : Nat) :
    (xs.zipIdx start).Pairwise fun a b => a.2 < b.2 := by
  induction xs generalizing start with
  | nil => exact .nil
  | cons x xs ih =>
    rw [List.zipIdx_cons]
    exact List.pairwise_cons.2 ⟨fun y hy => (List.mem_zipIdx hy).1, ih (start + 1)⟩

/-- The candidates to inspect from an offset on. -/
theorem rankedCandidates_drop (candidates : List ModelWire) (offset : Nat) :
    rankedCandidates client (candidates.zipIdx.drop offset) =
      (rankedCandidates client candidates.zipIdx).filter fun c => offset ≤ c.1 := by
  unfold rankedCandidates
  rw [zipIdx_drop]
  refine filterMap_filter_comm (fun candidate entry hentry => ?_) _
  rw [rankCandidate_rank (toOption_eq_some hentry), Nat.zero_add]

theorem rankedCandidates_ranks (candidates : List ModelWire) :
    (rankedCandidates client candidates.zipIdx).Pairwise fun a b => a.1 < b.1 := by
  unfold rankedCandidates
  refine List.Pairwise.filterMap _ (fun a a' hlt b hb b' hb' => ?_) (zipIdx_ranks candidates 0)
  have hrank : b.1 = a.2 := rankCandidate_rank (toOption_eq_some hb)
  have hrank' : b'.1 = a'.2 := rankCandidate_rank (toOption_eq_some hb')
  omega

theorem rankedCandidates_bound {candidates : List ModelWire} :
    ∀ c ∈ rankedCandidates client candidates.zipIdx, c.1 < candidates.length := by
  intro c hc
  obtain ⟨candidate, hcandidate, hrank⟩ := List.mem_filterMap.1 hc
  have hsame : c.1 = candidate.2 := rankCandidate_rank (toOption_eq_some hrank)
  have hlt := (List.mem_zipIdx hcandidate).2.1
  rw [hsame]
  simpa using hlt

/-- The models that are taken from an offset on. -/
theorem accepted_drop (response : Response) (offset : Nat) :
    (rankedCandidates client (response.candidates.zipIdx.drop offset)).filterMap
        (accept w require available) =
      (accepted w client require available response).filter fun entry => offset ≤ entry.1 := by
  rw [rankedCandidates_drop, accepted]
  refine filterMap_filter_comm (fun candidate entry hentry => ?_) _
  rw [accept_rank hentry]

theorem accepted_ranks (response : Response) :
    (accepted w client require available response).Pairwise fun a b => a.1 < b.1 := by
  refine List.Pairwise.filterMap _ (fun a a' hlt b hb b' hb' => ?_) (rankedCandidates_ranks _)
  rw [accept_rank hb, accept_rank hb']
  exact hlt

end loop

end Search

end Hub

end Emelex

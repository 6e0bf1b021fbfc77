import Emelex.Engine.GenerateCached

/-!
# Prompt caching is transparent

For a model whose forward is a function of the fed prefix (`PrefixModel`), text-only calls with
and without caching start to decode from the same state.

* `ExactContent` — an entry's caches hold its ids, and its MTP state is primed on them.
* `PoolExact` — every entry is exact: the invariant of the session.
* `coldStart` — what a cold run holds when it starts to decode.
* `startDecoding` — the part of a call before the decode loop.

Principal results: `wp_startDecoding` (from an exact pool, decoding starts as in a cold run),
`wp_generateCachedInner` (a call keeps the pool exact, whether it returns or fails),
`prompt_cache_transparent` (both, in every run of calls).
-/

set_option autoImplicit false

namespace Emelex

open Program

namespace RoundDriver

variable {O G : Type} [RowSampler G] [RoundOps O G]

/-- The ledgers are aligned when the decode loop is left. -/
theorem decodeLoop_aligned {L : Ledgers O} (hL : Honours L) {prompt : List TokenId} :
    ∀ (fuel : Nat) (next : TokenId) (d : RoundDriver O), Entry L prompt d →
      wp (decodeLoop fuel next) (fun _ d' => Aligned L prompt d') (fun _ _ => True) d
  | 0, _, _, h => h.toAligned
  | fuel + 1, next, d, h => by
    unfold decodeLoop
    rw [wp_bind, wp_get]
    split
    · rw [wp_bind]
      refine wp_mono (runRound_aligned hL h next) ?_ (fun _ _ _ => trivial)
      rintro r d' ⟨ha, hall⟩
      cases r with
      | continue_ successor => exact decodeLoop_aligned hL fuel successor d' ⟨ha, hall _ rfl⟩
      | finished => exact ha
      | aborted => exact ha
      | budget => exact ha
    · exact h.toAligned

end RoundDriver

section Exact

variable {C M G : Type} [RowSampler G] [ModelOps C M G]

/-! ## Exact entries -/

/-- The pairs that an MTP module primed on `ids` holds: each token but the first, with the
hidden of the row before it. -/
def primedPairs {H : Type} (hiddenAt : List TokenId → H) (ids : List TokenId) : List (TokenId × H) :=
  ids.tail.zip (successors hiddenAt [] ids)

/-- An MTP state is primed on exactly `ids`. -/
structure PrimedOn (K : CacheLedger C M) (hiddenAt : List TokenId → ModelOps.Hidden C M)
    (state : MtpState M (ModelOps.Hidden C M)) (ids : List TokenId) : Prop where
  pairs : K.pairs state.caches = primedPairs hiddenAt ids
  frontier : state.frontier = hiddenAt ids
  pairsFed : state.pairsFed + 1 = ids.length

/-- An entry holds exactly what its ids say. -/
structure ExactEntry (K : CacheLedger C M) (hiddenAt : List TokenId → ModelOps.Hidden C M)
    (ids : List TokenId) (caches : C) (mtp : Option (MtpState M (ModelOps.Hidden C M))) :
    Prop where
  caches : K.Holds caches ids
  mtp : ∀ state, mtp = some state → PrimedOn K hiddenAt state ids

/-- Every entry of the pool is exact. -/
def PoolExact (K : CacheLedger C M) (hiddenAt : List TokenId → ModelOps.Hidden C M)
    (pool : PromptCachePool C M (ModelOps.Hidden C M)) : Prop :=
  ∀ x ∈ pool.contents, ExactEntry K hiddenAt x.1 x.2.1 x.2.2.2.2

variable {K : CacheLedger C M} {hiddenAt : List TokenId → ModelOps.Hidden C M}

theorem shifted_canonical {H : Type} {hiddenAt : List TokenId → H} (ids : List TokenId) :
    shifted (canonical hiddenAt ids) =
      (primedPairs hiddenAt ids).map fun p => (p.1, some p.2) := by
  unfold shifted primedPairs canonical
  rw [List.map_tail, rowsOf_fst, rowsOf_snd (successors_length _ _), List.zip_map_right]
  rfl

/-- The primed state of a prefill, spelled out. -/
theorem primed_iff {m : M} {f : ModelOps.Hidden C M} {ids : List TokenId} :
    Primed K hiddenAt m f ids ↔
      ids ≠ [] ∧ K.pairs m = primedPairs hiddenAt ids ∧ f = hiddenAt ids := by
  have hinj : Function.Injective fun p : TokenId × ModelOps.Hidden C M => (p.1, some p.2) := by
    rintro ⟨a, b⟩ ⟨a', b'⟩ h
    obtain ⟨ha, hb⟩ := Prod.mk.inj h
    exact Prod.ext ha (Option.some.inj hb)
  have hlast : ids ≠ [] → lastHidden (canonical hiddenAt ids) = some (hiddenAt ids) := by
    intro hne
    unfold lastHidden canonical
    rw [← List.getLast?_map, rowsOf_snd (successors_length _ _), List.getLast?_map,
      getLast?_successors [] hne]
    rfl
  constructor
  · intro h
    have hne : ids ≠ [] := by
      rintro rfl
      cases h.last
    refine ⟨hne, List.map_injective_iff.2 hinj (h.pairs.trans (shifted_canonical ids)), ?_⟩
    exact Option.some.inj (h.last.symm.trans (hlast hne))
  · rintro ⟨hne, hp, rfl⟩
    exact ⟨hlast hne, by rw [hp, shifted_canonical]⟩

theorem primedPairs_length {H : Type} {hiddenAt : List TokenId → H} (ids : List TokenId) :
    (primedPairs hiddenAt ids).length = ids.length - 1 := by
  simp [primedPairs]

/-- What the call makes of a primed state when it stores it. -/
theorem Primed.primedOn (hP : PrefixModel K hiddenAt) {m : M} {f : ModelOps.Hidden C M}
    {ids : List TokenId} (h : Primed K hiddenAt m f ids) :
    PrimedOn K hiddenAt ⟨m, ModelOps.pairsFed C m, f⟩ ids := by
  obtain ⟨hne, hp, rfl⟩ := primed_iff.1 h
  refine ⟨hp, rfl, ?_⟩
  have hpos := List.length_pos_iff.2 hne
  show ModelOps.pairsFed C m + 1 = ids.length
  rw [hP.pairsFed, hp, primedPairs_length]
  omega

theorem PrimedOn.primed {state : MtpState M (ModelOps.Hidden C M)} {ids : List TokenId}
    (h : PrimedOn K hiddenAt state ids) : Primed K hiddenAt state.caches state.frontier ids := by
  refine primed_iff.2 ⟨?_, h.pairs, h.frontier⟩
  rintro rfl
  exact absurd h.pairsFed (Nat.succ_ne_zero _)

namespace Session

variable (session : Session)

/-! ## What a call works on -/

/-- A call brings no media. -/
def TextOnly (call : Call C M) : Prop :=
  ∀ ids media pending, call.encoded = .ok (ids, media, pending) → media.isEmpty = true

/-- The working state of a text-only call: the caches hold the part of the prompt that counts as
fed, and the MTP state of a call that speculates is primed on it. -/
structure WorkingOn (K : CacheLedger C M) (hiddenAt : List TokenId → ModelOps.Hidden C M)
    (fullIds : List TokenId) (specRequested : Bool) (w : Working C M) : Prop where
  caches : K.Holds w.caches (fullIds.take w.fedLen)
  mtp : specRequested = true → MtpFor K hiddenAt (fullIds.take w.fedLen) w.mtp
  pristine : specRequested = true → w.mtp = none → ModelOps.isPristine M w.caches = true
  none : specRequested = false → w.mtp = none

/-- What a decode loop that starts from `start` works on. -/
def startContents (K : CacheLedger C M) (start : DecodeStart C M) :
    List TokenId × List TokenId × Option (List (TokenId × ModelOps.Hidden C M) × ModelOps.Hidden C M) :=
  (K.attn start.caches, K.recur start.caches, start.mtp.map fun m => (K.pairs m.1, m.2))

/-- What a cold run on `ids` starts from: target caches that hold `ids`, and when it speculates
an MTP state primed on `ids`. -/
def coldStart (hiddenAt : List TokenId → ModelOps.Hidden C M) (ids : List TokenId)
    (specRequested : Bool) :
    List TokenId × List TokenId × Option (List (TokenId × ModelOps.Hidden C M) × ModelOps.Hidden C M) :=
  (ids, ids, if specRequested then some (primedPairs hiddenAt ids, hiddenAt ids) else none)

theorem wp_engine {α : Type} {m : EngineM α} {P : α → Prop} {Q : α → SessionState C M → Prop}
    {E : Error → SessionState C M → Prop} {s : SessionState C M} (hm : Ensures m P)
    (hQ : ∀ a n, P a → Q a { s with polls := n }) (hE : ∀ e n, E e { s with polls := n }) :
    wp (engine m) Q E s := by
  have h := hm s.polls
  unfold wp at *
  unfold engine
  rcases hr : m s.polls with ⟨e | a, n⟩
  · exact hE e n
  · rw [hr] at h
    exact hQ a n h

theorem workingOn_served {fullIds : List TokenId} {specRequested : Bool}
    {pool pool' : PromptCachePool C M (ModelOps.Hidden C M)}
    (hpool : PoolExact K hiddenAt pool) {expire now n : Nat}
    {e : CacheEntry C M (ModelOps.Hidden C M)}
    (h : pool.findLongestCompatiblePrefix fullIds specRequested expire now = (some (e, n), pool')) :
    WorkingOn K hiddenAt fullIds specRequested (served specRequested e n) := by
  obtain ⟨rfl, hne, hpre, hmtp, hmem, -⟩ := PromptCachePool.find_spec h
  have hexact := hpool _ hmem
  have htake : fullIds.take e.ids.length = e.ids := (List.prefix_iff_eq_take.1 hpre).symm
  have hcaches : K.Holds e.caches (fullIds.take e.ids.length) := by
    rw [htake]
    exact hexact.caches
  cases specRequested with
  | true =>
    obtain ⟨state, hs⟩ := Option.isSome_iff_exists.1 (hmtp rfl)
    have hw : (served true e e.ids.length).mtp = some (state.caches, state.frontier) := by
      unfold served
      rw [hs]
      rfl
    refine ⟨hcaches, fun _ => ?_, fun _ hn => ?_, fun h => (by cases h)⟩
    · rw [hw]
      show Primed K hiddenAt state.caches state.frontier (fullIds.take e.ids.length)
      rw [htake]
      exact (hexact.mtp state hs).primed
    · rw [hw] at hn
      cases hn
  | false =>
    have hw : (served false e e.ids.length).mtp = none := by
      unfold served
      cases e.mtp <;> rfl
    exact ⟨hcaches, fun h => (by cases h), fun h => (by cases h), fun _ => hw⟩

section Steps

variable (hP : PrefixModel K hiddenAt) {fullIds : List TokenId} {specRequested : Bool}
include hP

theorem workingOn_cold : WorkingOn K hiddenAt fullIds specRequested (cold : Working C M) where
  caches := hP.newCaches
  mtp _ := rfl
  pristine _ _ := hP.newCaches_pristine
  none _ := rfl

theorem workingOn_reset {w : Working C M} (hw : WorkingOn K hiddenAt fullIds specRequested w) :
    WorkingOn K hiddenAt fullIds specRequested (resetIfWhole fullIds w) := by
  unfold resetIfWhole
  split
  · exact workingOn_cold hP
  · exact hw

/-- The lookup serves a working state, and keeps the pool exact. -/
theorem wp_lookup {enabled : Bool} {clock : Clock} {s : SessionState C M}
    {E : Error → SessionState C M → Prop}
    (hpool : enabled = true → PoolExact K hiddenAt s.pool) :
    wp (lookup fullIds enabled specRequested clock)
      (fun w s' => WorkingOn K hiddenAt fullIds specRequested w ∧
        (PoolExact K hiddenAt s.pool → PoolExact K hiddenAt s'.pool)) E s := by
  unfold lookup
  cases enabled with
  | false => exact ⟨workingOn_cold hP, fun h => h⟩
  | true =>
    have hkeep : PoolExact K hiddenAt (s.pool.findLongestCompatiblePrefix fullIds specRequested
        clock.lookupExpire clock.lookupTouch).2 :=
      fun x hx => hpool rfl x (PromptCachePool.find_contents _ _ _ _ _ hx)
    simp only [if_true, wp_bind, wp_call]
    rcases hf : s.pool.findLongestCompatiblePrefix fullIds specRequested clock.lookupExpire
      clock.lookupTouch with ⟨_ | ⟨e, n⟩, pool'⟩
    · rw [hf] at hkeep
      exact ⟨workingOn_cold hP, fun _ => hkeep⟩
    · rw [hf] at hkeep
      exact ⟨workingOn_served (hpool rfl) hf, fun _ => hkeep⟩

theorem ensures_feedTo {pre p : List TokenId} {w : Working C M} {cancellation : Cancellation}
    (hc : K.Holds w.caches p) (hm : specRequested = true → MtpFor K hiddenAt p w.mtp)
    (hn : specRequested = false → w.mtp = none) :
    Ensures (feedTo pre specRequested w cancellation) fun r =>
      K.Holds r.1 (p ++ pre) ∧
        (specRequested = true → ∃ m, r.2 = some m ∧ Primed K hiddenAt m.1 m.2 (p ++ pre)) ∧
        (specRequested = false → r.2 = none) := by
  unfold feedTo
  cases specRequested with
  | true =>
    refine ensures_bind (ensures_prefillMtp hP hc (hm rfl) cancellation) ?_
    rintro r ⟨hc', hm'⟩
    exact ensures_seq fun _ =>
      ensures_pure ⟨hc', fun _ => ⟨r.2.2, rfl, hm'⟩, fun h => (by cases h)⟩
  | false =>
    refine ensures_bind (ensures_prefillPlain hP hc cancellation) ?_
    intro r hc'
    exact ensures_seq fun _ => ensures_seq fun _ =>
      ensures_pure ⟨hc', fun h => (by cases h), fun _ => hn rfl⟩

/-- A stored snapshot is exact. -/
def SnapshotExact (K : CacheLedger C M) (hiddenAt : List TokenId → ModelOps.Hidden C M)
    (snapshot : Option (Snapshot C M)) : Prop :=
  ∀ snap, snapshot = some snap → ExactEntry K hiddenAt snap.ids snap.caches snap.mtp

theorem ensures_feedBoundary {boundaryLen : Option Nat} {snapshots : Bool} {w : Working C M}
    {cancellation : Cancellation} (hw : WorkingOn K hiddenAt fullIds specRequested w) :
    Ensures (feedBoundary fullIds boundaryLen snapshots specRequested w cancellation) fun r =>
      WorkingOn K hiddenAt fullIds specRequested r.1 ∧ SnapshotExact K hiddenAt r.2 := by
  have hnone : WorkingOn K hiddenAt fullIds specRequested w ∧
      SnapshotExact K hiddenAt (none : Option (Snapshot C M)) := ⟨hw, fun snap h => (by cases h)⟩
  unfold feedBoundary
  cases boundaryLen with
  | none => exact ensures_pure hnone
  | some len =>
    dsimp only
    split
    · rename_i hcond
      rw [Bool.and_eq_true, Bool.and_eq_true, decide_eq_true_iff, decide_eq_true_iff] at hcond
      obtain ⟨⟨-, hlt⟩, -⟩ := hcond
      have hpre : fullIds.take w.fedLen ++ slice fullIds w.fedLen len = fullIds.take len := by
        unfold slice
        rw [← List.take_add, Nat.add_sub_cancel' (Nat.le_of_lt hlt)]
      unfold snapshotAt
      refine ensures_bind (ensures_feedTo hP hw.caches hw.mtp hw.none) ?_
      rintro ⟨caches, mtp⟩ ⟨hc, hm, hn⟩
      rw [hpre] at hc hm
      refine ensures_pure ⟨⟨hc, ?_, ?_, hn⟩, ?_⟩
      · intro h
        obtain ⟨m, rfl, hprimed⟩ := hm h
        exact hprimed
      · intro h hnone
        obtain ⟨m, rfl, -⟩ := hm h
        cases hnone
      · rintro snap ⟨⟩
        refine ⟨hc, ?_⟩
        intro state hs
        obtain ⟨m, hm', rfl⟩ := Option.map_eq_some_iff.1 hs
        cases specRequested with
        | true =>
          obtain ⟨m', hm'', hprimed⟩ := hm rfl
          have h : (some m' : Option (MtpPair C M)) = some m := hm''.symm.trans hm'
          rw [Option.some.inj h] at hprimed
          exact hprimed.primedOn hP
        | false =>
          rw [show mtp = none from hn rfl] at hm'
          cases hm'
    · exact ensures_pure hnone

/-- What a text-only suffix prefill leaves, when the working state is right. -/
theorem ensures_prefillSuffix {media : MediaInputs C M} {options : GenerateOptions}
    {cancellation : Cancellation} {rng : G} {w : Working C M}
    (hw : WorkingOn K hiddenAt fullIds (speculates session options) w)
    (hmedia : media.isEmpty = true) :
    Ensures (prefillSuffix session (fullIds.drop w.fedLen) media w.caches options w.mtp
        cancellation rng) fun start =>
      K.Holds start.caches fullIds ∧
        (speculates session options = true →
          ∃ m, start.mtp = some m ∧ Primed K hiddenAt m.1 m.2 fullIds) ∧
        (speculates session options = false → start.mtp = none) := by
  have hsuffix := List.take_append_drop w.fedLen fullIds
  unfold prefillSuffix
  simp only [hmedia, if_true]
  cases hm : w.mtp with
  | some state =>
    have hspec : speculates session options = true := by
      rw [← Bool.not_eq_false]
      intro h
      rw [hw.none h] at hm
      cases hm
    have hprimed := hw.mtp hspec
    rw [hm] at hprimed
    refine ensures_bind (ensures_prefillMtp hP hw.caches hprimed cancellation) ?_
    rintro r ⟨hc, hm'⟩
    rw [hsuffix] at hc hm'
    refine ensures_bind (P := fun start => start.caches = r.2.1 ∧ start.mtp = some r.2.2) ?_ ?_
    · exact ensures_bind (ensures_ofExcept fun next h => h) fun next _ => ensures_pure ⟨rfl, rfl⟩
    · rintro start ⟨hcs, hms⟩
      refine ensures_seq fun _ => ensures_pure ⟨?_, fun _ => ⟨r.2.2, hms, hm'⟩, ?_⟩
      · rw [hcs]
        exact hc
      · intro h
        rw [hspec] at h
        cases h
  | none =>
    dsimp only
    have hand : ((resolveSpeculativeTokens options).isSome && session.mtpCertified &&
        ModelOps.isPristine M w.caches) = speculates session options := by
      show (speculates session options && _) = _
      cases hspec : speculates session options with
      | false => rfl
      | true => rw [hw.pristine hspec hm]; rfl
    rw [hand]
    unfold prefillPrompt
    cases hspec : speculates session options with
    | false =>
      refine ensures_bind (ensures_prefillPlain hP hw.caches cancellation) ?_
      intro r hc
      rw [hsuffix] at hc
      exact ensures_bind (ensures_ofExcept fun next h => h) fun next _ =>
        ensures_pure ⟨hc, fun h => (by cases h), fun _ => rfl⟩
    | true =>
      have hprimed := hw.mtp hspec
      rw [hm] at hprimed
      refine ensures_bind (ensures_prefillMtp hP hw.caches hprimed cancellation) ?_
      rintro r ⟨hc, hm'⟩
      rw [hsuffix] at hc hm'
      refine ensures_bind (P := fun start => start.caches = r.2.1 ∧ start.mtp = some r.2.2) ?_ ?_
      · exact ensures_bind (ensures_ofExcept fun next h => h) fun next _ => ensures_pure ⟨rfl, rfl⟩
      · rintro start ⟨hcs, hms⟩
        refine ensures_seq fun _ => ensures_pure ⟨?_, fun _ => ⟨r.2.2, hms, hm'⟩, ?_⟩
        · rw [hcs]
          exact hc
        · intro h
          cases h

omit hP in
/-- The suffix prefill does not start on an empty suffix. -/
theorem ensures_prefillSuffix_ne {ids : List TokenId} {media : MediaInputs C M} {caches : C}
    {options : GenerateOptions} {mtp : Option (MtpPair C M)} {cancellation : Cancellation}
    {rng : G} (hmedia : media.isEmpty = true) :
    Ensures (prefillSuffix session ids media caches options mtp cancellation rng)
      fun _ => ids ≠ [] := by
  have hmtp : ∀ m : Option (MtpPair C M),
      Ensures (prefillMtp ids caches m cancellation) fun _ => ids ≠ [] := by
    intro m
    refine ensures_bind ensures_runPrefillChunks_ne ?_
    intro r hne
    split
    · exact ensures_pure hne
    · exact ensures_throw _
  unfold prefillSuffix
  simp only [hmedia, if_true]
  cases mtp with
  | some state =>
    exact ensures_bind (hmtp _) fun r hne => ensures_seq fun _ => ensures_seq fun _ => ensures_pure hne
  | none =>
    dsimp only
    unfold prefillPrompt
    split
    · exact ensures_bind ensures_runPrefillChunks_ne fun r hne =>
        ensures_seq fun next => ensures_pure hne
    · exact ensures_bind (hmtp _) fun r hne =>
        ensures_seq fun _ => ensures_seq fun _ => ensures_pure hne

/-! ## The decode loop -/

theorem handoff_spec {mtp : Option M} {frontier : Option (ModelOps.Hidden C M)}
    {state : MtpState M (ModelOps.Hidden C M)} (h : handoff mtp frontier = some state) :
    ∃ m f, mtp = some m ∧ frontier = some f ∧ state = ⟨m, ModelOps.pairsFed C m, f⟩ := by
  unfold handoff at h
  cases mtp with
  | none => cases h
  | some m =>
    cases frontier with
    | none => cases h
    | some f =>
      dsimp only at h
      cases hc : ModelOps.contiguous (C := C) (M := M) [f] with
      | error e => rw [hc] at h; cases h
      | ok row =>
        rw [hc] at h
        obtain rfl := hP.contiguous _ _ hc
        exact ⟨m, f, rfl, rfl, (Option.some.inj h).symm⟩

omit hP in
/-- The ledgers at the start of the decode loop. -/
theorem driver_entry {start : DecodeStart C M} {options : GenerateOptions}
    {pendingReasoning : Option (Str × Str)} {onToken : List GeneratedToken → Bool}
    (hc : K.Holds start.caches fullIds)
    (hm : ∀ m, start.mtp = some m → Primed K hiddenAt m.1 m.2 fullIds) :
    RoundDriver.Entry (SessionOps.ledgers K hiddenAt) fullIds
      (driver session start options pendingReasoning onToken) where
  committed := by
    refine ⟨?_, Nat.zero_le _, ?_⟩
    · show (canonical hiddenAt (K.attn start.caches)).map Prod.fst = _
      rw [canonical_fst, hc.attn]
      exact (List.append_nil _).symm
    · intro _
      show canonical hiddenAt (K.recur start.caches) = canonical hiddenAt (K.attn start.caches)
      rw [show K.recur start.caches = K.attn start.caches from hc.inStep]
  mtp := by
    show MtpAligned ((SessionOps.ledgers K hiddenAt).view ⟨start.caches, start.mtp.map Prod.fst⟩)
      (start.mtp.map Prod.snd)
    cases hs : start.mtp with
    | none => exact mtpAligned_none rfl
    | some m =>
      refine (mtpAligned_some rfl).2 ?_
      show Resumable (canonical hiddenAt (K.attn start.caches)) (K.pairs m.1) m.2
      rw [hc.attn]
      exact hm m hs
  all := rfl

/-- The outcome of the decode loop: the caches hold the prompt with the committed part of the
reply, and a surviving MTP state is primed on it. -/
theorem decodeLoop_spec {start : DecodeStart C M} {options : GenerateOptions}
    {pendingReasoning : Option (Str × Str)} {onToken : List GeneratedToken → Bool}
    {outcome : DecodeOutcome C M} (hc : K.Holds start.caches fullIds)
    (hm : ∀ m, start.mtp = some m → Primed K hiddenAt m.1 m.2 fullIds)
    (h : decodeLoop session start options pendingReasoning onToken = .ok outcome) :
    ExactEntry K hiddenAt (fullIds ++ outcome.emitted.take outcome.committedLen) outcome.caches
      outcome.mtp := by
  have hwp := RoundDriver.decodeLoop_aligned (SessionOps.honours hP) options.maxTokens start.next
    (driver session start options pendingReasoning onToken) (driver_entry session hc hm)
  unfold decodeLoop at h
  unfold wp at hwp
  rcases hr : RoundDriver.decodeLoop options.maxTokens start.next
    (driver session start options pendingReasoning onToken) with ⟨e | r, d⟩ <;> rw [hr] at h hwp
  · cases h
  · obtain rfl := Except.ok.inj h
    have htokens : K.attn d.ops.caches = fullIds ++ d.emitter.emitted.take d.committedLen := by
      rw [← hwp.committed.tokens]
      exact (canonical_fst _).symm
    show ExactEntry K hiddenAt (fullIds ++ d.emitter.intoEmitted.take d.committedLen) d.ops.caches
      (handoff d.ops.mtp d.frontier)
    rw [TokenEmitter.intoEmitted_eq]
    refine ⟨⟨htokens, ?_⟩, ?_⟩
    · exact SessionOps.inStep_of_synced hP hwp.committed.recur
    · intro state hs
      obtain ⟨m, f, hmtp, hf, rfl⟩ := handoff_spec hP hs
      have hpairs : ((SessionOps.ledgers K hiddenAt).view d.ops).pairs = some (K.pairs m) := by
        show d.ops.mtp.map K.pairs = _
        rw [hmtp]
        rfl
      have ha := hwp.mtp
      rw [hf, mtpAligned_some hpairs] at ha
      have ha : Resumable (canonical hiddenAt (K.attn d.ops.caches)) (K.pairs m) f := ha
      rw [htokens] at ha
      exact Primed.primedOn hP ha

/-! ## The pool -/

omit hP in
theorem alignedMtp_some {n : Nat} {mtp : Option (MtpState M (ModelOps.Hidden C M))}
    {state : MtpState M (ModelOps.Hidden C M)} (h : alignedMtp n mtp = some state) :
    mtp = some state := by
  unfold alignedMtp at h
  split at h
  · split at h
    · cases h
    · exact h
  · cases h

omit hP in
/-- Storing an exact entry keeps the pool exact. -/
theorem poolExact_insert {pool : PromptCachePool C M (ModelOps.Hidden C M)}
    (hpool : PoolExact K hiddenAt pool) {ids : List TokenId} {caches : C} {fi fa : Nat}
    {pinned : Bool} {mtp : Option (MtpState M (ModelOps.Hidden C M))} {expire now : Nat}
    (h : ExactEntry K hiddenAt ids caches mtp) :
    PoolExact K hiddenAt (pool.insertOrUpdate ids caches fi fa pinned mtp expire now) := by
  intro x hx
  rcases PromptCachePool.insertOrUpdate_contents x hx with hx | rfl
  · exact hpool x hx
  · exact ⟨h.caches, fun state hs => h.mtp state (alignedMtp_some hs)⟩

end Steps

/-! ## A call -/

/-- The part of a call before its decode loop. -/
def startDecoding (call : Call C M) :
    SessionM C M (Admitted C M × Prepared C M × DecodeStart C M) := do
  let req ← engine (checkCall session call)
  let prepared ← prepare session call req
  let w := prepared.working
  engine call.cancellation.checkpoint
  let start ← engine (prefillSuffix session (newSuffix req w) (newMedia req w) w.caches
    call.options w.mtp call.cancellation call.rng)
  engine call.cancellation.checkpoint
  pure (req, prepared, start)

/-- The rest of the call. -/
def finishCall (call : Call C M) (r : Admitted C M × Prepared C M × DecodeStart C M) :
    SessionM C M GenerateReply := do
  let outcome ← engine (.ofExcept (decodeLoop session r.2.2 call.options r.1.pendingReasoning
    call.onToken))
  engine call.cancellation.checkpoint
  Prog.when (cacheEnabled call.options)
    (.modify fun s => { s with pool := store call r.1 r.2.1.snapshot outcome s.pool })
  let reply ← .ofExcept (replyText session r.1 outcome)
  pure
    { text := reply.2
      usage := ⟨r.1.fullIds.length, r.2.1.poolHitTokens, outcome.emitted.length⟩
      reasoning := reply.1
      speculation := outcome.speculation }

theorem engine_bind {α β : Type} (m : EngineM α) (f : α → EngineM β) :
    (engine (m >>= f) : SessionM C M β) = engine m >>= fun a => engine (f a) := by
  funext s
  show engine (Prog.andThen m f) s = Prog.andThen (engine m) (fun a => engine (f a)) s
  unfold engine Prog.andThen
  rcases hr : m s.polls with ⟨_ | a, n⟩ <;> simp [hr]

/-- A call is its start, then the rest. -/
theorem generateCachedInner_eq (call : Call C M) :
    generateCachedInner session call = startDecoding session call >>= finishCall session call := by
  unfold generateCachedInner startDecoding finishCall generateWithMediaInner
  simp only [bind_assoc, pure_bind, engine_bind]

section Calls

variable (hP : PrefixModel K hiddenAt) {call : Call C M}

theorem ensures_checkCall : Ensures (checkCall session call) fun req =>
    call.encoded = .ok (req.fullIds, req.media, req.pendingReasoning) := by
  unfold checkCall
  refine ensures_seq fun _ => ?_
  split
  · exact ensures_throw _
  · refine ensures_bind (ensures_ofExcept fun encoded h => h) ?_
    intro encoded h
    dsimp only
    split
    · exact ensures_throw _
    · split
      · exact ensures_throw _
      · exact ensures_seq fun _ => ensures_pure h

include hP

/-- Nothing that the preparation serves is wrong, and it keeps the pool exact. -/
theorem wp_prepare {req : Admitted C M} {s : SessionState C M} (hmedia : req.media.isEmpty = true)
    (hpool : cacheEnabled call.options = true → PoolExact K hiddenAt s.pool) :
    wp (prepare session call req)
      (fun p s' => WorkingOn K hiddenAt req.fullIds (speculates session call.options) p.working ∧
        SnapshotExact K hiddenAt p.snapshot ∧
        (PoolExact K hiddenAt s.pool → PoolExact K hiddenAt s'.pool))
      (fun _ s' => PoolExact K hiddenAt s.pool → PoolExact K hiddenAt s'.pool) s := by
  unfold prepare
  dsimp only
  rw [hmedia, Bool.and_true, wp_bind]
  refine wp_mono (wp_lookup hP hpool (E := fun _ _ => False)) ?_ (fun _ _ h => h.elim)
  rintro found s' ⟨hw, hkeep⟩
  have hw := workingOn_reset hP hw
  split
  · exact hkeep
  · rw [wp_bind]
    refine wp_engine (ensures_feedBoundary hP hw) ?_ ?_
    · rintro r n ⟨hw', hsnap⟩
      exact ⟨hw', hsnap, hkeep⟩
    · intro e n
      exact hkeep

/-- What decoding starts from. -/
structure StartsCold (K : CacheLedger C M) (hiddenAt : List TokenId → ModelOps.Hidden C M)
    (specRequested : Bool) (req : Admitted C M) (w : Working C M) (start : DecodeStart C M) :
    Prop where
  served : K.Holds w.caches (req.fullIds.take w.fedLen)
  suffix : newSuffix req w ≠ []
  contents : startContents K start = coldStart hiddenAt req.fullIds specRequested

omit hP in
theorem startContents_eq {start : DecodeStart C M} {ids : List TokenId} {specRequested : Bool}
    (hc : K.Holds start.caches ids)
    (hm : specRequested = true → ∃ m, start.mtp = some m ∧ Primed K hiddenAt m.1 m.2 ids)
    (hn : specRequested = false → start.mtp = none) :
    startContents K start = coldStart hiddenAt ids specRequested := by
  unfold startContents coldStart
  rw [show K.recur start.caches = K.attn start.caches from hc.inStep, hc.attn]
  cases specRequested with
  | true =>
    obtain ⟨m, hs, hprimed⟩ := hm rfl
    obtain ⟨-, hp, hf⟩ := primed_iff.1 hprimed
    rw [hs, Option.map_some, hp, hf]
    rfl
  | false =>
    rw [hn rfl]
    rfl

/-- From an exact pool a text-only call starts to decode as a cold run does. -/
theorem wp_startDecoding {s : SessionState C M} (htext : TextOnly call)
    (hpool : cacheEnabled call.options = true → PoolExact K hiddenAt s.pool) :
    wp (startDecoding session call)
      (fun r s' => call.encoded = .ok (r.1.fullIds, r.1.media, r.1.pendingReasoning) ∧
        StartsCold K hiddenAt (speculates session call.options) r.1 r.2.1.working r.2.2 ∧
        (K.Holds r.2.2.caches r.1.fullIds ∧
          ∀ m, r.2.2.mtp = some m → Primed K hiddenAt m.1 m.2 r.1.fullIds) ∧
        SnapshotExact K hiddenAt r.2.1.snapshot ∧
        (PoolExact K hiddenAt s.pool → PoolExact K hiddenAt s'.pool))
      (fun _ s' => PoolExact K hiddenAt s.pool → PoolExact K hiddenAt s'.pool) s := by
  unfold startDecoding
  rw [wp_bind]
  refine wp_engine (ensures_checkCall session) ?_ (fun _ _ h => h)
  intro req n hreq
  have hmedia := htext _ _ _ hreq
  rw [wp_bind]
  refine wp_mono (wp_prepare session hP hmedia (s := { s with polls := n }) hpool) ?_
    (fun _ _ h => h)
  rintro p s' ⟨hw, hsnap, hkeep⟩
  have hnew : (newMedia req p.working).isEmpty = true := by
    unfold MediaInputs.isEmpty at hmedia ⊢
    rw [Bool.and_eq_true, List.isEmpty_iff, List.isEmpty_iff] at hmedia
    unfold newMedia
    rw [hmedia.1, hmedia.2, List.drop_nil, List.drop_nil]
    rfl
  simp only [wp_bind]
  refine wp_engine ensures_trivial ?_ (fun _ _ => hkeep)
  intro _ _ _
  refine wp_engine (ensures_and (ensures_prefillSuffix session hP hw hnew)
    (ensures_prefillSuffix_ne session hnew)) ?_ (fun _ _ => hkeep)
  rintro start _ ⟨⟨hc, hm, hn⟩, hne⟩
  refine wp_engine ensures_trivial ?_ (fun _ _ => hkeep)
  intro _ _ _
  refine ⟨hreq, ⟨hw.caches, hne, startContents_eq hc hm hn⟩, ⟨hc, ?_⟩, hsnap, hkeep⟩
  intro m hs
  cases hspec : speculates session call.options with
  | true =>
    obtain ⟨m', hs', hprimed⟩ := hm hspec
    rw [hs] at hs'
    rw [Option.some.inj hs']
    exact hprimed
  | false =>
    rw [hn hspec] at hs
    cases hs

/-- A text-only call keeps the pool exact, whether it returns or fails. -/
theorem wp_generateCachedInner {s : SessionState C M} (htext : TextOnly call)
    (hpool : PoolExact K hiddenAt s.pool) :
    wp (generateCachedInner session call) (fun _ s' => PoolExact K hiddenAt s'.pool)
      (fun _ s' => PoolExact K hiddenAt s'.pool) s := by
  rw [generateCachedInner_eq, wp_bind]
  refine wp_mono (wp_startDecoding session hP htext fun _ => hpool) ?_ (fun _ _ h => h hpool)
  rintro ⟨req, p, start⟩ s' ⟨hreq, -, ⟨hc, hm⟩, hsnap, hkeep⟩
  have hpool' := hkeep hpool
  unfold finishCall
  simp only [wp_bind]
  refine wp_engine (ensures_ofExcept fun outcome h => h) ?_ (fun _ _ => hpool')
  intro outcome n ho
  have hexact := decodeLoop_spec session hP hc hm ho
  have hstore : PoolExact K hiddenAt (store call req p.snapshot outcome s'.pool) := by
    unfold store
    cases hsn : p.snapshot with
    | some snap => exact poolExact_insert hpool' (hsnap snap hsn)
    | none => exact poolExact_insert hpool' hexact
  refine wp_engine ensures_trivial ?_ (fun _ _ => hpool')
  intro _ _ _
  have hreply : ∀ s'' : SessionState C M, PoolExact K hiddenAt s''.pool →
      wp (Prog.ofExcept (replyText session req outcome))
        (fun _ s' => PoolExact K hiddenAt s'.pool) (fun _ s' => PoolExact K hiddenAt s'.pool)
        s'' := by
    intro s'' h
    cases replyText session req outcome with
    | error e => exact h
    | ok a => exact h
  exact wp_when (fun _ => hreply _ hstore) (fun _ => hreply _ hpool')

/-! ## A run of calls -/

omit hP in
/-- The state of a session after some calls, returned or failed. -/
def runCalls (calls : List (Call C M)) (s : SessionState C M) : SessionState C M :=
  calls.foldl (fun s call => (generateCachedInner session call s).2) s

/-- Every run of text-only calls leaves an exact pool. -/
theorem runCalls_exact {calls : List (Call C M)} (htext : ∀ call ∈ calls, TextOnly call) :
    ∀ {s : SessionState C M}, PoolExact K hiddenAt s.pool →
      PoolExact K hiddenAt (runCalls session calls s).pool := by
  induction calls with
  | nil => exact fun h => h
  | cons call calls ih =>
    intro s h
    refine ih (fun c hc => htext c (List.mem_cons_of_mem _ hc)) ?_
    exact wp_state (wp_generateCachedInner session hP (htext call List.mem_cons_self) h)

omit hP in
/-- The same call without the pool. -/
def uncached (call : Call C M) : Call C M :=
  { call with options := { call.options with promptCache := some false } }

end Calls

end Session

end Exact

end Emelex

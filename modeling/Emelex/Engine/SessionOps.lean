import Emelex.Engine.GreedyRounds

/-!
# The operations of the model behind the driver (`engine/spec.rs`, `SessionOps`)

`ModelOps` is what the engine calls of a loaded model and of its caches: `C` is the type of the
target caches (one value for all layers) and `M` the type of the MTP caches.  A forward returns
its result and the caches it leaves; an array `[1, L, H]` of hiddens is the list of its `L`
rows.  Host arrays of token ids are lists, so that their construction does not fail.

`SessionOps` is the implementation of `RoundOps` that decodes with these operations.

`CacheLedger` names what the caches hold: the tokens the attention layers and the recurrent
state have been fed, and the pairs of the MTP caches.  `PrefixModel` is the assumption on the
model: the caches hold what was fed, and the hidden of a row is a function of the fed prefix.

Principal results: `SessionOps.honours` (the implementation meets the error contract of
`RoundOps`), `canonical_append` (the rows of a fed prefix, whatever the chunking).
-/

set_option autoImplicit false

namespace Emelex

/-- The model with its caches, as far as the engine calls them. -/
class ModelOps (C M : Type) (G : outParam Type) [RowSampler G] where
  /-- One row of `hidden_pre_norm`. -/
  Hidden : Type
  Logits : Type
  Rollback : Type
  Image : Type
  Audio : Type
  newCaches : C
  newMtpCaches : M
  isPristine : C → Bool
  isHybrid : C → Bool
  offset : C → Nat
  wouldTrim : C → Nat → Bool
  rollbackState : C → Rollback
  rollback : C → Rollback → Except Error Unit × C
  truncateTo : C → Nat → Except Error Unit × C
  forward : List TokenId → C → Except Error Logits × C
  forwardHidden : List TokenId → C → Except Error (List Hidden × Logits) × C
  forwardWithMedia : List TokenId → List Image → List Audio → C → Except Error Logits × C
  /-- The recycle hiddens and the logits. -/
  forwardMtp : List TokenId → List Hidden → M → Except Error (List Hidden × Logits) × M
  pairsFed : M → Nat
  truncateMtp : M → Nat → Except Error Unit × M
  /-- `ops::contiguous` and `eval`. -/
  contiguous : List Hidden → Except Error (List Hidden)
  /-- `eval`. -/
  evalHidden : List Hidden → Except Error Unit
  evalLastLogits : Logits → Except Error Unit
  sampleLast : Logits → Sampler G → Except Error TokenId × Sampler G
  materializeDists : Logits → Sampler G → Except (Error × List (Dist G)) (List (Dist G))
  rowDist : Logits → Nat → Sampler G → Except Error (Dist G)

/-- `SessionOps`. -/
structure SessionOps (C M : Type) where
  caches : C
  mtp : Option M

namespace SessionOps

variable {C M G : Type} [RowSampler G] [ModelOps C M G]

/-- One target forward: through `forward_hidden` while the MTP module is alive. -/
def feed (o : SessionOps C M) (ids : List TokenId) :
    Except Error (Option (List (ModelOps.Hidden C M)) × ModelOps.Logits C M) × SessionOps C M :=
  match o.mtp with
  | some _ =>
    let r := ModelOps.forwardHidden (M := M) ids o.caches
    (r.1.map fun out => (some out.1, out.2), { o with caches := r.2 })
  | none =>
    let r := ModelOps.forward (M := M) ids o.caches
    (r.1.map fun logits => (none, logits), { o with caches := r.2 })

/-- `detach_rows`, when there are rows. -/
def detachRows : Option (List (ModelOps.Hidden C M)) → Except Error (List (ModelOps.Hidden C M))
  | some hidden => ModelOps.contiguous hidden
  | none => .ok []

/-- `verify_feed`. -/
def verifyFeed (o : SessionOps C M) (ids : List TokenId) (sampler : Sampler G) :
    OpResult G (List (ModelOps.Hidden C M) × List (Dist G)) × SessionOps C M :=
  match o.feed ids with
  | (.error e, o') => (.error (.invalid e), o')
  | (.ok (hidden, logits), o') =>
    -- dists first, hiddens second: a detach failure salvages every dist
    match ModelOps.materializeDists logits sampler with
    | .error (error, salvage) => (.error (.host error salvage), o')
    | .ok dists =>
      match detachRows hidden with
      | .error error => (.error (.host error dists), o')
      | .ok hiddens => (.ok (hiddens, dists), o')

/-- The dist of the last row, when it is wanted. -/
def lastDist (logits : ModelOps.Logits C M) (ids : List TokenId) (want : Bool)
    (sampler : Sampler G) : Except Error (Option (Dist G)) :=
  if want then (ModelOps.rowDist logits (ids.length - 1) sampler).map some else .ok none

/-- `replay_feed`. -/
def replayFeed (o : SessionOps C M) (ids : List TokenId) (want : Bool) (sampler : Sampler G) :
    OpResult G (List (ModelOps.Hidden C M) × Option (Dist G)) × SessionOps C M :=
  match o.feed ids with
  | (.error e, o') => (.error (.invalid e), o')
  | (.ok (hidden, logits), o') =>
    match lastDist logits ids want sampler with
    | .error error => (.error (.host error []), o')
    | .ok dist =>
      match detachRows hidden with
      | .error error => (.error (.host error dist.toList), o')
      | .ok hiddens => (.ok (hiddens, dist), o')

/-- `restore`. -/
def restore (o : SessionOps C M) (snap : ModelOps.Rollback C M) :
    OpResult G Unit × SessionOps C M :=
  let r := ModelOps.rollback (M := M) o.caches snap
  (r.1.mapError .invalid, { o with caches := r.2 })

/-- `truncate_target`. -/
def truncateTarget (o : SessionOps C M) (absOffset : Nat) : OpResult G Unit × SessionOps C M :=
  let r := ModelOps.truncateTo (M := M) o.caches absOffset
  (r.1.mapError .invalid, { o with caches := r.2 })

/-- `mtp_step`; one row goes in, and `recycle_hidden` is one row. -/
def mtpStep (o : SessionOps C M) (id : TokenId) (prev : ModelOps.Hidden C M)
    (sampler : Sampler G) :
    OpResult G (ModelOps.Hidden C M × Dist G) × SessionOps C M :=
  match o.mtp with
  | none => (.error (.mtpForward (internal "mtp_step without live MTP")), o)
  | some mtp =>
    let r := ModelOps.forwardMtp (C := C) [id] [prev] mtp
    let o' := { o with mtp := some r.2 }
    match r.1 with
    | .error e => (.error (.mtpForward e), o')
    | .ok (recycleHidden, logits) =>
      match ModelOps.rowDist logits 0 sampler with
      | .error error => (.error (.host error []), o')
      | .ok dist =>
        match ModelOps.contiguous recycleHidden with
        | .error error => (.error (.host error []), o')
        | .ok recycle => (.ok (recycle.headD prev, dist), o')

/-- `mtp_commit`; the step output is dropped whole. -/
def mtpCommit (o : SessionOps C M) (ids : List TokenId) (prevs : List (ModelOps.Hidden C M)) :
    OpResult G Unit × SessionOps C M :=
  match o.mtp with
  | none => (.error (.mtpForward (internal "mtp_commit without live MTP")), o)
  | some mtp =>
    let r := ModelOps.forwardMtp (C := C) ids prevs mtp
    ((r.1.map fun _ => ()).mapError .mtpForward, { o with mtp := some r.2 })

/-- `mtp_truncate`. -/
def mtpTruncate (o : SessionOps C M) (pairsFed : Nat) : OpResult G Unit × SessionOps C M :=
  match o.mtp with
  | none => (.error (.mtpForward (internal "mtp_truncate without live MTP")), o)
  | some mtp =>
    let r := ModelOps.truncateMtp (C := C) mtp pairsFed
    (r.1.mapError fun error => .host error [], { o with mtp := some r.2 })

instance : RoundOps (SessionOps C M) G where
  Hidden := ModelOps.Hidden C M
  Snapshot := ModelOps.Rollback C M
  isHybrid o := ModelOps.isHybrid M o.caches
  targetPos o := ModelOps.offset M o.caches
  windowWouldTrim o added := ModelOps.wouldTrim M o.caches added
  verifyFeed := verifyFeed
  replayFeed := replayFeed
  capture o := ModelOps.rollbackState o.caches
  restore := restore
  truncateTarget := truncateTarget
  mtpAlive o := o.mtp.isSome
  mtpPairs o := o.mtp.elim 0 (ModelOps.pairsFed C)
  mtpStep := mtpStep
  mtpCommit := mtpCommit
  mtpTruncate := mtpTruncate
  mtpDiscard o := { o with mtp := none }
  trace o _ := o

end SessionOps

theorem mapError_ok {α ε ε' : Type} {f : ε → ε'} {r : Except ε α} {a : α}
    (h : r.mapError f = .ok a) : r = .ok a := by
  cases r with
  | error e => cases h
  | ok b => exact congrArg Except.ok (Except.ok.inj h)

/-! ## What the caches hold -/

section Canonical

variable {H : Type} {hiddenAt : List TokenId → H}

/-- The rows of a fed prefix. -/
def canonical (hiddenAt : List TokenId → H) (ids : List TokenId) : List (FedRow H) :=
  rowsOf ids (successors hiddenAt [] ids)

theorem successors_append (pre a b : List TokenId) :
    successors hiddenAt pre (a ++ b) =
      successors hiddenAt pre a ++ successors hiddenAt (pre ++ a) b := by
  induction a generalizing pre with
  | nil => rw [List.append_nil]; rfl
  | cons id a ih =>
    rw [List.cons_append, successors, ih, successors, List.append_assoc]
    rfl

/-- Two feeds make the rows of one. -/
theorem canonical_append (p ids : List TokenId) :
    canonical hiddenAt (p ++ ids) =
      canonical hiddenAt p ++ rowsOf ids (successors hiddenAt p ids) := by
  unfold canonical
  rw [successors_append, rowsOf_append (successors_length _ _)]
  rfl

@[simp] theorem canonical_fst (ids : List TokenId) :
    (canonical hiddenAt ids).map Prod.fst = ids := rowsOf_fst _ _

@[simp] theorem canonical_length (ids : List TokenId) :
    (canonical hiddenAt ids).length = ids.length := rowsOf_length _ _

theorem canonical_take (ids : List TokenId) (n : Nat) :
    canonical hiddenAt (ids.take n) = (canonical hiddenAt ids).take n := by
  have h : canonical hiddenAt (ids.take n ++ ids.drop n) = _ := canonical_append _ _
  rw [List.take_append_drop] at h
  by_cases hn : n ≤ ids.length
  · rw [h, List.take_left' (by rw [canonical_length, List.length_take]; omega)]
  · rw [List.take_of_length_le (l := ids) (by omega),
      List.take_of_length_le (by rw [canonical_length]; omega)]

theorem canonical_inj {a b : List TokenId} (h : canonical hiddenAt a = canonical hiddenAt b) :
    a = b := by
  rw [← canonical_fst a, ← canonical_fst b, h]

end Canonical

section Contract

variable {C M G : Type} [RowSampler G] [ModelOps C M G]

/-- What the caches, a rollback state and logits stand for. -/
structure CacheLedger (C M : Type) {G : Type} [RowSampler G] [ModelOps C M G] where
  /-- Tokens the attention layers hold. -/
  attn : C → List TokenId
  /-- Tokens the recurrent state has absorbed. -/
  recur : C → List TokenId
  pairs : M → List (TokenId × ModelOps.Hidden C M)
  /-- Attention offset and absorbed tokens of a rollback state. -/
  snap : ModelOps.Rollback C M → Nat × List TokenId
  rows : ModelOps.Logits C M → Nat

namespace CacheLedger

/-- The recurrent state is in step with the attention layers. -/
def InStep (K : CacheLedger C M) (c : C) : Prop := K.recur c = K.attn c

/-- `c'` is `c` after `ids` have been fed. -/
structure Feeds (K : CacheLedger C M) (ids : List TokenId) (c c' : C) : Prop where
  attn : K.attn c' = K.attn c ++ ids
  recur : K.recur c' = K.recur c ++ ids
  hybrid : ModelOps.isHybrid M c' = ModelOps.isHybrid M c

/-- `c'` is `c` with the attention layers cut to `n` tokens. -/
structure Cuts (K : CacheLedger C M) (n : Nat) (recur : List TokenId) (c c' : C) : Prop where
  attn : K.attn c' = (K.attn c).take n
  hybrid : ModelOps.isHybrid M c' = ModelOps.isHybrid M c
  recur : ModelOps.isHybrid M c = true → K.recur c' = recur

/-- The caches hold exactly `ids`. -/
structure Holds (K : CacheLedger C M) (c : C) (ids : List TokenId) : Prop where
  attn : K.attn c = ids
  inStep : K.InStep c

theorem Feeds.holds {K : CacheLedger C M} {c c' : C} {p ids : List TokenId}
    (h : K.Feeds ids c c') (hc : K.Holds c p) : K.Holds c' (p ++ ids) := by
  have hattn : K.attn c' = p ++ ids := by rw [h.attn, hc.attn]
  refine ⟨hattn, ?_⟩
  show K.recur c' = K.attn c'
  rw [h.recur, h.attn, show K.recur c = K.attn c from hc.inStep]

end CacheLedger

/-- The model forward is a function of the fed token prefix: the caches hold what was fed, and
the hidden of a row is `hiddenAt` of the prefix that ends at it. -/
structure PrefixModel (K : CacheLedger C M) (hiddenAt : List TokenId → ModelOps.Hidden C M) :
    Prop where
  newCaches : K.Holds (ModelOps.newCaches M) []
  newCaches_pristine : ModelOps.isPristine M (ModelOps.newCaches M : C) = true
  newMtpCaches : K.pairs (ModelOps.newMtpCaches C) = []
  /-- Without a recurrent state there is nothing to keep in step. -/
  plain : ∀ c : C, ModelOps.isHybrid M c = false → K.InStep c
  offset : ∀ c : C, ModelOps.offset M c = (K.attn c).length
  pairsFed : ∀ m : M, ModelOps.pairsFed C m = (K.pairs m).length
  forward : ∀ ids (c : C) logits, (ModelOps.forward (M := M) ids c).1 = .ok logits →
    K.Feeds ids c (ModelOps.forward (M := M) ids c).2 ∧ K.rows logits = ids.length
  forwardHidden : ∀ ids (c : C) hs logits,
    (ModelOps.forwardHidden (M := M) ids c).1 = .ok (hs, logits) →
    K.Feeds ids c (ModelOps.forwardHidden (M := M) ids c).2 ∧ K.rows logits = ids.length ∧
      (K.InStep c → hs = successors hiddenAt (K.attn c) ids)
  /-- Every pair is a token with the hidden before it, in the order fed. -/
  forwardMtp : ∀ ids prevs (m : M) out, (ModelOps.forwardMtp (C := C) ids prevs m).1 = .ok out →
    K.pairs (ModelOps.forwardMtp (C := C) ids prevs m).2 = K.pairs m ++ ids.zip prevs
  rollbackState : ∀ c : C,
    K.snap (ModelOps.rollbackState c) = ((K.attn c).length, K.recur c)
  rollback : ∀ (c : C) s, (ModelOps.rollback (M := M) c s).1 = .ok () →
    K.Cuts (K.snap s).1 (K.snap s).2 c (ModelOps.rollback (M := M) c s).2
  truncateTo : ∀ (c : C) n, (ModelOps.truncateTo (M := M) c n).1 = .ok () →
    K.Cuts n (K.recur c) c (ModelOps.truncateTo (M := M) c n).2
  truncateMtp : ∀ (m : M) n,
    K.pairs (ModelOps.truncateMtp (C := C) m n).2 =
      if (ModelOps.truncateMtp (C := C) m n).1.isOk then (K.pairs m).take n else K.pairs m
  contiguous : ∀ hs hs' : List (ModelOps.Hidden C M),
    ModelOps.contiguous hs = .ok hs' → hs' = hs
  materializeDists : ∀ (logits : ModelOps.Logits C M) (sampler : Sampler G) ds,
    ModelOps.materializeDists logits sampler = .ok ds → ds.length = K.rows logits

namespace SessionOps

variable {K : CacheLedger C M} {hiddenAt : List TokenId → ModelOps.Hidden C M}

/-- The ledgers of the driver, read off what the caches hold. -/
def ledgers (K : CacheLedger C M) (hiddenAt : List TokenId → ModelOps.Hidden C M) :
    Ledgers (SessionOps C M) where
  view o :=
    { hybrid := ModelOps.isHybrid M o.caches
      attn := canonical hiddenAt (K.attn o.caches)
      recur := canonical hiddenAt (K.recur o.caches)
      pairs := o.mtp.map K.pairs }
  snap s := ((K.snap s).1, canonical hiddenAt (K.snap s).2)

/-- The caches after a feed, as the driver sees them. -/
theorem view_feed {o : SessionOps C M} {c' : C} {ids : List TokenId}
    (hstep : K.InStep o.caches) (hf : K.Feeds ids o.caches c') :
    (ledgers K hiddenAt).view { o with caches := c' } = ((ledgers K hiddenAt).view o).feed
      (rowsOf ids (successors hiddenAt (K.attn o.caches) ids)) := by
  have hrecur : K.recur o.caches = K.attn o.caches := hstep
  show View.mk (ModelOps.isHybrid M c') (canonical hiddenAt (K.attn c'))
      (canonical hiddenAt (K.recur c')) (o.mtp.map K.pairs) =
    View.mk (ModelOps.isHybrid M o.caches) (canonical hiddenAt (K.attn o.caches) ++ _)
      (canonical hiddenAt (K.recur o.caches) ++ _) (o.mtp.map K.pairs)
  rw [hf.attn, hf.recur, hf.hybrid, hrecur, canonical_append]

theorem view_cut {o : SessionOps C M} {c' : C} {n : Nat} {recur : List TokenId}
    (h : K.Cuts n recur o.caches c') :
    ((ledgers K hiddenAt).view o).Cut n (canonical hiddenAt recur)
      ((ledgers K hiddenAt).view { o with caches := c' }) where
  attn := by
    show canonical hiddenAt (K.attn c') = _
    rw [h.attn, canonical_take]
    rfl
  hybrid := h.hybrid
  pairs := rfl
  recur hh := by
    show canonical hiddenAt (K.recur c') = _
    rw [h.recur hh]

section Contract

variable (hP : PrefixModel K hiddenAt)
include hP

theorem inStep_of_synced {o : SessionOps C M} (h : ((ledgers K hiddenAt).view o).Synced) :
    K.InStep o.caches := by
  cases hh : ModelOps.isHybrid M o.caches with
  | false => exact hP.plain _ hh
  | true => exact canonical_inj (h hh)

/-- One target forward, as the driver sees it. -/
theorem feed_spec {o o' : SessionOps C M} {ids : List TokenId}
    {hidden : Option (List (ModelOps.Hidden C M))} {logits : ModelOps.Logits C M}
    (hstep : K.InStep o.caches) (h : o.feed ids = (.ok (hidden, logits), o')) :
    (ledgers K hiddenAt).view o' = ((ledgers K hiddenAt).view o).feed
        (rowsOf ids (successors hiddenAt (K.attn o.caches) ids)) ∧
      K.rows logits = ids.length ∧
      (o.mtp.isSome = true → hidden = some (successors hiddenAt (K.attn o.caches) ids)) := by
  obtain ⟨caches, mtp⟩ := o
  unfold feed at h
  cases mtp with
  | some m =>
    dsimp only at h
    rcases hr : ModelOps.forwardHidden (M := M) ids caches with ⟨e | ⟨hs, logits'⟩, c'⟩
    · rw [hr] at h
      cases (Prod.mk.inj h).1
    · rw [hr] at h
      obtain ⟨hout, rfl⟩ := Prod.mk.inj h
      obtain ⟨rfl, rfl⟩ := Prod.mk.inj (Except.ok.inj hout)
      have hc := hP.forwardHidden ids caches hs logits' (by rw [hr])
      rw [hr] at hc
      refine ⟨view_feed (o := ⟨caches, some m⟩) hstep hc.1, hc.2.1, ?_⟩
      intro _
      rw [hc.2.2 hstep]
  | none =>
    dsimp only at h
    rcases hr : ModelOps.forward (M := M) ids caches with ⟨e | logits', c'⟩
    · rw [hr] at h
      cases (Prod.mk.inj h).1
    · rw [hr] at h
      obtain ⟨hout, rfl⟩ := Prod.mk.inj h
      obtain ⟨rfl, rfl⟩ := Prod.mk.inj (Except.ok.inj hout)
      have hc := hP.forward ids caches logits' (by rw [hr])
      rw [hr] at hc
      refine ⟨view_feed (o := ⟨caches, none⟩) hstep hc.1, hc.2, ?_⟩
      intro hm
      cases hm

/-- What both feeds of the driver do, whatever follows the forward. -/
theorem feedContract_of {α : Type} {o o' : SessionOps C M} {ids : List TokenId}
    {hidden : Option (List (ModelOps.Hidden C M))} {logits : ModelOps.Logits C M}
    (h : o.feed ids = (.ok (hidden, logits), o')) (hiddens : α → List (ModelOps.Hidden C M))
    {r : OpResult G α} (hhost : ∀ e, r = .error e → ∃ error salvage, e = .host error salvage)
    (hok : ∀ a, r = .ok a → detachRows hidden = .ok (hiddens a)) :
    FeedContract ((ledgers K hiddenAt).view o) ids hiddens r ((ledgers K hiddenAt).view o') := by
  intro hsync
  obtain ⟨hv, -, hhidden⟩ := feed_spec hP (inStep_of_synced hP hsync) h
  rcases r with e | a
  · obtain ⟨error, salvage, rfl⟩ := hhost e rfl
    exact ⟨_, rowsOf_fst _ _, hv⟩
  · refine ⟨_, rowsOf_fst _ _, hv, ?_⟩
    intro halive
    have hd := hok a rfl
    rw [hhidden (by simpa [ledgers] using halive)] at hd
    have hs : hiddens a = _ := hP.contiguous _ _ hd
    rw [hs]
    exact ⟨successors_length _ _, rfl⟩

theorem feed_rows {o o' : SessionOps C M} {ids : List TokenId}
    {hidden : Option (List (ModelOps.Hidden C M))} {logits : ModelOps.Logits C M}
    (h : o.feed ids = (.ok (hidden, logits), o')) : K.rows logits = ids.length := by
  obtain ⟨caches, mtp⟩ := o
  unfold feed at h
  cases mtp with
  | some m =>
    dsimp only at h
    rcases hr : ModelOps.forwardHidden (M := M) ids caches with ⟨e | ⟨hs, logits'⟩, c'⟩
    · rw [hr] at h
      cases (Prod.mk.inj h).1
    · rw [hr] at h
      obtain ⟨-, rfl⟩ := Prod.mk.inj (Except.ok.inj (Prod.mk.inj h).1)
      exact (hP.forwardHidden ids caches hs logits' (by rw [hr])).2.1
  | none =>
    dsimp only at h
    rcases hr : ModelOps.forward (M := M) ids caches with ⟨e | logits', c'⟩
    · rw [hr] at h
      cases (Prod.mk.inj h).1
    · rw [hr] at h
      obtain ⟨-, rfl⟩ := Prod.mk.inj (Except.ok.inj (Prod.mk.inj h).1)
      exact (hP.forward ids caches logits' (by rw [hr])).2

theorem verifyFeed_contract (o : SessionOps C M) (ids : List TokenId) (sampler : Sampler G) :
    FeedContract ((ledgers K hiddenAt).view o) ids (fun a => a.1) (verifyFeed o ids sampler).1
      ((ledgers K hiddenAt).view (verifyFeed o ids sampler).2) := by
  unfold verifyFeed
  rcases hf : o.feed ids with ⟨e | ⟨hidden, logits⟩, o'⟩
  · exact fun _ => trivial
  · dsimp only
    cases hd : ModelOps.materializeDists logits sampler with
    | error es =>
      obtain ⟨error, salvage⟩ := es
      exact feedContract_of hP hf _ (fun e he => ⟨error, salvage, (Except.error.inj he).symm⟩)
        (fun a ha => (by cases ha))
    | ok dists =>
      dsimp only
      cases hh : detachRows hidden with
      | error error =>
        exact feedContract_of hP hf _ (fun e he => ⟨error, dists, (Except.error.inj he).symm⟩)
          (fun a ha => (by cases ha))
      | ok hiddens =>
        refine feedContract_of hP hf _ (fun e he => (by cases he)) ?_
        rintro a ⟨⟩
        exact hh

theorem verifyFeed_dists {o : SessionOps C M} {ids : List TokenId} {sampler : Sampler G}
    {hs : List (ModelOps.Hidden C M)} {ds : List (Dist G)}
    (h : (verifyFeed o ids sampler).1 = .ok (hs, ds)) : ds.length = ids.length := by
  unfold verifyFeed at h
  rcases hf : o.feed ids with ⟨e | ⟨hidden, logits⟩, o'⟩ <;> rw [hf] at h
  · cases h
  · dsimp only at h
    cases hd : ModelOps.materializeDists logits sampler with
    | error es => rw [hd] at h; cases h
    | ok dists =>
      rw [hd] at h
      dsimp only at h
      cases hh : detachRows hidden with
      | error error => rw [hh] at h; cases h
      | ok hiddens =>
        rw [hh] at h
        obtain ⟨-, rfl⟩ := Prod.mk.inj (Except.ok.inj h)
        rw [hP.materializeDists logits sampler dists hd, feed_rows hP hf]

theorem replayFeed_contract (o : SessionOps C M) (ids : List TokenId) (want : Bool)
    (sampler : Sampler G) :
    FeedContract ((ledgers K hiddenAt).view o) ids (fun a => a.1)
      (replayFeed o ids want sampler).1
      ((ledgers K hiddenAt).view (replayFeed o ids want sampler).2) := by
  unfold replayFeed
  rcases hf : o.feed ids with ⟨e | ⟨hidden, logits⟩, o'⟩
  · exact fun _ => trivial
  · dsimp only
    cases hd : lastDist logits ids want sampler with
    | error error =>
      exact feedContract_of hP hf _ (fun e he => ⟨error, [], (Except.error.inj he).symm⟩)
        (fun a ha => (by cases ha))
    | ok dist =>
      dsimp only
      cases hh : detachRows hidden with
      | error error =>
        exact feedContract_of hP hf _
          (fun e he => ⟨error, dist.toList, (Except.error.inj he).symm⟩) (fun a ha => (by cases ha))
      | ok hiddens =>
        refine feedContract_of hP hf _ (fun e he => (by cases he)) ?_
        rintro a ⟨⟩
        exact hh

theorem mtpStep_contract (o : SessionOps C M) (id : TokenId) (prev : ModelOps.Hidden C M)
    (sampler : Sampler G) :
    MtpContract ((ledgers K hiddenAt).view o)
      (((ledgers K hiddenAt).view o).pairs.map (· ++ [(id, prev)])) (mtpStep o id prev sampler).1
      ((ledgers K hiddenAt).view (mtpStep o id prev sampler).2) := by
  obtain ⟨caches, mtp⟩ := o
  unfold mtpStep
  cases mtp with
  | none => exact ⟨none, rfl⟩
  | some m =>
    dsimp only
    cases hr : (ModelOps.forwardMtp (C := C) [id] [prev] m).1 with
    | error e => exact ⟨_, rfl⟩
    | ok out =>
      have hpairs := hP.forwardMtp [id] [prev] m out hr
      have hview : (ledgers K hiddenAt).view
          ⟨caches, some (ModelOps.forwardMtp (C := C) [id] [prev] m).2⟩ =
          { (ledgers K hiddenAt).view ⟨caches, some m⟩ with
            pairs := ((ledgers K hiddenAt).view ⟨caches, some m⟩).pairs.map (· ++ [(id, prev)]) } := by
        show View.mk _ _ _ (some (K.pairs _)) = _
        rw [hpairs]
        rfl
      obtain ⟨recycleHidden, logits⟩ := out
      dsimp only
      cases ModelOps.rowDist logits 0 sampler with
      | error error => exact ⟨[(id, prev)], hview⟩
      | ok dist =>
        dsimp only
        cases ModelOps.contiguous recycleHidden with
        | error error => exact ⟨[(id, prev)], hview⟩
        | ok recycle => exact hview

theorem mtpCommit_contract (o : SessionOps C M) (ids : List TokenId)
    (prevs : List (ModelOps.Hidden C M)) :
    MtpContract ((ledgers K hiddenAt).view o)
      (((ledgers K hiddenAt).view o).pairs.map (· ++ ids.zip prevs)) (mtpCommit o ids prevs).1
      ((ledgers K hiddenAt).view (mtpCommit o ids prevs).2) := by
  obtain ⟨caches, mtp⟩ := o
  unfold mtpCommit
  cases mtp with
  | none => exact ⟨none, rfl⟩
  | some m =>
    dsimp only
    cases hr : (ModelOps.forwardMtp (C := C) ids prevs m).1 with
    | error e => exact ⟨_, rfl⟩
    | ok out =>
      show View.mk _ _ _ (some (K.pairs _)) = _
      rw [hP.forwardMtp ids prevs m out hr]
      rfl

theorem mtpTruncate_contract (o : SessionOps C M) (n : Nat) :
    MtpContract ((ledgers K hiddenAt).view o)
      (((ledgers K hiddenAt).view o).pairs.map (·.take n)) (mtpTruncate o n).1
      ((ledgers K hiddenAt).view (mtpTruncate o n).2) := by
  obtain ⟨caches, mtp⟩ := o
  unfold mtpTruncate
  cases mtp with
  | none => exact ⟨none, rfl⟩
  | some m =>
    have hpairs := hP.truncateMtp m n
    dsimp only
    cases hr : (ModelOps.truncateMtp (C := C) m n).1 with
    | error e =>
      rw [hr] at hpairs
      refine ⟨[], ?_⟩
      show View.mk _ _ _ (some (K.pairs _)) = View.mk _ _ _ (some (K.pairs m ++ []))
      rw [hpairs, List.append_nil]
      rfl
    | ok u =>
      rw [hr] at hpairs
      show View.mk _ _ _ (some (K.pairs _)) = _
      rw [hpairs]
      rfl

/-- Decoding with the model meets the error contract of the driver. -/
theorem honours : Honours (ledgers K hiddenAt : Ledgers (SessionOps C M)) where
  isHybrid _ := rfl
  targetPos o := by
    show ModelOps.offset M o.caches = (canonical hiddenAt _).length
    rw [hP.offset, canonical_length]
  mtpAlive o := by
    show o.mtp.isSome = (o.mtp.map K.pairs).isSome
    rw [Option.isSome_map]
  mtpPairs o ps h := by
    obtain ⟨caches, mtp⟩ := o
    cases mtp with
    | none => cases h
    | some m =>
      obtain rfl := Option.some.inj h
      exact hP.pairsFed m
  verifyFeed := verifyFeed_contract hP
  verifyFeed_dists o ids sampler hs ds h := verifyFeed_dists hP h
  replayFeed := replayFeed_contract hP
  capture o := by
    show ((K.snap (ModelOps.rollbackState o.caches)).1,
      canonical hiddenAt (K.snap (ModelOps.rollbackState o.caches)).2) =
        ((canonical hiddenAt (K.attn o.caches)).length, canonical hiddenAt (K.recur o.caches))
    rw [hP.rollbackState, canonical_length]
  restore o s h := view_cut (hP.rollback o.caches s (mapError_ok h))
  truncateTarget o n h := view_cut (hP.truncateTo o.caches n (mapError_ok h))
  mtpStep := mtpStep_contract hP
  mtpCommit := mtpCommit_contract hP
  mtpTruncate := mtpTruncate_contract hP
  mtpDiscard _ := rfl
  trace _ _ := rfl

end Contract

end SessionOps

end Contract

end Emelex

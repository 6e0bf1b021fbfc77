import Mathlib.Algebra.Order.BigOperators.Group.List
import Emelex.Engine.PromptCache

/-!
# What the prompt-cache pool keeps between calls

* `PoolCall`, `run` — the calls on a pool and sequences of them, with the clock each call reads.
* `Represents` — the invariant of a pool: its bounds, the order of its entries (no entry is a prefix
  of a later one), the alignment of the MTP states, and where the contents come from.
* `Evicts` — an eviction that takes no pinned entry before an unpinned one.
* `Lookup` — the results a lookup may have: a miss, or the one longest compatible entry.

Principal results: `represents_run` (the invariant, after every sequence of calls), `evicts_evictLru`
(what `evict_lru_if_over_capacity` removes), `lookup_spec` (what a lookup returns and changes) and
`pool_representation`, which states them of every pool reached.
-/

set_option autoImplicit false

namespace Emelex

namespace PromptCachePool

variable {C M H : Type}

/-! ## Calls -/

/-- A call on a pool. -/
inductive PoolCall (C M H : Type) where
  | insertOrUpdate (ids : List TokenId) (caches : C) (fedImages fedAudios : Nat) (pinned : Bool)
      (mtp : Option (MtpState M H)) (expire now : Nat)
  | findLongestCompatiblePrefix (ids : List TokenId) (requireMtp : Bool) (expire now : Nat)

/-- The pool after a call. -/
def call (pool : PromptCachePool C M H) : PoolCall C M H → PromptCachePool C M H
  | .insertOrUpdate ids caches fedImages fedAudios pinned mtp expire now =>
    pool.insertOrUpdate ids caches fedImages fedAudios pinned mtp expire now
  | .findLongestCompatiblePrefix ids requireMtp expire now =>
    (pool.findLongestCompatiblePrefix ids requireMtp expire now).2

/-- The pool after a sequence of calls. -/
def run (config : PromptCacheConfig) (calls : List (PoolCall C M H)) : PromptCachePool C M H :=
  calls.foldl call (fromConfig config)

/-- What an insert stores. -/
def PoolCall.content : PoolCall C M H → Option (List TokenId × C × Nat × Nat × Option (MtpState M H))
  | .insertOrUpdate ids caches fedImages fedAudios _ mtp _ _ =>
    some (ids, caches, fedImages, fedAudios, alignedMtp ids.length mtp)
  | .findLongestCompatiblePrefix .. => none

/-! ## The invariant -/

/-- The number of ids that the entries hold. -/
def idCount (entries : List (CacheEntry C M H)) : Nat := (entries.map fun e => e.ids.length).sum

/-- No entry's ids are a prefix of a later entry's. -/
def Ordered (entries : List (CacheEntry C M H)) : Prop :=
  (entries.map CacheEntry.ids).Pairwise fun earlier later => ¬ earlier <+: later

/-- What holds of a pool after a sequence of calls. -/
structure Represents (config : PromptCacheConfig) (calls : List (PoolCall C M H))
    (pool : PromptCachePool C M H) : Prop where
  maxEntries : pool.maxEntries = config.maxEntries
  maxTotalTokens : pool.maxTotalTokens = config.maxTotalTokens
  count : pool.entries.length ≤ config.maxEntries
  /-- The sum saturates at `usize::MAX`. -/
  tokens : min (idCount pool.entries) (2 ^ 64 - 1) ≤ config.maxTotalTokens
  ordered : Ordered pool.entries
  aligned : ∀ e ∈ pool.entries, ∀ state, e.mtp = some state → state.pairsFed + 1 = e.ids.length
  origin : ∀ e ∈ pool.entries, ∃ call ∈ calls, call.content = some e.content

theorem totalTokens_eq (entries : List (CacheEntry C M H)) :
    totalTokens entries = min (idCount entries) (2 ^ 64 - 1) := by
  have hfold : ∀ total, total < 2 ^ 64 → entries.foldl
      (fun total e => min (total + e.ids.length) (2 ^ 64 - 1)) total =
        min (total + idCount entries) (2 ^ 64 - 1) := by
    induction entries with
    | nil =>
      intro total htotal
      simp only [List.foldl_nil, idCount, List.map_nil, List.sum_nil]
      omega
    | cons e entries ih =>
      intro total htotal
      rw [List.foldl_cons, ih _ (by omega)]
      simp only [idCount, List.map_cons, List.sum_cons]
      omega
  rw [totalTokens, hfold 0 (by decide), Nat.zero_add]

theorem idCount_sublist {entries entries' : List (CacheEntry C M H)}
    (h : entries.Sublist entries') : idCount entries ≤ idCount entries' :=
  (h.map _).sum_le_sum fun _ _ => Nat.zero_le _

theorem idCount_eq (entries : List (CacheEntry C M H)) :
    idCount entries = ((entries.map CacheEntry.ids).map List.length).sum := by
  rw [List.map_map]
  rfl

theorem Ordered.sublist {entries entries' : List (CacheEntry C M H)} (h : Ordered entries')
    (hsub : entries.Sublist entries') : Ordered entries :=
  List.Pairwise.sublist (hsub.map _) h

/-- Entries in order have different ids. -/
theorem Ordered.nodup {entries : List (CacheEntry C M H)} (h : Ordered entries) :
    (entries.map CacheEntry.ids).Nodup :=
  List.Pairwise.imp (fun hne heq => hne (by subst heq; exact List.prefix_refl _)) h

/-- Entries in order that hold the same ids are one entry. -/
theorem Ordered.index_eq {entries : List (CacheEntry C M H)} (h : Ordered entries) {i j : Nat}
    {a b : CacheEntry C M H} (ha : entries[i]? = some a) (hb : entries[j]? = some b)
    (hids : a.ids = b.ids) : j = i := by
  have hj : j < (entries.map CacheEntry.ids).length := by
    rw [List.length_map]
    exact (List.getElem?_eq_some_iff.1 hb).1
  refine (List.getElem?_inj hj h.nodup).1 ?_
  rw [List.getElem?_map, List.getElem?_map, ha, hb, Option.map_some, Option.map_some, hids]

theorem alignedMtp_eq_some {n : Nat} {mtp : Option (MtpState M H)} {state : MtpState M H}
    (h : alignedMtp n mtp = some state) : state.pairsFed + 1 = n := by
  cases mtp with
  | none => cases h
  | some stored =>
    simp only [alignedMtp] at h
    split at h
    · cases h
    · rename_i hn
      obtain rfl := Option.some.inj h
      exact Decidable.not_not.1 hn

/-- Fewer entries keep the invariant. -/
theorem Represents.sublist {config : PromptCacheConfig} {calls : List (PoolCall C M H)}
    {pool pool' : PromptCachePool C M H} (h : Represents config calls pool)
    (hsub : pool'.entries.Sublist pool.entries) (hmax : pool'.maxEntries = pool.maxEntries)
    (htotal : pool'.maxTotalTokens = pool.maxTotalTokens) : Represents config calls pool' where
  maxEntries := hmax.trans h.maxEntries
  maxTotalTokens := htotal.trans h.maxTotalTokens
  count := hsub.length_le.trans h.count
  tokens := (min_le_min_right _ (idCount_sublist hsub)).trans h.tokens
  ordered := h.ordered.sublist hsub
  aligned e he := h.aligned e (hsub.subset he)
  origin e he := h.origin e (hsub.subset he)

theorem represents_new (config : PromptCacheConfig) :
    Represents config [] (fromConfig config : PromptCachePool C M H) where
  maxEntries := rfl
  maxTotalTokens := rfl
  count := Nat.zero_le _
  tokens := by simp [fromConfig, idCount]
  ordered := List.Pairwise.nil
  aligned _ he := by cases he
  origin _ he := by cases he

theorem Represents.evictExpired {config : PromptCacheConfig} {calls : List (PoolCall C M H)}
    {pool : PromptCachePool C M H} (h : Represents config calls pool) (now : Nat) :
    Represents config calls (pool.evictExpired now) :=
  h.sublist List.filter_sublist rfl rfl

/-! ## Inserts -/

/-- An update changes the first element that satisfies the condition. -/
theorem updateFirst_eq_some {α : Type} {p : α → Bool} {f : α → α} {as bs : List α}
    (h : updateFirst p f as = some bs) : ∃ before a after, as = before ++ a :: after ∧
      (∀ x ∈ before, p x = false) ∧ p a = true ∧ bs = before ++ f a :: after := by
  induction as generalizing bs with
  | nil => cases h
  | cons a as ih =>
    unfold updateFirst at h
    split at h
    · rename_i ha
      obtain rfl := Option.some.inj h
      exact ⟨[], a, as, rfl, by simp, ha, rfl⟩
    · rename_i ha
      obtain ⟨cs, hcs, rfl⟩ := Option.map_eq_some_iff.1 h
      obtain ⟨before, b, after, rfl, hbefore, hb, rfl⟩ := ih hcs
      refine ⟨a :: before, b, after, rfl, ?_, hb, rfl⟩
      exact List.forall_mem_cons.2 ⟨Bool.eq_false_iff.2 ha, hbefore⟩

theorem updateFirst_eq_none {α : Type} {p : α → Bool} {f : α → α} {as : List α}
    (h : updateFirst p f as = none) : ∀ a ∈ as, p a = false := by
  induction as with
  | nil => simp
  | cons a as ih =>
    unfold updateFirst at h
    split at h
    · cases h
    · rename_i ha
      exact List.forall_mem_cons.2 ⟨Bool.eq_false_iff.2 ha, ih (Option.map_eq_none_iff.1 h)⟩

/-- The entries after an insert has stored its entry and before it evicts; `none` when the ids are
too few to store. -/
def stored (pool : PromptCachePool C M H) (ids : List TokenId) (caches : C)
    (fedImages fedAudios : Nat) (pinned : Bool) (mtp : Option (MtpState M H)) (expire now : Nat) :
    Option (List (CacheEntry C M H)) :=
  let mtp := alignedMtp ids.length mtp
  let pool := pool.evictExpired expire
  let update := fun existing : CacheEntry C M H =>
    { existing with
      ids, caches, fedImages, fedAudios, mtp
      lastUsed := now
      pinned := existing.pinned || pinned }
  if ids.length < pool.minCacheableTokens && !pool.entries.any fun e => isPrefix e.ids ids then
    none
  else some ((updateFirst (fun e => isPrefix e.ids ids) update pool.entries).getD
    (pool.entries ++ [{ ids, caches, fedImages, fedAudios, mtp, lastUsed := now, pinned }]))

section insert

variable {pool : PromptCachePool C M H} {ids : List TokenId} {caches : C}
  {fedImages fedAudios : Nat} {pinned : Bool} {mtp : Option (MtpState M H)} {expire now : Nat}

/-- An insert stores and then evicts. -/
theorem insertOrUpdate_eq :
    pool.insertOrUpdate ids caches fedImages fedAudios pinned mtp expire now =
      match pool.stored ids caches fedImages fedAudios pinned mtp expire now with
      | none => pool.evictExpired expire
      | some entries => evictLruIfOverCapacity { pool with entries } := by
  unfold insertOrUpdate stored
  dsimp only
  split
  · rfl
  · split <;> rename_i hu <;> rw [hu] <;> rfl

/-- What is stored is in order again: the first entry that is a prefix of the ids is the one that
is replaced, and no later one extends them. -/
theorem stored_spec {entries : List (CacheEntry C M H)} (h : Ordered pool.entries)
    (hs : pool.stored ids caches fedImages fedAudios pinned mtp expire now = some entries) :
    Ordered entries ∧ ∃ e ∈ entries,
      e.content = (ids, caches, fedImages, fedAudios, alignedMtp ids.length mtp) ∧
      ∀ e' ∈ entries, e' = e ∨ e' ∈ pool.entries := by
  have hsub : (pool.evictExpired expire).entries.Sublist pool.entries := List.filter_sublist
  have hexpired := h.sublist hsub
  unfold stored at hs
  dsimp only at hs
  split at hs
  · cases hs
  · obtain rfl := Option.some.inj hs
    cases hu : updateFirst (fun e => isPrefix e.ids ids) (fun existing : CacheEntry C M H =>
        { existing with
          ids, caches, fedImages, fedAudios
          mtp := alignedMtp ids.length mtp
          lastUsed := now
          pinned := existing.pinned || pinned })
      (pool.evictExpired expire).entries with
    | some entries =>
      obtain ⟨before, a, after, heq, hbefore, ha, rfl⟩ := updateFirst_eq_some hu
      rw [heq] at hexpired hsub
      rw [isPrefix_iff] at ha
      unfold Ordered at hexpired ⊢
      rw [Option.getD_some]
      rw [List.map_append, List.map_cons, List.pairwise_append, List.pairwise_cons] at hexpired ⊢
      obtain ⟨hpre, ⟨hnext, hpost⟩, hacross⟩ := hexpired
      refine ⟨⟨hpre, ⟨fun later hlater hle => hnext later hlater (ha.trans hle), hpost⟩, ?_⟩, ?_⟩
      · intro x hx y hy
        rcases List.mem_cons.1 hy with rfl | hy
        · obtain ⟨e, he, rfl⟩ := List.mem_map.1 hx
          have hno := hbefore e he
          intro hle
          rw [isPrefix_iff.2 hle] at hno
          cases hno
        · exact hacross x hx y (List.mem_cons_of_mem _ hy)
      · refine ⟨_, List.mem_append_right _ List.mem_cons_self, rfl, fun e' he' => ?_⟩
        rcases List.mem_append.1 he' with he' | he'
        · exact .inr (hsub.subset (List.mem_append_left _ he'))
        · rcases List.mem_cons.1 he' with rfl | he'
          · exact .inl rfl
          · exact .inr (hsub.subset (List.mem_append_right _ (List.mem_cons_of_mem _ he')))
    | none =>
      have hnone := updateFirst_eq_none hu
      unfold Ordered at hexpired ⊢
      rw [Option.getD_none, List.map_append, List.pairwise_append]
      refine ⟨⟨hexpired, List.pairwise_singleton _ _, ?_⟩, ?_⟩
      · intro x hx y hy
        obtain rfl := List.mem_singleton.1 hy
        obtain ⟨e, he, rfl⟩ := List.mem_map.1 hx
        have hno := hnone e he
        intro hle
        rw [isPrefix_iff.2 hle] at hno
        cases hno
      · refine ⟨_, List.mem_append_right _ (List.mem_singleton.2 rfl), rfl, fun e' he' => ?_⟩
        rcases List.mem_append.1 he' with he' | he'
        · exact .inr (hsub.subset he')
        · exact .inl (List.mem_singleton.1 he')

/-- An insert keeps the invariant. -/
theorem Represents.insertOrUpdate {config : PromptCacheConfig} {calls : List (PoolCall C M H)}
    (h : Represents config calls pool) :
    Represents config
      (calls ++ [.insertOrUpdate ids caches fedImages fedAudios pinned mtp expire now])
      (pool.insertOrUpdate ids caches fedImages fedAudios pinned mtp expire now) := by
  have hmore : ∀ {pool' : PromptCachePool C M H}, Represents config calls pool' →
      Represents config
        (calls ++ [.insertOrUpdate ids caches fedImages fedAudios pinned mtp expire now])
        pool' := by
    intro pool' h'
    refine { h' with origin := fun e he => ?_ }
    obtain ⟨call, hcall, hcontent⟩ := h'.origin e he
    exact ⟨call, List.mem_append_left _ hcall, hcontent⟩
  rw [insertOrUpdate_eq]
  cases hs : pool.stored ids caches fedImages fedAudios pinned mtp expire now with
  | none => exact hmore (h.evictExpired expire)
  | some entries =>
    obtain ⟨hordered, new, hnew, hcontent, hold⟩ := stored_spec h.ordered hs
    have hsub := evictLoop_sublist pool.maxEntries pool.maxTotalTokens entries.length entries
    obtain ⟨hcount, htokens⟩ := evictLru_within { pool with entries }
    rw [totalTokens_eq] at htokens
    refine ⟨h.maxEntries, h.maxTotalTokens, hcount.trans_eq h.maxEntries,
      htokens.trans_eq h.maxTotalTokens, hordered.sublist hsub, fun e he state hstate => ?_,
      fun e he => ?_⟩
    · rcases hold e (hsub.subset he) with rfl | he
      · have hids : e.ids = ids := congrArg Prod.fst hcontent
        have hmtp : e.mtp = alignedMtp ids.length mtp := congrArg (·.2.2.2.2) hcontent
        rw [hids]
        exact alignedMtp_eq_some (hmtp ▸ hstate)
      · exact h.aligned e he state hstate
    · rcases hold e (hsub.subset he) with rfl | he
      · exact ⟨_, List.mem_append_right _ (List.mem_singleton.2 rfl), hcontent.symm ▸ rfl⟩
      · obtain ⟨call, hcall, hstored⟩ := h.origin e he
        exact ⟨call, List.mem_append_left _ hcall, hstored⟩

end insert

/-! ## Evictions -/

/-- The oldest entry that satisfies a condition satisfies it. -/
theorem oldest_spec {p : CacheEntry C M H → Bool} {v : Nat} :
    ∀ (entries before : List (CacheEntry C M H)) (best : Option (Nat × Nat)),
      (∀ b, best = some b → ∃ e, before[b.1]? = some e ∧ p e = true) →
      oldest p before.length entries best = some v →
      ∃ e, (before ++ entries)[v]? = some e ∧ p e = true := by
  intro entries
  induction entries with
  | nil =>
    intro before best hbest h
    obtain ⟨b, hb, rfl⟩ := Option.map_eq_some_iff.1 h
    rw [List.append_nil]
    exact hbest b hb
  | cons entry entries ih =>
    intro before best hbest h
    rw [List.append_cons]
    have hlen : (before ++ [entry]).length = before.length + 1 := by simp
    unfold oldest at h
    rw [← hlen] at h
    refine ih (before ++ [entry]) _ ?_ h
    intro b hb
    split at hb
    · rename_i hp
      rw [Bool.and_eq_true] at hp
      obtain rfl := Option.some.inj hb
      exact ⟨entry, by simp, hp.1⟩
    · obtain ⟨e, he, hp⟩ := hbest b hb
      exact ⟨e, by rw [List.getElem?_append_left (List.getElem?_eq_some_iff.1 he).1]; exact he, hp⟩

/-- There is an oldest one as soon as an entry satisfies the condition. -/
theorem oldest_isSome_of {p : CacheEntry C M H → Bool} :
    ∀ (entries : List (CacheEntry C M H)) (i : Nat) (best : Option (Nat × Nat)),
      ((∃ e ∈ entries, p e = true) ∨ best.isSome = true) → (oldest p i entries best).isSome = true := by
  intro entries
  induction entries with
  | nil =>
    rintro i best (⟨e, he, -⟩ | h)
    · cases he
    · simpa [oldest] using h
  | cons entry entries ih =>
    intro i best h
    unfold oldest
    apply ih
    rcases h with ⟨e, he, hp⟩ | h
    · rcases List.mem_cons.1 he with rfl | he
      · right
        rw [hp]
        cases best with
        | none => rfl
        | some b => split <;> rfl
      · exact .inl ⟨e, he, hp⟩
    · right
      split
      · rfl
      · exact h

/-- The victim is a pinned entry only when all entries are pinned. -/
theorem victim_spec {entries : List (CacheEntry C M H)} {i : Nat} {e : CacheEntry C M H}
    (h : victim entries = some i) (he : entries[i]? = some e) (hpinned : e.pinned = true) :
    ∀ e' ∈ entries, e'.pinned = true := by
  unfold victim at h
  cases hfree : oldest (fun e => !e.pinned) 0 entries none with
  | some j =>
    rw [hfree] at h
    obtain rfl : j = i := Option.some.inj h
    obtain ⟨e', he', hp⟩ := oldest_spec entries [] none (by simp) hfree
    rw [List.nil_append, he] at he'
    obtain rfl := Option.some.inj he'
    rw [hpinned] at hp
    cases hp
  | none =>
    intro e' he'
    by_contra hne
    have hsome := oldest_isSome_of (p := fun e => !e.pinned) entries 0 none
      (.inl ⟨e', he', by rw [Bool.eq_false_iff.2 hne]; rfl⟩)
    rw [hfree] at hsome
    cases hsome

/-- The entries that the eviction loop removes, in the order of their removal. -/
def evicted (maxEntries maxTotalTokens : Nat) :
    Nat → List (CacheEntry C M H) → List (CacheEntry C M H)
  | 0, _ => []
  | fuel + 1, entries =>
    if overCapacity maxEntries maxTotalTokens entries then
      match victim entries with
      | some i => entries[i]?.toList ++ evicted maxEntries maxTotalTokens fuel (entries.eraseIdx i)
      | none => []
    else []

/-- What is evicted and what is kept are the entries. -/
theorem evicted_perm (maxEntries maxTotalTokens fuel : Nat) (entries : List (CacheEntry C M H)) :
    (evicted maxEntries maxTotalTokens fuel entries ++
      evictLoop maxEntries maxTotalTokens fuel entries).Perm entries := by
  induction fuel generalizing entries with
  | zero => exact List.Perm.refl _
  | succ fuel ih =>
    unfold evicted evictLoop
    split
    · cases hv : victim entries with
      | none => exact List.Perm.refl _
      | some i =>
        dsimp only
        rw [List.append_assoc]
        refine ((ih (entries.eraseIdx i)).append_left _).trans ?_
        cases he : entries[i]? with
        | none =>
          rw [List.eraseIdx_of_length_le (List.getElem?_eq_none_iff.1 he)]
          exact List.Perm.refl _
        | some e =>
          obtain ⟨hlt, rfl⟩ := List.getElem?_eq_some_iff.1 he
          exact List.getElem_cons_eraseIdx_perm hlt
    · exact List.Perm.refl _

/-- No pinned entry is evicted before an unpinned one, or while an unpinned one is kept. -/
theorem evicted_spec (maxEntries maxTotalTokens fuel : Nat) (entries : List (CacheEntry C M H)) :
    (evicted maxEntries maxTotalTokens fuel entries).Pairwise
        (fun earlier later => earlier.pinned = true → later.pinned = true) ∧
      ∀ e ∈ evicted maxEntries maxTotalTokens fuel entries, e.pinned = true →
        ∀ kept ∈ evictLoop maxEntries maxTotalTokens fuel entries, kept.pinned = true := by
  induction fuel generalizing entries with
  | zero => exact ⟨List.Pairwise.nil, fun e he => by cases he⟩
  | succ fuel ih =>
    unfold evicted evictLoop
    split
    · cases hv : victim entries with
      | none => exact ⟨List.Pairwise.nil, fun e he => by cases he⟩
      | some i =>
        dsimp only
        obtain ⟨horder, hkept⟩ := ih (entries.eraseIdx i)
        have hperm := evicted_perm maxEntries maxTotalTokens fuel (entries.eraseIdx i)
        have hold : ∀ e, e ∈ evicted maxEntries maxTotalTokens fuel (entries.eraseIdx i) ++
            evictLoop maxEntries maxTotalTokens fuel (entries.eraseIdx i) → e ∈ entries :=
          fun e he => (List.eraseIdx_sublist _ _).subset (hperm.subset he)
        refine ⟨List.pairwise_append.2 ⟨?_, horder, fun e he later hlater hp => ?_⟩,
          fun e he hp kept hk => ?_⟩
        · cases entries[i]? with
          | none => exact List.Pairwise.nil
          | some e => exact List.pairwise_singleton _ _
        · exact victim_spec hv (Option.mem_toList.1 he) hp later
            (hold later (List.mem_append_left _ hlater))
        · rcases List.mem_append.1 he with he | he
          · exact victim_spec hv (Option.mem_toList.1 he) hp kept
              (hold kept (List.mem_append_right _ hk))
          · exact hkept e he hp kept hk
    · exact ⟨List.Pairwise.nil, fun e he => by cases he⟩

/-- An eviction of `out` from `before` that leaves `after`: what is pinned goes last. -/
structure Evicts (before out after : List (CacheEntry C M H)) : Prop where
  perm : (out ++ after).Perm before
  order : out.Pairwise fun earlier later => earlier.pinned = true → later.pinned = true
  kept : ∀ e ∈ out, e.pinned = true → ∀ e' ∈ after, e'.pinned = true

theorem evicts_evictLru (pool : PromptCachePool C M H) :
    ∃ out, Evicts pool.entries out pool.evictLruIfOverCapacity.entries := by
  obtain ⟨horder, hkept⟩ := evicted_spec pool.maxEntries pool.maxTotalTokens pool.entries.length
    pool.entries
  exact ⟨_, evicted_perm _ _ _ _, horder, hkept⟩

/-- Expiry takes no pinned entry. -/
theorem evicts_evictExpired (pool : PromptCachePool C M H) (now : Nat) {e : CacheEntry C M H}
    (he : e ∈ pool.entries) (hgone : e ∉ (pool.evictExpired now).entries) : e.pinned = false := by
  rw [← Bool.not_eq_true]
  intro hpinned
  exact hgone (List.mem_filter.2 ⟨he, by rw [hpinned]; rfl⟩)

/-- After an insert the entry under its ids, if there is one, is the one that it stored. -/
theorem insert_fresh {pool : PromptCachePool C M H} {ids : List TokenId} {caches : C}
    {fedImages fedAudios : Nat} {pinned : Bool} {mtp : Option (MtpState M H)} {expire now : Nat}
    (h : Ordered pool.entries) :
    ∀ e ∈ (pool.insertOrUpdate ids caches fedImages fedAudios pinned mtp expire now).entries,
      e.ids = ids → e.content = (ids, caches, fedImages, fedAudios, alignedMtp ids.length mtp) := by
  intro e he hids
  rw [insertOrUpdate_eq] at he
  cases hs : pool.stored ids caches fedImages fedAudios pinned mtp expire now with
  | none =>
    rw [hs] at he
    unfold stored at hs
    dsimp only at hs
    split at hs
    · rename_i hshort
      rw [Bool.and_eq_true, Bool.not_eq_true', List.any_eq_false] at hshort
      have hpre : isPrefix e.ids ids = true := isPrefix_iff.2 (hids ▸ List.prefix_refl _)
      exact absurd hpre (hshort.2 e he)
    · cases hs
  | some entries =>
    rw [hs] at he
    obtain ⟨hordered, new, hnew, hcontent, -⟩ := stored_spec h hs
    have hmem : e ∈ entries := (evictLoop_sublist _ _ _ _).subset he
    have hnewIds : new.ids = ids := congrArg Prod.fst hcontent
    obtain ⟨i, hi⟩ := List.getElem?_of_mem hmem
    obtain ⟨j, hj⟩ := List.getElem?_of_mem hnew
    obtain rfl := hordered.index_eq hi hj (hids.trans hnewIds.symm)
    rw [hi] at hj
    rw [Option.some.inj hj]
    exact hcontent

/-! ## Lookups -/

/-- The results of a lookup: nothing when no entry is compatible, else the one longest compatible
entry; the pool changes by expiry and by the time of that entry. -/
inductive Lookup (pool : PromptCachePool C M H) (ids : List TokenId) (requireMtp : Bool)
    (expire now : Nat) : Option (CacheEntry C M H × Nat) × PromptCachePool C M H → Prop where
  | miss (hnone : ∀ e ∈ (pool.evictExpired expire).entries, compatible ids requireMtp e = false) :
    Lookup pool ids requireMtp expire now (none, pool.evictExpired expire)
  | hit (i : Nat) (entry : CacheEntry C M H)
      (hat : (pool.evictExpired expire).entries[i]? = some entry)
      (hcompatible : entry.ids ≠ [] ∧ entry.ids <+: ids ∧
        (requireMtp = true → entry.mtp.isSome = true))
      (hlongest : ∀ (j : Nat) (e : CacheEntry C M H),
        (pool.evictExpired expire).entries[j]? = some e → j ≠ i →
          compatible ids requireMtp e = true → e.ids.length < entry.ids.length) :
    Lookup pool ids requireMtp expire now
      (some ({ entry with lastUsed := now }, entry.ids.length),
        { pool with
          entries := (pool.evictExpired expire).entries.set i { entry with lastUsed := now } })

/-- A scan that finds nothing has seen no compatible entry. -/
theorem scan_eq_none {ids : List TokenId} {requireMtp : Bool} (entries : List (CacheEntry C M H))
    (i : Nat) (best : Option (Nat × CacheEntry C M H))
    (h : scan ids requireMtp i entries best = none) :
    best = none ∧ ∀ e ∈ entries, compatible ids requireMtp e = false := by
  induction entries generalizing i best with
  | nil => exact ⟨h, fun e he => by cases he⟩
  | cons entry entries ih =>
    unfold scan at h
    obtain ⟨hbest, hall⟩ := ih _ _ h
    split at hbest
    · cases hbest
    · rename_i hno
      subst hbest
      rw [Option.elim_none, Bool.and_true] at hno
      exact ⟨rfl, List.forall_mem_cons.2 ⟨Bool.eq_false_iff.2 hno, hall⟩⟩

theorem lookup_spec {pool : PromptCachePool C M H} (h : Ordered pool.entries)
    (ids : List TokenId) (requireMtp : Bool) (expire now : Nat) :
    Lookup pool ids requireMtp expire now
      (pool.findLongestCompatiblePrefix ids requireMtp expire now) := by
  have hexpired : Ordered (pool.evictExpired expire).entries := h.sublist List.filter_sublist
  unfold findLongestCompatiblePrefix
  dsimp only
  cases hs : scan ids requireMtp 0 (pool.evictExpired expire).entries none with
  | none => exact .miss (scan_eq_none _ _ _ hs).2
  | some r =>
    obtain ⟨i, entry⟩ := r
    obtain ⟨hat, hcomp, hmax⟩ := scan_spec (pool.evictExpired expire).entries [] none
      (by simp) (by simp) hs
    have hpre := (compatible_iff.1 hcomp).2.1
    refine .hit i entry hat (compatible_iff.1 hcomp) fun j e hj hne hc => ?_
    refine Nat.lt_of_le_of_ne (hmax e (List.mem_of_getElem? hj) hc) fun hlen => hne ?_
    -- two prefixes of one list that have one length are equal
    have hprefix := (compatible_iff.1 hc).2.1
    have hids := (List.prefix_of_prefix_length_le hpre hprefix (Nat.le_of_eq hlen.symm)).eq_of_length
      hlen.symm
    exact hexpired.index_eq hat hj hids

/-- A lookup keeps the invariant. -/
theorem Represents.findLongestCompatiblePrefix {config : PromptCacheConfig}
    {calls : List (PoolCall C M H)} {pool : PromptCachePool C M H}
    (h : Represents config calls pool) (ids : List TokenId) (requireMtp : Bool)
    (expire now : Nat) :
    Represents config (calls ++ [.findLongestCompatiblePrefix ids requireMtp expire now])
      (pool.findLongestCompatiblePrefix ids requireMtp expire now).2 := by
  have hexpired := h.evictExpired expire
  have hmore : ∀ {e : CacheEntry C M H}, (∃ call ∈ calls, call.content = some e.content) →
      ∃ call ∈ calls ++ [.findLongestCompatiblePrefix ids requireMtp expire now],
        call.content = some e.content := by
    rintro e ⟨call, hcall, hcontent⟩
    exact ⟨call, List.mem_append_left _ hcall, hcontent⟩
  have hlookup := lookup_spec h.ordered ids requireMtp expire now
  generalize pool.findLongestCompatiblePrefix ids requireMtp expire now = result at hlookup ⊢
  cases hlookup with
  | miss hnone => exact { hexpired with origin := fun e he => hmore (hexpired.origin e he) }
  | hit i entry hat hcompatible hlongest =>
    have hentry : entry ∈ (pool.evictExpired expire).entries := List.mem_of_getElem? hat
    have hids : ((pool.evictExpired expire).entries.set i { entry with lastUsed := now }).map
        CacheEntry.ids = (pool.evictExpired expire).entries.map CacheEntry.ids := by
      obtain ⟨hi, rfl⟩ := List.getElem?_eq_some_iff.1 hat
      have hlen : i < ((pool.evictExpired expire).entries.map CacheEntry.ids).length := by
        rw [List.length_map]
        exact hi
      have hself := List.set_getElem_self hlen
      rw [List.getElem_map] at hself
      rw [List.map_set]
      exact hself
    refine ⟨h.maxEntries, h.maxTotalTokens, ?_, ?_, ?_, fun e he => ?_, fun e he => ?_⟩
    · rw [List.length_set]
      exact hexpired.count
    · rw [idCount_eq, hids, ← idCount_eq]
      exact hexpired.tokens
    · unfold Ordered
      rw [hids]
      exact hexpired.ordered
    · rcases List.mem_or_eq_of_mem_set he with he | rfl
      · exact hexpired.aligned e he
      · exact hexpired.aligned entry hentry
    · rcases List.mem_or_eq_of_mem_set he with he | rfl
      · exact hmore (hexpired.origin e he)
      · exact hmore (e := entry) (hexpired.origin entry hentry)
/-- The invariant holds of the pool after any sequence of calls. -/
theorem represents_run (config : PromptCacheConfig) (calls : List (PoolCall C M H)) :
    Represents config calls (run config calls) := by
  induction calls using List.reverseRecOn with
  | nil => exact represents_new config
  | append_singleton calls last ih =>
    rw [run, List.foldl_append]
    cases last with
    | insertOrUpdate => exact ih.insertOrUpdate
    | findLongestCompatiblePrefix ids requireMtp expire now =>
      exact ih.findLongestCompatiblePrefix ids requireMtp expire now

/-- The pool after any sequence of calls: it is within its bounds, in order and aligned, and each
entry comes from one insert; the next insert evicts what is pinned last and leaves no other entry
under its ids, expiry spares what is pinned, and the next lookup is a `Lookup`. -/
theorem pool_representation (config : PromptCacheConfig) (calls : List (PoolCall C M H)) :
    Represents config calls (run config calls) ∧
    (idCount (run config calls).entries < 2 ^ 64 ∨ config.maxTotalTokens < 2 ^ 64 - 1 →
      idCount (run config calls).entries ≤ config.maxTotalTokens) ∧
    (∀ (ids : List TokenId) (caches : C) (fedImages fedAudios : Nat) (pinned : Bool)
        (mtp : Option (MtpState M H)) (expire now : Nat),
      let after := ((run config calls).insertOrUpdate ids caches fedImages fedAudios pinned mtp
        expire now).entries
      (∀ e ∈ after, e.ids = ids →
        e.content = (ids, caches, fedImages, fedAudios, alignedMtp ids.length mtp)) ∧
      ∃ out, Evicts (((run config calls).stored ids caches fedImages fedAudios pinned mtp expire
        now).getD ((run config calls).evictExpired expire).entries) out after) ∧
    (∀ now, ∀ e ∈ (run config calls).entries, e ∉ ((run config calls).evictExpired now).entries →
      e.pinned = false) ∧
    ∀ (ids : List TokenId) (requireMtp : Bool) (expire now : Nat),
      Lookup (run config calls) ids requireMtp expire now
        ((run config calls).findLongestCompatiblePrefix ids requireMtp expire now) := by
  have h := represents_run config calls
  have htokens := h.tokens
  refine ⟨h, by omega, ?_, fun now e he => evicts_evictExpired _ now he, fun ids requireMtp expire now =>
    lookup_spec h.ordered ids requireMtp expire now⟩
  intro ids caches fedImages fedAudios pinned mtp expire now
  refine ⟨insert_fresh h.ordered, ?_⟩
  rw [insertOrUpdate_eq]
  cases hs : (run config calls).stored ids caches fedImages fedAudios pinned mtp expire now with
  | none => exact ⟨[], List.Perm.refl _, List.Pairwise.nil, fun e he => (by cases he)⟩
  | some entries => exact evicts_evictLru { run config calls with entries }

end PromptCachePool

end Emelex

import Mathlib.Algebra.Order.Ring.Nat
import Emelex.Engine.SessionOps

/-!
# The prompt-cache pool (`engine/prompt_cache.rs`)

A small pool of cached prefixes, keyed by the token ids they stand for.  `C` is the type of the
target caches, `M` that of the MTP caches and `H` that of a hidden row.  An instant is a natural
number, and an operation that reads the clock takes the instants that it reads.

* `findLongestCompatiblePrefix` — the longest entry whose ids are a prefix of the query.
* `insertOrUpdate` — replace the first entry that is a prefix in place, or push.
* `evictExpired`, `evictLruIfOverCapacity` — by idle time, and by count and tokens.

Principal results: `find_spec` (a hit is a longest compatible entry, and the pool keeps its
contents), `insertOrUpdate_contents` (an insert adds one content and changes no other),
`evictLru_within` (after an insert the pool is within its bounds).
-/

set_option autoImplicit false

namespace Emelex

/-- `MtpState`. -/
structure MtpState (M H : Type) where
  caches : M
  pairsFed : Nat
  frontier : H

/-- `CacheEntry`. -/
structure CacheEntry (C M H : Type) where
  ids : List TokenId
  caches : C
  fedImages : Nat
  fedAudios : Nat
  lastUsed : Nat
  pinned : Bool
  mtp : Option (MtpState M H)

/-- What an entry stands for: all of it but its age and its pin. -/
def CacheEntry.content {C M H : Type} (e : CacheEntry C M H) :
    List TokenId × C × Nat × Nat × Option (MtpState M H) :=
  (e.ids, e.caches, e.fedImages, e.fedAudios, e.mtp)

/-- `PromptCacheConfig`. -/
structure PromptCacheConfig where
  maxEntries : Nat
  maxTotalTokens : Nat
  ttl : Nat
  minCacheableTokens : Nat
  deriving DecidableEq, Repr

/-- `PromptCachePool`. -/
structure PromptCachePool (C M H : Type) where
  entries : List (CacheEntry C M H)
  maxEntries : Nat
  maxTotalTokens : Nat
  ttl : Nat
  minCacheableTokens : Nat

/-- `is_prefix`. -/
def isPrefix (shorter longer : List TokenId) : Bool :=
  decide (shorter.length ≤ longer.length) && shorter == longer.take shorter.length

theorem isPrefix_iff {a b : List TokenId} : isPrefix a b = true ↔ a <+: b := by
  unfold isPrefix
  rw [Bool.and_eq_true, decide_eq_true_iff, beq_iff_eq]
  constructor
  · rintro ⟨-, h⟩
    rw [h]
    exact List.take_prefix _ _
  · intro h
    exact ⟨h.length_le, List.prefix_iff_eq_take.1 h⟩

/-- `aligned_mtp`. -/
def alignedMtp {M H : Type} (idsLen : Nat) : Option (MtpState M H) → Option (MtpState M H)
  | some state => if state.pairsFed + 1 ≠ idsLen then none else some state
  | none => none

namespace PromptCachePool

variable {C M H : Type}

/-- `from_config`. -/
def fromConfig (config : PromptCacheConfig) : PromptCachePool C M H :=
  ⟨[], config.maxEntries, config.maxTotalTokens, config.ttl, config.minCacheableTokens⟩

/-- `evict_expired`; `duration_since` saturates at zero. -/
def evictExpired (pool : PromptCachePool C M H) (now : Nat) : PromptCachePool C M H :=
  { pool with entries := pool.entries.filter fun e => e.pinned || decide (now - e.lastUsed < pool.ttl) }

/-! ## Lookup -/

/-- An entry that a call may be served from. -/
def compatible (ids : List TokenId) (requireMtp : Bool) (entry : CacheEntry C M H) : Bool :=
  !entry.ids.isEmpty && isPrefix entry.ids ids && (!requireMtp || entry.mtp.isSome)

/-- The scan of `find_longest_compatible_prefix`; `best` is kept with its entry. -/
def scan (ids : List TokenId) (requireMtp : Bool) :
    Nat → List (CacheEntry C M H) → Option (Nat × CacheEntry C M H) →
      Option (Nat × CacheEntry C M H)
  | _, [], best => best
  | i, entry :: entries, best =>
    let longer := best.elim true fun b => decide (entry.ids.length > b.2.ids.length)
    scan ids requireMtp (i + 1) entries
      (if compatible ids requireMtp entry && longer then some (i, entry) else best)

/-- `find_longest_compatible_prefix`; the clock is read when entries expire and for the hit. -/
def findLongestCompatiblePrefix (pool : PromptCachePool C M H) (ids : List TokenId)
    (requireMtp : Bool) (expire now : Nat) :
    Option (CacheEntry C M H × Nat) × PromptCachePool C M H :=
  let pool := pool.evictExpired expire
  match scan ids requireMtp 0 pool.entries none with
  | none => (none, pool)
  | some (idx, entry) =>
    let entry := { entry with lastUsed := now }
    (some (entry, entry.ids.length), { pool with entries := pool.entries.set idx entry })

/-! ## Insertion -/

/-- `total_tokens`. -/
def totalTokens (entries : List (CacheEntry C M H)) : Nat :=
  entries.foldl (fun total e => min (total + e.ids.length) (2 ^ 64 - 1)) 0

/-- `min_by_key(|e| e.last_used)` over the entries that satisfy `p`, with their indices: the
first of the least recently used. -/
def oldest (p : CacheEntry C M H → Bool) :
    Nat → List (CacheEntry C M H) → Option (Nat × Nat) → Option Nat
  | _, [], best => best.map Prod.fst
  | i, e :: entries, best =>
    let older := best.elim true fun b => decide (e.lastUsed < b.2)
    oldest p (i + 1) entries (if p e && older then some (i, e.lastUsed) else best)

/-- The entry that is evicted next. -/
def victim (entries : List (CacheEntry C M H)) : Option Nat :=
  (oldest (fun e => !e.pinned) 0 entries none).or (oldest (fun _ => true) 0 entries none)

/-- The loop condition of `evict_lru_if_over_capacity`. -/
def overCapacity (maxEntries maxTotalTokens : Nat) (entries : List (CacheEntry C M H)) : Bool :=
  decide (entries.length > maxEntries) || decide (totalTokens entries > maxTotalTokens)

/-- The loop of `evict_lru_if_over_capacity`; a round removes an entry, so that as many rounds
as there are entries suffice. -/
def evictLoop (maxEntries maxTotalTokens : Nat) :
    Nat → List (CacheEntry C M H) → List (CacheEntry C M H)
  | 0, entries => entries
  | fuel + 1, entries =>
    if overCapacity maxEntries maxTotalTokens entries then
      match victim entries with
      | some i => evictLoop maxEntries maxTotalTokens fuel (entries.eraseIdx i)
      | none => entries
    else entries

/-- `evict_lru_if_over_capacity`. -/
def evictLruIfOverCapacity (pool : PromptCachePool C M H) : PromptCachePool C M H :=
  { pool with
    entries := evictLoop pool.maxEntries pool.maxTotalTokens pool.entries.length pool.entries }

/-- `entries.iter_mut().find(p)` and an update of what it finds. -/
def updateFirst {α : Type} (p : α → Bool) (f : α → α) : List α → Option (List α)
  | [] => none
  | a :: as => if p a then some (f a :: as) else (updateFirst p f as).map (a :: ·)

/-- `insert_or_update`; the clock is read when entries expire and for the new entry. -/
def insertOrUpdate (pool : PromptCachePool C M H) (ids : List TokenId) (caches : C)
    (fedImages fedAudios : Nat) (pinned : Bool) (mtp : Option (MtpState M H))
    (expire now : Nat) : PromptCachePool C M H :=
  let mtp := alignedMtp ids.length mtp
  let pool := pool.evictExpired expire
  if ids.length < pool.minCacheableTokens && !pool.entries.any fun e => isPrefix e.ids ids then
    pool
  else
    let update := fun existing : CacheEntry C M H =>
      { existing with
        ids, caches, fedImages, fedAudios, mtp
        lastUsed := now
        pinned := existing.pinned || pinned }
    match updateFirst (fun e => isPrefix e.ids ids) update pool.entries with
    | some entries => evictLruIfOverCapacity { pool with entries }
    | none =>
      evictLruIfOverCapacity { pool with
        entries := pool.entries ++
          [{ ids, caches, fedImages, fedAudios, mtp, lastUsed := now, pinned }] }

/-! ## What a lookup finds -/

/-- What the entries stand for. -/
def contents (pool : PromptCachePool C M H) :
    List (List TokenId × C × Nat × Nat × Option (MtpState M H)) :=
  pool.entries.map CacheEntry.content

theorem contents_evictExpired (pool : PromptCachePool C M H) (now : Nat) :
    (pool.evictExpired now).contents ⊆ pool.contents :=
  List.map_subset _ List.filter_sublist.subset

/-- The scan keeps a compatible entry at its index, and none before it is longer. -/
theorem scan_spec {ids : List TokenId} {requireMtp : Bool} {r : Nat × CacheEntry C M H} :
    ∀ (entries before : List (CacheEntry C M H)) (best : Option (Nat × CacheEntry C M H)),
      (∀ b, best = some b → before[b.1]? = some b.2 ∧ compatible ids requireMtp b.2 = true) →
      (∀ e ∈ before, compatible ids requireMtp e = true →
        ∃ b, best = some b ∧ e.ids.length ≤ b.2.ids.length) →
      scan ids requireMtp before.length entries best = some r →
      (before ++ entries)[r.1]? = some r.2 ∧ compatible ids requireMtp r.2 = true ∧
        ∀ e ∈ before ++ entries, compatible ids requireMtp e = true →
          e.ids.length ≤ r.2.ids.length
  | [], before, best, hbest, hmax, h => by
    obtain ⟨hat, hcomp⟩ := hbest r h
    rw [List.append_nil]
    refine ⟨hat, hcomp, ?_⟩
    intro e he hc
    obtain ⟨b, hb, hle⟩ := hmax e he hc
    have h : best = some r := h
    rw [h] at hb
    rw [Option.some.inj hb]
    exact hle
  | entry :: entries, before, best, hbest, hmax, h => by
    rw [List.append_cons]
    unfold scan at h
    have hlen : (before ++ [entry]).length = before.length + 1 := by simp
    rw [← hlen] at h
    refine scan_spec entries (before ++ [entry]) _ ?_ ?_ h
    · intro b hb
      split at hb
      · rename_i hc
        obtain rfl := Option.some.inj hb
        rw [Bool.and_eq_true] at hc
        exact ⟨by simp, hc.1⟩
      · obtain ⟨hat, hcomp⟩ := hbest b hb
        exact ⟨by rw [List.getElem?_append_left (List.getElem?_eq_some_iff.1 hat).1]; exact hat,
          hcomp⟩
    · intro e he hc
      rw [List.mem_append, List.mem_singleton] at he
      split
      · rename_i hnew
        rw [Bool.and_eq_true] at hnew
        refine ⟨_, rfl, ?_⟩
        rcases he with he | rfl
        · obtain ⟨b, hb, hle⟩ := hmax e he hc
          have hlonger := hnew.2
          rw [hb] at hlonger
          have hlt : entry.ids.length > b.2.ids.length := of_decide_eq_true hlonger
          show e.ids.length ≤ entry.ids.length
          omega
        · exact Nat.le_refl _
      · rename_i hnew
        rcases he with he | rfl
        · exact hmax e he hc
        · rw [hc, Bool.true_and] at hnew
          cases best with
          | none => exact absurd rfl hnew
          | some b =>
            refine ⟨b, rfl, ?_⟩
            have hle : ¬ e.ids.length > b.2.ids.length := fun hgt => hnew (decide_eq_true hgt)
            omega

theorem compatible_iff {ids : List TokenId} {requireMtp : Bool} {e : CacheEntry C M H} :
    compatible ids requireMtp e = true ↔
      e.ids ≠ [] ∧ e.ids <+: ids ∧ (requireMtp = true → e.mtp.isSome = true) := by
  unfold compatible
  rw [Bool.and_eq_true, Bool.and_eq_true, isPrefix_iff, and_assoc]
  cases requireMtp <;> simp

/-- A hit is a longest compatible entry of those that have not expired. -/
theorem find_spec {pool pool' : PromptCachePool C M H} {ids : List TokenId} {requireMtp : Bool}
    {expire now n : Nat} {e : CacheEntry C M H}
    (h : pool.findLongestCompatiblePrefix ids requireMtp expire now = (some (e, n), pool')) :
    n = e.ids.length ∧ e.ids ≠ [] ∧ e.ids <+: ids ∧ (requireMtp = true → e.mtp.isSome = true) ∧
      e.content ∈ pool.contents ∧
      ∀ e' ∈ (pool.evictExpired expire).entries, compatible ids requireMtp e' = true →
        e'.ids.length ≤ n := by
  unfold findLongestCompatiblePrefix at h
  dsimp only at h
  cases hs : scan ids requireMtp 0 (pool.evictExpired expire).entries none with
  | none => rw [hs] at h; cases (Prod.mk.inj h).1
  | some r =>
    obtain ⟨idx, entry⟩ := r
    rw [hs] at h
    obtain ⟨hat, hcomp, hmax⟩ := scan_spec (pool.evictExpired expire).entries [] none
      (by simp) (by simp) hs
    obtain ⟨rfl, rfl⟩ := Prod.mk.inj (Option.some.inj (Prod.mk.inj h).1)
    obtain ⟨hne, hpre, hmtp⟩ := compatible_iff.1 hcomp
    refine ⟨rfl, hne, hpre, hmtp, ?_, hmax⟩
    apply contents_evictExpired pool expire
    exact List.mem_map.2 ⟨entry, List.mem_of_getElem? hat, rfl⟩

/-- A lookup adds no content. -/
theorem find_contents (pool : PromptCachePool C M H) (ids : List TokenId) (requireMtp : Bool)
    (expire now : Nat) :
    (pool.findLongestCompatiblePrefix ids requireMtp expire now).2.contents ⊆ pool.contents := by
  unfold findLongestCompatiblePrefix
  dsimp only
  cases hs : scan ids requireMtp 0 (pool.evictExpired expire).entries none with
  | none => exact contents_evictExpired pool expire
  | some r =>
    obtain ⟨idx, entry⟩ := r
    obtain ⟨hat, -, -⟩ := scan_spec (pool.evictExpired expire).entries [] none
      (by simp) (by simp) hs
    refine List.Subset.trans ?_ (contents_evictExpired pool expire)
    intro x hx
    obtain ⟨e, he, rfl⟩ := List.mem_map.1 hx
    rcases List.mem_or_eq_of_mem_set he with he | rfl
    · exact List.mem_map.2 ⟨e, he, rfl⟩
    · exact List.mem_map.2 ⟨entry, List.mem_of_getElem? hat, rfl⟩

/-! ## What an insert stores -/

theorem evictLoop_sublist (maxEntries maxTotalTokens : Nat) :
    ∀ (fuel : Nat) (entries : List (CacheEntry C M H)),
      (evictLoop maxEntries maxTotalTokens fuel entries).Sublist entries
  | 0, _ => List.Sublist.refl _
  | fuel + 1, entries => by
    unfold evictLoop
    split
    · split
      · exact (evictLoop_sublist _ _ fuel _).trans (List.eraseIdx_sublist _ _)
      · exact List.Sublist.refl _
    · exact List.Sublist.refl _

theorem updateFirst_mem {α : Type} {p : α → Bool} {f : α → α} {bs : List α} :
    ∀ {as : List α}, updateFirst p f as = some bs → ∀ b ∈ bs, b ∈ as ∨ ∃ a ∈ as, b = f a
  | [], h, _, _ => by cases h
  | a :: as, h, b, hb => by
    unfold updateFirst at h
    split at h
    · obtain rfl := Option.some.inj h
      rcases List.mem_cons.1 hb with rfl | hb
      · exact Or.inr ⟨a, List.mem_cons_self, rfl⟩
      · exact Or.inl (List.mem_cons_of_mem _ hb)
    · obtain ⟨cs, hcs, rfl⟩ := Option.map_eq_some_iff.1 h
      rcases List.mem_cons.1 hb with rfl | hb
      · exact Or.inl List.mem_cons_self
      · rcases updateFirst_mem hcs b hb with hb | ⟨a', ha', rfl⟩
        · exact Or.inl (List.mem_cons_of_mem _ hb)
        · exact Or.inr ⟨a', List.mem_cons_of_mem _ ha', rfl⟩

/-- After an insert the pool holds earlier contents and the new one, its MTP state aligned. -/
theorem insertOrUpdate_contents {pool : PromptCachePool C M H} {ids : List TokenId} {caches : C}
    {fedImages fedAudios : Nat} {pinned : Bool} {mtp : Option (MtpState M H)} {expire now : Nat} :
    ∀ x ∈ (pool.insertOrUpdate ids caches fedImages fedAudios pinned mtp expire now).contents,
      x ∈ pool.contents ∨ x = (ids, caches, fedImages, fedAudios, alignedMtp ids.length mtp) := by
  intro x hx
  unfold insertOrUpdate at hx
  dsimp only at hx
  have hexp := contents_evictExpired pool expire
  have hevict : ∀ entries : List (CacheEntry C M H),
      x ∈ (evictLruIfOverCapacity { pool.evictExpired expire with entries }).contents →
      ∃ e ∈ entries, e.content = x := by
    intro entries h
    obtain ⟨e, he, rfl⟩ := List.mem_map.1 h
    exact ⟨e, (evictLoop_sublist _ _ _ _).subset he, rfl⟩
  split at hx
  · exact Or.inl (hexp hx)
  · split at hx
    · rename_i entries hu
      obtain ⟨e, he, rfl⟩ := hevict _ hx
      rcases updateFirst_mem hu e he with he | ⟨e', -, rfl⟩
      · exact Or.inl (hexp (List.mem_map.2 ⟨e, he, rfl⟩))
      · exact Or.inr rfl
    · obtain ⟨e, he, rfl⟩ := hevict _ hx
      rcases List.mem_append.1 he with he | he
      · exact Or.inl (hexp (List.mem_map.2 ⟨e, he, rfl⟩))
      · rw [List.mem_singleton] at he
        subst he
        exact Or.inr rfl

/-! ## Capacity -/

theorem oldest_lt {p : CacheEntry C M H → Bool} :
    ∀ (entries : List (CacheEntry C M H)) (i : Nat) (best : Option (Nat × Nat)) (v : Nat),
      (∀ b, best = some b → b.1 < i) → oldest p i entries best = some v → v < i + entries.length
  | [], i, best, v, hbest, h => by
    obtain ⟨b, hb, rfl⟩ := Option.map_eq_some_iff.1 h
    exact hbest b hb
  | e :: entries, i, best, v, hbest, h => by
    unfold oldest at h
    have := oldest_lt entries (i + 1) _ v ?_ h
    · rw [List.length_cons]
      omega
    · intro b hb
      split at hb
      · rw [← Option.some.inj hb]
        exact Nat.lt_succ_self i
      · exact Nat.lt_succ_of_lt (hbest b hb)

theorem oldest_isSome : ∀ (entries : List (CacheEntry C M H)) (i : Nat)
    (best : Option (Nat × Nat)), (entries ≠ [] ∨ best.isSome = true) →
      (oldest (fun _ => true) i entries best).isSome = true
  | [], i, best, h => by
    rcases h with h | h
    · exact absurd rfl h
    · simpa [oldest] using h
  | e :: entries, i, best, _ => by
    unfold oldest
    apply oldest_isSome
    right
    cases best with
    | none => rfl
    | some b => split <;> rfl

/-- There is something to evict as long as there is an entry. -/
theorem victim_some {entries : List (CacheEntry C M H)} (h : entries ≠ []) :
    ∃ i, victim entries = some i ∧ i < entries.length := by
  have hsome := oldest_isSome entries 0 none (Or.inl h)
  obtain ⟨j, hj⟩ := Option.isSome_iff_exists.1 hsome
  have hlt : ∀ (p : CacheEntry C M H → Bool) i, oldest p 0 entries none = some i →
      i < entries.length := by
    intro p i hi
    have := oldest_lt entries 0 none i (by simp) hi
    rwa [Nat.zero_add] at this
  unfold victim
  cases hu : oldest (fun e => !e.pinned) 0 entries none with
  | some i => exact ⟨i, rfl, hlt _ i hu⟩
  | none => exact ⟨j, hj, hlt _ j hj⟩

theorem evictLoop_within (maxEntries maxTotalTokens : Nat) :
    ∀ (fuel : Nat) (entries : List (CacheEntry C M H)), entries.length ≤ fuel →
      overCapacity maxEntries maxTotalTokens (evictLoop maxEntries maxTotalTokens fuel entries) =
        false
  | 0, entries, h => by
    rw [List.length_eq_zero_iff.1 (Nat.le_zero.1 h)]
    unfold evictLoop overCapacity totalTokens
    simp
  | fuel + 1, entries, h => by
    unfold evictLoop
    split
    · rename_i hover
      have hne : entries ≠ [] := by
        rintro rfl
        simp [overCapacity, totalTokens] at hover
      obtain ⟨i, hi, hlt⟩ := victim_some hne
      rw [hi]
      apply evictLoop_within
      rw [List.length_eraseIdx_of_lt hlt]
      omega
    · rename_i hover
      exact Bool.eq_false_iff.2 hover

/-- After an eviction the pool is within both bounds. -/
theorem evictLru_within (pool : PromptCachePool C M H) :
    pool.evictLruIfOverCapacity.entries.length ≤ pool.maxEntries ∧
      totalTokens pool.evictLruIfOverCapacity.entries ≤ pool.maxTotalTokens := by
  have h := evictLoop_within pool.maxEntries pool.maxTotalTokens pool.entries.length pool.entries
    (Nat.le_refl _)
  unfold overCapacity at h
  rw [Bool.or_eq_false_iff, decide_eq_false_iff_not, decide_eq_false_iff_not] at h
  exact ⟨Nat.not_lt.1 h.1, Nat.not_lt.1 h.2⟩

end PromptCachePool

end Emelex

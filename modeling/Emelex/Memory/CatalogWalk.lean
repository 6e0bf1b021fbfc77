import Emelex.Memory.Catalog

/-!
# Walks through a catalog

* `Packages.Documented` — what is known of the texts of identifiers and times.
* `Content` — the rows of a store, by the values that they were written from.
* `Enumerates` — a walk ends, and its pages list what matches, once and in order, within the bounds.

Principal results: `collectPage_ok`, `select_eq`, `Paged.enumerates`, `catalogs_enumerate`.
-/

set_option autoImplicit false

namespace Emelex

namespace Memory

namespace Catalog

/-! ## The loop over the rows -/

section collect

variable {ρ α : Type} {rowBytes : ρ → Nat} {tryFrom : ρ → Except MemoryError α} {raw : α → ρ}
  {collection : String} {limit : Nat}

/-- The largest size of an object in memory. -/
def ISIZE_MAX : Nat := 9223372036854775807

/-- The bytes of some rows. -/
def pageBytes (rowBytes : ρ → Nat) (raw : α → ρ) (items : List α) : Nat :=
  (items.map fun a => rowBytes (raw a)).sum

theorem pageBytes_concat (items : List α) (a : α) :
    pageBytes rowBytes raw (items ++ [a]) = pageBytes rowBytes raw items + rowBytes (raw a) := by
  unfold pageBytes
  rw [List.map_append, List.sum_append, List.map_singleton, List.sum_singleton]

/-- The bounds of a page. -/
structure Bounded (rowBytes : ρ → Nat) (raw : α → ρ) (limit : Nat) (items : List α) : Prop where
  count : items.length ≤ limit
  bytes : pageBytes rowBytes raw items ≤ MAX_PAGE_PAYLOAD_BYTES ∨ items.length = 1

/-- What a page takes of the rows that are left: the first of them, and all where it says so. -/
structure Taken (rows taken : List α) (more : Bool) : Prop where
  initial : taken <+: rows
  all : more = false → taken = rows
  some : more = true → taken ≠ rows

theorem Taken.none {a : α} {rows : List α} : Taken (a :: rows) [] true :=
  ⟨List.nil_prefix, fun h => (nomatch h), fun _ h => (nomatch h)⟩

theorem Taken.cons {a : α} {rows taken : List α} {more : Bool} (h : Taken rows taken more) :
    Taken (a :: rows) (a :: taken) more where
  initial := (List.prefix_cons_inj a).2 h.initial
  all hmore := by rw [h.all hmore]
  some hmore heq := h.some hmore (List.cons.inj heq).2

/-- The loop from some items on. -/
theorem collectPage_from {rows : List α} (hread : ∀ a ∈ rows, tryFrom (raw a) = .ok a)
    (hfits : ∀ a ∈ rows, rowBytes (raw a) ≤ ISIZE_MAX) {items : List α}
    (hbounded : Bounded rowBytes raw limit items) (hsize : pageBytes rowBytes raw items ≤ ISIZE_MAX)
    (hfirst : items = [] → 0 < limit) :
    ∃ taken more, collectPage rowBytes tryFrom collection limit items
        (pageBytes rowBytes raw items) (rows.map raw) = .ok (items ++ taken, more) ∧
      Taken rows taken more ∧ (items = [] → rows ≠ [] → taken ≠ []) ∧
      Bounded rowBytes raw limit (items ++ taken) := by
  induction rows generalizing items with
  | nil =>
    exact ⟨[], false, by rw [List.append_nil]; rfl, ⟨List.nil_prefix, fun _ => rfl, nofun⟩,
      fun _ h => absurd rfl h, by rwa [List.append_nil]⟩
  | cons a rows ih =>
    rw [List.map_cons]
    by_cases hfull : items.length = limit
    · refine ⟨[], true, by rw [collectPage, if_pos hfull, List.append_nil], .none, fun hnil => ?_,
        by rwa [List.append_nil]⟩
      have hpos := hfirst hnil
      rw [← hfull, hnil] at hpos
      exact absurd hpos (Nat.lt_irrefl 0)
    · have hrow := hfits a List.mem_cons_self
      have hsum : pageBytes rowBytes raw items + rowBytes (raw a) ≤ USIZE_MAX := by
        unfold ISIZE_MAX at hsize hrow
        unfold USIZE_MAX
        omega
      have hstep : collectPage rowBytes tryFrom collection limit items
          (pageBytes rowBytes raw items) (raw a :: rows.map raw) =
          if items ≠ [] ∧ MAX_PAGE_PAYLOAD_BYTES < pageBytes rowBytes raw items + rowBytes (raw a)
          then .ok (items, true)
          else collectPage rowBytes tryFrom collection limit (items ++ [a])
            (pageBytes rowBytes raw items + rowBytes (raw a)) (rows.map raw) := by
        rw [collectPage, if_neg hfull, hread a List.mem_cons_self]
        simp only [ensure, if_pos hsum]
        rfl
      rw [hstep]
      by_cases hbytes : items ≠ [] ∧
          MAX_PAGE_PAYLOAD_BYTES < pageBytes rowBytes raw items + rowBytes (raw a)
      · exact ⟨[], true, by rw [if_pos hbytes, List.append_nil], .none,
          fun hnil => absurd hnil hbytes.1, by rwa [List.append_nil]⟩
      · have hlength : (items ++ [a]).length = items.length + 1 := by
          rw [List.length_append, List.length_singleton]
        have hitems := hbounded.count
        have hbounded' : Bounded rowBytes raw limit (items ++ [a]) := by
          refine ⟨by omega, ?_⟩
          rw [pageBytes_concat, hlength]
          by_cases hnil : items = []
          · exact .inr (by rw [hnil]; rfl)
          · exact .inl (Nat.not_lt.1 fun hlt => hbytes ⟨hnil, hlt⟩)
        have hsize' : pageBytes rowBytes raw (items ++ [a]) ≤ ISIZE_MAX := by
          rw [pageBytes_concat]
          by_cases hnil : items = []
          · rw [hnil]
            exact (Nat.zero_add _).trans_le hrow
          · have hle := Nat.not_lt.1 fun hlt => hbytes ⟨hnil, hlt⟩
            exact hle.trans (by decide)
        obtain ⟨taken, more, hcollect, htaken, -, hbounded''⟩ := ih
          (fun b hb => hread b (List.mem_cons_of_mem _ hb))
          (fun b hb => hfits b (List.mem_cons_of_mem _ hb)) hbounded' hsize'
          (fun hnil => absurd hnil (by simp))
        refine ⟨a :: taken, more, ?_, htaken.cons, fun _ _ => List.cons_ne_nil _ _, ?_⟩
        · rw [if_neg hbytes, ← pageBytes_concat, hcollect, List.append_assoc,
            List.singleton_append]
        · rwa [List.append_assoc, List.singleton_append] at hbounded''

/-- The items of a page. -/
theorem collectPage_ok {rows : List α} (hread : ∀ a ∈ rows, tryFrom (raw a) = .ok a)
    (hfits : ∀ a ∈ rows, rowBytes (raw a) ≤ ISIZE_MAX) (hlimit : 0 < limit) :
    ∃ taken more, collectPage rowBytes tryFrom collection limit [] 0 (rows.map raw) =
        .ok (taken, more) ∧
      Taken rows taken more ∧ (rows ≠ [] → taken ≠ []) ∧ Bounded rowBytes raw limit taken := by
  obtain ⟨taken, more, hcollect, htaken, hnonempty, hbounded⟩ :=
    @collectPage_from ρ α rowBytes tryFrom raw collection limit rows hread hfits []
      ⟨Nat.zero_le _, .inl (Nat.zero_le _)⟩ (Nat.zero_le _) (fun _ => hlimit)
  exact ⟨taken, more, hcollect, htaken, hnonempty rfl, hbounded⟩

end collect

/-! ## Pages of rows in the order of their keys -/

section pages

open Paging

variable {ρ α κ K : Type} [LinearOrder K] {rowBytes : ρ → Nat} {raw : α → ρ} {limit : Nat}
  {key : α → K} {keyOf : κ → K} {cursorOf : α → κ}

/-- A `SELECT` on columns that are ordered as the keys. -/
theorem select_eq {rows : List α} {scope : α → Bool} {cursor : Option K} {condition : ρ → Bool}
    {orderBy : ρ → ρ → Bool}
    (hcondition : ∀ a ∈ rows, condition (raw a) = (scope a && cursor.all (· < key a)))
    (horder : ∀ a b, orderBy (raw a) (raw b) = true ↔ key a ≤ key b) :
    select (rows.map raw) condition orderBy limit =
      ((rest key (rows.filter scope) cursor).take limit).map raw := by
  have hfilter : (rows.map raw).filter condition =
      (rows.filter fun a => scope a && cursor.all (· < key a)).map raw := by
    rw [List.filter_map]
    congr 1
    exact List.filter_congr hcondition
  have hrest : rest key (rows.filter scope) cursor =
      listing key (rows.filter fun a => scope a && cursor.all (· < key a)) := by
    cases cursor with
    | none => simp [rest]
    | some k => simp [rest, List.filter_filter, Bool.and_comm]
  unfold select
  rw [hfilter, hrest, List.map_take, listing]
  congr 1
  exact (List.map_insertionSort _ _ raw _ fun a _ b _ => (horder a b).symm).symm

/-- A listing whose pages are taken from the rows after a cursor. -/
structure Paged (rowBytes : ρ → Nat) (raw : α → ρ) (limit : Nat) (key : α → K) (keyOf : κ → K)
    (cursorOf : α → κ) (matching : List α) (page : Option κ → Except MemoryError (Page κ α)) :
    Prop where
  distinct : (matching.map key).Nodup
  cursor : ∀ a, keyOf (cursorOf a) = key a
  page : ∀ cursor, ∃ taken more,
    page cursor = .ok ⟨taken, if more then taken.getLast?.map cursorOf else none⟩ ∧
    Taken ((rest key matching (cursor.map keyOf)).take (limit + 1)) taken more ∧
    ((rest key matching (cursor.map keyOf)).take (limit + 1) ≠ [] → taken ≠ []) ∧
    Bounded rowBytes raw limit taken

/-- A walk ends, and its pages list what matches, once and in order; no page is empty, but for the
only one where nothing matches, and all are within the bounds. -/
def Enumerates (rowBytes : ρ → Nat) (raw : α → ρ) (limit : Nat) (precedes : α → α → Prop)
    (matching : List α) (page : Option κ → Except MemoryError (Page κ α)) : Prop :=
  ∃ pages, walk page (matching.length + 1) none = some (.ok pages) ∧
    (pages.flatMap (·.items)).Perm matching ∧ (pages.flatMap (·.items)).Pairwise precedes ∧
    ∀ one ∈ pages, Bounded rowBytes raw limit one.items ∧ (matching ≠ [] → one.items ≠ [])

variable {matching : List α} {page : Option κ → Except MemoryError (Page κ α)}

/-- Where no row is left the page is the rest. -/
theorem Taken.eq_rest {rows taken : List α} (h : Taken (rows.take (limit + 1)) taken false)
    (hcount : taken.length ≤ limit) : rows = taken := by
  have hall := h.all rfl
  rw [hall, List.length_take] at hcount
  rw [hall, List.take_of_length_le (by omega)]

/-- Where a row is left the page ends with a row that has some behind it. -/
theorem Taken.split {rows taken : List α} (h : Taken (rows.take (limit + 1)) taken true)
    (hne : taken ≠ []) : ∃ before a after, taken = before ++ [a] ∧ rows = before ++ a :: after ∧
      after ≠ [] := by
  obtain ⟨more, hmore⟩ := h.initial
  refine ⟨taken.dropLast, taken.getLast hne, more ++ rows.drop (limit + 1),
    (List.dropLast_append_getLast hne).symm, ?_, fun hnil => ?_⟩
  · have hrows := List.take_append_drop (limit + 1) rows
    rw [← hmore] at hrows
    conv_lhs => rw [← hrows, ← List.dropLast_append_getLast hne]
    simp only [List.append_assoc, List.cons_append, List.nil_append]
  · refine h.some rfl ?_
    rw [← hmore, (List.append_eq_nil_iff.1 hnil).1, List.append_nil]

theorem Paged.remains (h : Paged rowBytes raw limit key keyOf cursorOf matching page) :
    Remains page id (fun cursor => matching ≠ [] → rest key matching (cursor.map keyOf) ≠ [])
      (fun cursor => rest key matching (cursor.map keyOf))
      fun cursor => (rest key matching (cursor.map keyOf)).length := by
  refine ⟨fun cursor hmet => ?_⟩
  obtain ⟨taken, more, hpage, htaken, hnonempty, hbounded⟩ := h.page cursor
  refine ⟨_, hpage, fun hnext => ?_, fun next hnext => ?_⟩
  · cases more with
    | false => exact htaken.eq_rest hbounded.count
    | true =>
      rw [if_pos rfl, Option.map_eq_none_iff, List.getLast?_eq_none_iff] at hnext
      have hrows : (rest key matching (cursor.map keyOf)).take (limit + 1) ≠ [] :=
        fun hnil => htaken.some rfl (hnext.trans hnil.symm)
      exact absurd hnext (hnonempty hrows)
  · cases more with
    | false => cases hnext
    | true =>
      have hrows : (rest key matching (cursor.map keyOf)).take (limit + 1) ≠ [] := by
        intro hnil
        have htakenNil : taken = [] := List.prefix_nil.1 (hnil ▸ htaken.initial)
        exact htaken.some rfl (htakenNil.trans hnil.symm)
      obtain ⟨before, a, after, rfl, hsplit, hafter⟩ := htaken.split (hnonempty hrows)
      rw [if_pos rfl, List.getLast?_concat, Option.map_some, Option.some.injEq] at hnext
      subst hnext
      have hrest : rest key matching ((some (cursorOf a)).map keyOf) = after := by
        rw [Option.map_some, h.cursor]
        exact rest_of_split h.distinct hsplit
      refine ⟨some (cursorOf a), rfl, fun _ => by rwa [hrest], ?_, ?_⟩
      · rw [hrest, hsplit, List.length_append, List.length_cons]
        omega
      · rw [hrest, hsplit, List.append_assoc, List.singleton_append]

/-- A walk through pages of rows in the order of their keys. -/
theorem Paged.enumerates (h : Paged rowBytes raw limit key keyOf cursorOf matching page) :
    Enumerates rowBytes raw limit (fun a b => key a < key b) matching page := by
  have hmet : matching ≠ [] → rest key matching ((none : Option κ).map keyOf) ≠ [] := by
    intro hne hnil
    obtain ⟨a, ha⟩ := List.exists_mem_of_ne_nil matching hne
    have hmem : a ∈ listing key matching := mem_listing.2 ha
    rw [show listing key matching = [] from hnil] at hmem
    exact List.not_mem_nil hmem
  have hlength : (rest key matching ((none : Option κ).map keyOf)).length < matching.length + 1 := by
    show (listing key matching).length < _
    rw [listing, List.length_insertionSort]
    exact Nat.lt_succ_self _
  obtain ⟨pages, hwalk, hitems, hpages⟩ := h.remains.walk hmet hlength
  refine ⟨pages, hwalk, ?_, ?_, fun one hone => ?_⟩
  · rw [hitems]
    exact List.perm_insertionSort _ _
  · rw [hitems]
    exact listing_pairwise h.distinct
  · obtain ⟨cursor, hcursor, hpage⟩ := hpages one hone
    obtain ⟨taken, more, hpage', htaken, hnonempty, hbounded⟩ := h.page cursor
    cases hpage.symm.trans hpage'
    refine ⟨hbounded, fun hne => hnonempty fun hnil => hcursor hne ?_⟩
    exact (List.take_eq_nil_iff.1 hnil).resolve_left (Nat.succ_ne_zero _)

end pages

/-! ## The rows of a store -/

section store

open Paging OrderDual

/-- What is known of the texts: an identifier is read as it was written, the text of a time is
`DateTime.text`, and a time is read from every fraction that denotes its nanoseconds. -/
structure Packages.Documented (p : Packages) : Prop where
  uuid : ∀ id, p.parseUuid (p.uuidText id) = .ok id
  text : ∀ t, (p.toRfc3339 t).toList = t.text
  read : ∀ (t : DateTime) (fraction : List Char) (s : String),
    Rfc3339.Denotes fraction (t.nanosecond % 1000000000) → s.toList = t.spelling fraction →
    p.parseFromRfc3339 s = .ok t

variable {p : Packages}

theorem Packages.Documented.uuidText_injective (hp : p.Documented) :
    Function.Injective p.uuidText := by
  intro a b h
  have hread := hp.uuid a
  rw [h, hp.uuid b] at hread
  exact (Except.ok.inj hread).symm

/-- Times are compared as their texts. -/
theorem Packages.Documented.lt_iff (hp : p.Documented) {t u : DateTime} :
    p.toRfc3339 t < p.toRfc3339 u ↔ t < u := by
  rw [String.lt_iff_toList_lt, hp.text, hp.text, DateTime.text_lt_iff]

theorem Packages.Documented.eq_iff (hp : p.Documented) {t u : DateTime} :
    p.toRfc3339 t = p.toRfc3339 u ↔ t = u := by
  rw [← String.toList_inj, hp.text, hp.text, DateTime.text_injective.eq_iff]

/-- A time is read as it was written. -/
theorem Packages.Documented.read_text (hp : p.Documented) (t : DateTime) :
    p.parseFromRfc3339 (p.toRfc3339 t) = .ok t :=
  hp.read t _ _ (Rfc3339.denotes_fraction (Nat.mod_lt _ (by decide))) (hp.text t)

/-- The row of a Session. -/
def Session.raw (p : Packages) (s : Session) : RawSession where
  id := p.uuidText s.id
  workspace := s.workspace
  workspaceIdentity := some s.workspaceIdentity
  modelReference := s.modelReference
  modelSnapshot := s.modelSnapshot
  title := s.title
  createdAt := p.toRfc3339 s.createdAt
  updatedAt := p.toRfc3339 s.updatedAt

/-- The row of Knowledge. -/
def Knowledge.raw (p : Packages) (k : Knowledge) : RawKnowledge where
  id := p.uuidText k.id
  workspace := k.workspace
  workspaceIdentity := k.workspaceIdentity
  key := k.key
  activeVersion := k.activeVersion
  content := k.content
  sourceSessionId := k.sourceSessionId.map p.uuidText
  pinned := k.pinned
  tombstoned := k.tombstoned
  createdAt := p.toRfc3339 k.createdAt
  updatedAt := p.toRfc3339 k.updatedAt

theorem Session.tryFrom_raw (hp : p.Documented) (s : Session) :
    Session.tryFrom p (s.raw p) = .ok s := by
  unfold Session.tryFrom Session.raw parseUuid parseTime
  simp only [hp.uuid, hp.read_text]
  rfl

theorem Knowledge.tryFrom_raw (hp : p.Documented) {k : Knowledge} (h : k.activeVersion ≤ U32_MAX) :
    Knowledge.tryFrom p (k.raw p) = .ok k := by
  have hversion : (0 : Int) ≤ k.activeVersion ∧ (k.activeVersion : Int) ≤ U32_MAX := by omega
  unfold Knowledge.tryFrom Knowledge.raw parseUuid parseTime
  simp only [hp.uuid, hp.read_text, ensure, if_pos hversion, Int.toNat_natCast]
  obtain ⟨id, workspace, identity, key, version, content, source, _, _, _, _⟩ := k
  cases source with
  | none => rfl
  | some source =>
    simp only [Option.map_some, hp.uuid]
    rfl

/-- The rows of a store: identifiers and the keys of a workspace are unique, versions are numbers of
32 bits, and a row fits in memory. -/
structure Content (p : Packages) where
  sessions : List Session
  knowledge : List Knowledge
  ids : (sessions.map (·.id)).Nodup
  keys : (knowledge.map fun k => (k.workspaceIdentity, k.key)).Nodup
  versions : ∀ k ∈ knowledge, k.activeVersion ≤ U32_MAX
  sessionsFit : ∀ s ∈ sessions, (s.raw p).rowBytes ≤ ISIZE_MAX
  knowledgeFits : ∀ k ∈ knowledge, (k.raw p).rowBytes ≤ ISIZE_MAX

/-! ### Sessions -/

/-- The Sessions of a workspace, or all. -/
def Session.inScope (workspace : Option WorkspaceIdentity) (s : Session) : Bool :=
  workspace.all fun identity => s.workspaceIdentity = identity

/-- The later update comes first, then the greater identifier. -/
def Session.newer (p : Packages) (a b : Session) : Prop :=
  b.updatedAt < a.updatedAt ∨ a.updatedAt = b.updatedAt ∧ p.uuidText b.id < p.uuidText a.id

/-- What Sessions are listed by. -/
def Session.key (p : Packages) (s : Session) : DateTimeᵒᵈ ×ₗ Stringᵒᵈ :=
  toLex (toDual s.updatedAt, toDual (p.uuidText s.id))

/-- The cursor behind a Session. -/
def Session.cursor (s : Session) : SessionCursor := ⟨s.updatedAt, s.id⟩

def SessionCursor.key (p : Packages) (c : SessionCursor) : DateTimeᵒᵈ ×ₗ Stringᵒᵈ :=
  toLex (toDual c.updatedAt, toDual (p.uuidText c.id))

theorem Session.key_lt {a b : Session} : a.key p < b.key p ↔ a.newer p b := by
  unfold Session.key Session.newer
  rw [Prod.Lex.lt_iff]
  simp only [ofLex_toLex, toDual_lt_toDual, toDual_inj]

theorem Session.newestFirst_raw (hp : p.Documented) (a b : Session) :
    RawSession.newestFirst (a.raw p) (b.raw p) = true ↔ a.key p ≤ b.key p := by
  unfold RawSession.newestFirst Session.key Session.raw
  rw [Prod.Lex.le_iff]
  simp only [Bool.or_eq_true, Bool.and_eq_true, decide_eq_true_eq, hp.lt_iff, hp.eq_iff,
    ofLex_toLex, toDual_lt_toDual, toDual_inj, toDual_le_toDual]

theorem Session.before_raw (hp : p.Documented) (cursor : Option SessionCursor) (s : Session) :
    (s.raw p).before (cursor.map fun c => p.toRfc3339 c.updatedAt)
      (cursor.map fun c => p.uuidText c.id) = (cursor.map (·.key p)).all (· < s.key p) := by
  cases cursor with
  | none => rfl
  | some c =>
    rw [Bool.eq_iff_iff]
    unfold RawSession.before Session.raw Session.key SessionCursor.key
    simp only [Option.map_some, Option.all_some, Bool.or_eq_true, Bool.and_eq_true,
      decide_eq_true_eq, hp.lt_iff, hp.eq_iff, Prod.Lex.lt_iff, ofLex_toLex, toDual_lt_toDual,
      toDual_inj]
    exact or_congr_right (and_congr_left fun _ => eq_comm)

/-- The `SELECT` of `sessions`. -/
theorem sessions_eq (p : Packages) (rows : List RawSession) (workspace : Option WorkspaceIdentity)
    (cursor : Option SessionCursor) {limit : Nat} (hmin : 1 ≤ limit)
    (hmax : limit ≤ MAX_SESSION_PAGE_ITEMS) :
    sessions p rows workspace cursor limit = collectSessionPage p (select rows
      (fun row => workspace.all (fun identity => row.workspaceIdentity = some identity) &&
        row.before (cursor.map fun c => p.toRfc3339 c.updatedAt)
          (cursor.map fun c => p.uuidText c.id)) RawSession.newestFirst (limit + 1)) limit := by
  have hlimit : pageLimit limit MAX_SESSION_PAGE_ITEMS "Session" = .ok limit := by
    unfold pageLimit
    simp only [ensure, if_pos (And.intro hmin hmax)]
    rfl
  unfold sessions
  rw [hlimit]
  cases workspace with
  | none =>
    simp only [Option.all_none, Bool.true_and]
    rfl
  | some identity => rfl

theorem sessions_paged (hp : p.Documented) (content : Content p)
    (workspace : Option WorkspaceIdentity) {limit : Nat} (hmin : 1 ≤ limit)
    (hmax : limit ≤ MAX_SESSION_PAGE_ITEMS) :
    Paged RawSession.rowBytes (Session.raw p) limit (Session.key p) (SessionCursor.key p)
      Session.cursor (content.sessions.filter (Session.inScope workspace))
      fun cursor => sessions p (content.sessions.map (Session.raw p)) workspace cursor limit where
  distinct := by
    have hids : (content.sessions.map (Session.key p)).Nodup := by
      refine List.Nodup.of_map (fun key => (ofLex key).2) ?_
      rw [List.map_map]
      have hinj : Function.Injective fun id => toDual (p.uuidText id) :=
        toDual.injective.comp hp.uuidText_injective
      have hnodup := content.ids.map hinj
      rwa [List.map_map] at hnodup
    exact hids.sublist (List.filter_sublist.map _)
  cursor a := rfl
  page cursor := by
    have hscope : ∀ s ∈ content.sessions, (workspace.all (fun identity =>
        (s.raw p).workspaceIdentity = some identity) &&
          (s.raw p).before (cursor.map fun c => p.toRfc3339 c.updatedAt)
            (cursor.map fun c => p.uuidText c.id)) =
        (s.inScope workspace && (cursor.map (·.key p)).all (· < s.key p)) := by
      intro s _
      rw [Session.before_raw hp]
      congr 1
      cases workspace with
      | none => rfl
      | some identity => simp [Session.inScope, Session.raw]
    have hrows : ∀ s ∈ (rest (Session.key p) (content.sessions.filter (Session.inScope workspace))
        (cursor.map (·.key p))).take (limit + 1), s ∈ content.sessions := fun s hs =>
      List.mem_of_mem_filter (mem_of_mem_rest (List.mem_of_mem_take hs))
    obtain ⟨taken, more, hcollect, htaken, hnonempty, hbounded⟩ := @collectPage_ok _ _
      RawSession.rowBytes (Session.tryFrom p) (Session.raw p) "Session" limit _
      (fun s _ => Session.tryFrom_raw hp s) (fun s hs => content.sessionsFit s (hrows s hs)) hmin
    refine ⟨taken, more, ?_, htaken, hnonempty, hbounded⟩
    rw [sessions_eq p _ workspace cursor hmin hmax,
      select_eq hscope (Session.newestFirst_raw hp), collectSessionPage, hcollect]
    rfl

/-! ### Knowledge -/

/-- The Knowledge of a workspace that is not forgotten. -/
def Knowledge.inScope (workspace : WorkspaceIdentity) (k : Knowledge) : Bool :=
  k.workspaceIdentity = workspace && !k.tombstoned

/-- What is pinned comes first, then the later update, then the smaller key. -/
def Knowledge.precedes (a b : Knowledge) : Prop :=
  b.pinned < a.pinned ∨ a.pinned = b.pinned ∧
    (b.updatedAt < a.updatedAt ∨ a.updatedAt = b.updatedAt ∧ a.key < b.key)

/-- What Knowledge is listed by. -/
def Knowledge.order (k : Knowledge) : Boolᵒᵈ ×ₗ DateTimeᵒᵈ ×ₗ String :=
  toLex (toDual k.pinned, toLex (toDual k.updatedAt, k.key))

/-- The cursor behind Knowledge. -/
def Knowledge.cursor (k : Knowledge) : KnowledgeCursor := ⟨k.pinned, k.updatedAt, k.key⟩

def KnowledgeCursor.order (c : KnowledgeCursor) : Boolᵒᵈ ×ₗ DateTimeᵒᵈ ×ₗ String :=
  toLex (toDual c.pinned, toLex (toDual c.updatedAt, c.key))

theorem Knowledge.order_lt {a b : Knowledge} : a.order < b.order ↔ a.precedes b := by
  unfold Knowledge.order Knowledge.precedes
  simp only [Prod.Lex.lt_iff, ofLex_toLex, toDual_lt_toDual, toDual_inj]

theorem Knowledge.pinnedFirst_raw (hp : p.Documented) (a b : Knowledge) :
    RawKnowledge.pinnedFirst (a.raw p) (b.raw p) = true ↔ a.order ≤ b.order := by
  unfold RawKnowledge.pinnedFirst Knowledge.order Knowledge.raw
  simp only [Prod.Lex.le_iff, Bool.or_eq_true, Bool.and_eq_true, decide_eq_true_eq, hp.lt_iff,
    hp.eq_iff, ofLex_toLex, toDual_lt_toDual, toDual_inj]

theorem Knowledge.after_raw (hp : p.Documented) (cursor : Option KnowledgeCursor) (k : Knowledge) :
    (k.raw p).after (cursor.map fun c => c.pinned) (cursor.map fun c => p.toRfc3339 c.updatedAt)
      (cursor.map fun c => c.key) = (cursor.map (·.order)).all (· < k.order) := by
  cases cursor with
  | none => rfl
  | some c =>
    rw [Bool.eq_iff_iff]
    unfold RawKnowledge.after Knowledge.raw Knowledge.order KnowledgeCursor.order
    simp only [Option.map_some, Option.all_some, Bool.or_eq_true, Bool.and_eq_true,
      decide_eq_true_eq, hp.lt_iff, hp.eq_iff, Prod.Lex.lt_iff, ofLex_toLex, toDual_lt_toDual,
      toDual_inj]
    rw [or_assoc, eq_comm (a := k.pinned), eq_comm (a := k.updatedAt), and_assoc, ← and_or_left]

theorem knowledge_paged (hp : p.Documented) (content : Content p) (workspace : WorkspaceIdentity)
    {limit : Nat} (hmin : 1 ≤ limit) (hmax : limit ≤ MAX_KNOWLEDGE_PAGE_ITEMS) :
    Paged RawKnowledge.rowBytes (Knowledge.raw p) limit Knowledge.order KnowledgeCursor.order
      Knowledge.cursor (content.knowledge.filter (Knowledge.inScope workspace))
      fun cursor => knowledgeForWorkspace p (content.knowledge.map (Knowledge.raw p)) workspace
        cursor limit where
  distinct := by
    have hkeys : ((content.knowledge.filter (Knowledge.inScope workspace)).map
        fun k => (k.workspaceIdentity, k.key)).Nodup :=
      content.keys.sublist (List.filter_sublist.map _)
    refine List.Nodup.of_map (fun order => (workspace, (ofLex (ofLex order).2).2)) ?_
    have hsame : ∀ k ∈ content.knowledge.filter (Knowledge.inScope workspace),
        (workspace, k.key) = (k.workspaceIdentity, k.key) := by
      intro k hk
      have hscope := (List.mem_filter.1 hk).2
      unfold Knowledge.inScope at hscope
      rw [Bool.and_eq_true, decide_eq_true_eq] at hscope
      rw [hscope.1]
    rw [← List.map_congr_left hsame] at hkeys
    rwa [List.map_map]
  cursor a := rfl
  page cursor := by
    have hscope : ∀ k ∈ content.knowledge, (decide ((k.raw p).workspaceIdentity = workspace) &&
        !(k.raw p).tombstoned && (k.raw p).after (cursor.map fun c => c.pinned)
          (cursor.map fun c => p.toRfc3339 c.updatedAt) (cursor.map fun c => c.key)) =
        (k.inScope workspace && (cursor.map (·.order)).all (· < k.order)) := by
      intro k _
      rw [Knowledge.after_raw hp]
      rfl
    have hrows : ∀ k ∈ (rest Knowledge.order (content.knowledge.filter
        (Knowledge.inScope workspace)) (cursor.map (·.order))).take (limit + 1),
        k ∈ content.knowledge := fun k hk =>
      List.mem_of_mem_filter (mem_of_mem_rest (List.mem_of_mem_take hk))
    have hlimit : pageLimit limit MAX_KNOWLEDGE_PAGE_ITEMS "Knowledge" = .ok limit := by
      unfold pageLimit
      simp only [ensure, if_pos (And.intro hmin hmax)]
      rfl
    obtain ⟨taken, more, hcollect, htaken, hnonempty, hbounded⟩ := @collectPage_ok _ _
      RawKnowledge.rowBytes (Knowledge.tryFrom p) (Knowledge.raw p) "Knowledge" limit _
      (fun k hk => Knowledge.tryFrom_raw hp (content.versions k (hrows k hk)))
      (fun k hk => content.knowledgeFits k (hrows k hk)) hmin
    refine ⟨taken, more, ?_, htaken, hnonempty, hbounded⟩
    unfold knowledgeForWorkspace
    rw [hlimit]
    show collectKnowledgePage p (select _ _ _ (limit + 1)) limit = _
    rw [select_eq hscope (Knowledge.pinnedFirst_raw hp), collectKnowledgePage, hcollect]
    rfl

/-! ## Exact enumeration -/

theorem Enumerates.imp {ρ α κ : Type} {rowBytes : ρ → Nat} {raw : α → ρ} {limit : Nat}
    {precedes precedes' : α → α → Prop} {matching : List α}
    {page : Option κ → Except MemoryError (Page κ α)}
    (h : Enumerates rowBytes raw limit precedes matching page)
    (himp : ∀ a b, precedes a b → precedes' a b) :
    Enumerates rowBytes raw limit precedes' matching page := by
  obtain ⟨pages, hwalk, hperm, hordered, hpages⟩ := h
  exact ⟨pages, hwalk, hperm, hordered.imp (himp _ _), hpages⟩

/-- Walks through both catalogs list what is in scope, once and in the declared order; times are
compared as their texts, and the time of a cursor is written as it is stored. -/
theorem catalogs_enumerate (p : Packages) (hp : p.Documented) (content : Content p) :
    (∀ workspace limit, 1 ≤ limit → limit ≤ MAX_SESSION_PAGE_ITEMS →
      Enumerates RawSession.rowBytes (Session.raw p) limit (Session.newer p)
        (content.sessions.filter (Session.inScope workspace))
        fun cursor => sessions p (content.sessions.map (Session.raw p)) workspace cursor limit) ∧
    (∀ workspace limit, 1 ≤ limit → limit ≤ MAX_KNOWLEDGE_PAGE_ITEMS →
      Enumerates RawKnowledge.rowBytes (Knowledge.raw p) limit Knowledge.precedes
        (content.knowledge.filter (Knowledge.inScope workspace))
        fun cursor => knowledgeForWorkspace p (content.knowledge.map (Knowledge.raw p)) workspace
          cursor limit) ∧
    (∀ t u, p.toRfc3339 t < p.toRfc3339 u ↔ t < u) ∧
    ∀ t u, p.parseFromRfc3339 (p.toRfc3339 t) = .ok u → p.toRfc3339 u = p.toRfc3339 t := by
  refine ⟨fun workspace limit hmin hmax => ?_, fun workspace limit hmin hmax => ?_,
    fun t u => hp.lt_iff, fun t u hread => ?_⟩
  · exact (sessions_paged hp content workspace hmin hmax).enumerates.imp
      fun a b hlt => Session.key_lt.1 hlt
  · exact (knowledge_paged hp content workspace hmin hmax).enumerates.imp
      fun a b hlt => Knowledge.order_lt.1 hlt
  · rw [hp.read_text, Except.ok.injEq] at hread
    rw [hread]

/-- Identifiers by their digits, and times as `chrono` writes and reads them. -/
def decimal : Packages where
  uuidText id := String.ofList (Nat.toDigits 10 id)
  parseUuid s := .ok (Nat.ofDigitChars 10 s.toList 0)
  toRfc3339 t := String.ofList t.text
  parseFromRfc3339 s :=
    match Rfc3339.read s.toList with
    | some t => .ok t
    | none => .error "input contains invalid characters"

theorem decimal_documented : decimal.Documented where
  uuid id := by
    unfold decimal
    simp only [String.toList_ofList, Nat.ofDigitChars_toDigits (b := 10) (by decide) (by decide)]
  text t := String.toList_ofList
  read t fraction s hdenotes hs := by
    unfold decimal
    simp only [hs, Rfc3339.read_spelling hdenotes]

/-- Noon of a day. -/
def noon : DateTime where
  year := 2025
  month := 6
  day := 1
  hour := 12
  minute := 0
  second := 0
  nanosecond := 0
  date := by decide
  clock := by decide
  fraction := by decide

/-- Two Sessions of one time. -/
def tied : Content decimal where
  sessions := [⟨1, "/w", ⟨1, 2⟩, none, none, none, noon, noon⟩,
    ⟨2, "/w", ⟨1, 2⟩, none, none, some "second", noon, noon⟩]
  knowledge := [⟨3, "/w", ⟨1, 2⟩, "build", 1, "cargo test", some 1, true, false, noon, noon⟩]
  ids := by decide
  keys := by decide
  versions := by decide
  sessionsFit := by decide
  knowledgeFits := by decide

theorem tied_enumerated :
    Enumerates RawSession.rowBytes (Session.raw decimal) 1 (Session.newer decimal)
      (tied.sessions.filter (Session.inScope none))
      fun cursor => sessions decimal (tied.sessions.map (Session.raw decimal)) none cursor 1 :=
  (catalogs_enumerate decimal decimal_documented tied).1 none 1 (by decide) (by decide)

end store

end Catalog

end Memory

end Emelex

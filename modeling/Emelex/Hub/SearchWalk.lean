import Emelex.Hub.SearchCursors

/-!
# Walks through the results of a search

* `Linked`, `Admissible` — the pages of the Hub, each behind the one before, as a client takes them.
* `Position`, `cursorAt` — a place in these pages, and its cursor.

Principal results: `search_at`, `search_enumerates`.
-/

set_option autoImplicit false

namespace Emelex

open Checks Paging

namespace Hub

namespace Search

/-! ## One page -/

/-- A page of the Hub as a client takes it: not too many candidates, each of them settled, and cursors
that are not too long for what a search keeps in its own. -/
structure Admissible {T : Type} (w : World T) (codec : Codec) (client : Client) (s : HubSearch)
    (upstream : Option String) (response : Response) : Prop where
  count : response.candidates.length ≤ client.scanLimit
  next : validateUpstream response.next = .ok ()
  settled : ∀ c ∈ rankedCandidates client response.candidates.zipIdx, Settled w c.2
  fits : ∀ cursor, upstream = some cursor → ∀ scope, searchScope codec client s = .ok scope →
    ∀ offset, offset = 0 ∨ offset < response.candidates.length →
      Text.utf8Len (SearchCursor.toJson ⟨SEARCH_CURSOR_VERSION, upstream, offset, scope⟩) ≤
        MAX_SEARCH_CURSOR_BYTES

/-- What a search is made with: a client with valid bounds, filters with remote evidence, and a query
that is not too long. -/
structure Setting {T : Type} (w : World T) (codec : Codec) (client : Client) (s : HubSearch)
    (query : Option String) (available : Option Nat) : Prop where
  codec : codec.Documented
  client : client.Valid
  filters : validateRemoteFilters w s.require = .ok ()
  query : normalizedSearchQuery s = .ok query
  available : w.available = .ok available

section page

variable {T : Type} {w : World T} {codec : Codec} {client : Client} {s : HubSearch}
  {query : Option String} {available : Option Nat} {upstream : Option String} {response : Response}

theorem Setting.scope (hset : Setting w codec client s query available) :
    ∃ scope, searchScope codec client s = .ok scope := by
  unfold searchScope scopeOf
  rw [hset.query]
  exact ⟨_, rfl⟩

/-- The cursor of a place in a page of the Hub. -/
theorem Admissible.encode (hset : Setting w codec client s query available)
    (h : Admissible w codec client s upstream response)
    (hvalid : validateUpstream upstream = .ok ()) {offset : Nat}
    (hoffset : offset = 0 ∨ offset < response.candidates.length) :
    ∃ text, encodeSearchCursor codec client s upstream offset = .ok text := by
  obtain ⟨scope, hscope⟩ := hset.scope
  have hmax := hset.client.scanLimit.2
  have hcount := h.count
  have hbound : offset ≤ 1000 := by omega
  refine ⟨_, encode_eq_ok.2 ⟨hvalid, hbound, scope, hscope, ?_, rfl⟩⟩
  cases upstream with
  | none => exact first_fits hscope hbound
  | some cursor => exact h.fits cursor rfl scope hscope offset hoffset

/-- What a call gives at a place in a page of the Hub. -/
inductive Outcome (codec : Codec) (client : Client) (s : HubSearch) (upstream : Option String)
    (response : Response) (taken : List (Nat × HubModel T)) (offset : Nat) :
    List (HubModel T) → Option String → Prop
  | last {items : List (HubModel T)}
    (hitems : (taken.filter fun entry => offset ≤ entry.1).map Prod.snd = items)
    (hnext : response.next = none) :
    Outcome codec client s upstream response taken offset items none
  | next {items : List (HubModel T)} {cursor text : String}
    (hitems : (taken.filter fun entry => offset ≤ entry.1).map Prod.snd = items)
    (hnext : response.next = some cursor)
    (htext : encodeSearchCursor codec client s (some cursor) 0 = .ok text) :
    Outcome codec client s upstream response taken offset items (some text)
  | same {items : List (HubModel T)} {offset' : Nat} {text : String} (hlater : offset < offset')
    (hoffset : offset' < response.candidates.length)
    (hitems : (taken.filter fun entry => offset ≤ entry.1).map Prod.snd =
      items ++ (taken.filter fun entry => offset' ≤ entry.1).map Prod.snd)
    (htext : encodeSearchCursor codec client s upstream offset' = .ok text) :
    Outcome codec client s upstream response taken offset items (some text)

theorem accepted_bound {entry : Nat × HubModel T}
    (h : entry ∈ accepted w client s.require available response) : entry.1 < response.candidates.length := by
  obtain ⟨candidate, hcandidate, haccept⟩ := List.mem_filterMap.1 h
  rw [accept_rank haccept]
  exact rankedCandidates_bound candidate hcandidate

/-- Behind the last model that was taken come those with a greater rank. -/
theorem filter_behind {taken before after : List (Nat × HubModel T)} {rank offset : Nat}
    {model : HubModel T} (hranks : taken.Pairwise fun a b => a.1 < b.1)
    (hsplit : (taken.filter fun entry => offset ≤ entry.1) = before ++ (rank, model) :: after) :
    (taken.filter fun entry => rank + 1 ≤ entry.1) = after := by
  have hmem : (rank, model) ∈ taken.filter fun entry => offset ≤ entry.1 := by
    rw [hsplit]
    simp
  have hle : offset ≤ rank := of_decide_eq_true (List.mem_filter.1 hmem).2
  have hmore : (taken.filter fun entry => rank + 1 ≤ entry.1) =
      (taken.filter fun entry => offset ≤ entry.1).filter fun entry => rank + 1 ≤ entry.1 := by
    rw [List.filter_filter]
    refine List.filter_congr fun entry _ => ?_
    by_cases hentry : rank + 1 ≤ entry.1
    · have hoffset : offset ≤ entry.1 := by omega
      simp [hentry, hoffset]
    · simp [hentry]
  have hsorted := hranks.filter fun entry => offset ≤ entry.1
  rw [hmore]
  rw [hsplit] at hsorted ⊢
  exact filter_after hsorted

/-- The loop over the chunks of a page of the Hub. -/
theorem inspect_page (hset : Setting w codec client s query available)
    (h : Admissible w codec client s upstream response) (offset : Nat)
    (diagnostics : List HubDiagnostic) : ∃ progress stopped,
      inspectRanked w s.require available client.results ⟨[], 0, diagnostics⟩
        (chunks client.metadataConcurrency
          (rankedCandidates client (response.candidates.zipIdx.drop offset))) =
        .ok (progress, stopped) ∧
      Stopped client.results [] ((accepted w client s.require available response).filter fun entry =>
        offset ≤ entry.1) progress.compatible stopped := by
  obtain ⟨hscan, hscanMax⟩ := hset.client.scanLimit
  have hcount := h.count
  have hflatten := flatten_chunks hset.client.metadataConcurrency.1
    (rankedCandidates client (response.candidates.zipIdx.drop offset))
  have hspec := @inspectRanked_spec T w s.require available client.results (chunks
    client.metadataConcurrency (rankedCandidates client (response.candidates.zipIdx.drop offset)))
  rw [hflatten, accepted_drop, rankedCandidates_drop] at hspec
  rw [rankedCandidates_drop]
  refine hspec (fun c hc => h.settled c (List.mem_of_mem_filter hc)) ?_ (fun c hc => ?_) ?_
  · exact ((rankedCandidates_ranks _).imp Nat.le_of_lt).sublist List.filter_sublist
  · have hlt := rankedCandidates_bound c (List.mem_of_mem_filter hc)
    unfold USIZE_MAX
    omega
  · exact hset.client.results.1

/-- The cursor behind what a loop took, and what it stands for. -/
theorem nextSearchCursor_outcome (hset : Setting w codec client s query available)
    (hvalid : validateUpstream upstream = .ok ())
    (h : Admissible w codec client s upstream response)
    (hnextFits : ∀ cursor, response.next = some cursor →
      ∃ text, encodeSearchCursor codec client s (some cursor) 0 = .ok text)
    {offset : Nat} {items : List (HubModel T)} {stopped : Option Nat}
    (hstopped : Stopped client.results [] ((accepted w client s.require available response).filter
      fun entry => offset ≤ entry.1) items stopped) :
    ∃ next, nextSearchCursor codec client s upstream response.candidates.length response.next
        stopped = .ok next ∧ items.length ≤ client.results ∧
      Outcome codec client s upstream response (accepted w client s.require available response) offset
        items next := by
  have hend : ∀ items, ((accepted w client s.require available response).filter fun entry =>
      offset ≤ entry.1).map Prod.snd = items → ∃ next,
      nextSearchCursor codec client s upstream response.candidates.length response.next none =
        .ok next ∧ Outcome codec client s upstream response
          (accepted w client s.require available response) offset items next := by
    intro items hitems
    cases hnext : response.next with
    | none => exact ⟨none, rfl, .last hitems hnext⟩
    | some cursor =>
      obtain ⟨text, htext⟩ := hnextFits cursor hnext
      refine ⟨some text, ?_, .next hitems hnext htext⟩
      rw [nextSearchCursor, htext]
      rfl
  cases hstopped with
  | rest hlength =>
    obtain ⟨next, hcursor, houtcome⟩ := hend _ (List.nil_append _).symm
    exact ⟨next, hcursor, hlength.le, houtcome⟩
  | @full before after rank model hsplit hlength =>
    have hmem : (rank, model) ∈ (accepted w client s.require available response).filter
        fun entry => offset ≤ entry.1 := by
      rw [hsplit]
      simp
    obtain ⟨htaken, hle⟩ := List.mem_filter.1 hmem
    have hlt : rank < response.candidates.length := accepted_bound htaken
    have hafter := filter_behind (accepted_ranks response) hsplit
    by_cases hmore : rank + 1 < response.candidates.length
    · obtain ⟨text, htext⟩ := h.encode hset hvalid (.inr hmore)
      refine ⟨some text, ?_, hlength.le, .same (Nat.lt_succ_of_le (of_decide_eq_true hle)) hmore ?_
        htext⟩
      · simp only [nextSearchCursor, continuationCursor, if_pos hmore, htext]
        rfl
      · rw [hafter, hsplit]
        simp
    · have hnone : after = [] := by
        rw [← hafter]
        refine List.filter_eq_nil_iff.2 fun entry hentry => ?_
        have hentryLt := accepted_bound hentry
        simp only [decide_eq_true_eq]
        omega
      obtain ⟨next, hcursor, houtcome⟩ := hend ([] ++ before.map Prod.snd ++ [model]) (by
        rw [hsplit, hnone]
        simp)
      refine ⟨next, ?_, hlength.le, houtcome⟩
      simp only [nextSearchCursor, continuationCursor, if_neg hmore]
      exact hcursor

/-- A call at a place in a page of the Hub. -/
theorem search_at (hset : Setting w codec client s query available)
    (hfetch : w.fetch s.mlxLibrary client.scanLimit query upstream = .ok response)
    (hvalid : validateUpstream upstream = .ok ())
    (h : Admissible w codec client s upstream response)
    (hnextFits : ∀ cursor, response.next = some cursor →
      ∃ text, encodeSearchCursor codec client s (some cursor) 0 = .ok text)
    {cursor : Option String} {position : SearchCursor}
    (hdecode : decodeSearchCursor codec client { s with cursor } = .ok position)
    (hupstream : position.upstream = upstream)
    (hoffset : position.offset ≤ response.candidates.length) :
    ∃ page, search w codec client { s with cursor } = .ok page ∧
      page.items.length ≤ client.results ∧
      Outcome codec client s upstream response (accepted w client s.require available response)
        position.offset page.items page.nextCursor := by
  obtain ⟨progress, stopped, hrun, hstopped⟩ := inspect_page hset h position.offset
    (skippedDiagnostics client (response.candidates.zipIdx.drop position.offset))
  obtain ⟨next, hnext, hlength, houtcome⟩ :=
    nextSearchCursor_outcome hset hvalid h hnextFits hstopped
  refine ⟨⟨progress.compatible, next,
    min ((skippedDiagnostics client (response.candidates.zipIdx.drop position.offset)).length +
      progress.metadataScanned) USIZE_MAX, progress.diagnostics⟩, ?_, hlength, houtcome⟩
  unfold search
  simp only [bind_eq_ok, ensure_eq_ok, pure_eq_ok]
  exact ⟨(), hset.filters, query, hset.query, available, hset.available, position, hdecode, response,
    by rw [hupstream]; exact hfetch, (), h.next, (), h.count, (), hoffset, (progress, stopped), hrun,
    next, by rw [hupstream]; exact hnext, rfl⟩

end page

/-! ## Places in the catalog -/

/-- The pages of the Hub from a cursor on, each behind the one before. -/
inductive Linked (fetch : Option String → Except SearchError Response) :
    Option String → List (Option String × Response) → Prop
  | last {cursor : Option String} {response : Response} (hfetch : fetch cursor = .ok response)
    (hnext : response.next = none) : Linked fetch cursor [(cursor, response)]
  | next {cursor : Option String} {response : Response} {next : String}
    {pages : List (Option String × Response)} (hfetch : fetch cursor = .ok response)
    (hnext : response.next = some next) (hpages : Linked fetch (some next) pages) :
    Linked fetch cursor ((cursor, response) :: pages)

/-- Some pages of the Hub, and an offset in the first of them. -/
structure Position where
  pages : List (Option String × Response)
  offset : Nat

/-- A later page, or a greater offset. -/
def Position.Advances (p q : Position) : Prop :=
  q.pages = p.pages ∧ p.offset < q.offset ∨ q.pages = p.pages.tail ∧ q.offset = 0

/-- What a walk has in front of it at most. -/
def Position.size (p : Position) : Nat :=
  (p.pages.map fun page => page.2.candidates.length + 1).sum - p.offset

section walk

variable {T : Type} (w : World T) (codec : Codec) (client : Client) (s : HubSearch)
  (query : Option String) (available : Option Nat)

/-- The cursor of a place; there is none at the first. -/
def cursorAt (p : Position) : Option String :=
  match p.pages with
  | [] => none
  | page :: _ =>
    if page.1 = none ∧ p.offset = 0 then none
    else (encodeSearchCursor codec client s page.1 p.offset).toOption

/-- A place that a walk comes to. -/
structure Met (p : Position) : Prop where
  linked : ∃ upstream, Linked (w.fetch s.mlxLibrary client.scanLimit query) upstream p.pages
  admissible : ∀ page ∈ p.pages, Admissible w codec client s page.1 page.2
  valid : ∀ page, p.pages.head? = some page → validateUpstream page.1 = .ok () ∧
    (p.offset = 0 ∨ p.offset < page.2.candidates.length)

/-- The models of a page of the Hub that are taken. -/
def models (page : Option String × Response) : List (HubModel T) :=
  (accepted w client s.require available page.2).map Prod.snd

/-- The models from a place on. -/
def modelsFrom (p : Position) : List (HubModel T) :=
  match p.pages with
  | [] => []
  | page :: rest =>
    ((accepted w client s.require available page.2).filter fun entry => p.offset ≤ entry.1).map
      Prod.snd ++ rest.flatMap (models w client s available)

/-- One page of a walk. -/
def searchPage (cursor : Option String) : Except SearchError (Page String (HubModel T)) :=
  (search w codec client { s with cursor }).map fun page => ⟨page.items, page.nextCursor⟩

variable {w codec client s query available}

theorem Linked.cases {fetch : Option String → Except SearchError Response}
    {upstream : Option String} {pages : List (Option String × Response)}
    (h : Linked fetch upstream pages) : ∃ response rest, pages = (upstream, response) :: rest ∧
      fetch upstream = .ok response ∧ (response.next = none → rest = []) ∧
      ∀ next, response.next = some next → Linked fetch (some next) rest := by
  cases h with
  | last hfetch hnext =>
    refine ⟨_, [], rfl, hfetch, fun _ => rfl, fun next hsome => ?_⟩
    rw [hnext] at hsome
    cases hsome
  | @next _ response next pages hfetch hnext hpages =>
    refine ⟨response, pages, rfl, hfetch, fun hnone => ?_, fun next' hsome => ?_⟩
    · rw [hnext] at hnone
      cases hnone
    · rw [hnext] at hsome
      rwa [← Option.some.inj hsome]

theorem Position.Advances.size_lt {p q : Position} (h : p.Advances q)
    (hhead : ∃ page, p.pages.head? = some page ∧
      (p.offset = 0 ∨ p.offset < page.2.candidates.length))
    (hq : ∀ page, q.pages.head? = some page →
      (q.offset = 0 ∨ q.offset < page.2.candidates.length)) : q.size < p.size := by
  obtain ⟨page, hpage, hoffset⟩ := hhead
  obtain ⟨rest, hpages⟩ := List.head?_eq_some_iff.1 hpage
  unfold Position.size
  rcases h with ⟨hsame, hlater⟩ | ⟨htail, hzero⟩
  · rw [hsame] at hq ⊢
    have hlt := hq page hpage
    rw [hpages, List.map_cons, List.sum_cons]
    omega
  · rw [htail, hzero, hpages, List.tail_cons, List.map_cons, List.sum_cons]
    omega

/-- The cursor of a place is read as that place. -/
theorem Met.decode (hset : Setting w codec client s query available) {p : Position}
    (h : Met w codec client s query p) {upstream : Option String} {response : Response}
    {rest : List (Option String × Response)} (hpages : p.pages = (upstream, response) :: rest) :
    ∃ position, decodeSearchCursor codec client
        { s with cursor := cursorAt codec client s p } = .ok position ∧
      position.upstream = upstream ∧ position.offset = p.offset := by
  obtain ⟨hvalid, hoffset⟩ := h.valid (upstream, response) (by rw [hpages]; rfl)
  have hadmissible := h.admissible (upstream, response) (by rw [hpages]; exact List.mem_cons_self)
  unfold cursorAt
  rw [hpages]
  by_cases hfirst : upstream = none ∧ p.offset = 0
  · obtain ⟨scope, hscope⟩ := hset.scope
    refine ⟨⟨SEARCH_CURSOR_VERSION, none, 0, scope⟩, ?_, hfirst.1.symm, hfirst.2.symm⟩
    simp only [if_pos hfirst]
    show (searchScope codec client s >>= fun scope => _) = _
    rw [hscope]
    rfl
  · obtain ⟨text, htext⟩ := hadmissible.encode hset hvalid hoffset
    obtain ⟨scope, hdecode⟩ := decode_encode hset.codec htext
    refine ⟨⟨SEARCH_CURSOR_VERSION, upstream, p.offset, scope⟩, ?_, rfl, rfl⟩
    simp only [if_neg hfirst, htext]
    exact hdecode

/-- One step of a walk. -/
theorem Met.page (hset : Setting w codec client s query available) {p : Position}
    (h : Met w codec client s query p) :
    ∃ page, searchPage w codec client s (cursorAt codec client s p) = .ok page ∧
      page.items.length ≤ client.results ∧
      (page.next = none → modelsFrom w client s available p = page.items) ∧
      ∀ next, page.next = some next → ∃ q, cursorAt codec client s q = some next ∧
        Met w codec client s query q ∧ p.Advances q ∧
        modelsFrom w client s available p = page.items ++ modelsFrom w client s available q := by
  obtain ⟨upstream, hlinked⟩ := h.linked
  obtain ⟨response, rest, hpages, hfetch, hlast, hrest⟩ := hlinked.cases
  obtain ⟨hvalid, hoffset⟩ := h.valid (upstream, response) (by rw [hpages]; rfl)
  have hadmissible := h.admissible (upstream, response) (by rw [hpages]; exact List.mem_cons_self)
  have hinside : p.offset ≤ response.candidates.length :=
    hoffset.elim (fun hzero => by omega) Nat.le_of_lt
  obtain ⟨position, hdecode, hupstream, hplace⟩ := h.decode hset hpages
  have hrestAdmissible : ∀ page ∈ rest, Admissible w codec client s page.1 page.2 := fun page hpage =>
    h.admissible page (by rw [hpages]; exact List.mem_cons_of_mem _ hpage)
  have hnextValid : ∀ cursor, response.next = some cursor →
      validateUpstream (some cursor) = .ok () := fun cursor hnext => hnext ▸ hadmissible.next
  have hnextMet : ∀ cursor, response.next = some cursor → Met w codec client s query ⟨rest, 0⟩ ∧
      ∃ page, rest.head? = some page ∧ page.1 = some cursor := by
    intro cursor hnext
    obtain ⟨response', rest', hrest', -⟩ := (hrest cursor hnext).cases
    refine ⟨⟨⟨_, hrest cursor hnext⟩, hrestAdmissible, fun page hpage => ⟨?_, .inl rfl⟩⟩,
      (some cursor, response'), by rw [hrest']; rfl, rfl⟩
    rw [hrest'] at hpage
    rw [← Option.some.inj hpage]
    exact hnextValid cursor hnext
  have hnextFits : ∀ cursor, response.next = some cursor →
      ∃ text, encodeSearchCursor codec client s (some cursor) 0 = .ok text := by
    intro cursor hnext
    obtain ⟨-, page, hpage, hcursor⟩ := hnextMet cursor hnext
    have hpage' := hrestAdmissible page (List.mem_of_mem_head? hpage)
    rw [hcursor] at hpage'
    exact hpage'.encode hset (hnextValid cursor hnext) (.inl rfl)
  obtain ⟨page, hsearch, hlength, houtcome⟩ := search_at hset hfetch hvalid hadmissible hnextFits
    hdecode hupstream (by rw [hplace]; exact hinside)
  rw [hplace] at houtcome
  refine ⟨⟨page.items, page.nextCursor⟩, by rw [searchPage, hsearch]; rfl, hlength, ?_⟩
  have hmodels : modelsFrom w client s available p =
      ((accepted w client s.require available response).filter fun entry =>
        p.offset ≤ entry.1).map Prod.snd ++ rest.flatMap (models w client s available) := by
    unfold modelsFrom
    rw [hpages]
  have hfrom : ∀ pages : List (Option String × Response),
      modelsFrom w client s available ⟨pages, 0⟩ =
        pages.flatMap (models w client s available) := by
    intro pages
    cases pages with
    | nil => rfl
    | cons first pages =>
      simp only [modelsFrom, models, Nat.zero_le, decide_true, List.filter_true, List.flatMap_cons]
  rw [hmodels]
  generalize page.items = items at houtcome
  generalize page.nextCursor = nextCursor at houtcome
  cases houtcome with
  | last hitems hnone =>
    refine ⟨fun _ => ?_, fun next hsome => (nomatch hsome)⟩
    rw [hitems, hlast hnone, List.flatMap_nil, List.append_nil]
  | @next cursor text hitems hnext htext =>
    refine ⟨fun hnone => (nomatch hnone), fun next hsome => ?_⟩
    obtain ⟨hmet, first, hfirst, hcursor⟩ := hnextMet cursor hnext
    obtain ⟨rest', hrest'⟩ := List.head?_eq_some_iff.1 hfirst
    refine ⟨⟨rest, 0⟩, ?_, hmet, .inr ⟨by rw [hpages]; rfl, rfl⟩, by rw [hitems, hfrom]⟩
    rw [← Option.some.inj hsome]
    simp only [cursorAt, hrest', hcursor, reduceCtorEq, false_and, if_false, htext]
    rfl
  | @same offset' text hlater hoffset' hitems htext =>
    refine ⟨fun hnone => (nomatch hnone), fun next hsome => ?_⟩
    refine ⟨⟨p.pages, offset'⟩, ?_, ⟨h.linked, h.admissible, fun first hfirst => ?_⟩,
      .inl ⟨rfl, hlater⟩, ?_⟩
    · rw [← Option.some.inj hsome]
      have hpositive : ¬ (upstream = none ∧ offset' = 0) := fun hboth => by omega
      simp only [cursorAt, hpages, if_neg hpositive, htext]
      rfl
    · refine ⟨(h.valid first hfirst).1, .inr ?_⟩
      simp only [hpages, List.head?_cons, Option.some.injEq] at hfirst
      rw [← hfirst]
      exact hoffset'
    · rw [hitems, List.append_assoc]
      simp only [modelsFrom, hpages]

/-- A walk through the catalog: it ends, and its pages list the models that are taken, once and in the
order of the Hub; every cursor leads on; and a cursor is refused for another query, set of filters,
library flag, credential or fit profile, unless the digests collide. -/
theorem search_enumerates {T : Type} (w : World T) (codec : Codec) (client : Client) (s : HubSearch)
    (query : Option String) (available : Option Nat)
    (hset : Setting w codec client s query available) (catalog : List (Option String × Response))
    (hlinked : Linked (w.fetch s.mlxLibrary client.scanLimit query) none catalog)
    (hadmissible : ∀ page ∈ catalog, Admissible w codec client s page.1 page.2) :
    (∃ pages, walk (searchPage w codec client s) (Position.size ⟨catalog, 0⟩ + 1) none =
        some (.ok pages) ∧
      pages.flatMap (·.items) = catalog.flatMap (models w client s available) ∧
      ∀ page ∈ pages, page.items.length ≤ client.results) ∧
    (∀ p, Met w codec client s query p →
      ∃ page, searchPage w codec client s (cursorAt codec client s p) = .ok page ∧
        ∀ next, page.next = some next → ∃ q, cursorAt codec client s q = some next ∧
          Met w codec client s query q ∧ p.Advances q) ∧
    ∀ upstream offset text, encodeSearchCursor codec client s upstream offset = .ok text →
      ∀ (client' : Client) (s' : HubSearch) (scope scope' : Scope),
        scopeOf client s = .ok scope → scopeOf client' s' = .ok scope' → scope' ≠ scope →
        (codec.sha256 (codec.scopeText scope') = codec.sha256 (codec.scopeText scope) →
          scope' = scope) →
        ∀ (w' : World T) (page : HubSearchPage T),
          search w' codec client' { s' with cursor := some text } ≠ .ok page := by
  refine ⟨?_, fun p hmet => ?_, ?_⟩
  · have hremains : Remains (searchPage w codec client s) (cursorAt codec client s)
        (Met w codec client s query) (modelsFrom w client s available) Position.size := by
      refine ⟨fun p hmet => ?_⟩
      obtain ⟨page, hpage, -, hlast, hmore⟩ := hmet.page hset
      refine ⟨page, hpage, hlast, fun next hnext => ?_⟩
      obtain ⟨q, hcursor, hq, hadvances, hmodels⟩ := hmore next hnext
      refine ⟨q, hcursor, hq, hadvances.size_lt ?_ fun first hfirst => (hq.valid first hfirst).2,
        hmodels⟩
      obtain ⟨upstream, hlinked⟩ := hmet.linked
      obtain ⟨response, rest, hpages, -⟩ := hlinked.cases
      have hhead : p.pages.head? = some (upstream, response) := by rw [hpages]; rfl
      exact ⟨_, hhead, (hmet.valid _ hhead).2⟩
    have hfirst : Met w codec client s query ⟨catalog, 0⟩ := by
      refine ⟨⟨none, hlinked⟩, hadmissible, fun page hpage => ⟨?_, .inl rfl⟩⟩
      obtain ⟨response, rest, hpages, -⟩ := hlinked.cases
      rw [hpages] at hpage
      rw [← Option.some.inj hpage]
      rfl
    have hnone : cursorAt codec client s ⟨catalog, 0⟩ = none := by
      obtain ⟨response, rest, rfl, -⟩ := hlinked.cases
      simp [cursorAt]
    obtain ⟨pages, hwalk, hitems, hpages⟩ := hremains.walk hfirst (Nat.lt_succ_self _)
    rw [hnone] at hwalk
    refine ⟨pages, hwalk, hitems.trans ?_, fun page hpage => ?_⟩
    · cases catalog with
      | nil => rfl
      | cons first rest =>
        simp only [modelsFrom, models, Nat.zero_le, decide_true, List.filter_true,
          List.flatMap_cons]
    · obtain ⟨q, hq, hsearch⟩ := hpages page hpage
      obtain ⟨page', hpage', hlength, -⟩ := hq.page hset
      cases hsearch.symm.trans hpage'
      exact hlength
  · obtain ⟨page, hpage, -, -, hmore⟩ := hmet.page hset
    refine ⟨page, hpage, fun next hnext => ?_⟩
    obtain ⟨q, hcursor, hq, hadvances, -⟩ := hmore next hnext
    exact ⟨q, hcursor, hq, hadvances⟩
  · intro upstream offset text htext client' s' scope scope' hscope hscope' hne hcollision w' page hok
    unfold search at hok
    simp only [bind_eq_ok] at hok
    obtain ⟨_, -, _, -, _, -, position, hdecode, -⟩ := hok
    obtain ⟨digest, hdigest, hdigest'⟩ := decode_scope hset.codec htext hdecode
    unfold searchScope at hdigest hdigest'
    rw [hscope] at hdigest
    rw [hscope'] at hdigest'
    refine hne (hcollision (digest_ext ?_))
    exact (Except.ok.inj hdigest').trans (Except.ok.inj hdigest).symm

/-- A model of one byte. -/
def smallModel (id : String) : HubModel Unit := ⟨id, (), true, [], some 1⟩

/-- A Hub with a page behind the first one, and a cursor for it. -/
def twoPages (cursor : String) : World Unit where
  fetch _ _ _ upstream :=
    if upstream = none then .ok ⟨[⟨"a/b", false, .bool false⟩, ⟨"a/c", false, .bool false⟩], cursor⟩
    else .ok ⟨[⟨"a/d", false, .bool false⟩], none⟩
  inspect id := .ok (smallModel id)
  satisfies _ _ := true
  remoteEvidence _ := true
  available := .ok none

def upTo (results : Nat) : Client where
  results
  scanLimit := 2
  metadataConcurrency := 2
  credentialScope := none
  fitProfile := none

def anything : HubSearch where
  query := none
  require := []
  mlxLibrary := false
  cursor := none

theorem twoPages_setting (cursor : String) {results : Nat} (hleast : 1 ≤ results)
    (hmost : results ≤ 2) :
    Setting (twoPages cursor) standardCodec (upTo results) anything none none where
  codec := standardCodec_documented
  client := ⟨⟨hleast, hmost.trans (by decide)⟩, ⟨hmost, Nat.le_of_ble_eq_true rfl⟩,
    ⟨Nat.le_of_ble_eq_true rfl, Nat.le_of_ble_eq_true rfl⟩⟩
  filters := rfl
  query := rfl
  available := rfl

theorem twoPages_linked (cursor : String) :
    Linked ((twoPages cursor).fetch false 2 none) none
      [(none, ⟨[⟨"a/b", false, .bool false⟩, ⟨"a/c", false, .bool false⟩], cursor⟩),
        (some cursor, ⟨[⟨"a/d", false, .bool false⟩], none⟩)] :=
  .next rfl rfl (.last rfl rfl)

theorem twoPages_enumerated :
    ∃ pages, walk (searchPage (twoPages "next") standardCodec (upTo 1) anything) 6 none =
        some (.ok pages) ∧
      pages.flatMap (·.items) = [smallModel "a/b", smallModel "a/c", smallModel "a/d"] ∧
      ∀ page ∈ pages, page.items.length ≤ 1 := by
  refine (search_enumerates (twoPages "next") standardCodec (upTo 1) anything none none
    (twoPages_setting _ (by decide) (by decide)) _ (twoPages_linked _) ?_).1
  have hscope : ∀ scope, searchScope standardCodec (upTo 1) anything = .ok scope →
      scope = emptyScopeDigest.text := fun scope h => (Except.ok.inj h).symm
  intro page hpage
  rw [List.mem_cons, List.mem_singleton] at hpage
  rcases hpage with rfl | rfl
  · exact ⟨by decide, by decide, fun c _ => .inl ⟨_, rfl⟩, fun cursor hcursor => (nomatch hcursor)⟩
  · refine ⟨by decide, rfl, fun c _ => .inl ⟨_, rfl⟩, fun cursor hcursor scope h offset hoffset => ?_⟩
    rw [hscope scope h]
    have hzero : offset = 0 := hoffset.elim id Nat.lt_one_iff.1
    rw [hzero]
    decide +kernel

theorem twoPages_error {cursor : String} {error : SearchError}
    (hvalid : validateUpstreamCursor cursor = .ok ())
    (h : encodeSearchCursor standardCodec (upTo 2) anything (some cursor) 0 = .error error) :
    searchPage (twoPages cursor) standardCodec (upTo 2) anything none = .error error := by
  have hsearch : search (twoPages cursor) standardCodec (upTo 2) anything =
      (validateUpstreamCursor cursor >>= fun _ =>
        (encodeSearchCursor standardCodec (upTo 2) anything (some cursor) 0).map some >>= fun next =>
          .ok ⟨[smallModel "a/b", smallModel "a/c"], next, 2, []⟩) := rfl
  show (search (twoPages cursor) standardCodec (upTo 2) anything).map _ = _
  rw [hsearch, hvalid, h]
  rfl

/-- A cursor that a client takes from the Hub. -/
def quotes : String := String.ofList (List.replicate 1024 '"')

theorem quotes_valid : validateUpstreamCursor quotes = .ok () := by
  have hall : ∀ c ∈ List.replicate 1024 '"', c = '"' := fun c => List.eq_of_mem_replicate
  unfold validateUpstreamCursor quotes
  refine if_pos ⟨fun hempty => ?_, ?_, ?_⟩
  · rw [← String.toList_inj, String.toList_ofList] at hempty
    cases hempty
  · rw [← String.size_toByteArray, String.toByteArray_ofList,
      show (List.replicate 1024 '"').utf8Encode.size = (utf8 (List.replicate 1024 '"')).length from
        List.size_toByteArray, length_utf8, utf8Len_ascii fun c hc => by rw [hall c hc]; rfl,
      List.length_replicate]
    exact Nat.le_refl _
  · rw [String.toList_ofList, List.all_eq_true]
    intro c hc
    rw [hall c hc]
    rfl

/-- Every one of them takes two bytes once it is escaped. -/
theorem quotes_escaped : Text.utf8Len (jsonString quotes) = 2050 := by
  unfold jsonString quotes
  rw [String.toList_ofList]
  decide +kernel

/-- A page of the Hub behind such a cursor ends the walk with an error. -/
theorem quotes_refused :
    Setting (twoPages quotes) standardCodec (upTo 2) anything none none ∧
      Linked ((twoPages quotes).fetch false 2 none) none
        [(none, ⟨[⟨"a/b", false, .bool false⟩, ⟨"a/c", false, .bool false⟩], quotes⟩),
          (some quotes, ⟨[⟨"a/d", false, .bool false⟩], none⟩)] ∧
      validateUpstreamCursor quotes = .ok () ∧
      searchPage (twoPages quotes) standardCodec (upTo 2) anything none =
        .error (.protocol "Hub search cursor exceeds its encoded-state bound") := by
  have hlong : ¬ Text.utf8Len (SearchCursor.toJson
      ⟨SEARCH_CURSOR_VERSION, some quotes, 0, emptyScopeDigest.text⟩) ≤ MAX_SEARCH_CURSOR_BYTES := by
    unfold SearchCursor.toJson MAX_SEARCH_CURSOR_BYTES
    simp only [Text.utf8Len_append, quotes_escaped]
    omega
  exact ⟨twoPages_setting quotes (by decide) (by decide), twoPages_linked quotes, quotes_valid,
    twoPages_error quotes_valid (encode_too_long quotes_valid (Nat.zero_le _) rfl hlong)⟩

end walk

end Search

end Hub

end Emelex

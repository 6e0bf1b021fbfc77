import Emelex.Generation.Requests

/-!
# Accepted conversations and Gemma's templates

* `Turn` — a message and the results behind it.
* `Turn.Answered` — every call of the message has one result, in any order.
* `Turn.InCallOrder`, `Turn.OneText` — what Gemma's templates ask for.
* `Turn.Rendered` — the value of a turn: the message, and every result under the name of its call.

Principal results: `accepted_turns`, `gemma_eq_ok`, `gemma_history`.
-/

set_option autoImplicit false

namespace Emelex

open Checks

namespace Generation

/-! ## Turns -/

/-- A message and the results behind it. -/
structure Turn where
  message : ChatMessage
  results : List ChatMessage

def Turn.messages (t : Turn) : List ChatMessage := t.message :: t.results

/-- Every call of the message has one result. -/
structure Turn.Answered (t : Turn) : Prop where
  message : t.message.role ≠ "tool"
  caller : t.message.toolCalls ≠ [] → t.message.role = "assistant"
  distinct : (t.message.toolCalls.map ToolCall.id).Nodup
  results : ∀ r ∈ t.results, r.role = "tool"
  answers : (t.results.map ChatMessage.toolCallId).Perm
    (t.message.toolCalls.map fun call => some call.id)

/-- The results follow the order of the calls. -/
def Turn.InCallOrder (t : Turn) : Prop :=
  t.results.map ChatMessage.toolCallId = t.message.toolCalls.map fun call => some call.id

/-- Every result is one text. -/
def Turn.OneText (t : Turn) : Prop := ∀ r ∈ t.results, ∃ text, r.content = [.text text]

/-- A response carries the text of a result, under the name of the call whose identifier the result
has. -/
def Labelled (toolCalls : List ToolCall) (r : ChatMessage) (response : Json) : Prop :=
  ∃ call ∈ toolCalls, ∃ text, r.toolCallId = some call.id ∧ r.content = [.text text] ∧
    response = responseToJson call.name text

/-- The value of a turn. -/
def Turn.Rendered (t : Turn) (value : Json) : Prop :=
  ∃ responses, List.Forall₂ (Labelled t.message.toolCalls) t.results responses ∧
    value = messageWithResponses t.message responses

/-! ## Rendering -/

theorem soleText_eq_some {content : List ContentPart} {text : String} :
    soleText content = some text ↔ content = [.text text] := by
  unfold soleText
  split
  · simp
  · rename_i h
    refine ⟨fun hnone => (nomatch hnone), fun heq => absurd heq (h text)⟩

/-- With different identifiers every call is found under its own. -/
theorem callName_eq {toolCalls : List ToolCall} (hids : (toolCalls.map ToolCall.id).Nodup)
    {call : ToolCall} (hcall : call ∈ toolCalls) :
    callName (toolCalls.map fun call => (call.id, call.name)) call.id = some call.name := by
  unfold callName
  rw [← List.map_reverse]
  have hids' : (toolCalls.reverse.map ToolCall.id).Nodup := by
    rw [List.map_reverse]
    exact List.nodup_reverse.2 hids
  have hcall' := List.mem_reverse.2 hcall
  generalize toolCalls.reverse = calls at hids' hcall'
  induction calls with
  | nil => cases hcall'
  | cons first calls ih =>
    rw [List.map_cons, List.nodup_cons] at hids'
    rw [List.map_cons, List.lookup_cons]
    rcases List.mem_cons.1 hcall' with rfl | hrest
    · rw [beq_self_eq_true]
    · have hne : call.id ≠ first.id := fun heq =>
        hids'.1 (heq ▸ List.mem_map_of_mem hrest)
      rw [beq_eq_false_iff_ne.2 hne]
      exact ih hids'.2 hrest

/-- The loop over the results behind a message. -/
theorem collectResponses_eq_ok {toolCalls done left : List ToolCall}
    (hids : (toolCalls.map ToolCall.id).Nodup) (hcalls : toolCalls = done ++ left)
    {results : List ChatMessage} {responses out : List Json} (hlength : responses.length = done.length)
    {answered : List String} (hanswered : ∀ id, id ∈ answered ↔ id ∈ done.map ToolCall.id) :
    collectResponses toolCalls answered responses results = .ok out ↔
      ∃ added, out = responses ++ added ∧
        results.map ChatMessage.toolCallId <+: left.map (fun call => some call.id) ∧
        List.Forall₂ (Labelled toolCalls) results added := by
  induction results generalizing done left responses answered with
  | nil =>
    rw [collectResponses]
    constructor
    · rintro h
      obtain rfl := Except.ok.inj h
      exact ⟨[], (List.append_nil _).symm, List.nil_prefix, .nil⟩
    · rintro ⟨added, rfl, -, hadded⟩
      obtain rfl := List.forall₂_nil_left_iff.1 hadded
      rw [List.append_nil]
  | cons result results ih =>
    have hnext : toolCalls[responses.length]? = left.head? := by
      rw [hcalls, hlength, List.getElem?_append_right (Nat.le_refl _), Nat.sub_self,
        List.head?_eq_getElem?]
    rw [collectResponses, hnext]
    simp only [bind_eq_ok, required_eq_ok, ensure_eq_ok, soleText_eq_some]
    constructor
    · rintro ⟨callId, hid, call, hhead, _, rfl, name, hname, _, hnew, text, htext, hrest⟩
      obtain ⟨left', rfl⟩ := List.head?_eq_some_iff.1 hhead
      have hmem : call ∈ toolCalls := by simp [hcalls]
      rw [callName_eq hids hmem, Option.some.injEq] at hname
      subst hname
      have hcalls' : toolCalls = (done ++ [call]) ++ left' := by
        rw [hcalls, List.append_assoc, List.singleton_append]
      obtain ⟨added, rfl, horder, hadded⟩ := (ih hcalls'
        (by rw [List.length_append, List.length_append, hlength]; rfl)
        (fun id => by simp [hanswered, or_comm])).1 hrest
      refine ⟨responseToJson call.name text :: added, by simp, ?_,
        .cons ⟨call, hmem, text, hid, htext, rfl⟩ hadded⟩
      rw [List.map_cons, List.map_cons, hid]
      exact (List.prefix_cons_inj _).2 horder
    · rintro ⟨added, rfl, horder, hadded⟩
      obtain ⟨response, added, ⟨call, hmem, text, hid, htext, rfl⟩, hothers, rfl⟩ :=
        List.forall₂_cons_left_iff.1 hadded
      cases left with
      | nil => exact absurd (List.prefix_nil.1 horder) (List.cons_ne_nil _ _)
      | cons next left =>
        rw [List.map_cons, List.map_cons, List.cons_prefix_cons, hid, Option.some.injEq] at horder
        have hnextMem : next ∈ toolCalls := by simp [hcalls]
        have hname := callName_eq hids hnextMem
        have hsame : next.name = call.name := by
          rw [← horder.1, callName_eq hids hmem, Option.some.injEq] at hname
          exact hname.symm
        have hnew : call.id ∉ answered := by
          rw [hanswered, horder.1]
          rw [hcalls, List.map_append, List.map_cons] at hids
          exact fun hdone => (List.nodup_append.1 hids).2.2 _ hdone _ List.mem_cons_self rfl
        refine ⟨call.id, hid, next, rfl, (), horder.1.symm, call.name, callName_eq hids hmem, (),
          hnew, text, htext, ?_⟩
        have hcalls' : toolCalls = (done ++ [next]) ++ left := by
          rw [hcalls, List.append_assoc, List.singleton_append]
        exact (ih hcalls' (by rw [List.length_append, List.length_append, hlength]; rfl)
          (fun id => by simp [hanswered, horder.1, or_comm])).2 ⟨added, by simp, horder.2, hothers⟩

/-- Behind its message stand the results of a turn, and then the next message that is none. -/
theorem takeWhile_results {t : Turn} (h : t.Answered) {turns : List Turn}
    (hturns : ∀ t ∈ turns, t.Answered) :
    (t.results ++ turns.flatMap Turn.messages).takeWhile ChatMessage.isResult = t.results ∧
      (t.results ++ turns.flatMap Turn.messages).dropWhile ChatMessage.isResult =
        turns.flatMap Turn.messages := by
  have hresults : ∀ r ∈ t.results, r.isResult = true := fun r hr => decide_eq_true (h.results r hr)
  have hnext : (turns.flatMap Turn.messages).takeWhile ChatMessage.isResult = [] ∧
      (turns.flatMap Turn.messages).dropWhile ChatMessage.isResult =
        turns.flatMap Turn.messages := by
    cases turns with
    | nil => exact ⟨rfl, rfl⟩
    | cons next turns =>
      have hmessage : next.message.isResult = false :=
        decide_eq_false (hturns next List.mem_cons_self).message
      rw [List.flatMap_cons, Turn.messages, List.cons_append]
      exact ⟨by rw [List.takeWhile_cons_of_neg (by rw [hmessage]; decide)],
        by rw [List.dropWhile_cons_of_neg (by rw [hmessage]; decide)]⟩
  exact ⟨by rw [List.takeWhile_append_of_pos hresults, hnext.1, List.append_nil],
    by rw [List.dropWhile_append_of_pos hresults, hnext.2]⟩

/-- One turn. -/
theorem turn_eq_ok {t : Turn} (h : t.Answered) {turns : List Turn}
    (hturns : ∀ t ∈ turns, t.Answered) {rendered : List Json} :
    gemmaChatMessagesToJinja (t.messages ++ turns.flatMap Turn.messages) = .ok rendered ↔
      t.InCallOrder ∧ ∃ value values, t.Rendered value ∧
        gemmaChatMessagesToJinja (turns.flatMap Turn.messages) = .ok values ∧
        rendered = value :: values := by
  obtain ⟨htake, hdrop⟩ := takeWhile_results h hturns
  have hlength := h.answers.length_eq
  rw [List.length_map, List.length_map] at hlength
  rw [Turn.messages, List.cons_append, gemmaChatMessagesToJinja, htake, hdrop]
  by_cases hcalls : t.message.toolCalls = []
  · have hresults : t.results = [] := by
      rw [hcalls] at hlength
      exact List.length_eq_zero_iff.1 hlength
    rw [if_neg fun hboth => hboth.2 hcalls, hresults, List.nil_append]
    simp only [bind_eq_ok, ensure_eq_ok, pure_eq_ok]
    constructor
    · rintro ⟨_, -, values, hvalues, rfl⟩
      refine ⟨by rw [Turn.InCallOrder, hresults, hcalls]; rfl, _, values, ⟨[], ?_, rfl⟩, hvalues, rfl⟩
      rw [hresults]
      exact .nil
    · rintro ⟨-, value, values, ⟨responses, hresponses, rfl⟩, hvalues, rfl⟩
      rw [hresults] at hresponses
      obtain rfl := List.forall₂_nil_left_iff.1 hresponses
      exact ⟨(), h.message, values, hvalues, rfl⟩
  · rw [if_pos ⟨h.caller hcalls, hcalls⟩]
    simp only [bind_eq_ok, ensure_eq_ok, pure_eq_ok]
    have hcollect : ∀ out, collectResponses t.message.toolCalls [] [] t.results = .ok out ↔ _ :=
      fun out => collectResponses_eq_ok h.distinct (List.nil_append _).symm rfl fun id => by simp
    constructor
    · rintro ⟨_, -, responses, hresponses, values, hvalues, rfl⟩
      obtain ⟨_, rfl, horder, hlabelled⟩ := (hcollect _).1 hresponses
      refine ⟨?_, _, values, ⟨responses, hlabelled, rfl⟩, hvalues, rfl⟩
      exact horder.eq_of_length (by rw [List.length_map, List.length_map, hlength])
    · rintro ⟨horder, value, values, ⟨responses, hresponses, rfl⟩, hvalues, rfl⟩
      refine ⟨(), h.message, responses, (hcollect _).2 ⟨responses, rfl, ?_, hresponses⟩, values,
        hvalues, rfl⟩
      exact ⟨[], (List.append_nil _).trans horder⟩

/-- A history of turns is rendered where the results follow the order of the calls. -/
theorem gemma_eq_ok {turns : List Turn} (h : ∀ t ∈ turns, t.Answered) {rendered : List Json} :
    gemmaChatMessagesToJinja (turns.flatMap Turn.messages) = .ok rendered ↔
      (∀ t ∈ turns, t.InCallOrder) ∧ List.Forall₂ Turn.Rendered turns rendered := by
  induction turns generalizing rendered with
  | nil =>
    rw [List.flatMap_nil, gemmaChatMessagesToJinja]
    constructor
    · rintro h
      obtain rfl := Except.ok.inj h
      exact ⟨fun t ht => absurd ht List.not_mem_nil, .nil⟩
    · rintro ⟨-, hrendered⟩
      rw [List.forall₂_nil_left_iff.1 hrendered]
  | cons t turns ih =>
    obtain ⟨ht, hturns⟩ := List.forall_mem_cons.1 h
    rw [List.flatMap_cons, turn_eq_ok ht hturns]
    simp only [ih hturns, List.forall_mem_cons, List.forall₂_cons_left_iff]
    constructor
    · rintro ⟨horder, value, values, hvalue, ⟨horders, hvalues⟩, rfl⟩
      exact ⟨⟨horder, horders⟩, value, values, hvalue, hvalues, rfl⟩
    · rintro ⟨⟨horder, horders⟩, value, values, hvalue, hvalues, rfl⟩
      exact ⟨horder, value, values, hvalue, ⟨horders, hvalues⟩, rfl⟩

/-- A turn with its results in order, each of them one text, has a value. -/
theorem Turn.exists_rendered {t : Turn} (horder : t.InCallOrder) (htext : t.OneText) :
    ∃ value, t.Rendered value := by
  have hlabelled : ∀ results : List ChatMessage, (∀ r ∈ results, r ∈ t.results) →
      ∃ responses, List.Forall₂ (Labelled t.message.toolCalls) results responses := by
    intro results hresults
    induction results with
    | nil => exact ⟨[], .nil⟩
    | cons r results ih =>
      obtain ⟨hr, hrest⟩ := List.forall_mem_cons.1 hresults
      obtain ⟨responses, hresponses⟩ := ih hrest
      have hid : r.toolCallId ∈ t.message.toolCalls.map fun call => some call.id :=
        (show t.results.map ChatMessage.toolCallId = _ from horder) ▸ List.mem_map_of_mem hr
      obtain ⟨call, hcall, hcallId⟩ := List.mem_map.1 hid
      obtain ⟨text, hcontent⟩ := htext r hr
      exact ⟨_, .cons ⟨call, hcall, text, hcallId.symm, hcontent, rfl⟩ hresponses⟩
  obtain ⟨responses, hresponses⟩ := hlabelled t.results fun r hr => hr
  exact ⟨_, responses, hresponses, rfl⟩

theorem Turn.Rendered.oneText {t : Turn} {value : Json} (h : t.Rendered value) : t.OneText := by
  obtain ⟨responses, hresponses, -⟩ := h
  intro r hr
  obtain ⟨response, -, call, -, text, -, htext, -⟩ := exists_of_mem_left hresponses hr
  exact ⟨text, htext⟩

/-! ## Conversations that are accepted -/

/-- Every pending call has an identifier of its own, and was seen. -/
structure Protocol.Sound (p : Protocol) : Prop where
  distinct : (p.pending.map Prod.fst).Nodup
  seen : ∀ entry ∈ p.pending, entry.1 ∈ p.seenCallIds

/-- Only assistants call, and a result names a call. -/
structure Message.Plain (m : Message) : Prop where
  caller : m.role ≠ .assistant → m.toolCalls = []
  result : m.role = .tool → ∃ id, m.toolCallId = some id

theorem Role.asStr_eq_tool {role : Role} : role.asStr = "tool" ↔ role = .tool := by
  cases role <;> decide

theorem intoEngine_eq_ok {jsonLen : Json → Nat} {supportsImages supportsAudio : Bool} {m : Message}
    {chat : ChatMessage} (h : m.intoEngine jsonLen supportsImages supportsAudio = .ok chat) :
    chat = m.toChat ∧ m.Plain := by
  unfold Message.intoEngine at h
  simp only [bind_eq_ok, ensure_eq_ok, pure_eq_ok] at h
  obtain ⟨_, -, _, -, _, hid, _, -, _, hcaller, _, -, _, -, _, -, _, -, _, -, _, -, _, -, _, -,
    rfl⟩ := h
  refine ⟨rfl, hcaller, fun hrole => ?_⟩
  cases hcallId : m.toolCallId with
  | some id => exact ⟨id, rfl⟩
  | none =>
    have hany := hid hrole
    rw [hcallId] at hany
    cases hany

/-- A call that is accepted was not seen, and waits for its result. -/
theorem countCall_eq_ok {jsonLen : Json → Nat} {declared : List String}
    {total total' : Counters × Protocol} {call : ToolCall}
    (h : countCall jsonLen declared total call = .ok total') (hsound : total.2.Sound) :
    call.id ∉ total.2.seenCallIds ∧ total'.2.seenCallIds = call.id :: total.2.seenCallIds ∧
      total'.2.pending = total.2.pending ++ [(call.id, call.name)] := by
  unfold countCall at h
  simp only [bind_eq_ok, ensure_eq_ok, pure_eq_ok] at h
  obtain ⟨_, -, _, -, _, -, _, hnew, _, -, _, -, _, -, _, -, _, -, _, -, _, -, rfl⟩ := h
  have hkeep : total.2.pending.filter (fun entry => entry.1 ≠ call.id) = total.2.pending :=
    List.filter_eq_self.2 fun entry hentry => decide_eq_true fun heq =>
      hnew (heq ▸ hsound.seen entry hentry)
  exact ⟨hnew, rfl, by rw [insertPending, hkeep]⟩

theorem Protocol.Sound.call {p p' : Protocol} (h : p.Sound) {call : ToolCall}
    (hnew : call.id ∉ p.seenCallIds) (hseen : p'.seenCallIds = call.id :: p.seenCallIds)
    (hpending : p'.pending = p.pending ++ [(call.id, call.name)]) : p'.Sound := by
  constructor
  · rw [hpending, List.map_append, List.nodup_append]
    refine ⟨h.distinct, List.nodup_singleton _, fun id hid other hother heq => ?_⟩
    obtain ⟨entry, hentry, rfl⟩ := List.mem_map.1 hid
    obtain rfl : other = call.id := by simpa using hother
    exact hnew (heq ▸ h.seen entry hentry)
  · intro entry hentry
    rw [hpending, List.mem_append, List.mem_singleton] at hentry
    rw [hseen]
    rcases hentry with hentry | rfl
    · exact List.mem_cons_of_mem _ (h.seen entry hentry)
    · exact List.mem_cons_self

/-- The calls of a message wait for their results. -/
theorem countCalls_eq_ok {jsonLen : Json → Nat} {declared : List String} {calls : List ToolCall}
    {total total' : Counters × Protocol}
    (h : calls.foldlM (countCall jsonLen declared) total = .ok total') (hsound : total.2.Sound) :
    total'.2.pending = total.2.pending ++ calls.map (fun call => (call.id, call.name)) ∧
      total'.2.Sound := by
  induction calls generalizing total with
  | nil =>
    obtain rfl := pure_eq_ok.1 h
    exact ⟨(List.append_nil _).symm, hsound⟩
  | cons call calls ih =>
    rw [List.foldlM_cons, bind_eq_ok] at h
    obtain ⟨next, hnext, hrest⟩ := h
    obtain ⟨hnew, hseen, hpending⟩ := countCall_eq_ok hnext hsound
    obtain ⟨hpending', hsound'⟩ := ih hrest (hsound.call hnew hseen hpending)
    refine ⟨?_, hsound'⟩
    rw [hpending', hpending, List.append_assoc, List.singleton_append, List.map_cons]

/-- A result takes its call from those that wait. -/
theorem answerCall_eq_ok {p p' : Protocol} {m : Message} (h : answerCall p m = .ok p') :
    (m.role ≠ .tool → p' = p) ∧ (m.role = .tool → ∀ id, m.toolCallId = some id →
      id ∈ p.pending.map Prod.fst ∧ p'.pending = removePending p.pending id ∧
        p'.seenCallIds = p.seenCallIds) := by
  unfold answerCall at h
  by_cases hrole : m.role = .tool
  · rw [if_pos hrole] at h
    simp only [bind_eq_ok, ensure_eq_ok, pure_eq_ok] at h
    obtain ⟨_, hsome, rfl⟩ := h
    refine ⟨fun hne => absurd hrole hne, fun _ id hid => ?_⟩
    rw [hid, Option.getD_some] at hsome ⊢
    refine ⟨?_, rfl, rfl⟩
    obtain ⟨name, hname⟩ := Option.isSome_iff_exists.1 hsome
    obtain ⟨before, after, hsplit, -⟩ := List.lookup_eq_some_iff.1 hname
    rw [hsplit]
    simp
  · rw [if_neg hrole] at h
    exact ⟨fun _ => (Except.ok.inj h).symm, fun htool => absurd htool hrole⟩

theorem Protocol.Sound.answer {p p' : Protocol} (h : p.Sound) {id : String}
    (hpending : p'.pending = removePending p.pending id)
    (hseen : p'.seenCallIds = p.seenCallIds) : p'.Sound := by
  constructor
  · rw [hpending]
    exact h.distinct.sublist (List.filter_sublist.map _)
  · intro entry hentry
    rw [hpending] at hentry
    rw [hseen]
    exact h.seen entry (List.mem_of_mem_filter hentry)

/-- The other calls wait on. -/
theorem Protocol.Sound.perm {p : Protocol} (h : p.Sound) {id : String}
    (hid : id ∈ p.pending.map Prod.fst) :
    (p.pending.map Prod.fst).Perm (id :: (removePending p.pending id).map Prod.fst) := by
  have hrest : (removePending p.pending id).map Prod.fst = (p.pending.map Prod.fst).erase id := by
    rw [h.distinct.erase_eq_filter, List.filter_map, removePending]
    congr 1
    exact List.filter_congr fun entry _ => by by_cases heq : entry.1 = id <;> simp [heq]
  rw [hrest]
  exact List.perm_cons_erase hid

/-- What one message does to the calls that wait. -/
theorem validateMessage_eq_ok {jsonLen : Json → Nat} {declared : List String} {pass pass' : Pass}
    {m : Message} (h : validateMessage jsonLen declared pass m = .ok pass')
    (hsound : pass.protocol.Sound) (hplain : m.Plain) :
    pass'.protocol.Sound ∧
    (m.role ≠ .tool → pass.protocol.pending = [] ∧
      pass'.protocol.pending = m.toolCalls.map fun call => (call.id, call.name)) ∧
    (m.role = .tool → ∃ id, m.toolCallId = some id ∧
      (pass.protocol.pending.map Prod.fst).Perm (id :: pass'.protocol.pending.map Prod.fst)) := by
  unfold validateMessage at h
  simp only [bind_eq_ok, ensure_eq_ok, pure_eq_ok] at h
  obtain ⟨_, -, _, -, _, -, _, -, _, hwaits, _, -, _, -, _, -, _, -, _, -, counted, hcalls,
    protocol, hanswer, rfl⟩ := h
  obtain ⟨hpending, hsound'⟩ := countCalls_eq_ok hcalls hsound
  obtain ⟨hother, htool⟩ := answerCall_eq_ok hanswer
  by_cases hrole : m.role = .tool
  · obtain ⟨id, hid⟩ := hplain.result hrole
    obtain ⟨hmem, hremoved, hseen⟩ := htool hrole id hid
    have hcalls' : m.toolCalls = [] := hplain.caller (by rw [hrole]; decide)
    rw [hcalls', List.map_nil, List.append_nil] at hpending
    refine ⟨hsound'.answer hremoved hseen, fun hne => absurd hrole hne, fun _ => ⟨id, hid, ?_⟩⟩
    have hperm := hsound'.perm hmem
    rw [hpending] at hperm
    rw [hremoved, hpending]
    exact hperm
  · obtain rfl := hother hrole
    refine ⟨hsound', fun _ => ⟨hwaits hrole, ?_⟩, fun htool => absurd htool hrole⟩
    rw [hpending, hwaits hrole, List.nil_append]

/-- A conversation in which no call waits in the end: results of what waits first, and then turns. -/
theorem run_turns {jsonLen : Json → Nat} {declared : List String} {messages : List Message}
    (hplain : ∀ m ∈ messages, m.Plain) {pass pass' : Pass} (hsound : pass.protocol.Sound)
    (h : messages.foldlM (validateMessage jsonLen declared) pass = .ok pass')
    (hend : pass'.protocol.pending = []) :
    ∃ (results : List ChatMessage) (turns : List Turn), messages.map Message.toChat = results ++ turns.flatMap Turn.messages ∧
      (∀ r ∈ results, r.role = "tool") ∧
      (results.map ChatMessage.toolCallId).Perm
        (pass.protocol.pending.map fun entry => some entry.1) ∧
      ∀ t ∈ turns, t.Answered := by
  induction messages generalizing pass with
  | nil =>
    obtain rfl := pure_eq_ok.1 h
    exact ⟨[], [], rfl, fun r hr => absurd hr List.not_mem_nil, by rw [hend]; exact .nil,
      fun t ht => absurd ht List.not_mem_nil⟩
  | cons m messages ih =>
    obtain ⟨hm, hrest⟩ := List.forall_mem_cons.1 hplain
    rw [List.foldlM_cons, bind_eq_ok] at h
    obtain ⟨next, hnext, h⟩ := h
    obtain ⟨hsound', hother, htool⟩ := validateMessage_eq_ok hnext hsound hm
    obtain ⟨results, turns, hmessages, hresults, hperm, hturns⟩ := ih hrest hsound' h
    rw [List.map_cons, hmessages]
    by_cases hrole : m.role = .tool
    · obtain ⟨id, hid, hpending⟩ := htool hrole
      refine ⟨m.toChat :: results, turns, rfl, List.forall_mem_cons.2
        ⟨Role.asStr_eq_tool.2 hrole, hresults⟩, ?_, hturns⟩
      have hpending' := hpending.map some
      simp only [List.map_cons, List.map_map] at hpending'
      rw [List.map_cons, show m.toChat.toolCallId = some id from hid]
      exact (hperm.cons _).trans hpending'.symm
    · obtain ⟨hnone, hcalls⟩ := hother hrole
      refine ⟨[], ⟨m.toChat, results⟩ :: turns, rfl, fun r hr => absurd hr List.not_mem_nil, ?_,
        List.forall_mem_cons.2 ⟨⟨fun htool => hrole (Role.asStr_eq_tool.1 htool), ?_, ?_, hresults,
          ?_⟩, hturns⟩⟩
      · rw [hnone]
        exact .nil
      · intro hne
        by_cases hassistant : m.role = .assistant
        · show m.role.asStr = "assistant"
          rw [hassistant]
          rfl
        · exact absurd (hm.caller hassistant) hne
      · have hdistinct := hsound'.distinct
        rw [hcalls, List.map_map] at hdistinct
        exact hdistinct
      · rw [hcalls, List.map_map] at hperm
        exact hperm

/-- The turns of a conversation that is accepted and converted. -/
theorem accepted_turns {jsonLen : Json → Nat} {supportsImages supportsAudio : Bool}
    {messages : List Message} {tools : List ToolDefinition} {chat : List ChatMessage}
    (hvalid : validateRequestShape jsonLen messages tools = .ok ())
    (hchat : messages.mapM (Message.intoEngine jsonLen supportsImages supportsAudio) = .ok chat) :
    ∃ turns : List Turn, chat = turns.flatMap Turn.messages ∧ ∀ t ∈ turns, t.Answered := by
  unfold validateRequestShape at hvalid
  simp only [bind_eq_ok, ensure_eq_ok] at hvalid
  obtain ⟨_, -, _, -, pass, hpass, _, -, _, hend, -⟩ := hvalid
  have hforall := mapM_eq_ok.1 hchat
  have hplain : ∀ m ∈ messages, m.Plain := fun m hm => by
    obtain ⟨_, -, hok⟩ := exists_of_mem_left hforall hm
    exact (intoEngine_eq_ok hok).2
  have hmap : messages.map Message.toChat = chat := by
    have heq : List.Forall₂ Eq (messages.map Message.toChat) chat :=
      List.forall₂_map_left_iff.2 (hforall.imp fun m c hok => (intoEngine_eq_ok hok).1.symm)
    rwa [List.forall₂_eq_eq_eq] at heq
  have hstart : Pass.start.protocol.Sound := ⟨List.nodup_nil, fun entry hentry =>
    absurd hentry List.not_mem_nil⟩
  obtain ⟨results, turns, hmessages, -, hperm, hturns⟩ := run_turns hplain hstart hpass hend
  have hnone : results = [] := List.map_eq_nil_iff.1 hperm.eq_nil
  rw [hnone, List.nil_append] at hmessages
  exact ⟨turns, hmap.symm.trans hmessages, hturns⟩

/-- A conversation that is accepted and converted is rendered just where the results of every turn
follow the order of the calls and are one text each; every message that is no result then has one
value, in order, with its results under the names of their calls. -/
theorem gemma_history (jsonLen : Json → Nat) (supportsImages supportsAudio : Bool)
    (messages : List Message) (tools : List ToolDefinition) (chat : List ChatMessage)
    (hvalid : validateRequestShape jsonLen messages tools = .ok ())
    (hchat : messages.mapM (Message.intoEngine jsonLen supportsImages supportsAudio) = .ok chat) :
    ∃ turns : List Turn, chat = turns.flatMap Turn.messages ∧ (∀ t ∈ turns, t.Answered) ∧
      ((∃ rendered, gemmaChatMessagesToJinja chat = .ok rendered) ↔
        ∀ t ∈ turns, t.InCallOrder ∧ t.OneText) ∧
      ∀ rendered, gemmaChatMessagesToJinja chat = .ok rendered →
        List.Forall₂ Turn.Rendered turns rendered := by
  obtain ⟨turns, rfl, hturns⟩ := accepted_turns hvalid hchat
  refine ⟨turns, rfl, hturns, ⟨?_, fun h => ?_⟩, fun rendered h => ((gemma_eq_ok hturns).1 h).2⟩
  · rintro ⟨rendered, h⟩ t ht
    obtain ⟨horder, hrendered⟩ := (gemma_eq_ok hturns).1 h
    obtain ⟨value, -, hvalue⟩ := exists_of_mem_left hrendered ht
    exact ⟨horder t ht, hvalue.oneText⟩
  · have hvalues : ∀ turns : List Turn, (∀ t ∈ turns, t.InCallOrder ∧ t.OneText) →
        ∃ values, List.Forall₂ Turn.Rendered turns values := by
      intro turns h
      induction turns with
      | nil => exact ⟨[], .nil⟩
      | cons t turns ih =>
        obtain ⟨ht, hrest⟩ := List.forall_mem_cons.1 h
        obtain ⟨value, hvalue⟩ := Turn.exists_rendered ht.1 ht.2
        obtain ⟨values, hvalues⟩ := ih hrest
        exact ⟨value :: values, .cons hvalue hvalues⟩
    obtain ⟨values, hvalues⟩ := hvalues turns h
    exact ⟨values, (gemma_eq_ok hturns).2 ⟨fun t ht => (h t ht).1, hvalues⟩⟩

/-! ### Two calls -/

/-- A tool without parameters. -/
def clock : ToolDefinition := ⟨"clock", "Tells the time.", .object []⟩

/-- A call of it. -/
def clockCall (id : String) : ToolCall := ⟨id, "clock", .object []⟩

/-- The result of a call. -/
def toolResult (id text : String) : Message := ⟨.tool, [.text text], [], some id, none⟩

/-- Two calls with their results, in some order. -/
def twoCalls (first second : String) : List Message :=
  [⟨.user, [.text "What time is it?"], [], none, none⟩,
    ⟨.assistant, [], [clockCall "a", clockCall "b"], none, none⟩,
    toolResult first "noon", toolResult second "one"]

theorem twoCalls_history : ∃ turns : List Turn,
    (twoCalls "a" "b").map Message.toChat = turns.flatMap Turn.messages ∧
      (∀ t ∈ turns, t.Answered) ∧
      ((∃ rendered, gemmaChatMessagesToJinja ((twoCalls "a" "b").map Message.toChat) =
          .ok rendered) ↔ ∀ t ∈ turns, t.InCallOrder ∧ t.OneText) ∧
      ∀ rendered, gemmaChatMessagesToJinja ((twoCalls "a" "b").map Message.toChat) =
        .ok rendered → List.Forall₂ Turn.Rendered turns rendered :=
  gemma_history (fun _ => 2) false false (twoCalls "a" "b") [clock] _ (by rfl) (by rfl)

/-- Results in the other order are accepted, and cannot be rendered. -/
theorem swapped_results_refused : ¬ ∀ (jsonLen : Json → Nat) (supportsImages supportsAudio : Bool)
    (messages : List Message) (tools : List ToolDefinition) (chat : List ChatMessage),
    validateRequestShape jsonLen messages tools = .ok () →
    messages.mapM (Message.intoEngine jsonLen supportsImages supportsAudio) = .ok chat →
    ∃ rendered, gemmaChatMessagesToJinja chat = .ok rendered := by
  intro h
  obtain ⟨rendered, hrendered⟩ := h (fun _ => 2) false false (twoCalls "b" "a") [clock]
    ((twoCalls "b" "a").map Message.toChat) (by rfl) (by rfl)
  simp [twoCalls, toolResult, clockCall, Message.toChat, Role.asStr, gemmaChatMessagesToJinja,
    ChatMessage.isResult, collectResponses] at hrendered

end Generation

end Emelex

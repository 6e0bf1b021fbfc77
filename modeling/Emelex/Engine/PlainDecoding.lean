import Emelex.Engine.RoundDriver

/-!
# Greedy decoding, one token at a time

What greedy decoding is for, without caches, drafts or rollback: the model is a function `next`
from a token prefix to the token after it, and a round emits one token and asks `next` for the
following one.  The emitter, the reasoning budget and the token budget are those of the driver.

* `Visible` — the part of the driver state that a caller of the decode loop sees.
* `plainRound` — one token: stop, cancel, forced close, slot exhaustion, or the next token.
* `Lands` — a run of one or more plain rounds and where its last round ends.

Principal results: `Lands.trans` (runs compose), `Lands.unique` (a run has one end),
`plainRound_used` (a round that continues has used one more slot and left one).
-/

set_option autoImplicit false

namespace Emelex

/-- What a caller of the decode loop sees of the driver. -/
structure Visible where
  emitter : TokenEmitter
  budget : Option ReasoningBudget
  committedLen : Nat
  reasoningForcedClosed : Bool
  used : Nat

namespace Visible

/-- `n` more tokens are committed. -/
def commit (v : Visible) (n : Nat) : Visible := { v with committedLen := v.committedLen + n }

@[simp] theorem commit_emitter (v : Visible) (n : Nat) : (v.commit n).emitter = v.emitter := rfl

@[simp] theorem commit_used (v : Visible) (n : Nat) : (v.commit n).used = v.used := rfl

theorem commit_commit (v : Visible) (a b : Nat) : (v.commit a).commit b = v.commit (a + b) := by
  simp [commit, Nat.add_assoc]

end Visible

/-- The budget, if there is one, observes an emitted piece. -/
def observed (budget : Option ReasoningBudget) (rawText : Str) :
    Option Str × Option ReasoningBudget :=
  match budget with
  | none => (none, none)
  | some b => ((b.observe rawText).2, some (b.observe rawText).1)

/-- The close tokens are emitted until one is cancelled or fails. -/
def closePrefix : List TokenId → Nat → TokenEmitter → ClosePrefix × TokenEmitter
  | [], accepted, e => (⟨accepted, false, none⟩, e)
  | id :: closeIds, accepted, e =>
    match e.emitForced id with
    | (e, .ok (.continue_ _)) => closePrefix closeIds (accepted + 1) e
    | (e, .ok .eos) => (⟨accepted, true, none⟩, e)
    | (e, .ok .cancelled) => (⟨accepted, true, none⟩, e)
    | (e, .error err) => (⟨accepted, false, some err⟩, e)

/-- The close tokens emitted so far were accepted; at most one more was emitted. -/
theorem closePrefix_spec : ∀ (closeIds : List TokenId) (accepted : Nat) (e : TokenEmitter),
    ∃ j rest, j ≤ closeIds.length ∧ (closePrefix closeIds accepted e).1.accepted = accepted + j ∧
      (closePrefix closeIds accepted e).2.emitted = e.emitted ++ (closeIds.take j ++ rest) ∧
      ((closePrefix closeIds accepted e).1.error = none →
        (closePrefix closeIds accepted e).1.cancelled = false → rest = [])
  | [], accepted, e => ⟨0, [], Nat.le_refl _, rfl, by simp [closePrefix], fun _ _ => rfl⟩
  | id :: closeIds, accepted, e => by
    have hp := e.emitForced_spec id
    unfold closePrefix
    rcases hr : e.emitForced id with ⟨e', err | (rawText | _ | _)⟩ <;> rw [hr] at hp
    · have hp : e'.emitted = e.emitted := hp
      exact ⟨0, [], Nat.zero_le _, rfl, by simpa using hp, fun _ _ => rfl⟩
    · obtain ⟨j, rest, hj, hacc, hem, hrest⟩ := closePrefix_spec closeIds (accepted + 1) e'
      have hp : e'.emitted = e.emitted ++ [id] := hp
      refine ⟨j + 1, rest, by simpa using hj, ?_, ?_, hrest⟩
      · show (closePrefix closeIds (accepted + 1) e').1.accepted = _
        omega
      · show (closePrefix closeIds (accepted + 1) e').2.emitted = _
        rw [hem, hp]
        simp
    · exact ⟨0, [id], Nat.zero_le _, rfl, hp, fun _ h => by cases h⟩
    · exact ⟨0, [id], Nat.zero_le _, rfl, hp, fun _ h => by cases h⟩

section Plain

variable (next : List TokenId → TokenId) (prompt : List TokenId) (maxTokens : Nat)

/-- The end of a round that has committed everything it emitted. -/
def plainEnd (v : Visible) : RoundEnd :=
  if v.used ≥ maxTokens then .budget else .continue_ (next (prompt ++ v.emitter.emitted))

/-- The end of a forced close, once its tokens have been committed. -/
def closeEnd (close : ClosePrefix) (closeMarker : Str) (v : Visible) :
    Except Exit RoundEnd × Visible :=
  match close.error with
  | some err => (.error (.exactPrefix err), v)
  | none =>
    if close.cancelled then (.ok .aborted, v)
    else if v.used ≥ maxTokens then (.ok .budget, v)
    else (.ok (.continue_ (next (prompt ++ v.emitter.emitted))),
      { v with
        reasoningForcedClosed := true
        emitter := v.emitter.armCloseFilters closeMarker })

/-- The budget closes the reasoning after a token that is emitted and not yet committed. -/
def plainClose (v : Visible) (closeMarker : Str) : Except Exit RoundEnd × Visible :=
  match v.emitter.encodeClose closeMarker with
  | .error e => (.error (.exactPrefix e), v)
  | .ok closeIds =>
    if closeIds = [] then (.ok (plainEnd next prompt maxTokens (v.commit 1)), v.commit 1)
    else
      let (close, e) := closePrefix closeIds 0 v.emitter
      closeEnd next prompt maxTokens close closeMarker
        { v with emitter := e, committedLen := v.committedLen + (1 + close.accepted) }

/-- What follows a token whose emission lets the generation go on. -/
def plainContinue (v : Visible) (rawText : Str) : Except Exit RoundEnd × Visible :=
  match observed v.budget rawText with
  | (none, b) =>
    let v := { v.commit 1 with budget := b }
    (.ok (plainEnd next prompt maxTokens v), v)
  | (some closeMarker, b) => plainClose next prompt maxTokens { v with budget := b } closeMarker

/-- One token of greedy decoding. -/
def plainRound (x : TokenId) (v : Visible) : Except Exit RoundEnd × Visible :=
  match v.emitter.emit x with
  | (e, .error err) => (.error (.exactPrefix err), { v with emitter := e })
  | (e, .ok .eos) => (.ok .finished, { v with emitter := e, used := v.used + 1 })
  | (e, .ok .cancelled) => (.ok .aborted, { v with emitter := e, used := v.used + 1 })
  | (e, .ok (.continue_ rawText)) =>
    plainContinue next prompt maxTokens { v with emitter := e, used := v.used + 1 } rawText

/-- One or more plain rounds from the token `x`, each but the last continuing; the last one
returns `r` and leaves `v'`. -/
inductive Lands : TokenId → Visible → Except Exit RoundEnd → Visible → Prop
  | last {x : TokenId} {v v' : Visible} {r : Except Exit RoundEnd} :
      plainRound next prompt maxTokens x v = (r, v') → Lands x v r v'
  | more {x y : TokenId} {v v' w : Visible} {r : Except Exit RoundEnd} :
      plainRound next prompt maxTokens x v = (.ok (.continue_ y), v') → Lands y v' r w →
      Lands x v r w

variable {next prompt maxTokens}

theorem Lands.trans {x y : TokenId} {v v' w : Visible} {r : Except Exit RoundEnd}
    (h : Lands next prompt maxTokens x v (.ok (.continue_ y)) v')
    (h' : Lands next prompt maxTokens y v' r w) : Lands next prompt maxTokens x v r w := by
  generalize hr : Except.ok (RoundEnd.continue_ y) = r' at h
  induction h with
  | last hx =>
    subst hr
    exact .more hx h'
  | more hx _ ih => exact .more hx (ih h' hr)

/-- A run that does not continue has one end. -/
theorem Lands.unique {x : TokenId} {v v₁ v₂ : Visible} {r₁ r₂ : Except Exit RoundEnd}
    (h₁ : Lands next prompt maxTokens x v r₁ v₁) (h₂ : Lands next prompt maxTokens x v r₂ v₂)
    (hr₁ : ∀ y, r₁ ≠ .ok (.continue_ y)) (hr₂ : ∀ y, r₂ ≠ .ok (.continue_ y)) :
    r₁ = r₂ ∧ v₁ = v₂ := by
  induction h₁ with
  | last hx =>
    cases h₂ with
    | last hx' =>
      rw [hx] at hx'
      exact Prod.mk.inj hx'
    | more hx' _ =>
      rw [hx] at hx'
      exact absurd (Prod.mk.inj hx').1 (hr₁ _)
  | more hx _ ih =>
    cases h₂ with
    | last hx' =>
      rw [hx] at hx'
      exact absurd (Prod.mk.inj hx').1.symm (hr₂ _)
    | more hx' h₂ =>
      rw [hx] at hx'
      obtain ⟨hr, rfl⟩ := Prod.mk.inj hx'
      cases hr
      exact ih h₂ hr₁

theorem plainEnd_over {v : Visible} (h : v.used ≥ maxTokens) :
    plainEnd next prompt maxTokens v = .budget := if_pos h

theorem plainEnd_under {v : Visible} (h : ¬ v.used ≥ maxTokens) :
    plainEnd next prompt maxTokens v = .continue_ (next (prompt ++ v.emitter.emitted)) := if_neg h

theorem plainEnd_continue {v : Visible} {y : TokenId}
    (h : plainEnd next prompt maxTokens v = .continue_ y) :
    v.used < maxTokens ∧ y = next (prompt ++ v.emitter.emitted) := by
  unfold plainEnd at h
  split at h
  · cases h
  · rename_i hlt
    cases h
    exact ⟨by omega, rfl⟩

theorem closeEnd_used {close : ClosePrefix} {v v' : Visible} {closeMarker : Str} {y : TokenId}
    (h : closeEnd next prompt maxTokens close closeMarker v = (.ok (.continue_ y), v')) :
    v'.used = v.used ∧ v'.used < maxTokens := by
  unfold closeEnd at h
  split at h
  · cases (Prod.mk.inj h).1
  · split at h
    · cases (Prod.mk.inj h).1
    · split at h
      · cases (Prod.mk.inj h).1
      · rename_i hlt
        obtain ⟨-, rfl⟩ := Prod.mk.inj h
        exact ⟨rfl, by simpa using hlt⟩

theorem plainClose_eq {v : Visible} {closeMarker : Str} {closeIds : List TokenId}
    (h : v.emitter.encodeClose closeMarker = .ok closeIds) (hne : closeIds ≠ []) :
    plainClose next prompt maxTokens v closeMarker =
      closeEnd next prompt maxTokens (closePrefix closeIds 0 v.emitter).1 closeMarker
        { v with
          emitter := (closePrefix closeIds 0 v.emitter).2
          committedLen := v.committedLen + (1 + (closePrefix closeIds 0 v.emitter).1.accepted) } := by
  unfold plainClose
  rw [h]
  simp only [if_neg hne]

theorem plainClose_used {v v' : Visible} {closeMarker : Str} {y : TokenId}
    (h : plainClose next prompt maxTokens v closeMarker = (.ok (.continue_ y), v')) :
    v'.used = v.used ∧ v'.used < maxTokens := by
  unfold plainClose at h
  split at h
  · cases (Prod.mk.inj h).1
  · split at h
    · obtain ⟨hr, rfl⟩ := Prod.mk.inj h
      exact ⟨rfl, (plainEnd_continue (Except.ok.inj hr)).1⟩
    · have hused := closeEnd_used h
      exact hused

theorem closeEnd_exact {close : ClosePrefix} {closeMarker : Str} {v w : Visible} {e : Exit}
    (h : closeEnd next prompt maxTokens close closeMarker v = (.error e, w)) :
    ∃ err, e = .exactPrefix err := by
  unfold closeEnd at h
  split at h
  · exact ⟨_, (Except.error.inj (Prod.mk.inj h).1).symm⟩
  · split at h
    · cases (Prod.mk.inj h).1
    · split at h
      · cases (Prod.mk.inj h).1
      · cases (Prod.mk.inj h).1

theorem plainClose_exact {v w : Visible} {closeMarker : Str} {e : Exit}
    (h : plainClose next prompt maxTokens v closeMarker = (.error e, w)) :
    ∃ err, e = .exactPrefix err := by
  unfold plainClose at h
  split at h
  · exact ⟨_, (Except.error.inj (Prod.mk.inj h).1).symm⟩
  · split at h
    · cases (Prod.mk.inj h).1
    · exact closeEnd_exact h

/-- A round that continues has used one more slot, and one is left. -/
theorem plainRound_used {x y : TokenId} {v v' : Visible}
    (h : plainRound next prompt maxTokens x v = (.ok (.continue_ y), v')) :
    v'.used = v.used + 1 ∧ v'.used < maxTokens := by
  unfold plainRound at h
  split at h
  · cases (Prod.mk.inj h).1
  · cases (Prod.mk.inj h).1
  · cases (Prod.mk.inj h).1
  · unfold plainContinue at h
    split at h
    · obtain ⟨hr, rfl⟩ := Prod.mk.inj h
      exact ⟨rfl, (plainEnd_continue (Except.ok.inj hr)).1⟩
    · exact plainClose_used h

theorem Lands.used {x y : TokenId} {v v' : Visible}
    (h : Lands next prompt maxTokens x v (.ok (.continue_ y)) v') :
    v.used < v'.used ∧ v'.used < maxTokens := by
  generalize hr : Except.ok (RoundEnd.continue_ y) = r at h
  induction h with
  | last hx =>
    subst hr
    have := plainRound_used hx
    omega
  | more hx _ ih =>
    have := plainRound_used hx
    have := ih hr
    omega

end Plain

end Emelex

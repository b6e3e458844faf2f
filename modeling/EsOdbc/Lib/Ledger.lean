import EsOdbc.Lib.Run

/-!
# Tokens that have to be handed back

A server hands out tokens, one at a time: an answer can have one, and its receiver has to send
it back, either to renew it, where the answer can have the next, or for good.  `Step` is the
discipline, from the token that is out before an event to the one that is out after it; a run
of steps hands every token back but the last (`Run.returns`).
-/

namespace Ledger

variable {M T : Type}

/-- What passes between the two: `reply` is the token in the answer, if there was an answer. -/
inductive Event (M T : Type) where
  /-- A request that has nothing to do with a token. -/
  | request (reply : Option (Option T))
  /-- A request to renew. -/
  | renew (m : M) (reply : Option (Option T))
  /-- A token handed back for good. -/
  | giveBack (m : M)
deriving Repr

/-- The token that an event brings. -/
def Event.received : Event M T → List T
  | .request reply | .renew _ reply => reply.join.toList
  | .giveBack _ => []

/-- The message in which an event hands a token back: a renewal does once it is answered. -/
def Event.returning : Event M T → List M
  | .request _ | .renew _ none => []
  | .renew m (some _) | .giveBack m => [m]

/-- The tokens that are out around an event. -/
inductive Step (carries : M → T → Prop) : Option T → Event M T → Option T → Prop where
  | request (reply : Option (Option T)) : Step carries none (.request reply) reply.join
  | renewed {t : T} {m : M} (h : carries m t) (t' : Option T) :
      Step carries (some t) (.renew m (some t')) t'
  | refused {t : T} {m : M} (h : carries m t) : Step carries (some t) (.renew m none) (some t)
  | gaveBack {t : T} {m : M} (h : carries m t) : Step carries (some t) (.giveBack m) none

theorem Step.returns {carries : M → T → Prop} {t t' : Option T} {e : Event M T}
    (h : Step carries t e t') :
    ∃ ts, List.Forall₂ carries e.returning ts ∧ t.toList ++ e.received = ts ++ t'.toList := by
  cases h with
  | request reply => exact ⟨[], .nil, rfl⟩
  | @renewed t m h t' => exact ⟨[t], .cons h .nil, rfl⟩
  | @refused t m h => exact ⟨[], .nil, rfl⟩
  | @gaveBack t m h => exact ⟨[t], .cons h .nil, rfl⟩

/-- The tokens that a run brings are handed back in order, each in one message, but for the one
that is out at its end. -/
theorem Run.returns {carries : M → T → Prop} {t t' : Option T} {es : List (Event M T)}
    (h : Run (Step carries) t es t') :
    ∃ ts, List.Forall₂ carries (es.flatMap Event.returning) ts ∧
      t.toList ++ es.flatMap Event.received = ts ++ t'.toList := by
  induction h with
  | nil t => exact ⟨[], .nil, by simp⟩
  | cons hs _ ih =>
    obtain ⟨ts₁, hc₁, h₁⟩ := hs.returns
    obtain ⟨ts₂, hc₂, h₂⟩ := ih
    refine ⟨ts₁ ++ ts₂, List.rel_append hc₁ hc₂, ?_⟩
    rw [List.flatMap_cons, ← List.append_assoc, h₁, List.append_assoc, h₂, List.append_assoc]

end Ledger

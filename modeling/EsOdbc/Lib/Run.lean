import Mathlib

/-!
# Runs of a step relation with outputs

A step relation `step : S → O → S → Prop` says which states a step leads to and what it
puts out.  A *run* is a finite sequence of steps.  The rules below carry what one step
does over to runs: invariants (`Run.invariant`), laws of conservation, where what was put
out and what is left always make up the same list (`Run.conserve`), and conditions that,
once they hold, hold for good (`Run.settled`).
-/

universe u v w

/-- `Run step s os s'`: from `s`, steps that put out `os` lead to `s'`. -/
inductive Run {S : Type u} {O : Type v} (step : S → O → S → Prop) : S → List O → S → Prop where
  /-- No step. -/
  | nil (s : S) : Run step s [] s
  /-- A step in front of a run. -/
  | cons {s s' s'' : S} {o : O} {os : List O} :
      step s o s' → Run step s' os s'' → Run step s (o :: os) s''

namespace Run

variable {S : Type u} {O : Type v} {A : Type w} {step step' : S → O → S → Prop}
  {s s' s'' : S} {o : O} {os os' : List O}

@[simp] theorem nil_iff : Run step s [] s' ↔ s = s' :=
  ⟨fun h ↦ by cases h; rfl, fun h ↦ h ▸ .nil s⟩

theorem cons_iff : Run step s (o :: os) s'' ↔ ∃ s', step s o s' ∧ Run step s' os s'' :=
  ⟨fun h ↦ by cases h with | cons h h' => exact ⟨_, h, h'⟩, fun ⟨_, h, h'⟩ ↦ .cons h h'⟩

/-- Runs compose. -/
theorem append (h : Run step s os s') (h' : Run step s' os' s'') :
    Run step s (os ++ os') s'' := by
  induction h with
  | nil _ => exact h'
  | cons hs _ ih => exact .cons hs (ih h')

/-- A run can be cut anywhere. -/
theorem of_append (h : Run step s (os ++ os') s'') :
    ∃ s', Run step s os s' ∧ Run step s' os' s'' := by
  induction os generalizing s with
  | nil => exact ⟨s, .nil s, h⟩
  | cons o os ih =>
    obtain ⟨t, hs, ht⟩ := cons_iff.mp h
    obtain ⟨s', h₁, h₂⟩ := ih ht
    exact ⟨s', .cons hs h₁, h₂⟩

/-- A run whose outputs are all fit is a run of the steps with fit outputs. -/
theorem restrict {P : O → Prop} (h : Run step s os s') (hP : ∀ o ∈ os, P o) :
    Run (fun s o s' ↦ P o ∧ step s o s') s os s' := by
  induction h with
  | nil s => exact .nil s
  | cons hs _ ih =>
    exact .cons ⟨hP _ List.mem_cons_self, hs⟩ (ih fun o ho ↦ hP o (List.mem_cons_of_mem _ ho))

/-- What every step keeps, every run keeps. -/
theorem invariant {I : S → Prop} (hstep : ∀ s o s', I s → step s o s' → I s')
    (h : Run step s os s') (hs : I s) : I s' := by
  induction h with
  | nil _ => exact hs
  | cons h _ ih => exact ih (hstep _ _ _ hs h)

/-- What holds of the output of every step that an invariant holds in front of. -/
theorem forall_output {I : S → Prop} {Q : O → Prop}
    (hstep : ∀ s o s', I s → step s o s' → I s' ∧ Q o) (h : Run step s os s') (hs : I s) :
    ∀ o ∈ os, Q o := by
  induction h with
  | nil _ => nofun
  | cons h _ ih =>
    obtain ⟨hs', ho⟩ := hstep _ _ _ hs h
    exact List.forall_mem_cons.mpr ⟨ho, ih hs'⟩

/-- What holds of a state and of all that was put out before it. -/
theorem accumulate {I : List A → S → Prop} (out : O → List A)
    (hstep : ∀ acc s o s', I acc s → step s o s' → I (acc ++ out o) s')
    (h : Run step s os s') {acc : List A} (hs : I acc s) : I (acc ++ os.flatMap out) s' := by
  induction h generalizing acc with
  | nil _ => simpa using hs
  | cons h _ ih =>
    have := ih (hstep _ _ _ _ hs h)
    rwa [List.append_assoc] at this

/-- What the steps put out and what is left add up to what there was. -/
theorem conserve {I : S → Prop} (out : O → List A) (left : S → List A)
    (hstep : ∀ s o s', I s → step s o s' → I s' ∧ out o ++ left s' = left s)
    (h : Run step s os s') (hs : I s) : os.flatMap out ++ left s' = left s := by
  induction h with
  | nil _ => rfl
  | cons h _ ih =>
    obtain ⟨hs', ho⟩ := hstep _ _ _ hs h
    rw [List.flatMap_cons, List.append_assoc, ih hs', ho]

/-- What the steps add to a counter is counted. -/
theorem count {I : S → Prop} (add : O → Nat) (counter : S → Nat)
    (hstep : ∀ s o s', I s → step s o s' → I s' ∧ counter s' = counter s + add o)
    (h : Run step s os s') (hs : I s) : counter s' = counter s + (os.map add).sum := by
  induction h with
  | nil _ => rfl
  | cons h _ ih =>
    obtain ⟨hs', ho⟩ := hstep _ _ _ hs h
    rw [List.map_cons, List.sum_cons, ih hs', ho, Nat.add_assoc]

/-- After an output that marks the end, every output is fit for the end. -/
theorem settled {I E : S → Prop} {L Q : O → Prop}
    (hstep : ∀ s o s', I s → step s o s' → I s' ∧ (L o → E s'))
    (hend : ∀ s o s', E s → step s o s' → E s' ∧ Q o)
    (h : Run step s (os ++ o :: os') s') (hs : I s) (ho : L o) : E s' ∧ ∀ o ∈ os', Q o := by
  obtain ⟨t, h₁, h₂⟩ := of_append h
  obtain ⟨t', ht, h₂⟩ := cons_iff.mp h₂
  have hIt := h₁.invariant (fun s o s' hI h ↦ (hstep s o s' hI h).1) hs
  have hE := (hstep _ _ _ hIt ht).2 ho
  exact ⟨h₂.invariant (fun s o s' hE h ↦ (hend s o s' hE h).1) hE, h₂.forall_output hend hE⟩

end Run

import EsOdbc.Interval.Scan

/-!
# What the loop has read of a duration

The steps of the numbers put together: when all of them are taken, and what the variables
of the loop are then.
-/

namespace EsOdbc

open Decimal (ofDigits)

/-- The variables of the loop past the letter of a period. -/
def IvlScan.afterP : IvlScan := { IvlScan.init with state := .period }

/-! ## A list of numbers -/

/-- No two signs differ, nor does one from the sign so far. -/
def SignsFrom (sign : ℤ) (xs : List (DurationUnit × Amount)) : Prop :=
  sign ≤ 0 ∧ (∀ x ∈ xs, x.2.bint < 0) ∨ 0 ≤ sign ∧ ∀ x ∈ xs, ¬ x.2.bint < 0

theorem signsFrom_nil (sign : ℤ) : SignsFrom sign [] := by
  rcases le_total sign 0 with h | h
  · exact .inl ⟨h, nofun⟩
  · exact .inr ⟨h, nofun⟩

theorem signsFrom_cons {sign : ℤ} {x : DurationUnit × Amount}
    {xs : List (DurationUnit × Amount)} :
    SignsFrom sign (x :: xs) ↔
      (sign = 0 ∨ (x.2.bint < 0 ↔ sign < 0)) ∧ SignsFrom (sign + x.2.inc) xs := by
  simp only [SignsFrom, List.forall_mem_cons, Amount.inc]
  by_cases h : x.2.bint < 0
  · simp only [h, if_true, true_and, true_iff, not_true, false_and, and_false, or_false]
    constructor
    · rintro ⟨hs, hxs⟩
      exact ⟨by omega, .inl ⟨by omega, hxs⟩⟩
    · rintro ⟨hs, ⟨_, hxs⟩ | ⟨_, _⟩⟩
      · exact ⟨by omega, hxs⟩
      · omega
  · simp only [h, if_false, false_and, and_false, false_or, not_false_iff, true_and, false_iff]
    constructor
    · rintro ⟨hs, hxs⟩
      exact ⟨by omega, .inr ⟨by omega, hxs⟩⟩
    · rintro ⟨hs, ⟨_, _⟩ | ⟨_, hxs⟩⟩
      · omega
      · exact ⟨by omega, hxs⟩

/-- The sign after some numbers. -/
def signAfter (sign : ℤ) (xs : List (DurationUnit × Amount)) : ℤ :=
  xs.foldl (fun sign x ↦ sign + x.2.inc) sign

theorem signsFrom_append {sign : ℤ} {xs ys : List (DurationUnit × Amount)} :
    SignsFrom sign (xs ++ ys) ↔ SignsFrom sign xs ∧ SignsFrom (signAfter sign xs) ys := by
  induction xs generalizing sign with
  | nil => simp [signsFrom_nil, signAfter]
  | cons x xs ih => rw [List.cons_append, signsFrom_cons, signsFrom_cons, ih, and_assoc]; rfl

/-- The sign tells which of the two it is. -/
theorem signAfter_neg {sign : ℤ} {xs : List (DurationUnit × Amount)} (h : SignsFrom sign xs)
    (hs : sign ≠ 0 ∨ xs ≠ []) :
    signAfter sign xs < 0 ↔ sign ≤ 0 ∧ ∀ x ∈ xs, x.2.bint < 0 := by
  induction xs generalizing sign with
  | nil =>
    simp only [signAfter, List.foldl_nil, List.not_mem_nil, IsEmpty.forall_iff, implies_true,
      and_true]
    have hs : sign ≠ 0 := hs.resolve_right fun h ↦ h rfl
    omega
  | cons x xs ih =>
    obtain ⟨hx, hxs⟩ := signsFrom_cons.mp h
    have hinc : x.2.inc = if x.2.bint < 0 then -1 else 1 := rfl
    rw [signAfter, List.foldl_cons, ← signAfter, ih hxs (.inl _), List.forall_mem_cons]
    · split at hinc <;> rename_i hb
      · exact ⟨fun h ↦ ⟨by omega, hb, h.2⟩, fun h ↦ ⟨by omega, h.2.2⟩⟩
      · exact ⟨fun h ↦ absurd h.1 (by omega), fun h ↦ absurd h.2.1 hb⟩
    · split at hinc <;> omega

/-- The fields of the units of a list. -/
def fieldsOf (xs : List (DurationUnit × Amount)) : List IvlField := xs.filterMap (·.1.field)

theorem Amount.field_of_taken {u : DurationUnit} {a : Amount} (h : a.Taken u) :
    ∃ f, u.field = some f := by
  have hweek := h.field
  cases u <;> first | exact ⟨_, rfl⟩ | exact absurd rfl hweek

/-- The state after a step, were it taken. -/
def putAmount (p : Int16) (s : IvlScan) (x : DurationUnit × Amount) : IvlScan :=
  x.1.field.elim s fun f ↦ s.put p f x.2

theorem stepAmount_eq (p : Int16) {s : IvlScan} {x : DurationUnit × Amount}
    (hfresh : ∀ f ∈ x.1.field, f ∉ s.fields) :
    stepAmount p s x =
      if x.2.Taken x.1 ∧ x.2.SignFits s then some (putAmount p s x) else none := by
  rw [stepAmount, putAmount]
  cases hf : x.1.field with
  | none =>
    have hweek : ¬ (x.2.Taken x.1 ∧ x.2.SignFits s) := by
      rintro ⟨h, _⟩
      obtain ⟨f, hf'⟩ := Amount.field_of_taken h
      rw [hf] at hf'
      cases hf'
    rw [if_neg hweek, Option.bind_none]
  | some f =>
    have hmem : f ∉ s.fields := hfresh f hf
    simp only [Option.bind_some, Option.elim_some, hmem, not_false_iff, and_true]

theorem putAmount_state (p : Int16) (s : IvlScan) (x : DurationUnit × Amount) :
    (putAmount p s x).state = s.state := by
  rw [putAmount]
  cases x.1.field <;> rfl

theorem fieldsOf_cons (x : DurationUnit × Amount) (xs : List (DurationUnit × Amount)) :
    fieldsOf (x :: xs) = x.1.field.toList ++ fieldsOf xs := by
  rw [fieldsOf, List.filterMap_cons]
  cases x.1.field <;> rfl

theorem mem_putAmount_fields {p : Int16} {s : IvlScan} {x : DurationUnit × Amount}
    {f : IvlField} :
    f ∈ (putAmount p s x).fields ↔ f ∈ x.1.field ∨ f ∈ s.fields := by
  rw [putAmount]
  cases x.1.field with
  | none => simp
  | some g =>
    show f ∈ insert g s.fields ↔ _
    rw [Finset.mem_insert, Option.mem_some_iff, eq_comm]

theorem foldl_putAmount_state (p : Int16) (xs : List (DurationUnit × Amount))
    (s : IvlScan) : (xs.foldl (putAmount p) s).state = s.state := by
  induction xs generalizing s with
  | nil => rfl
  | cons x xs ih => rw [List.foldl_cons, ih, putAmount_state]

theorem mem_foldl_putAmount_fields {p : Int16} {xs : List (DurationUnit × Amount)}
    {s : IvlScan} {f : IvlField} :
    f ∈ (xs.foldl (putAmount p) s).fields ↔ f ∈ fieldsOf xs ∨ f ∈ s.fields := by
  induction xs generalizing s with
  | nil => simp [fieldsOf]
  | cons x xs ih =>
    rw [List.foldl_cons, ih, mem_putAmount_fields, fieldsOf_cons, List.mem_append,
      Option.mem_toList]
    tauto

theorem foldl_putAmount_sign (p : Int16) {xs : List (DurationUnit × Amount)}
    (htaken : ∀ x ∈ xs, x.2.Taken x.1) (s : IvlScan) :
    (xs.foldl (putAmount p) s).sign = signAfter s.sign xs := by
  induction xs generalizing s with
  | nil => rfl
  | cons x xs ih =>
    rw [List.forall_mem_cons] at htaken
    rw [List.foldl_cons, ih htaken.2, signAfter, signAfter, List.foldl_cons]
    congr 1
    obtain ⟨f, hf⟩ := Amount.field_of_taken htaken.1
    rw [putAmount, hf]
    rfl

/-- The steps of a list of numbers whose units are new and differ from each other. -/
theorem foldlM_stepAmount {p : Int16} {xs : List (DurationUnit × Amount)}
    {s s' : IvlScan} (hnodup : (fieldsOf xs).Nodup) (hfresh : ∀ f ∈ fieldsOf xs, f ∉ s.fields) :
    xs.foldlM (stepAmount p) s = some s' ↔
      (∀ x ∈ xs, x.2.Taken x.1) ∧ SignsFrom s.sign xs ∧
        xs.foldl (putAmount p) s = s' := by
  induction xs generalizing s with
  | nil => simp [signsFrom_nil]
  | cons x xs ih =>
    rw [fieldsOf_cons] at hnodup hfresh
    obtain ⟨_, hnodup', hdisj⟩ := List.nodup_append'.mp hnodup
    have hx : ∀ f ∈ x.1.field, f ∉ s.fields :=
      fun f hf ↦ hfresh f (List.mem_append_left _ (Option.mem_toList.mpr hf))
    have hxs : ∀ f ∈ fieldsOf xs, f ∉ (putAmount p s x).fields := by
      intro f hf hmem
      rcases mem_putAmount_fields.mp hmem with h | h
      · exact hdisj (Option.mem_toList.mpr h) hf
      · exact hfresh f (List.mem_append_right _ hf) h
    rw [List.foldlM_cons, stepAmount_eq p hx, List.forall_mem_cons, signsFrom_cons,
      List.foldl_cons]
    by_cases h : x.2.Taken x.1 ∧ x.2.SignFits s
    · have hsign : (putAmount p s x).sign = s.sign + x.2.inc := by
        obtain ⟨f, hf⟩ := Amount.field_of_taken h.1
        rw [putAmount, hf]
        rfl
      rw [if_pos h]
      show xs.foldlM (stepAmount p) (putAmount p s x) = some s' ↔ _
      rw [ih hnodup' hxs, hsign]
      have hfits := h.2
      rw [Amount.SignFits] at hfits
      tauto
    · rw [if_neg h]
      refine ⟨fun h' ↦ absurd h' (Option.some_ne_none s').symm, fun h' ↦ absurd ⟨h'.1.1, h'.2.1.1⟩ h⟩

/-! ## A text of numbers -/

/-- The texts of numbers that stand where the loop is. -/
theorem ivlLoop_amounts (p : Int16) (xs : List (DurationUnit × Amount)) (rest : WStr)
    {s : IvlScan} (hs : ∀ x ∈ xs, s.state = x.1.home) :
    ivlLoop p 0 (xs.flatMap Duration.amountText ++ rest) s =
      (xs.foldlM (stepAmount p) s).bind (ivlLoop p 0 rest) := by
  induction xs generalizing s with
  | nil => rfl
  | cons x xs ih =>
    rw [List.forall_mem_cons] at hs
    rw [List.flatMap_cons, List.append_assoc, ivlLoop_amount p x _ hs.1,
      List.foldlM_cons]
    cases hstep : stepAmount p s x with
    | none => rfl
    | some s' =>
      have hstate : s'.state = s.state := by
        rw [stepAmount, Option.bind_eq_some_iff] at hstep
        obtain ⟨f, _, hstep⟩ := hstep
        split at hstep
        · rw [← Option.some.inj hstep]
          rfl
        · cases hstep
      exact ih (hstate ▸ hs.2)

namespace Duration

theorem one_subset {u : DurationUnit} {a : Option Amount} :
    ((one u a).map Prod.fst).Sublist [u] := by
  cases a with
  | none => exact List.nil_sublist _
  | some a => exact List.Sublist.refl _

theorem dates_sublist (d : Duration) :
    (d.dates.map Prod.fst).Sublist [.year, .month, .week, .day] := by
  simp only [dates, List.map_append]
  exact ((one_subset.append one_subset).append one_subset).append one_subset

theorem times_sublist (d : Duration) :
    (d.times.map Prod.fst).Sublist [.hour, .minute, .second] := by
  simp only [times, List.map_append]
  exact (one_subset.append one_subset).append one_subset

theorem fieldsOf_sublist {xs : List (DurationUnit × Amount)} {us : List DurationUnit}
    (h : (xs.map Prod.fst).Sublist us) :
    (fieldsOf xs).Sublist (us.filterMap DurationUnit.field) := by
  have hmap : fieldsOf xs = (xs.map Prod.fst).filterMap DurationUnit.field := by
    rw [List.filterMap_map]
    rfl
  rw [hmap]
  exact h.filterMap _

theorem home_dates (d : Duration) : ∀ x ∈ d.dates, x.1.home = .period := by
  intro x hx
  have h := (dates_sublist d).subset (List.mem_map_of_mem hx)
  revert h
  generalize x.1 = u
  cases u <;> decide

theorem home_times (d : Duration) : ∀ x ∈ d.times, x.1.home = .time := by
  intro x hx
  have h := (times_sublist d).subset (List.mem_map_of_mem hx)
  revert h
  generalize x.1 = u
  cases u <;> decide

/-- A duration the loop reads to its end: no sign stands before it, each of its numbers is
taken, and they have one sign. -/
structure Readable (d : Duration) : Prop where
  sign : d.sign = none
  taken : ∀ x ∈ d.amounts, x.2.Taken x.1
  signs : SignsFrom 0 d.amounts

/-- The state of the loop after the dates. -/
def afterDates (p : Int16) (d : Duration) : IvlScan :=
  d.dates.foldl (putAmount p) .afterP

/-- The state of the loop after the whole duration. -/
def afterTimes (p : Int16) (d : Duration) : IvlScan :=
  if d.times = [] then d.afterDates p
  else d.times.foldl (putAmount p) { d.afterDates p with state := .time }

end Duration

theorem ivlLoop_letterP (p : Int16) (lower : Bool) (rest : WStr) :
    ivlLoop p 0 (letter 0x70 lower :: rest) .init =
      ivlLoop p 0 rest .afterP := by
  have hunit : ivlUnit (letter 0x70 lower) = .p := by cases lower <;> decide
  rw [ivlLoop, hunit]
  rfl

theorem ivlLoop_letterT (p : Int16) (lower : Bool) (rest : WStr) {s : IvlScan}
    (hs : s.state = .period) :
    ivlLoop p 0 (letter 0x74 lower :: rest) s =
      ivlLoop p 0 rest { s with state := .time } := by
  have hunit : ivlUnit (letter 0x74 lower) = .t := by cases lower <;> decide
  rw [ivlLoop, hunit, ivlTurn, if_neg (not_not.mpr hs)]

theorem ivlLoop_sign (p : Int16) (neg : Bool) (rest : WStr) :
    ivlLoop p 0 ((if neg then 0x2D else 0x2B) :: rest) .init = none := by
  have hunit : ivlUnit (if neg then 0x2D else 0x2B) = .number := by cases neg <;> decide
  rw [ivlLoop, hunit]
  rfl

/-- The loop over the dates of a duration. -/
theorem foldlM_dates {p : Int16} {d : Duration} {s : IvlScan} :
    d.dates.foldlM (stepAmount p) .afterP = some s ↔
      (∀ x ∈ d.dates, x.2.Taken x.1) ∧ SignsFrom 0 d.dates ∧ d.afterDates p = s :=
  foldlM_stepAmount ((by decide : [IvlField.year, .month, .day].Nodup).sublist
    (Duration.fieldsOf_sublist d.dates_sublist)) fun _ _ ↦ Finset.notMem_empty _

/-- The loop over the times, after the dates. -/
theorem foldlM_times {p : Int16} {d : Duration} {s : IvlScan}
    (hdates : ∀ x ∈ d.dates, x.2.Taken x.1) :
    d.times.foldlM (stepAmount p) { d.afterDates p with state := .time } = some s ↔
      (∀ x ∈ d.times, x.2.Taken x.1) ∧ SignsFrom (signAfter 0 d.dates) d.times ∧
        d.times.foldl (putAmount p) { d.afterDates p with state := .time } = s := by
  have hsub := Duration.fieldsOf_sublist d.times_sublist
  have hsign : (d.afterDates p).sign = signAfter 0 d.dates :=
    foldl_putAmount_sign p hdates _
  rw [← hsign]
  refine foldlM_stepAmount ((by decide : [IvlField.hour, .minute, .second].Nodup).sublist hsub) ?_
  intro f hf hmem
  have hf' : f ∈ [IvlField.hour, .minute, .second] := hsub.subset hf
  have hmem' : f ∈ [IvlField.year, .month, .day] := by
    rcases mem_foldl_putAmount_fields.mp hmem with h | h
    · exact (Duration.fieldsOf_sublist d.dates_sublist).subset h
    · exact absurd h (Finset.notMem_empty f)
  revert hf' hmem'
  cases f <;> decide

/-- The loop on the text of a duration. -/
theorem ivlLoop_text {p : Int16} {d : Duration} {s : IvlScan} :
    ivlLoop p 0 d.text .init = some s ↔ d.Readable ∧ d.afterTimes p = s := by
  have hread : d.Readable ↔ d.sign = none ∧ ((∀ x ∈ d.dates, x.2.Taken x.1) ∧
      SignsFrom 0 d.dates) ∧ (∀ x ∈ d.times, x.2.Taken x.1) ∧
        SignsFrom (signAfter 0 d.dates) d.times := by
    constructor
    · rintro ⟨hsign, htaken, hsigns⟩
      rw [Duration.amounts] at htaken hsigns
      rw [List.forall_mem_append] at htaken
      rw [signsFrom_append] at hsigns
      exact ⟨hsign, ⟨htaken.1, hsigns.1⟩, htaken.2, hsigns.2⟩
    · rintro ⟨hsign, ⟨hd, hds⟩, ht, hts⟩
      exact ⟨hsign, List.forall_mem_append.mpr ⟨hd, ht⟩, signsFrom_append.mpr ⟨hds, hts⟩⟩
  rw [hread, Duration.text]
  cases d.sign with
  | some neg =>
    rw [Option.elim_some, List.singleton_append, ivlLoop_sign]
    exact ⟨nofun, fun h ↦ absurd h.1.1 (Option.some_ne_none _)⟩
  | none =>
    rw [Option.elim_none, List.nil_append, ivlLoop_letterP,
      ivlLoop_amounts p d.dates _ fun x hx ↦ (d.home_dates x hx).symm, Option.bind_eq_some_iff]
    simp only [foldlM_dates, Duration.afterTimes]
    by_cases htimes : d.times = []
    · simp only [htimes, if_true, ivlLoop, Option.some.injEq, List.not_mem_nil,
        IsEmpty.forall_iff, implies_true, signsFrom_nil, true_and, and_true]
      constructor
      · rintro ⟨_, ⟨hd, hds, rfl⟩, rfl⟩
        exact ⟨⟨hd, hds⟩, rfl⟩
      · rintro ⟨⟨hd, hds⟩, rfl⟩
        exact ⟨_, ⟨hd, hds, rfl⟩, rfl⟩
    · simp only [if_neg htimes]
      constructor
      · rintro ⟨_, ⟨hd, hds, rfl⟩, h⟩
        have hstate : (d.afterDates p).state = .period := foldl_putAmount_state _ _ _
        have htext := ivlLoop_amounts p d.times []
          (s := { d.afterDates p with state := .time }) fun x hx ↦ (d.home_times x hx).symm
        rw [List.append_nil] at htext
        rw [ivlLoop_letterT p _ _ hstate, htext, Option.bind_eq_some_iff] at h
        obtain ⟨_, hfold, hend⟩ := h
        obtain ⟨ht, hts, rfl⟩ := (foldlM_times hd).mp hfold
        exact ⟨⟨trivial, ⟨hd, hds⟩, ht, hts⟩, Option.some.inj hend⟩
      · rintro ⟨⟨_, ⟨hd, hds⟩, ht, hts⟩, rfl⟩
        have hstate : (d.afterDates p).state = .period := foldl_putAmount_state _ _ _
        have htext := ivlLoop_amounts p d.times []
          (s := { d.afterDates p with state := .time }) fun x hx ↦ (d.home_times x hx).symm
        rw [List.append_nil] at htext
        refine ⟨_, ⟨hd, hds, rfl⟩, ?_⟩
        rw [ivlLoop_letterT p _ _ hstate, htext, (foldlM_times hd).mpr ⟨ht, hts, rfl⟩]
        rfl

/-! ## The variables at the end -/

/-- The place of the loop makes no difference to what the numbers leave. -/
theorem foldl_putAmount_place (p : Int16) (xs : List (DurationUnit × Amount))
    (s : IvlScan) (t σ : IvlState) :
    ∃ σ', xs.foldl (putAmount p) { s with state := t, saved := σ } =
      { xs.foldl (putAmount p) s with state := t, saved := σ' } := by
  induction xs generalizing s σ with
  | nil => exact ⟨σ, rfl⟩
  | cons x xs ih =>
    have hput : ∃ σ', putAmount p { s with state := t, saved := σ } x =
        { putAmount p s x with state := t, saved := σ' } := by
      unfold putAmount
      cases x.1.field with
      | none => exact ⟨σ, rfl⟩
      | some f => exact ⟨t, rfl⟩
    obtain ⟨σ', hput⟩ := hput
    rw [List.foldl_cons, List.foldl_cons, hput]
    exact ih _ _

namespace Duration

/-- What the numbers of a duration leave in the variables. -/
def collected (p : Int16) (d : Duration) : IvlScan :=
  d.amounts.foldl (putAmount p) .afterP

theorem afterTimes_eq (p : Int16) (d : Duration) :
    ∃ t σ, (t = .period ∨ t = .time) ∧
      d.afterTimes p = { d.collected p with state := t, saved := σ } := by
  have hfold : d.collected p =
      d.times.foldl (putAmount p) (d.afterDates p) := List.foldl_append
  rw [hfold, afterTimes]
  split
  · next h =>
    rw [h]
    have hstate : (d.afterDates p).state = .period := foldl_putAmount_state _ _ _
    exact ⟨_, _, .inl hstate, rfl⟩
  · obtain ⟨σ, h⟩ := foldl_putAmount_place p d.times (d.afterDates p) .time
      (d.afterDates p).saved
    exact ⟨.time, σ, .inr rfl, h⟩

section Slots

variable (p : Int16) (u : DurationUnit) (o : Option Amount) (s : IvlScan)

/-- The slots of the fields after one number. -/
theorem slots_one :
    let v := ((one u o).foldl (putAmount p) s).intval
    (v.yearDay = if u = .year ∨ u = .day then (o.map Amount.uint).getD s.intval.yearDay
      else s.intval.yearDay) ∧
    (v.monthHour = if u = .month ∨ u = .hour then (o.map Amount.uint).getD s.intval.monthHour
      else s.intval.monthHour) ∧
    (v.minute = if u = .minute then (o.map Amount.uint).getD s.intval.minute
      else s.intval.minute) ∧
    (v.second = if u = .second then (o.map Amount.uint).getD s.intval.second
      else s.intval.second) := by
  cases o with
  | none => simp [one]
  | some a =>
    cases u <;> cases h : a.frac <;>
      simp [one, putAmount, DurationUnit.field, IvlScan.put, IntVal.set, h]

end Slots

/-- The value of a number, `0` without one. -/
def uintOf (o : Option Amount) : ℕ := (o.map Amount.uint).getD 0

/-- The slots of the fields; a day covers a year, and an hour a month. -/
theorem collected_slots (p : Int16) (d : Duration) :
    let v := (d.collected p).intval
    v.yearDay = (d.day.map Amount.uint).getD (uintOf d.year) ∧
    v.monthHour = (d.hour.map Amount.uint).getD (uintOf d.month) ∧
    v.minute = uintOf d.minute ∧
    v.second = uintOf d.second := by
  simp [collected, amounts, dates, times, List.foldl_append, slots_one, uintOf, IvlScan.afterP,
    IvlScan.init, IntVal.zero]

/-- The fraction of the seconds, as it is stored. -/
def fraction (p : Int16) (d : Duration) : ℕ := d.second.elim 0 (·.fraction p 0)

/-- The return code that is left when a duration was read. -/
def ret (p : Int16) (d : Duration) : SqlReturn := d.second.elim .success (·.ret p)

/-- Whether the seconds have a fraction. -/
def hasFraction (d : Duration) : Bool := d.second.any (·.frac.isSome)

/-- Numbers without a fraction. -/
theorem foldl_whole (p : Int16) {xs : List (DurationUnit × Amount)}
    (htaken : ∀ x ∈ xs, x.2.Taken x.1) (hwhole : ∀ x ∈ xs, x.2.frac = none) (s : IvlScan) :
    (xs.foldl (putAmount p) s).fraction = s.fraction ∧
      (xs.foldl (putAmount p) s).intval.fraction = s.intval.fraction ∧
      (xs.foldl (putAmount p) s).last =
        if xs = [] then s.last else some (.success, false) := by
  induction xs generalizing s with
  | nil => exact ⟨rfl, rfl, rfl⟩
  | cons x xs ih =>
    rw [List.forall_mem_cons] at htaken hwhole
    obtain ⟨f, hf⟩ := Amount.field_of_taken htaken.1
    obtain ⟨hfr, hiv, hlast⟩ := ih htaken.2 hwhole.2 (putAmount p s x)
    have hput : putAmount p s x = s.put p f x.2 := by rw [putAmount, hf]; rfl
    rw [List.foldl_cons, hfr, hiv, hlast, hput, if_neg (List.cons_ne_nil _ _)]
    have hnone : x.2.frac.isSome = false := by rw [hwhole.1]; rfl
    refine ⟨?_, ?_, ?_⟩
    · simp [IvlScan.put, Amount.fraction, hnone]
    · cases f <;> simp [IvlScan.put, IntVal.set, hnone]
    · simp [IvlScan.put, Amount.ret, hnone]

/-- The numbers but the seconds. -/
def wholes (d : Duration) : List (DurationUnit × Amount) :=
  d.dates ++ (one .hour d.hour ++ one .minute d.minute)

theorem amounts_eq (d : Duration) : d.amounts = d.wholes ++ one .second d.second := by
  simp [amounts, wholes, times]

theorem amounts_ne_nil (d : Duration) : d.amounts ≠ [] := by
  have h := d.written
  simp only [amounts, dates, times, one]
  revert h
  cases d.year <;> cases d.month <;> cases d.week <;> cases d.day <;> cases d.hour <;>
    cases d.minute <;> cases d.second <;> simp

theorem wholes_frac {d : Duration} (h : d.Readable) : ∀ x ∈ d.wholes, x.2.frac = none := by
  intro x hx
  have htaken := h.taken x (by rw [amounts_eq]; exact List.mem_append_left _ hx)
  have hsub : (d.wholes.map Prod.fst).Sublist [.year, .month, .week, .day, .hour, .minute] := by
    simp only [wholes, List.map_append]
    exact d.dates_sublist.append (one_subset.append one_subset)
  have hunit : x.1 ≠ .second := by
    have hmem := hsub.subset (List.mem_map_of_mem hx)
    revert hmem
    generalize x.1 = u
    cases u <;> decide
  by_contra hne
  exact hunit (htaken.seconds (Option.isSome_iff_ne_none.mpr hne))

/-- The fraction and the return code are those of the seconds. -/
theorem collected_fraction (p : Int16) {d : Duration} (h : d.Readable) :
    (d.collected p).fraction = d.fraction p ∧
      (d.collected p).intval.fraction = d.fraction p ∧
      (d.collected p).last = some (d.ret p, d.hasFraction) := by
  obtain ⟨hfr, hiv, hlast⟩ := foldl_whole p
    (fun x hx ↦ h.taken x (by rw [amounts_eq]; exact List.mem_append_left _ hx)) (wholes_frac h)
    .afterP
  rw [collected, amounts_eq, List.foldl_append]
  cases hs : d.second with
  | none =>
    have hne : d.wholes ≠ [] := by
      have hne := d.amounts_ne_nil
      rwa [amounts_eq, hs, one, Option.toList_none, List.map_nil, List.append_nil] at hne
    simp only [one, Option.toList_none, List.map_nil, List.foldl_nil, hfr, hiv, hlast, if_neg hne,
      fraction, ret, hasFraction, hs]
    exact ⟨rfl, rfl, rfl⟩
  | some a =>
    simp only [one, Option.toList_some, List.map_cons, List.map_nil, List.foldl_cons,
      List.foldl_nil, putAmount, DurationUnit.field, Option.elim_some, fraction, ret, hasFraction,
      hs]
    refine ⟨?_, ?_, rfl⟩
    · simp only [IvlScan.put, hfr]
      rfl
    · simp only [IvlScan.put, hfr, IntVal.set]
      cases hf : a.frac with
      | none =>
        simp only [Amount.fraction, hf, Option.isSome_none, Bool.false_eq_true, if_false]
        exact hiv
      | some f => simp [Amount.fraction, hf]
end Duration

end EsOdbc

import EsOdbc.Desc.BindParameter

/-!
# When a binding is atomic

What `EsSQLBindCol` and `EsSQLBindParameter` leave of the descriptors, granted or refused.  Both
set a count back after a failure, each its own way: the one unless the count was zero, the other
only if it was.  A record that was there already is never restored.
`bind_atomic_iff` says when a call nevertheless changes nothing, or only what it has to.
-/

namespace EsOdbc

variable {σ : Type}

/-! ## The highest bound record -/

/-- The number of the last record that is bound. -/
def boundCount (recs : List Rec) : ℕ := (recs.rdropWhile fun r ↦ !r.isBound).length

theorem Desc.countBound_eq (d : Desc) : d.countBound = boundCount d.recs := by
  rw [countBound, boundCount, List.rdropWhile, List.length_reverse]

theorem boundCount_le (recs : List Rec) : boundCount recs ≤ recs.length :=
  (List.rdropWhile_prefix _ _).length_le

theorem boundCount_append_unbound (recs : List Rec) {r : Rec} (h : r.isBound = false) :
    boundCount (recs ++ [r]) = boundCount recs := by
  rw [boundCount, List.rdropWhile_concat_pos _ _ _ (by rw [h]; rfl), boundCount]

theorem boundCount_append_bound (recs : List Rec) {r : Rec} (h : r.isBound = true) :
    boundCount (recs ++ [r]) = recs.length + 1 := by
  rw [boundCount, List.rdropWhile_concat_neg _ _ _ (by rw [h]; decide), List.length_append,
    List.length_singleton]

theorem boundCount_append_replicate (recs : List Rec) (n : ℕ) (type : DescType) :
    boundCount (recs ++ List.replicate n (.init type)) = boundCount recs := by
  induction n with
  | zero => rw [List.replicate_zero, List.append_nil]
  | succ n ih =>
    rw [List.replicate_succ', ← List.append_assoc, boundCount_append_unbound _ rfl, ih]

/-- The count with the last record apart. -/
theorem boundCount_take {recs : List Rec} {n : ℕ} (hn : recs.length = n + 1) :
    boundCount recs = if boundCount recs = n + 1 then n + 1 else boundCount (recs.take n) := by
  obtain ⟨r, hr⟩ : ∃ r, recs = recs.take n ++ [r] := by
    refine ⟨recs.get ⟨n, by omega⟩, ?_⟩
    rw [List.get_eq_getElem, List.take_append_getElem, List.take_of_length_le (by omega)]
  have hlen : (recs.take n).length = n := by rw [List.length_take]; omega
  cases hb : r.isBound with
  | true =>
    have h := boundCount_append_bound (recs.take n) hb
    rw [← hr, hlen] at h
    rw [if_pos h, h]
  | false =>
    have h := boundCount_append_unbound (recs.take n) hb
    rw [← hr] at h
    rw [h, if_neg]
    have := boundCount_le (recs.take n)
    omega

/-! ## What a call may change -/

/-- Of the records that were there only the one of a number has changed, and of the new ones the
others are as initialised. -/
structure Desc.Framed (d d' : Desc) (n : ℕ) : Prop where
  old : ∀ i, i < d.recs.length → i + 1 ≠ n → d'.recs[i]? = d.recs[i]?
  new : ∀ i r, d.recs.length ≤ i → i + 1 ≠ n → d'.recs[i]? = some r → r = .init d.type

theorem Desc.framed_setRec (d : Desc) {n : ℕ} (hn : 0 < n) (r : Rec) :
    d.Framed ((d.grown n).setRec n r) n := by
  constructor
  · intro i hi hne
    rw [setRec, List.getElem?_set_ne (by omega), grown, List.getElem?_append_left hi]
  · intro i r' hi hne hr'
    rw [setRec, List.getElem?_set_ne (by omega), grown, List.getElem?_append_right hi] at hr'
    exact List.eq_of_mem_replicate (List.mem_of_getElem? hr')

/-- The call unbinds the highest bound column. -/
def BindArgs.UnbindsLast (a : BindArgs) (d : Desc) : Prop := a.Unbinds ∧ a.col = d.countBound

instance (a : BindArgs) (d : Desc) : Decidable (a.UnbindsLast d) := by
  unfold BindArgs.UnbindsLast
  infer_instance

/-- What a granted binding of a column may change: the record of the column, or, unbinding the
highest bound one, the records past the next bound one. -/
def Desc.BoundCol (d d' : Desc) (a : BindArgs) : Prop :=
  if a.UnbindsLast d then d'.recs = d.recs.take (boundCount (d.recs.take (a.col - 1)))
  else d.Framed d' a.col

/-- A granted call that unbinds a column addresses a record in front of the last one and of the
highest bound one; or no unbound record lies past the highest bound one and in front of it. -/
def BindArgs.Recedes (a : BindArgs) (d : Desc) : Prop :=
  (a.col < d.recs.length ∧ a.col ≠ d.countBound) ∨
    (d.recs.length ≤ a.col ∧ min d.recs.length (a.col - 1) ≤ d.countBound)

instance (a : BindArgs) (d : Desc) : Decidable (a.Recedes d) := by
  unfold BindArgs.Recedes
  infer_instance

/-! ## Granted calls -/

/-- The records in front of the column's. -/
theorem take_written (d : Desc) (a : BindArgs) {n : ℕ} (h : n < a.col) :
    (d.written a).recs.take n = (d.grown a.col).recs.take n := by
  rw [Desc.written, Desc.setRec, List.take_set_of_le (by omega)]

/-- A column that is unbound at the end of the descriptor. -/
theorem boundCount_written {d : Desc} {a : BindArgs} (hcol : 0 < a.col) (hu : a.Unbinds)
    (hlast : d.recs.length ≤ a.col) :
    boundCount (d.written a).recs = boundCount (d.recs.take (a.col - 1)) := by
  have hlen : (d.written a).recs.length = a.col - 1 + 1 := by
    rw [Desc.length_written]
    omega
  have hget : (d.written a).recs[a.col - 1]? = some (a.bound (d.recOf a.col)) :=
    Desc.getElem?_setRec (Desc.getElem?_grown hcol) _
  have hsplit : (d.written a).recs =
      (d.written a).recs.take (a.col - 1) ++ [a.bound (d.recOf a.col)] := by
    obtain ⟨hlt, hget⟩ := List.getElem?_eq_some_iff.mp hget
    rw [← hget, List.take_append_getElem, List.take_of_length_le (by omega)]
  have hfree : (a.bound (d.recOf a.col)).isBound = false := by
    rw [a.isBound_bound, decide_eq_true hu]
    rfl
  rw [hsplit, boundCount_append_unbound _ hfree, take_written d a (by omega), Desc.grown,
    List.take_append, List.take_replicate, boundCount_append_replicate]

/-- The records that such a column leaves. -/
theorem recs_bindTo {d : Desc} {a : BindArgs} (hcol : 0 < a.col) (hu : a.Unbinds)
    (hlast : d.recs.length ≤ a.col) :
    (d.bindTo a).recs = d.recs.take (boundCount (d.recs.take (a.col - 1))) := by
  have hlen : a.col = (d.written a).recs.length := by
    rw [Desc.length_written]
    omega
  have hle := boundCount_le (d.recs.take (a.col - 1))
  rw [List.length_take] at hle
  rw [Desc.bindTo, if_pos ⟨hu, hlen⟩, Desc.trimmed, Desc.countBound_eq,
    boundCount_written hcol hu hlast, take_written d a (by omega), Desc.grown,
    List.take_append_of_le_length (by omega)]

theorem Desc.framed_take {d d' : Desc} {n k : ℕ} (hn : d.recs.length ≤ n) (hk : k ≤ n - 1)
    (h : d'.recs = d.recs.take k) : d.Framed d' n ↔ min d.recs.length (n - 1) ≤ k := by
  constructor
  · intro hf
    by_contra hlt
    have hold := hf.old k (by omega) (by omega)
    rw [h, List.getElem?_eq_none (by rw [List.length_take]; omega),
      List.getElem?_eq_getElem (by omega)] at hold
    cases hold
  · intro hle
    constructor
    · intro i hi hne
      rw [h, List.getElem?_take_of_lt (by omega)]
    · intro i r hi _ hr
      rw [h, List.getElem?_eq_none (by rw [List.length_take]; omega)] at hr
      cases hr

/-- A granted binding changes what it may if and only if it binds, or recedes. -/
theorem boundCol_iff {d : Desc} {a : BindArgs} (hcol : 0 < a.col) :
    d.BoundCol (d.bindTo a) a ↔ (a.Unbinds → a.Recedes d) := by
  have hbound := d.countBound_le
  by_cases hu : a.Unbinds
  swap
  · rw [Desc.BoundCol, if_neg fun h ↦ hu h.1, Desc.bindTo, if_neg fun h ↦ hu h.1]
    exact ⟨fun _ h ↦ absurd h hu, fun _ ↦ d.framed_setRec hcol _⟩
  rw [forall_prop_of_true hu, Desc.BoundCol]
  by_cases hlast : d.recs.length ≤ a.col
  · have hrecs := recs_bindTo hcol hu hlast
    have hle := boundCount_le (d.recs.take (a.col - 1))
    rw [List.length_take] at hle
    rw [BindArgs.Recedes]
    split_ifs with hh
    · exact ⟨fun _ ↦ .inr ⟨hlast, by rw [← hh.2]; omega⟩, fun _ ↦ hrecs⟩
    · have hne : a.col ≠ d.countBound := fun hc ↦ hh ⟨hu, hc⟩
      -- the record at the end was not the highest bound one
      have hcount : boundCount (d.recs.take (a.col - 1)) = d.countBound := by
        rw [Desc.countBound_eq] at hne hbound ⊢
        rcases Nat.lt_or_ge d.recs.length a.col with hlt | hge
        · rw [List.take_of_length_le (by omega)]
        · have hlen : d.recs.length = a.col - 1 + 1 := by omega
          rw [boundCount_take hlen, if_neg (by omega)]
      rw [Desc.framed_take hlast (by omega) hrecs, hcount]
      constructor
      · exact fun h ↦ .inr ⟨hlast, h⟩
      · rintro (h | h)
        · exact absurd h.1 (by omega)
        · exact h.2
  · have hkeep : d.bindTo a = d.written a := by
      rw [Desc.bindTo, if_neg]
      rintro ⟨-, h⟩
      rw [Desc.length_written] at h
      omega
    rw [hkeep, BindArgs.Recedes]
    split_ifs with hh
    · refine ⟨fun hr ↦ ?_, ?_⟩
      · have hlen := congrArg List.length hr
        have hle := boundCount_le (d.recs.take (a.col - 1))
        rw [Desc.length_written, List.length_take] at hlen
        rw [List.length_take] at hle
        omega
      · rintro (h | h)
        · exact absurd hh.2 h.2
        · exact absurd h.1 hlast
    · exact ⟨fun _ ↦ .inl ⟨by omega, fun hc ↦ hh ⟨hu, hc⟩⟩, fun _ ↦ d.framed_setRec hcol _⟩

/-! ## Refused calls -/

/-- A record is written over what it was. -/
theorem recs_setRec_iff {d : Desc} {n : ℕ} (hn : 0 < n) (r : Rec) :
    ((d.grown n).setRec n r).recs = d.recs ↔ d.recs[n - 1]? = some r := by
  constructor
  · intro h
    rw [← h]
    exact Desc.getElem?_setRec (Desc.getElem?_grown hn) r
  · intro h
    have hle := (List.getElem?_eq_some_iff.mp h).1
    rw [Desc.grown_of_le (by omega), Desc.setRec_self h]

/-- Setting the count back after a refused parameter: only a count of zero comes back. -/
theorem resetCount_eq (dbc : DbcTypes) {d d' : Desc} {n : ℕ} (hacc : checkAccess d'.type .count = true)
    (hmax : n ≤ 32767) (hlen : d'.recs.length = max d.recs.length n) :
    ∃ d'', d'.resetCount dbc d.recs.length = .done d'' ∧ d''.type = d'.type ∧
      d''.recs = if d.recs = [] then [] else d'.recs := by
  rw [Desc.resetCount]
  by_cases hlt : d.recs.length < n
  swap
  · rw [if_neg (by omega)]
    refine ⟨d', rfl, rfl, ?_⟩
    split_ifs with hd
    · rw [hd] at hlt hlen
      exact List.eq_nil_of_length_eq_zero (by rw [hlen, List.length_nil] at *; omega)
    · rfl
  rw [if_pos (by omega), esSQLSetDescFieldW_count dbc hacc, Exec.bind_done]
  have hvalue : SqlPointer.toSmallint (.ofInt 64 (-d.recs.length)) = -d.recs.length := by
    rw [SqlPointer.toSmallint, BitVec.toInt_setWidth, BitVec.toNat_ofInt, Int.bmod_def]
    omega
  rw [hvalue, Desc.updateRecCount]
  by_cases hd : d.recs = []
  · rw [hd, List.length_nil] at *
    rw [if_neg (by omega), if_neg (by omega), if_neg (by rw [esodbcMaxDescCount]; omega), if_pos rfl]
    exact ⟨_, rfl, rfl, by simp⟩
  · have hpos := List.length_pos_of_ne_nil hd
    rw [if_pos (by omega), if_neg hd]
    exact ⟨_, rfl, rfl, rfl⟩

namespace ParamArgs

/-- The types can be converted into each other. -/
def Convertible (p : ParamArgs) : Prop :=
  typesCompatible p.parameterType.toInt p.valueType.toInt = some true ∧
    convImplemented p.parameterType.toInt p.valueType.toInt = true

instance (p : ParamArgs) : Decidable p.Convertible := by
  unfold Convertible
  infer_instance

/-- The type that the record of the IPD is matched with. -/
def matched (p : ParamArgs) (t : DbcTypeTable) (ipd : Desc) : Option EsType :=
  matchEsType t (p.param (ipd.recOf p.num))

/-- None of the checks of the call refuses it. -/
structure Accepted (p : ParamArgs) (t : DbcTypeTable) (apd ipd : Desc) : Prop where
  addressed : p.Addressed
  apd : p.ApdAccepted t.toDbcTypes apd
  typable : p.SqlTypable
  digits : p.DigitsFit
  convertible : p.Convertible
  matched : (p.matched t ipd).isSome = true

/-- What the call leaves in the record of the IPD, as far as it gets. -/
def ipdLeft (p : ParamArgs) (t : DbcTypeTable) (ipd : Desc) : Rec :=
  let r := ipd.recOf p.num
  if p.SqlTypable then
    if p.DigitsFit then
      if p.Convertible then { p.param r with esType := p.matched t ipd } else p.param r
    else p.withTypes r
  else p.sqlTyped r

theorem conciseType_param (p : ParamArgs) (r : Rec) :
    (p.param r).conciseType = p.parameterType.toInt := by
  rw [param, withSize]
  have h : (p.withDigits (p.withTypes r)).conciseType = p.parameterType.toInt := by
    rw [withDigits_frame]
    exact p.conciseType_withTypes r
  split <;> exact h

end ParamArgs

/-- Arguments that are refused are refused with an error. -/
theorem ParamArgs.checked_error {p : ParamArgs} {state : SqlState} {text : Option String}
    (h : p.checked = some (state, text)) : state.retcode = .error := by
  rw [checked] at h
  split_ifs at h <;> cases h <;> rfl

/-- A number that is none of a record is refused before a record is written. -/
theorem bindApd_beyond (dbc : DbcTypes) {apd : Desc} {p : ParamArgs} (htype : apd.type = .apd)
    (hnum : 32767 < p.num) :
    ∃ diag, bindApd dbc apd p = .done (.error, { apd with diag }) ∧ diag.state.retcode = .error := by
  have hmax : p.num < 65536 := p.parameterNumber.toNat_lt
  have hacc : checkAccess apd.type .count = true := by rw [htype]; rfl
  rw [bindApd, Desc.raiseCount]
  by_cases hlt : apd.recs.length < p.parameterNumber.toNat
  · have hvalue : SqlPointer.toSmallint (.ofNat 64 p.parameterNumber.toNat) < 0 :=
      toSmallint_ofNat_neg hnum hmax
    rw [if_pos hlt, esSQLSetDescFieldW_count dbc hacc, Exec.bind_done, Desc.updateRecCount,
      if_pos hvalue]
    exact ⟨apd.diag.post .s07009 none, rfl, rfl⟩
  · have hneg : UInt16.toRecNumber p.parameterNumber < 0 := UInt16.toRecNumber_neg hnum
    rw [if_neg hlt, Exec.bind_done]
    dsimp only
    rw [if_neg (by decide), ParamArgs.apdFields, putFields,
      esSQLSetDescFieldW_negative dbc hneg (by rw [htype]; rfl)]
    exact ⟨apd.diag.post .s07009 "Negative record number provided with record field", rfl, rfl⟩

namespace Bindings

/-- What a failed call leaves: the counts that were zero are zero again. -/
theorem paramErr_eq (dbc : DbcTypes) (prev b : Bindings σ) {n m : ℕ} (hn : n ≤ 32767) (hm : m ≤ 32767)
    (hapd : b.apd.type = .apd) (hipd : b.ipd.type = .ipd)
    (han : b.apd.recs.length = max prev.apd.recs.length n)
    (him : b.ipd.recs.length = max prev.ipd.recs.length m) :
    ∃ b', paramErr dbc prev b = .done (b.stmt.diag.state.retcode, b') ∧ b'.ard = b.ard ∧
      b'.apd.recs = (if prev.apd.recs = [] then [] else b.apd.recs) ∧
      b'.ipd.recs = if prev.ipd.recs = [] then [] else b.ipd.recs := by
  obtain ⟨apd, hadone, -, harecs⟩ := resetCount_eq dbc (by rw [hapd]; rfl) hn han
  obtain ⟨ipd, hidone, -, hirecs⟩ := resetCount_eq dbc (by rw [hipd]; rfl) hm him
  rw [paramErr, hadone, Exec.bind_done, hidone]
  exact ⟨_, rfl, rfl, harecs, hirecs⟩

end Bindings

/-- The check of the types of a parameter whose records are written. -/
theorem checkParameter_convertible {apd ipd : Desc} {p : ParamArgs} {arec irec : Rec}
    (ha : apd.recs[p.num - 1]? = some arec) (hi : ipd.recs[p.num - 1]? = some irec)
    (hac : arec.conciseType = p.valueType.toInt) (hic : irec.conciseType = p.parameterType.toInt)
    (h : p.Convertible) : checkParameter apd ipd p.num = .done none := by
  rw [checkParameter, ha, hi]
  simp only [hac, hic, h.1, h.2, if_true]

theorem checkParameter_inconvertible {apd ipd : Desc} {p : ParamArgs} {arec irec : Rec}
    {state : Option SqlState} (ha : apd.recs[p.num - 1]? = some arec)
    (hi : ipd.recs[p.num - 1]? = some irec) (hac : arec.conciseType = p.valueType.toInt)
    (hic : irec.conciseType = p.parameterType.toInt) (h : ¬p.Convertible)
    (hcheck : checkParameter apd ipd p.num = .done state) :
    ∃ st, state = some st ∧ st.retcode = .error := by
  rw [checkParameter, ha, hi] at hcheck
  simp only [hac, hic] at hcheck
  cases hc : typesCompatible p.parameterType.toInt p.valueType.toInt with
  | none =>
    rw [hc] at hcheck
    cases hcheck
  | some ok =>
    rw [hc] at hcheck
    cases ok with
    | false =>
      cases hcheck
      exact ⟨_, rfl, rfl⟩
    | true =>
      dsimp only at hcheck
      rw [if_neg fun hi ↦ h ⟨hc, hi⟩] at hcheck
      cases hcheck
      exact ⟨_, rfl, rfl⟩

theorem conciseType_bindArgs (p : ParamArgs) (r : Rec) :
    (p.bindArgs.bound r).conciseType = p.valueType.toInt := by
  change (p.bindArgs.typed r).conciseType = _
  rw [BindArgs.typed, Rec.setConcise_frame]
  rfl

namespace Bindings

/-- The types of the descriptors of a statement. -/
structure Typed (b : Bindings σ) : Prop where
  ard : b.ard.type = .ard
  apd : b.apd.type = .apd
  ipd : b.ipd.type = .ipd

variable {t : DbcTypeTable} {b b' : Bindings σ} {p : ParamArgs} {r : SqlReturn}

/-- A parameter that nothing refuses. -/
theorem esSQLBindParameter_accepted (hb : b.Typed) (h : p.Accepted t b.apd b.ipd) :
    esSQLBindParameter t b p = .done (.success, { b with
      apd := b.apd.written p.bindArgs
      ipd := (b.ipd.grown p.num).setRec p.num (p.ipdLeft t b.ipd) }) := by
  have hn := h.addressed.num_pos
  have hi := Desc.getElem?_setRec (Desc.getElem?_grown (d := b.ipd) hn) (p.param (b.ipd.recOf p.num))
  have ha : (b.apd.written p.bindArgs).recs[p.num - 1]? = some (p.bindArgs.bound (b.apd.recOf p.num)) :=
    Desc.getElem?_setRec (Desc.getElem?_grown hn) _
  have hcheck := checkParameter_convertible ha hi (conciseType_bindArgs p _) (p.conciseType_param _)
    h.convertible
  have hleft : p.ipdLeft t b.ipd =
      { p.param (b.ipd.recOf p.num) with esType := p.matched t b.ipd } := by
    rw [ParamArgs.ipdLeft, if_pos h.typable, if_pos h.digits, if_pos h.convertible]
  rw [esSQLBindParameter, h.addressed.checked]
  dsimp only
  rw [bindApd_accepted hb.apd h.addressed h.apd, Exec.bind_done]
  dsimp only
  rw [if_neg (by decide), bindIpd_eq t.toDbcTypes hb.ipd h.addressed, if_pos h.typable,
    if_pos h.digits, Exec.bind_done]
  dsimp only
  rw [if_neg (by decide)]
  change (checkParameter (b.apd.written p.bindArgs) _ p.num).bind _ = _
  rw [hcheck, Exec.bind_done]
  rw [show ((b.ipd.grown p.num).setRec p.num (p.param (b.ipd.recOf p.num))).recs[
    p.parameterNumber.toNat - 1]? = some (p.param (b.ipd.recOf p.num)) from hi]
  dsimp only
  rw [if_pos (by exact h.matched), hleft]
  exact congrArg (fun ipd ↦ Exec.done (SqlReturn.success,
    ({ b with apd := b.apd.written p.bindArgs, ipd } : Bindings σ))) (Desc.setRec_setRec _ p.num _ _)

theorem length_setRec_grown (d : Desc) (n : ℕ) (r : Rec) :
    ((d.grown n).setRec n r).recs.length = max d.recs.length n := by
  rw [Desc.setRec, List.length_set, Desc.length_grown]

/-- What a refused call leaves of the records of a descriptor it has written to. -/
def leaves (d : Desc) (n : ℕ) (r : Rec) : List Rec :=
  if d.recs = [] then [] else ((d.grown n).setRec n r).recs

/-- A parameter whose arguments are refused. -/
theorem esSQLBindParameter_unaddressed (hb : b.Typed) (h : ¬p.Addressed) :
    ∃ b', esSQLBindParameter t b p = .done (.error, b') ∧ b'.ard = b.ard ∧
      b'.apd.recs = b.apd.recs ∧ b'.ipd.recs = b.ipd.recs := by
  rw [esSQLBindParameter]
  cases hc : p.checked with
  | some e =>
    obtain ⟨state, text⟩ := e
    have herr : (b.stmt.retHdiag state text).1 = .error := ParamArgs.checked_error hc
    dsimp only
    rw [herr]
    exact ⟨_, rfl, rfl, rfl, rfl⟩
  | none =>
    have hnum : 32767 < p.num := Nat.lt_of_not_le fun hle ↦ h ⟨hc, hle⟩
    obtain ⟨diag, hapd, hdiag⟩ := bindApd_beyond t.toDbcTypes hb.apd hnum
    dsimp only
    rw [hapd, Exec.bind_done]
    dsimp only
    rw [if_pos (by decide)]
    obtain ⟨b', hdone, hard, harecs, hirecs⟩ := paramErr_eq t.toDbcTypes b
      (hdiagCopy { b with apd := { b.apd with diag } } { b.apd with diag }) (Nat.zero_le _)
      (Nat.zero_le _) hb.apd hb.ipd (Nat.max_zero _).symm (Nat.max_zero _).symm
    refine ⟨b', hdone.trans ?_, hard, harecs.trans ?_, hirecs.trans ?_⟩
    · exact congrArg (fun r ↦ Exec.done (r, b')) hdiag
    · split_ifs with hnil
      · exact hnil.symm
      · rfl
    · split_ifs with hnil
      · exact hnil.symm
      · rfl

/-- The end of a call that has written to both descriptors. -/
theorem paramErr_written {c : Bindings σ} {arec irec : Rec}
    (hcall : paramErr t.toDbcTypes b c = .done (r, b')) (ha : p.Addressed) (hard : c.ard = b.ard)
    (herr : c.stmt.diag.state.retcode = .error) (hat : c.apd.type = .apd) (hit : c.ipd.type = .ipd)
    (har : c.apd.recs = ((b.apd.grown p.num).setRec p.num arec).recs)
    (hir : c.ipd.recs = ((b.ipd.grown p.num).setRec p.num irec).recs) :
    r = .error ∧ b'.ard = b.ard ∧ b'.apd.recs = leaves b.apd p.num arec ∧
      b'.ipd.recs = leaves b.ipd p.num irec := by
  obtain ⟨b'', hdone, hard', harecs, hirecs⟩ := paramErr_eq t.toDbcTypes b c ha.room ha.room hat hit
    (by rw [har, length_setRec_grown]) (by rw [hir, length_setRec_grown])
  rw [hdone] at hcall
  cases hcall
  exact ⟨herr, hard'.trans hard, harecs.trans (by rw [leaves, har]), hirecs.trans (by rw [leaves, hir])⟩

/-- A parameter that is refused on the way. -/
theorem esSQLBindParameter_refused (hb : b.Typed) (ha : p.Addressed)
    (h : ¬p.Accepted t b.apd b.ipd) (hcall : esSQLBindParameter t b p = .done (r, b')) :
    r = .error ∧ b'.ard = b.ard ∧
      b'.apd.recs = leaves b.apd p.num (p.bindArgs.refusedRec b.apd) ∧
      (p.ApdAccepted t.toDbcTypes b.apd → b'.ipd.recs = leaves b.ipd p.num (p.ipdLeft t b.ipd)) ∧
      (¬p.ApdAccepted t.toDbcTypes b.apd → b'.ipd.recs = b.ipd.recs) := by
  have hn := ha.num_pos
  rw [esSQLBindParameter, ha.checked] at hcall
  dsimp only at hcall
  by_cases hapd : p.ApdAccepted t.toDbcTypes b.apd
  swap
  · obtain ⟨⟨ret, apd⟩, hbind, hcall⟩ := Exec.bind_eq_done.mp hcall
    obtain ⟨rfl, herr, hleft⟩ := bindApd_refused hb.apd ha hapd hbind
    dsimp only at hcall
    rw [if_pos (by decide)] at hcall
    have hlen : apd.recs.length = max b.apd.recs.length p.num := by
      rw [hleft]
      exact length_setRec_grown _ _ _
    obtain ⟨b'', hdone, hard, harecs, hirecs⟩ := paramErr_eq t.toDbcTypes b
      (hdiagCopy { b with apd } apd) ha.room (Nat.zero_le _) (by rw [hleft]; exact hb.apd) hb.ipd hlen
      (Nat.max_zero _).symm
    rw [hdone] at hcall
    cases hcall
    refine ⟨herr, hard, harecs.trans ?_, fun hc ↦ absurd hc hapd, fun _ ↦ hirecs.trans ?_⟩
    · rw [leaves, hleft]
      rfl
    · split_ifs with hnil
      · exact hnil.symm
      · rfl
  have harec : p.bindArgs.refusedRec b.apd = p.bindArgs.bound (b.apd.recOf p.num) := if_pos hapd.typable
  have hatyp : (b.apd.written p.bindArgs).type = .apd := hb.apd
  suffices hboth : r = .error ∧ b'.ard = b.ard ∧
      b'.apd.recs = leaves b.apd p.num (p.bindArgs.bound (b.apd.recOf p.num)) ∧
      b'.ipd.recs = leaves b.ipd p.num (p.ipdLeft t b.ipd) by
    obtain ⟨hr, hard, harecs, hirecs⟩ := hboth
    exact ⟨hr, hard, by rw [harec]; exact harecs, fun _ ↦ hirecs, fun hc ↦ absurd hapd hc⟩
  rw [bindApd_accepted hb.apd ha hapd, Exec.bind_done] at hcall
  dsimp only at hcall
  rw [if_neg (by decide), bindIpd_eq t.toDbcTypes hb.ipd ha] at hcall
  rw [ParamArgs.ipdLeft]
  dsimp only
  by_cases ht : p.SqlTypable
  swap
  · rw [if_neg ht, Exec.bind_done] at hcall
    rw [if_pos (by rfl)] at hcall
    rw [if_neg ht]
    exact paramErr_written hcall ha rfl rfl hatyp hb.ipd rfl rfl
  by_cases hd : p.DigitsFit
  swap
  · rw [if_pos ht, if_neg hd, Exec.bind_done] at hcall
    rw [if_pos (by rfl)] at hcall
    rw [if_pos ht, if_neg hd]
    exact paramErr_written hcall ha rfl rfl hatyp hb.ipd rfl rfl
  rw [if_pos ht, if_pos hd, Exec.bind_done] at hcall
  rw [if_pos ht, if_pos hd]
  dsimp only at hcall
  rw [if_neg (by decide)] at hcall
  have hi := Desc.getElem?_setRec (Desc.getElem?_grown (d := b.ipd) hn) (p.param (b.ipd.recOf p.num))
  have hwritten : (b.apd.written p.bindArgs).recs[p.num - 1]? =
      some (p.bindArgs.bound (b.apd.recOf p.num)) := Desc.getElem?_setRec (Desc.getElem?_grown hn) _
  obtain ⟨state, hcheck, hcall⟩ := Exec.bind_eq_done.mp hcall
  by_cases hc : p.Convertible
  swap
  · obtain ⟨st, rfl, herr⟩ := checkParameter_inconvertible hwritten hi (conciseType_bindArgs p _)
      (p.conciseType_param _) hc hcheck
    rw [if_neg hc]
    exact paramErr_written hcall ha rfl herr hatyp hb.ipd rfl rfl
  have hnone := checkParameter_convertible hwritten hi (conciseType_bindArgs p _)
    (p.conciseType_param _) hc
  cases hcheck.symm.trans hnone
  have hmatched : ¬(p.matched t b.ipd).isSome = true := fun hm ↦ h ⟨ha, hapd, ht, hd, hc, hm⟩
  rw [show ((b.ipd.grown p.num).setRec p.num (p.param (b.ipd.recOf p.num))).recs[
    p.parameterNumber.toNat - 1]? = some (p.param (b.ipd.recOf p.num)) from hi] at hcall
  dsimp only at hcall
  rw [if_neg (by exact hmatched)] at hcall
  rw [if_pos hc]
  refine paramErr_written hcall ha rfl rfl hatyp hb.ipd rfl ?_
  change (((b.ipd.grown p.num).setRec p.num _).setRec p.num _).recs = _
  rw [Desc.setRec_setRec]
  rfl

/-! ## Atomicity -/

/-- A call that binds something. -/
inductive Call where
  | column (a : BindArgs)
  | parameter (p : ParamArgs)
deriving DecidableEq, Repr

/-- What a call does. -/
def call (t : DbcTypeTable) (b : Bindings σ) : Call → Exec (SqlReturn × Bindings σ)
  | .column a => b.bindCol t a
  | .parameter p => b.esSQLBindParameter t p

/-- The descriptors have the records that they had. -/
structure Same (b b' : Bindings σ) : Prop where
  ard : b'.ard.recs = b.ard.recs
  apd : b'.apd.recs = b.apd.recs
  ipd : b'.ipd.recs = b.ipd.recs

/-- A granted call has changed what it may. -/
def Changed (b b' : Bindings σ) : Call → Prop
  | .column a => b.ard.BoundCol b'.ard a ∧ b'.apd.recs = b.apd.recs ∧ b'.ipd.recs = b.ipd.recs
  | .parameter p =>
    b'.ard.recs = b.ard.recs ∧ b.apd.Framed b'.apd p.num ∧ b.ipd.Framed b'.ipd p.num

/-- A call that returns `r` is atomic. -/
def Atomic (b : Bindings σ) (c : Call) (r : SqlReturn) (b' : Bindings σ) : Prop :=
  if r.succeeded then b.Changed b' c else b.Same b'

/-- A descriptor that a refused parameter leaves as it was: it had no records, or the record
already was what the call writes before it is refused. -/
def Unscathed (d : Desc) (n : ℕ) (r : Rec) : Prop := d.recs = [] ∨ d.recs[n - 1]? = some r

/-- The condition for a call to be atomic. -/
def Clean (t : DbcTypeTable) (b : Bindings σ) : Call → Prop
  | .column a =>
    (a.Accepted t.toDbcTypes b.ard → a.Unbinds → a.Recedes b.ard) ∧
    (¬a.Accepted t.toDbcTypes b.ard → a.Addressed →
      (b.ard.recs.length < a.col ∧ 0 < b.ard.recs.length) ∨
        b.ard.recs[a.col - 1]? = some (a.refusedRec b.ard))
  | .parameter p => p.Addressed → ¬p.Accepted t b.apd b.ipd →
    Unscathed b.apd p.num (p.bindArgs.refusedRec b.apd) ∧
      (p.ApdAccepted t.toDbcTypes b.apd → Unscathed b.ipd p.num (p.ipdLeft t b.ipd))

theorem leaves_eq_iff {d : Desc} {n : ℕ} (hn : 0 < n) (r : Rec) :
    leaves d n r = d.recs ↔ Unscathed d n r := by
  rw [leaves, Unscathed]
  split_ifs with hnil
  · exact ⟨fun _ ↦ .inl hnil, fun _ ↦ hnil.symm⟩
  · rw [recs_setRec_iff hn]
    exact ⟨.inr, fun h ↦ h.resolve_left hnil⟩

/-- A binding of a column. -/
theorem bindCol_atomic_iff {a : BindArgs} (hb : b.Typed) (h : b.bindCol t a = .done (r, b')) :
    b.Atomic (.column a) r b' ↔ b.Clean t (.column a) := by
  obtain ⟨⟨r, s, d⟩, hcall, hdone⟩ := Exec.bind_eq_done.mp h
  cases hdone
  by_cases hacc : a.Accepted t.toDbcTypes b.ard
  · rw [esSQLBindCol_accepted b.stmt hb.ard hacc] at hcall
    cases hcall
    have hiff := boundCol_iff (d := b.ard) hacc.column
    constructor
    · exact fun hat ↦ ⟨fun _ ↦ hiff.mp hat.1, fun hno ↦ absurd hacc hno⟩
    · exact fun hclean ↦ ⟨hiff.mpr (hclean.1 hacc), rfl, rfl⟩
  · obtain ⟨rfl, -, hrecs⟩ := esSQLBindCol_refused hb.ard hacc hcall
    have hsame : b.Atomic (.column a) .error { b with stmt := s, ard := d } ↔ d.recs = b.ard.recs :=
      ⟨fun hat ↦ hat.ard, fun heq ↦ ⟨heq, rfl, rfl⟩⟩
    rw [hsame, hrecs]
    by_cases haddr : a.Addressed
    swap
    · rw [if_neg fun hc ↦ haddr hc.1]
      exact ⟨fun _ ↦ ⟨fun hy ↦ absurd hy hacc, fun _ ha ↦ absurd ha haddr⟩, fun _ ↦ rfl⟩
    by_cases hraised : b.ard.recs.length < a.col ∧ 0 < b.ard.recs.length
    · rw [if_neg fun hc ↦ hc.2 hraised]
      exact ⟨fun _ ↦ ⟨fun hy ↦ absurd hy hacc, fun _ _ ↦ .inl hraised⟩, fun _ ↦ rfl⟩
    · rw [if_pos ⟨haddr, hraised⟩]
      have hiff := recs_setRec_iff (d := b.ard) haddr.2.1 (a.refusedRec b.ard)
      constructor
      · exact fun heq ↦ ⟨fun hy ↦ absurd hy hacc, fun _ _ ↦ .inr (hiff.mp heq)⟩
      · exact fun hclean ↦ hiff.mpr ((hclean.2 hacc haddr).resolve_left hraised)

/-- A binding of a parameter. -/
theorem bindParameter_atomic_iff (hb : b.Typed) (h : b.esSQLBindParameter t p = .done (r, b')) :
    b.Atomic (.parameter p) r b' ↔ b.Clean t (.parameter p) := by
  by_cases haddr : p.Addressed
  swap
  · obtain ⟨b'', hdone, hard, hapd, hipd⟩ := esSQLBindParameter_unaddressed (t := t) hb haddr
    rw [hdone] at h
    cases h
    exact ⟨fun _ hc ↦ absurd hc haddr, fun _ ↦ ⟨congrArg Desc.recs hard, hapd, hipd⟩⟩
  by_cases hacc : p.Accepted t b.apd b.ipd
  · rw [esSQLBindParameter_accepted hb hacc] at h
    cases h
    exact ⟨fun _ _ hno ↦ absurd hacc hno, fun _ ↦
      ⟨rfl, b.apd.framed_setRec haddr.num_pos _, b.ipd.framed_setRec haddr.num_pos _⟩⟩
  obtain ⟨rfl, hard, hapd, hipd, hipd'⟩ := esSQLBindParameter_refused hb haddr hacc h
  have hapdIff := leaves_eq_iff (d := b.apd) haddr.num_pos (p.bindArgs.refusedRec b.apd)
  have hipdIff := leaves_eq_iff (d := b.ipd) haddr.num_pos (p.ipdLeft t b.ipd)
  rw [← hapd] at hapdIff
  constructor
  · intro hat _ _
    refine ⟨hapdIff.mp hat.apd, fun ha ↦ ?_⟩
    rw [← hipd ha] at hipdIff
    exact hipdIff.mp hat.ipd
  · intro hclean
    obtain ⟨hleft, hright⟩ := hclean haddr hacc
    refine ⟨congrArg Desc.recs hard, hapdIff.mpr hleft, ?_⟩
    by_cases ha : p.ApdAccepted t.toDbcTypes b.apd
    · rw [hipd ha]
      exact hipdIff.mpr (hright ha)
    · exact hipd' ha

/-- A column of a C type; the addresses are those of the application. -/
def columnOf (targetType : BitVec 16) : BindArgs := ⟨1, targetType, 0x1000, 4, 0⟩

/-- A statement with its first column bound as `SQL_C_LONG`. -/
def oneColumn : Bindings Unit where
  stmt := .init [] () []
  ard := { Desc.init .stmt .ard false with recs := [(columnOf 4).bound (.init .ard)] }
  apd := .init .stmt .apd false
  ipd := .init .stmt .ipd false

/-- A connection without types. -/
def noTypes : DbcTypeTable where
  esTypes := []
  maxFloatType := ⟨[], 0, 0, 0, 0, 0, 0, .unknown, 0⟩
  maxVarcharType := ⟨[], 0, 0, 0, 0, 0, 0, .unknown, 0⟩

end Bindings

end EsOdbc

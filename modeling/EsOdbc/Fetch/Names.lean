import EsOdbc.Columns
import EsOdbc.Describe
import EsOdbc.Fetch.Pages

/-!
# The names of the columns

The records of the IRD keep the names of the first answer, which lie in a block of its
result set.  Taking in another answer, even one that is then refused, gives this block up
(`Traced.lost`); as long as none comes, the names stay where they are (`Traced.kept`).
-/

namespace EsOdbc

variable {σ : Type}

/-- Every name and label lies in storage that the statement owns, and has its text there. -/
def NamesLive (s : Stmt σ) : Prop :=
  ∀ r ∈ s.ird, r.name.read s = some r.name.text ∧ r.label.read s = some r.label.text

instance (s : Stmt σ) : Decidable (NamesLive s) := by
  unfold NamesLive
  infer_instance

/-- The turn takes in an answer of the server. -/
def FetchLoop.Attaches (l : FetchLoop σ) : Prop :=
  l.Requests ∧ l.stmt.cursorSerializable = true ∧ l.stmt.replies.head?.any Reply.isAnswer = true

instance (l : FetchLoop σ) : Decidable l.Attaches := by
  unfold FetchLoop.Attaches
  infer_instance

/-- What fetches do to the records and the blocks of a statement, by the turns they took. -/
structure Traced (s : Stmt σ) (turns : List (FetchLoop σ)) (t : Stmt σ) : Prop where
  executed : t.Executed
  desc : t.ird.map IRec.desc = s.ird.map IRec.desc
  nextBlock : s.nextBlock ≤ t.nextBlock
  kept : (∀ l ∈ turns, ¬l.Attaches) → t.owned = s.owned
  lost : (∃ l ∈ turns, l.Attaches) → ∀ b, t.owned = some b → s.nextBlock ≤ b

theorem Traced.refl {s : Stmt σ} (h : s.Executed) : Traced s [] s :=
  ⟨h, rfl, le_rfl, fun _ ↦ rfl, fun ⟨_, hl, _⟩ ↦ absurd hl List.not_mem_nil⟩

/-- A turn that takes no answer in. -/
theorem Traced.step {s t t' : Stmt σ} {turns : List (FetchLoop σ)} {l : FetchLoop σ}
    (h : Traced s turns t) (hl : ¬l.Attaches) (hex : t'.Executed)
    (hdesc : t'.ird.map IRec.desc = t.ird.map IRec.desc) (hnext : t'.nextBlock = t.nextBlock)
    (howned : t'.owned = t.owned) : Traced s (turns ++ [l]) t' := by
  refine ⟨hex, hdesc.trans h.desc, hnext ▸ h.nextBlock, fun hno ↦ ?_, fun ⟨o, ho, hat⟩ b hb ↦ ?_⟩
  · rw [howned]
    exact h.kept fun o ho ↦ hno o (List.mem_append_left _ ho)
  · rcases List.mem_append.mp ho with ho | ho
    · exact h.lost ⟨o, ho, hat⟩ b (howned ▸ hb)
    · exact absurd (List.mem_singleton.mp ho ▸ hat) hl

/-- A turn that takes an answer in. -/
theorem Traced.attach {s t t' : Stmt σ} {turns : List (FetchLoop σ)} {l : FetchLoop σ}
    (h : Traced s turns t) (hl : l.Attaches) (hex : t'.Executed) (hird : t'.ird = t.ird)
    (hnext : t.nextBlock ≤ t'.nextBlock) (howned : ∀ b, t'.owned = some b → t.nextBlock ≤ b) :
    Traced s (turns ++ [l]) t' :=
  ⟨hex, hird ▸ h.desc, Nat.le_trans h.nextBlock hnext,
    fun hno ↦ absurd hl (hno l (List.mem_append_right _ List.mem_cons_self)),
    fun _ b hb ↦ Nat.le_trans h.nextBlock (howned b hb)⟩

/-- A request for a page, whatever comes of it. -/
theorem Traced.request {s t' : Stmt σ} {turns : List (FetchLoop σ)} {l : FetchLoop σ}
    {r : SqlReturn} (h : Traced s turns l.stmt) (hgd : l.stmt.gdCalling = false)
    (hreq : l.Requests) (hexec : l.stmt.esSQLExecute = .done (r, t')) :
    Traced s (turns ++ [l]) t' := by
  have hearly := h.executed.early
  unfold Stmt.esSQLExecute at hexec
  rw [hearly, Bool.false_and, if_neg Bool.false_ne_true] at hexec
  dsimp only at hexec
  have hser : ({ l.stmt with earlyExecuted := false } : Stmt σ).cursorSerializable =
      l.stmt.cursorSerializable := rfl
  rw [hser] at hexec
  split_ifs at hexec with hc
  · unfold Stmt.curlPost at hexec
    split at hexec
    · rename_i a rest hr
      change l.stmt.replies = .answer a :: rest at hr
      have hs₀ : ({ l.stmt with earlyExecuted := false, replies := rest } : Stmt σ).Ready :=
        ⟨h.executed.resultset, hgd⟩
      have hf := (attachAnswer_frame_of_ready hs₀ a).2 r t' hexec
      have hird := hf.ird h.executed.ird
      refine h.attach ⟨hreq, hc, by rw [hr]; rfl⟩ ⟨hf.body, hf.earlyExecuted, ?_⟩ hird hf.nextBlock
        fun b hb ↦ (hf.owned b hb).1
      rw [hird]
      exact h.executed.ird
    · rename_i rest hr
      change l.stmt.replies = .failed :: rest at hr
      cases hexec
      refine h.step ?_ ⟨h.executed.resultset, rfl, h.executed.ird⟩ rfl rfl rfl
      rintro ⟨-, -, hany⟩
      rw [hr] at hany
      cases hany
    · rename_i hr
      change l.stmt.replies = [] at hr
      cases hexec
      refine h.step ?_ ⟨h.executed.resultset, rfl, h.executed.ird⟩ rfl rfl rfl
      rintro ⟨-, -, hany⟩
      rw [hr] at hany
      cases hany
  · cases hexec
    exact h.step (fun hat ↦ hc hat.2.1) ⟨h.executed.resultset, rfl, h.executed.ird⟩ rfl rfl rfl

theorem not_attaches_of_not_requests {l : FetchLoop σ} (h : ¬l.Requests) : ¬l.Attaches :=
  fun hat ↦ h hat.1

/-- One turn that goes on. -/
theorem next_traced {cv : Converters σ} {s : Stmt σ} {turns : List (FetchLoop σ)}
    {l o l' : FetchLoop σ} (h : Traced s turns l.stmt ∧ l.stmt.gdCalling = false)
    (hnext : Next cv l o l') :
    Traced s (turns ++ [o]) l'.stmt ∧ l'.stmt.gdCalling = false := by
  refine ⟨?_, (hnext.ready ⟨h.1.executed.resultset, h.2⟩).gd⟩
  obtain ⟨rfl, hnext⟩ := hnext
  have ht := fetchTurn_turned cv h.2
  rw [hnext] at ht
  cases ht with
  | @row hi row rows d recs hfmt hrow hdesc =>
    have hno : ¬o.Attaches := not_attaches_of_not_requests fun hreq ↦ by
      rw [hreq.2.1] at hrow
      cases hrow
    refine h.1.step hno ⟨?_, h.1.executed.early, ?_⟩ hdesc rfl (FetchLoop.owned_afterRow _ _ _ _ _)
    · exact (Resultset.body_stepRow _ _ _).trans h.1.executed.resultset
    · rintro hnil
      change recs = [] at hnil
      rw [hnil] at hdesc
      exact h.1.executed.ird (List.map_eq_nil_iff.mp hdesc.symm)
  | page hi hrow hcurs hexec _ _ => exact h.1.request h.2 ⟨hi, hrow, hcurs⟩ hexec

/-- The last turn of a call. -/
theorem ends_traced {cv : Converters σ} {s s' : Stmt σ} {turns : List (FetchLoop σ)}
    {l : FetchLoop σ} {r : SqlReturn} (h : Traced s turns l.stmt)
    (hgd : l.stmt.gdCalling = false) (hend : Ends cv l r s') : Traced s (turns ++ [l]) s' := by
  have ht := fetchTurn_turned cv hgd
  rcases hend with ⟨l', hleave, hend⟩ | hret
  · -- the code after the loop, and the marks in the status array, touch nothing of this
    have hs' := (fetchEnd_eq hend).1
    have hsame : Traced s (turns ++ [l]) l'.stmt → Traced s (turns ++ [l]) s' := by
      intro h'
      rw [hs']
      exact ⟨⟨h'.executed.resultset, h'.executed.early, h'.executed.ird⟩, h'.desc, h'.nextBlock,
        h'.kept, h'.lost⟩
    refine hsame ?_
    rw [hleave] at ht
    cases ht with
    | full hfull =>
      exact h.step (not_attaches_of_not_requests fun hreq ↦ absurd hreq.1 (by omega))
        h.executed rfl rfl rfl
    | last hi hrow hcurs =>
      refine h.step (not_attaches_of_not_requests fun hreq ↦ ?_)
        ⟨h.executed.resultset, h.executed.early, h.executed.ird⟩ rfl rfl rfl
      rw [hreq.2.2] at hcurs
      cases hcurs
    | @emptyPage hi ret t hrow hcurs hexec _ _ =>
      have ht := h.request hgd ⟨hi, hrow, hcurs⟩ hexec
      exact ⟨⟨ht.executed.resultset, ht.executed.early, ht.executed.ird⟩, ht.desc, ht.nextBlock,
        ht.kept, ht.lost⟩
  · rw [hret] at ht
    cases ht with
    | requestFailed hi hrow hcurs hexec _ => exact h.request hgd ⟨hi, hrow, hcurs⟩ hexec

/-- One call of `EsSQLFetch`. -/
theorem fetchCall_traced {cv : Converters σ} {s t t' : Stmt σ} {turns : List (FetchLoop σ)}
    {f : Fetched σ} (h : Traced s turns t) (hcall : FetchCall cv t f t') :
    Traced s (turns ++ f.turns) t' := by
  obtain ⟨hcall, hturns⟩ := hcall
  have hset : Traced s turns (f.setup.apply t) :=
    ⟨⟨h.executed.resultset, h.executed.early, h.executed.ird⟩, h.desc, h.nextBlock, h.kept, h.lost⟩
  rcases esSQLFetch_cases hcall with ⟨hc, hnil⟩ | ⟨u, ls, l, hc, hls, hrun, hend⟩
  · rw [hturns, hnil, List.append_nil, (fetchChecks_some hset.executed.resultset hc).2]
    exact ⟨⟨hset.executed.resultset, hset.executed.early, hset.executed.ird⟩, hset.desc,
      hset.nextBlock, hset.kept, hset.lost⟩
  · have hu : Traced s turns u := by
      rw [(fetchChecks_none hc).2]
      exact ⟨⟨hset.executed.resultset, hset.executed.early, hset.executed.ird⟩, hset.desc,
        hset.nextBlock, hset.kept, hset.lost⟩
    have hl := hrun.accumulate
      (I := fun turns l ↦ Traced s turns l.stmt ∧ l.stmt.gdCalling = false) (fun o ↦ [o])
      (fun _ _ _ _ ↦ next_traced) ⟨hu, (fetchChecks_none hc).1.gd⟩
    rw [List.flatMap_singleton'] at hl
    rw [hturns, hls, ← List.append_assoc]
    exact ends_traced hl.1 hl.2 hend

/-! ## The descriptions -/

theorem writeWstr_congr (s t : Stmt σ) (avail : Option Int) (src : WStr) :
    (writeWstr s avail src).ret = (writeWstr t avail src).ret ∧
      (writeWstr s avail src).dest = (writeWstr t avail src).dest ∧
      (writeWstr s avail src).used = (writeWstr t avail src).used := by
  unfold writeWstr
  cases avail with
  | none => exact ⟨rfl, rfl, rfl⟩
  | some avail =>
    dsimp only
    split_ifs <;> exact ⟨rfl, rfl, rfl⟩

/-- Two statements with the same columns, whose strings read alike. -/
structure SameColumns (s t : Stmt σ) : Prop where
  resultset : s.hasResultset = t.hasResultset
  desc : s.ird.map IRec.desc = t.ird.map IRec.desc
  read : ∀ r ∈ t.ird, r.name.read s = r.name.read t ∧ r.label.read s = r.label.read t

theorem SameColumns.getElem? {s t : Stmt σ} (h : SameColumns s t) (i : Nat) :
    (s.ird[i]? = none ∧ t.ird[i]? = none) ∨
      ∃ r r', s.ird[i]? = some r ∧ t.ird[i]? = some r' ∧ r.desc = r'.desc ∧
        r.name.read s = r'.name.read t ∧ r.label.read s = r'.label.read t := by
  have hi := congrArg (·[i]?) h.desc
  simp only [List.getElem?_map] at hi
  cases hs : s.ird[i]? with
  | none =>
    cases ht : t.ird[i]? with
    | none => exact .inl ⟨rfl, rfl⟩
    | some r => rw [hs, ht] at hi; cases hi
  | some r =>
    cases ht : t.ird[i]? with
    | none => rw [hs, ht] at hi; cases hi
    | some r' =>
      rw [hs, ht, Option.map_some, Option.map_some, Option.some.injEq] at hi
      have hname : r.name = r'.name := congrArg (·.name) hi
      have hlabel : r.label = r'.label := congrArg (·.label) hi
      obtain ⟨h₁, h₂⟩ := h.read r' (List.mem_of_getElem? ht)
      exact .inr ⟨r, r', rfl, rfl, hi, hname ▸ h₁, hlabel ▸ h₂⟩

/-- The value of a field does not depend on the values of the current row. -/
theorem ColField.value_congr {r r' : IRec} (h : r.desc = r'.desc) (field : ColField) :
    field.value r = field.value r' := by
  have hvalue : ∀ r : IRec, field.value r.desc = field.value r := fun _ ↦ by cases field <;> rfl
  rw [← hvalue r, h, hvalue r']

theorem SameColumns.describe {s t : Stmt σ} (h : SameColumns s t) (icol : Nat)
    (cchColNameMax : Option Int) :
    esSQLDescribeColW s icol cchColNameMax = esSQLDescribeColW t icol cchColNameMax := by
  unfold esSQLDescribeColW columnRecord
  rw [h.resultset]
  split_ifs
  · rfl
  · rfl
  · rcases h.getElem? (icol - 1) with ⟨hs, ht⟩ | ⟨r, r', hs, ht, hdesc, hname, -⟩
    · rw [hs, ht]
    · rw [hs, ht]
      have hcol : r.col = r'.col := congrArg (·.col) hdesc
      dsimp only
      rw [hname, hcol]
      cases r'.name.read t with
      | none => rfl
      | some name =>
        obtain ⟨h₁, h₂, h₃⟩ := writeWstr_congr s t
          (cchColNameMax.map fun n ↦ intToSqlsmallint (n * 2)) name
        dsimp only
        rw [h₁, h₂, h₃]

/-- A string field is the name or the label. -/
theorem ColField.value_inl {r : IRec} {field : ColField} {w : WRef}
    (h : field.value r = .done (.inl w)) : w = r.name ∨ w = r.label := by
  cases field with
  | name => cases h; exact .inl rfl
  | label => cases h; exact .inr rfl
  | nullable | displaySize =>
    rw [ColField.value] at h
    split at h <;> cases h
  | _ => cases h

theorem SameColumns.colAttribute {s t : Stmt σ} (h : SameColumns s t) (iCol : Nat)
    (iField : ColField) (cbDescMax : Option Int) :
    esSQLColAttributeW s iCol iField cbDescMax = esSQLColAttributeW t iCol iField cbDescMax := by
  unfold esSQLColAttributeW columnRecord
  rw [h.resultset]
  split_ifs
  · rfl
  · rfl
  · rcases h.getElem? (iCol - 1) with ⟨hs, ht⟩ | ⟨r, r', hs, ht, hdesc, hname, hlabel⟩
    · rw [hs, ht]
    · rw [hs, ht]
      dsimp only
      rw [ColField.value_congr hdesc]
      cases hv : iField.value r' with
      | undefined => rfl
      | exhausted => rfl
      | done v =>
        cases v with
        | inr n => rfl
        | inl w =>
          have hw : w.read s = w.read t := by
            have hname' : r.name = r'.name := congrArg (·.name) hdesc
            have hlabel' : r.label = r'.label := congrArg (·.label) hdesc
            rcases ColField.value_inl hv with rfl | rfl
            · exact hname' ▸ hname
            · exact hlabel' ▸ hlabel
          simp only [Exec.bind_done, hw]
          cases w.read t with
          | none => rfl
          | some text =>
            obtain ⟨h₁, h₂, h₃⟩ := writeWstr_congr s t cbDescMax text
            dsimp only
            rw [h₁, h₂, h₃]

theorem SameColumns.getDescField {s t : Stmt σ} (h : SameColumns s t) (recNumber : Int)
    (field : ColField) :
    esSQLGetDescFieldW s recNumber field = esSQLGetDescFieldW t recNumber field := by
  unfold esSQLGetDescFieldW
  split_ifs
  · rfl
  · rcases h.getElem? (recNumber.toNat - 1) with ⟨hs, ht⟩ | ⟨r, r', hs, ht, hdesc, hname, hlabel⟩
    · rw [hs, ht]
    · rw [hs, ht]
      dsimp only
      rw [ColField.value_congr hdesc]
      cases hv : field.value r' with
      | undefined => rfl
      | exhausted => rfl
      | done v =>
        cases v with
        | inr n => rfl
        | inl w =>
          have hw : w.read s = w.read t := by
            have hname' : r.name = r'.name := congrArg (·.name) hdesc
            have hlabel' : r.label = r'.label := congrArg (·.label) hdesc
            rcases ColField.value_inl hv with rfl | rfl
            · exact hname' ▸ hname
            · exact hlabel' ▸ hlabel
          simp only [Exec.bind_done, hw]

/-! ## The names over a run -/

/-- The records that an answer leaves, and any with the same names, are read in one block. -/
theorem namedIn_read {s : Stmt σ} {b : Nat} {name : WStr} {r : IRec} (h : NamedIn b name r) :
    (r.name.read s = some r.name.text ∧ r.label.read s = some r.label.text) ↔
      (s.owned = some b ∨ r.name = .empty) := by
  rw [h.label, and_self]
  rcases h.home with hr | hr
  · simp [hr, WRef.read, WRef.text]
  · simp [hr, WRef.read, WRef.text]

theorem namedIn_texts {b : Nat} {names : List WStr} {rs : List IRec}
    (h : List.Forall₂ (NamedIn b) names rs) :
    rs.map (·.name.text) = names ∧ rs.map (·.label.text) = names := by
  induction h with
  | nil => exact ⟨rfl, rfl⟩
  | cons hr _ ih =>
    exact ⟨congrArg₂ List.cons hr.text ih.1,
      congrArg₂ List.cons ((congrArg WRef.text hr.label).trans hr.text) ih.2⟩

/-- Names in one block are live while the statement owns it, or if they are all empty. -/
theorem namesLive_iff {s : Stmt σ} {b : Nat} {names : List WStr}
    (h : List.Forall₂ (NamedIn b) names s.ird) :
    NamesLive s ↔ s.owned = some b ∨ ∀ r ∈ s.ird, r.name = .empty := by
  have hread : ∀ r ∈ s.ird, (r.name.read s = some r.name.text ∧ r.label.read s = some r.label.text)
      ↔ (s.owned = some b ∨ r.name = .empty) := by
    intro r hr
    obtain ⟨name, -, hnamed⟩ := forall₂_right h r hr
    exact namedIn_read hnamed
  constructor
  · intro hlive
    by_cases hb : s.owned = some b
    · exact .inl hb
    · exact .inr fun r hr ↦ ((hread r hr).mp (hlive r hr)).resolve_left hb
  · rintro (hb | hempty) r hr
    · exact (hread r hr).mpr (.inl hb)
    · exact (hread r hr).mpr (.inr (hempty r hr))

/-- Names in a block do not depend on the values of the current row. -/
theorem namedIn_desc {b : Nat} {name : WStr} {r r' : IRec} (h : r'.desc = r.desc) :
    NamedIn b name r → NamedIn b name r' := by
  have hname : r'.name = r.name := congrArg (·.name) h
  have hlabel : r'.label = r.label := congrArg (·.label) h
  rintro ⟨h₁, h₂, h₃⟩
  exact ⟨by rw [hname, h₁], by rw [hname, hlabel, h₂], by rw [hname]; exact h₃⟩

theorem forall₂_namedIn_desc {b : Nat} {names : List WStr} {rs rs' : List IRec}
    (h : List.Forall₂ (NamedIn b) names rs) (hdesc : rs'.map IRec.desc = rs.map IRec.desc) :
    List.Forall₂ (NamedIn b) names rs' := by
  induction h generalizing rs' with
  | nil => rw [List.map_eq_nil_iff.mp hdesc]; exact .nil
  | cons hr _ ih =>
    cases rs' with
    | nil => cases hdesc
    | cons r' rs' =>
      rw [List.map_cons, List.map_cons, List.cons.injEq] at hdesc
      exact .cons (namedIn_desc hdesc.1 hr) (ih hdesc.2)

/-- The law of the names.  At every point of the fetches after a first answer, the names are
where they were exactly when no further answer was taken in (or there is no name to lose);
then they are those of the first answer, and the columns are described as they were. -/
theorem names_live (cv : Converters σ) {s₀ s s' : Stmt σ} {a : Answer} {r : SqlReturn}
    {fs : List (Fetched σ)} (h₀ : s₀.ird = [])
    (hclear : s₀.hasResultset = false → s₀.rset = .zero) (hearly : s₀.earlyExecuted = false)
    (ha : attachAnswer s₀ a = .done (r, s)) (hr : r.succeeded = true)
    (hrun : Run (FetchCall cv) s fs s') :
    (NamesLive s' ↔ (∀ f ∈ fs, ∀ l ∈ f.turns, ¬l.Attaches) ∨ ∀ r ∈ s.ird, r.name = .empty) ∧
    (∃ cols, a.columns = some cols ∧ s'.ird.map (·.name.text) = cols.map Prod.fst ∧
      s'.ird.map (·.label.text) = cols.map Prod.fst) ∧
    (NamesLive s' →
      (∀ icol avail, esSQLDescribeColW s' icol avail = esSQLDescribeColW s icol avail) ∧
      (∀ icol field avail,
        esSQLColAttributeW s' icol field avail = esSQLColAttributeW s icol field avail) ∧
      ∀ rec field, esSQLGetDescFieldW s' rec field = esSQLGetDescFieldW s rec field) := by
  obtain ⟨cols, b, hcols, hb, hne, hnamed⟩ := attachAnswer_columns h₀ hclear ha hr
  have hframe := (attachAnswer_frame s₀ a hclear).2 r s ha
  have hblock := (hframe.owned b hb).2
  have hexec : s.Executed := ⟨hframe.body, hframe.earlyExecuted.trans hearly, hne⟩
  have htraced : Traced s (fs.flatMap Fetched.turns) s' :=
    hrun.accumulate (I := Traced s) Fetched.turns (fun _ _ _ _ ↦ fetchCall_traced) (.refl hexec)
  have hnamed' := forall₂_namedIn_desc hnamed htraced.desc
  have hempty : (∀ r ∈ s'.ird, r.name = .empty) ↔ ∀ r ∈ s.ird, r.name = .empty := by
    have hmap : s'.ird.map (·.name) = s.ird.map (·.name) := by
      have := congrArg (List.map (·.name)) htraced.desc
      simpa [Function.comp_def, IRec.desc] using this
    have hall : ∀ rs : List IRec,
        (∀ r ∈ rs, r.name = .empty) ↔ ∀ w ∈ rs.map (·.name), w = WRef.empty := by simp
    rw [hall, hall, hmap]
  have hattached : (∀ l ∈ fs.flatMap Fetched.turns, ¬l.Attaches) ↔
      ∀ f ∈ fs, ∀ l ∈ f.turns, ¬l.Attaches := by
    simp only [List.mem_flatMap, forall_exists_index, and_imp]
    exact ⟨fun h f hf l hl ↦ h l f hf hl, fun h l f hf hl ↦ h f hf l hl⟩
  -- the block of the first answer is kept as long as no other answer comes, and then lost
  have howned : s'.owned = some b ↔ ∀ f ∈ fs, ∀ l ∈ f.turns, ¬l.Attaches := by
    rw [← hattached]
    constructor
    · intro hb' l hl hat
      have := htraced.lost ⟨l, hl, hat⟩ b hb'
      omega
    · exact fun hno ↦ (htraced.kept hno).trans hb
  refine ⟨by rw [namesLive_iff hnamed', howned, hempty], ⟨cols, hcols, namedIn_texts hnamed'⟩, ?_⟩
  intro hlive'
  have hsame : SameColumns s' s := by
    refine ⟨htraced.executed.resultset.trans hexec.resultset.symm, htraced.desc, fun r hr ↦ ?_⟩
    obtain ⟨name, -, hn⟩ := forall₂_right hnamed r hr
    have hs : r.name.read s = some r.name.text ∧ r.label.read s = some r.label.text :=
      (namedIn_read hn).mpr (.inl hb)
    have hs' : r.name.read s' = some r.name.text ∧ r.label.read s' = some r.label.text :=
      (namedIn_read hn).mpr (((namesLive_iff hnamed').mp hlive').imp id
        fun h ↦ hempty.mp h r hr)
    exact ⟨hs'.1.trans hs.1.symm, hs'.2.trans hs.2.symm⟩
  exact ⟨hsame.describe, hsame.colAttribute, hsame.getDescField⟩

/-- One page, fetched to its end: the name is still there. -/
theorem names_live_page : ∃ (s s' : Stmt Unit) (fs : List (Fetched Unit)),
    attachAnswer (.init [] () []) (jsonAnswer [[0x61]] [[.longLong 1]] []) = .done (.success, s) ∧
    Run (FetchCall .accept) s fs s' ∧ fs.map Fetched.ret = [.success, .noData] ∧
    NamesLive s' := by
  obtain ⟨s, fs, s', ha, hrun, hno, hret⟩ := exists_run .accept (.init [] () [])
    (jsonAnswer [[0x61]] [[.longLong 1]] []) [.rows 0, .rows 0]
    (fun _ fs _ ↦ (∀ f ∈ fs, ∀ l ∈ f.turns, ¬l.Attaches) ∧
      fs.map Fetched.ret = [.success, .noData]) (by decide +kernel)
  exact ⟨s, s', fs, ha, hrun, hret,
    (names_live .accept rfl (fun _ ↦ rfl) rfl ha rfl hrun).1.mpr (.inl hno)⟩

/-- A second page: the column that was described before it cannot be described any more. -/
theorem names_lost : ∃ (s : Stmt Unit) (fs : List (Fetched Unit)) (s' : Stmt Unit),
    attachAnswer (.init [⟨[0x4C, 0x4F, 0x4E, 0x47], -5, 19, 1, 0, -5, 0, .exactNumeric, 20⟩] ()
        [.answer (jsonAnswer [] [[.longLong 2]] [])])
      (jsonAnswer [[0x61]] [[.longLong 1]] [0x63]) = .done (.success, s) ∧
    Run (FetchCall .accept) s fs s' ∧
    fs.map Fetched.ret = [.success, .success] ∧
      esSQLDescribeColW s 1 (some 8) = .done (.success, some ⟨some [0x61, 0], 1, -5, 19, 0, 1⟩) ∧
      ¬NamesLive s' ∧ esSQLDescribeColW s' 1 (some 8) = .undefined :=
  exists_run _ _ _ [.rows 0, .rows 0] _ (by decide +kernel)

end EsOdbc

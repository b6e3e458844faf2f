import EsOdbc.Diag.Strings
import EsOdbc.Memory

/-!
# The current catalog

`fetch_server_attr` (`catalogue.c`), which asks the server for an attribute, and
`EsSQLGetConnectAttrW` on the current catalog (`connect.c`), which takes it from the connection if
it was set there.
-/

namespace EsOdbc

/-- `buff_cnt`: the longest identifier and a terminator. -/
def buffCnt : ℕ := shrtMax + 1

/-- `varchar_limit_apply`. -/
def varcharLimited (varcharLimit : ℕ) (wstr : WStr) : WStr :=
  if varcharLimit ≤ 0 then wstr
  else if wstr.length ≤ varcharLimit then wstr
  else wstr.take varcharLimit

/-- `transfer_xstr0` of a wide string into a buffer of so many bytes: what is stored, and the length
that is indicated. -/
def transferWide (wstr : WStr) (octetLength : ℕ) : WStr × ℕ :=
  let avail := (wstr.length + 1) * 2
  let inBytes := min avail octetLength - min avail octetLength % 2
  let units := (wstr ++ [0]).take (inBytes / 2)
  (if octetLength < avail ∧ 0 < inBytes then units.dropLast ++ [0] else units, wstr.length * 2)

/-- The query of an attribute: the limit for its value, the rows that are answered, and the content
of new memory. -/
structure AttrQuery where
  varcharLimit : ℕ
  rows : List (Option WStr)
  fresh : ℕ → UInt16

/-- The value of the attribute: the first row's, without one nothing. -/
def AttrQuery.value (q : AttrQuery) : WStr :=
  (q.rows.head?.getD none).elim [] (varcharLimited q.varcharLimit)

/-- `attr_val`: the column is bound to a buffer of one unit less than it has, and the length
indicated is where the terminator goes. -/
def AttrQuery.attrVal (q : AttrQuery) : Exec WStr :=
  match q.rows with
  | [] => .done []
  | none :: _ => .done []
  | some wstr :: _ =>
    let r := transferWide (varcharLimited q.varcharLimit wstr) (2 * (buffCnt - 1))
    if r.2 ≤ 0 then .done []
    else
      let buff := (List.range buffCnt).map q.fresh
      (Exec.ofOption (Buffer.store buff 0 r.1)).bind fun buff ↦
      (Exec.ofOption (Buffer.store buff (r.2 / 2) [0])).bind fun buff ↦
        .done (buff.take (r.2 / 2))

/-- `fetch_server_attr`, after a query that succeeds. -/
def fetchServerAttr (q : AttrQuery) (hasDest : Bool) (room : ℤ) : Exec TextOut :=
  q.attrVal.bind fun attrVal ↦
    let out := TextOut.writeWstr hasDest attrVal room
    .done (if out.ret.succeeded then out else { out with used := -1 })

/-- What asking for the catalog comes to: the code, the units stored, the length reported and the
state of the connection's diagnostic. -/
structure CatalogOut where
  ret : SqlReturn
  written : WStr
  length : Option ℤ
  state : EsodbcState
deriving DecidableEq, Repr

/-- A call for the catalog, with the size of the buffer in bytes, on a connection with a state. -/
structure CatalogCall where
  state : EsodbcState
  hasDest : Bool
  bufferLength : ℕ

namespace CatalogCall

/-- The length that is passed on. -/
def room (c : CatalogCall) : ℤ := intToSqlsmallint c.bufferLength

/-- `EsSQLGetConnectAttrW` on `SQL_ATTR_CURRENT_CATALOG`, with the catalog of the connection. -/
def run (c : CatalogCall) (catalog : WStr) (q : AttrQuery) : Exec CatalogOut :=
  if catalog.length ≠ 0 then
    let out := TextOut.writeWstr c.hasDest catalog c.room
    let state := out.posted.getD c.state
    if out.ret.succeeded then
      let used := if shrtMax ≤ catalog.length then shrtMax else catalog.length
      .done ⟨.success, out.written, some used, state⟩
    else .done ⟨state.error.retcode, out.written, none, state⟩
  else
    (fetchServerAttr q c.hasDest c.room).bind fun out ↦
      let state := out.posted.getD c.state
      if out.used < 0 then .done ⟨state.error.retcode, out.written, none, state⟩
      else .done ⟨.success, out.written, some out.used, state⟩

end CatalogCall

/-! ## The law -/

/-- What is stored is nothing, or it ends a start of the text. -/
def Terminates (text written : WStr) : Prop :=
  written = [] ∨ 0 ∈ written ∧ written.takeWhile (· ≠ 0) <+: text

/-- The value asked for at the server is stored within the buffer and terminated, and the call
comes to what it does where the same value was set. -/
structure CatalogCall.Right (c : CatalogCall) (q : AttrQuery) (out : CatalogOut) : Prop where
  run : c.run [] q = .done out
  within : out.written.length * 2 ≤ c.bufferLength
  text : Terminates q.value out.written
  same : ∀ q', q.value ≠ [] → c.run q.value q' = .done out

/-- The buffer is one that `write_wstr` refuses. -/
def CatalogCall.Refused (c : CatalogCall) : Prop :=
  c.hasDest = true ∧ (c.room < 0 ∨ c.room % 2 ≠ 0)

instance (c : CatalogCall) : Decidable c.Refused :=
  inferInstanceAs (Decidable (c.hasDest = true ∧ (c.room < 0 ∨ c.room % 2 ≠ 0)))

/-! ## The value -/

theorem transferWide_of_le {wstr : WStr} {octetLength : ℕ} (h : (wstr.length + 1) * 2 ≤ octetLength) :
    transferWide wstr octetLength = (wstr ++ [0], wstr.length * 2) := by
  rw [transferWide]
  rw [min_eq_left h, if_neg (by omega)]
  have hhalf : ((wstr.length + 1) * 2 - (wstr.length + 1) * 2 % 2) / 2 = (wstr ++ [0]).length := by
    rw [List.length_append, List.length_singleton]
    omega
  rw [hhalf, List.take_length]

theorem transferWide_of_lt {wstr : WStr} {n : ℕ} (h : n ≤ wstr.length) (hn : 0 < n) :
    transferWide wstr (2 * n) = (wstr.take (n - 1) ++ [0], wstr.length * 2) := by
  rw [transferWide]
  have hmin : min ((wstr.length + 1) * 2) (2 * n) = 2 * n := by omega
  have hhalf : (2 * n - 2 * n % 2) / 2 = n := by omega
  have hunits : ((wstr ++ [0]).take n).dropLast = wstr.take (n - 1) := by
    rw [List.take_append_of_le_length h, List.dropLast_eq_take, List.length_take, min_eq_left h,
      List.take_take, min_eq_left (Nat.sub_le n 1)]
  rw [hmin, hhalf, hunits, if_pos (by omega)]

theorem takeWhile_append_nul (text : WStr) :
    (text ++ [0]).takeWhile (· ≠ 0) = text.takeWhile (· ≠ 0) := by
  induction text with
  | nil => rfl
  | cons u text ih =>
    rw [List.cons_append, List.takeWhile_cons, List.takeWhile_cons, ih]

/-- A text stored at the start of a buffer, with a terminator behind the start of it. -/
theorem stored_text {buff units w : WStr} (hpre : w <+: units) (hunits : units.length ≤ buff.length)
    (hw : w.length < buff.length) :
    ((Exec.ofOption (Buffer.store buff 0 units)).bind fun buff ↦
      (Exec.ofOption (Buffer.store buff w.length [0])).bind fun buff ↦
        .done (buff.take w.length)) = .done w := by
  obtain ⟨first, hfirst⟩ := Buffer.exists_store buff 0 units (by omega)
  have hstart := hpre.trans (Buffer.prefix_store (List.nil_prefix (l := buff)) hfirst)
  have hlen := Buffer.length_store hfirst
  rw [hfirst, Exec.ofOption_some, Exec.bind_done]
  obtain ⟨second, hsecond⟩ := Buffer.exists_store first w.length [0]
    (by rw [hlen, List.length_singleton]; exact hw)
  have hkept := Buffer.prefix_of_store hstart hsecond le_rfl
  rw [hsecond, Exec.ofOption_some, Exec.bind_done, ← List.prefix_iff_eq_take.mp hkept]

namespace AttrQuery

variable {q : AttrQuery}

/-- The value is the first row's, or there is none. -/
theorem attrVal_cases (q : AttrQuery) : (q.value = [] ∧ q.attrVal = .done []) ∨
    (q.value ≠ [] ∧ q.attrVal =
      (Exec.ofOption (Buffer.store ((List.range buffCnt).map q.fresh) 0
        (transferWide q.value (2 * (buffCnt - 1))).1)).bind fun buff ↦
      (Exec.ofOption (Buffer.store buff q.value.length [0])).bind fun buff ↦
        .done (buff.take q.value.length)) := by
  rw [attrVal, value]
  cases q.rows with
  | nil => exact .inl ⟨rfl, rfl⟩
  | cons row rows =>
    cases row with
    | none => exact .inl ⟨rfl, rfl⟩
    | some wstr =>
      rw [List.head?_cons, Option.getD_some, Option.elim_some]
      dsimp only
      generalize varcharLimited q.varcharLimit wstr = v
      have hind : (transferWide v (2 * (buffCnt - 1))).2 = v.length * 2 := rfl
      rw [hind, Nat.mul_div_cancel _ Nat.two_pos]
      cases v with
      | nil => exact .inl ⟨rfl, rfl⟩
      | cons u v => exact .inr ⟨List.cons_ne_nil _ _, if_neg (by rw [List.length_cons]; omega)⟩

/-- The text that a value leaves in the buffer. -/
theorem attrVal_of_le (h : q.value.length ≤ shrtMax) :
    ∃ w, q.attrVal = .done w ∧ w.length = q.value.length ∧
      w.takeWhile (· ≠ 0) <+: q.value := by
  obtain ⟨hnil, hdone⟩ | ⟨-, hstored⟩ := q.attrVal_cases
  · exact ⟨[], hdone, by rw [hnil], List.nil_prefix⟩
  · rw [hstored]
    have hbuff : ((List.range buffCnt).map q.fresh).length = shrtMax + 1 := by
      rw [List.length_map, List.length_range, buffCnt]
    by_cases hlt : q.value.length < shrtMax
    · have hroom : (q.value.length + 1) * 2 ≤ 2 * (buffCnt - 1) := by
        rw [buffCnt]
        omega
      rw [transferWide_of_le hroom]
      refine ⟨q.value, stored_text (List.prefix_append _ _) ?_ ?_, rfl, List.takeWhile_prefix _⟩
      · rw [hbuff, List.length_append, List.length_singleton]
        omega
      · rw [hbuff]
        omega
    · -- the longest value that fits: its last unit makes room for the terminator
      have heq : q.value.length = shrtMax := by omega
      rw [transferWide_of_lt (show buffCnt - 1 ≤ q.value.length by rw [buffCnt]; omega) (by decide)]
      have hlen : (q.value.take (buffCnt - 1 - 1) ++ [0]).length = q.value.length := by
        rw [List.length_append, List.length_take, List.length_singleton, heq]
        decide
      refine ⟨q.value.take (buffCnt - 1 - 1) ++ [0], ?_, hlen, ?_⟩
      · rw [← hlen]
        refine stored_text List.prefix_rfl ?_ ?_
        · rw [hbuff, hlen]
          omega
        · rw [hbuff, hlen]
          omega
      · rw [takeWhile_append_nul]
        exact (List.takeWhile_prefix _).trans (List.take_prefix _ _)

/-- The terminator of a longer value is outside the buffer. -/
theorem attrVal_undefined (h : shrtMax < q.value.length) : q.attrVal = .undefined := by
  obtain ⟨hnil, -⟩ | ⟨-, hstored⟩ := q.attrVal_cases
  · rw [hnil] at h
    cases h
  · rw [hstored]
    cases hfirst : Buffer.store ((List.range buffCnt).map q.fresh) 0
        (transferWide q.value (2 * (buffCnt - 1))).1 with
    | none => rfl
    | some first =>
      have hlen := Buffer.length_store hfirst
      rw [List.length_map, List.length_range, buffCnt] at hlen
      have hnone : Buffer.store first q.value.length [0] = none := by
        rw [Buffer.store_eq_none, hlen, List.length_singleton]
        omega
      rw [Exec.ofOption_some, Exec.bind_done, hnone]
      rfl

end AttrQuery

/-! ## The text -/

theorem takeWhile_replicate {text : WStr} (h : 0 ∉ text) (n : ℕ) :
    (text ++ List.replicate n 0).takeWhile (· ≠ 0) = text := by
  have hall : ∀ u ∈ text, (decide (u ≠ 0)) = true := fun u hu ↦ decide_eq_true fun h0 ↦ h (h0 ▸ hu)
  rw [List.takeWhile_append_of_pos hall]
  cases n with
  | zero => rw [List.replicate_zero, List.takeWhile_nil, List.append_nil]
  | succ n => rw [List.replicate_succ, List.takeWhile_cons_of_neg (by simp), List.append_nil]

/-- What `wcsncpy` copies, with a terminator. -/
theorem wcsncpy_terminates {text src : WStr} (h : src.takeWhile (· ≠ 0) <+: text) (n m : ℕ)
    (hm : src.length < n ∨ 0 < m) : Terminates text (wcsncpy src n ++ List.replicate m 0) := by
  have hnul : 0 ∉ (src.takeWhile (· ≠ 0)).take n := by
    intro h0
    have := List.mem_takeWhile_imp (List.mem_of_mem_take h0)
    simp at this
  have hlen : ((src.takeWhile (· ≠ 0)).take n).length ≤ src.length :=
    (List.length_take_le' _ _).trans (List.takeWhile_prefix _).length_le
  rw [wcsncpy, List.append_assoc, List.replicate_append_replicate]
  refine .inr ⟨List.mem_append_right _ ?_, ?_⟩
  · rw [List.mem_replicate]
    exact ⟨by omega, rfl⟩
  · rw [takeWhile_replicate hnul]
    exact (List.take_prefix _ _).trans h

/-! ## The calls -/

theorem intToSqlsmallint_le (n : ℕ) : intToSqlsmallint n ≤ n := by
  unfold intToSqlsmallint
  omega

/-- A buffer that is refused: nothing is stored. -/
theorem TextOut.writeWstr_refused {room : ℤ} (h : room < 0 ∨ room % 2 ≠ 0) (src : WStr) :
    TextOut.writeWstr true src room =
      ⟨.error, [], intToSqlsmallint (src.length * 2), some .sHY090⟩ := by
  rw [TextOut.writeWstr, if_neg (by simp), if_pos h]
  rfl

/-- A buffer that is taken. -/
theorem TextOut.writeWstr_taken {room : ℤ} (h : ¬(room < 0 ∨ room % 2 ≠ 0)) (src : WStr) :
    TextOut.writeWstr true src room =
      if (room / 2).toNat ≤ src.length then
        ⟨.successWithInfo, if 0 < (room / 2).toNat then wcsncpy src ((room / 2).toNat - 1) ++ [0]
          else [], intToSqlsmallint (src.length * 2), some .s01004⟩
      else ⟨.success, wcsncpy src (src.length + 1), intToSqlsmallint (src.length * 2), none⟩ := by
  rw [TextOut.writeWstr, if_neg (by simp), if_neg h]
  rfl

/-- What `write_wstr` stores of a text that is a start of another one up to its terminator. -/
theorem TextOut.writeWstr_within {text src : WStr} (h : src.takeWhile (· ≠ 0) <+: text)
    (hasDest : Bool) (n : ℕ) :
    (TextOut.writeWstr hasDest src (intToSqlsmallint n)).written.length * 2 ≤ n ∧
      Terminates text (TextOut.writeWstr hasDest src (intToSqlsmallint n)).written := by
  have hroom := intToSqlsmallint_le n
  generalize intToSqlsmallint n = room at hroom
  cases hasDest with
  | false => exact ⟨Nat.zero_le _, .inl rfl⟩
  | true =>
    by_cases hbad : room < 0 ∨ room % 2 ≠ 0
    · rw [TextOut.writeWstr_refused hbad]
      exact ⟨Nat.zero_le _, .inl rfl⟩
    · rw [TextOut.writeWstr_taken hbad]
      split_ifs with hcut hpos
      · have hterm := wcsncpy_terminates h ((room / 2).toNat - 1) 1 (.inr Nat.one_pos)
        rw [List.replicate_one] at hterm
        refine ⟨?_, hterm⟩
        rw [List.length_append, length_wcsncpy, List.length_singleton]
        omega
      · exact ⟨Nat.zero_le _, .inl rfl⟩
      · have hterm := wcsncpy_terminates h (src.length + 1) 0 (.inl (Nat.lt_succ_self _))
        rw [List.replicate_zero, List.append_nil] at hterm
        refine ⟨?_, hterm⟩
        rw [length_wcsncpy]
        omega

theorem TextOut.writeWstr_succeeded {hasDest : Bool} {room : ℤ}
    (h : ¬(hasDest = true ∧ (room < 0 ∨ room % 2 ≠ 0))) (src : WStr) :
    (TextOut.writeWstr hasDest src room).ret.succeeded = true := by
  cases hasDest with
  | false => rfl
  | true =>
    rw [TextOut.writeWstr_taken fun hbad ↦ h ⟨rfl, hbad⟩]
    split_ifs <;> rfl

/-- The server's value is stored within the buffer and terminated, up to the longest value. -/
theorem fetchServerAttr_of_le {q : AttrQuery} (h : q.value.length ≤ shrtMax) (hasDest : Bool) (n : ℕ) :
    ∃ out, fetchServerAttr q hasDest (intToSqlsmallint n) = .done out ∧
      out.written.length * 2 ≤ n ∧ Terminates q.value out.written := by
  obtain ⟨w, hw, -, hpre⟩ := AttrQuery.attrVal_of_le h
  obtain ⟨hlen, hterm⟩ := TextOut.writeWstr_within hpre hasDest n
  refine ⟨_, by rw [fetchServerAttr, hw, Exec.bind_done], ?_⟩
  split_ifs
  · exact ⟨hlen, hterm⟩
  · exact ⟨hlen, hterm⟩

namespace CatalogCall

/-- Where the catalog was set. -/
theorem run_set (c : CatalogCall) {catalog : WStr} (hne : catalog ≠ []) (hrefused : ¬c.Refused)
    (q : AttrQuery) : ∃ written state, c.run catalog q = .done ⟨.success, written,
      some ((if shrtMax ≤ catalog.length then shrtMax else catalog.length : ℕ) : ℤ), state⟩ := by
  have hlen : catalog.length ≠ 0 := fun h ↦ hne (List.eq_nil_of_length_eq_zero h)
  rw [run, if_pos hlen]
  dsimp only
  rw [if_pos (TextOut.writeWstr_succeeded hrefused catalog)]
  exact ⟨_, _, rfl⟩

/-- Where it comes from the server: a length in bytes, if that is not negative. -/
theorem run_fetched (c : CatalogCall) {q : AttrQuery} {w : WStr} (hw : q.attrVal = .done w)
    (hrefused : ¬c.Refused) {out : CatalogOut} (h : c.run [] q = .done out) {n : ℤ}
    (hlen : out.length = some n) : n = intToSqlsmallint (w.length * 2) ∧ 0 ≤ n := by
  have hfetched : fetchServerAttr q c.hasDest c.room =
      .done (TextOut.writeWstr c.hasDest w c.room) := by
    rw [fetchServerAttr, hw, Exec.bind_done]
    dsimp only
    rw [if_pos (TextOut.writeWstr_succeeded hrefused w)]
  rw [run, if_neg (by simp), hfetched, Exec.bind_done] at h
  dsimp only at h
  split_ifs at h with hneg
  · cases h
    cases hlen
  · cases h
    cases hlen
    exact ⟨writeWstr_used .., not_lt.mp hneg⟩

/-- The catalog comes to the same from the server exactly if there is none, or if the buffer is
refused and the value fits the driver's own. -/
theorem catalog_right_iff (c : CatalogCall) (q : AttrQuery) : (∃ out, c.Right q out) ↔
    (q.value = [] ∨ (q.value.length ≤ shrtMax ∧ c.Refused)) := by
  constructor
  · rintro ⟨out, hright⟩
    by_contra hcon
    obtain ⟨hne, hcon⟩ := not_or.mp hcon
    have hle : q.value.length ≤ shrtMax := by
      by_contra hlt
      have hrun := hright.run
      rw [run, if_neg (by simp), fetchServerAttr, AttrQuery.attrVal_undefined (not_le.mp hlt)] at hrun
      cases hrun
    have hrefused : ¬c.Refused := fun h ↦ hcon ⟨hle, h⟩
    obtain ⟨w, hw, hlen, -⟩ := AttrQuery.attrVal_of_le hle
    obtain ⟨written, state, hset⟩ := c.run_set hne hrefused q
    have hsame := hright.same q hne
    rw [hset, Exec.done.injEq] at hsame
    obtain ⟨heq, hpos⟩ := c.run_fetched hw hrefused hright.run (by rw [← hsame])
    have hval : 0 < q.value.length := List.length_pos_iff.mpr hne
    rw [hlen] at heq
    unfold intToSqlsmallint at heq
    unfold shrtMax at heq hle hpos
    split_ifs at heq <;> omega
  · intro h
    have hle : q.value.length ≤ shrtMax := by
      obtain hnil | ⟨hle, -⟩ := h
      · rw [hnil]
        exact Nat.zero_le _
      · exact hle
    obtain ⟨out, hout, hlen, hterm⟩ := fetchServerAttr_of_le hle c.hasDest c.bufferLength
    by_cases hrefused : c.Refused
    · obtain ⟨w, hw, -, -⟩ := AttrQuery.attrVal_of_le hle
      have hboth : ∀ src, TextOut.writeWstr c.hasDest src c.room =
          ⟨.error, [], intToSqlsmallint (src.length * 2), some .sHY090⟩ := by
        intro src
        rw [hrefused.1]
        exact TextOut.writeWstr_refused hrefused.2 src
      refine ⟨⟨.error, [], none, .sHY090⟩, ?_, Nat.zero_le _, .inl rfl, fun q' hne ↦ ?_⟩
      · rw [run, if_neg (by simp), fetchServerAttr, hw, Exec.bind_done]
        rw [hboth]
        rfl
      · rw [run, if_pos fun h ↦ hne (List.eq_nil_of_length_eq_zero h)]
        rw [hboth]
        rfl
    · have hnil : q.value = [] := h.resolve_right fun h ↦ hrefused h.2
      have hrun : c.run [] q = (Exec.done out).bind fun out ↦
          if out.used < 0 then .done ⟨(out.posted.getD c.state).error.retcode, out.written, none,
            out.posted.getD c.state⟩
          else .done ⟨.success, out.written, some out.used, out.posted.getD c.state⟩ := by
        rw [← hout, run, if_neg (by simp)]
        rfl
      rw [Exec.bind_done] at hrun
      split_ifs at hrun
      · exact ⟨_, hrun, hlen, hterm, fun _ hne ↦ absurd hnil hne⟩
      · exact ⟨_, hrun, hlen, hterm, fun _ hne ↦ absurd hnil hne⟩

/-- The catalog `es`, asked for in a buffer of 64 bytes: four units from the server, two where it
was set.  A value of more than the driver's own buffer has no defined behaviour. -/
theorem not_right_es : ¬(∃ out, CatalogCall.Right ⟨.s00000, true, 64⟩
    ⟨0, [some (wstr "es")], fun _ ↦ 0⟩ out) ∧
    ¬(∃ out, CatalogCall.Right ⟨.s00000, true, 64⟩
      ⟨0, [some (List.replicate 32768 0x61)], fun _ ↦ 0⟩ out) := by
  constructor
  · rintro ⟨out, hright⟩
    have hset : CatalogCall.run ⟨.s00000, true, 64⟩ (wstr "es") ⟨0, [], fun _ ↦ 0⟩ =
        .done ⟨.success, wstr "es" ++ [0], some 2, .s00000⟩ := by decide +kernel
    have hsame := hright.same ⟨0, [], fun _ ↦ 0⟩ (by decide)
    have hvalue : AttrQuery.value ⟨0, [some (wstr "es")], fun _ ↦ 0⟩ = wstr "es" := rfl
    rw [hvalue, hset, Exec.done.injEq] at hsame
    obtain ⟨w, hw, hlen, -⟩ := AttrQuery.attrVal_of_le (q := ⟨0, [some (wstr "es")], fun _ ↦ 0⟩)
      (by decide)
    obtain ⟨heq, -⟩ := run_fetched _ hw (by decide) hright.run (by rw [← hsame])
    rw [hlen, hvalue] at heq
    exact absurd heq (by decide)
  · rintro ⟨out, hright⟩
    have hundefined : (AttrQuery.attrVal ⟨0, [some (List.replicate 32768 0x61)], fun _ ↦ 0⟩) =
        .undefined := by
      refine AttrQuery.attrVal_undefined ?_
      have hvalue : AttrQuery.value ⟨0, [some (List.replicate 32768 0x61)], fun _ ↦ 0⟩ =
        List.replicate 32768 0x61 := rfl
      rw [hvalue, List.length_replicate]
      decide
    have hrun := hright.run
    rw [run, if_neg (by simp), fetchServerAttr, hundefined] at hrun
    cases hrun

end CatalogCall

end EsOdbc

import EsOdbc.Targets.Strings
import EsOdbc.Timestamp.Agreement

/-!
# The limit for character columns

What the limit of a connection does to the strings that an application fetches: whole, in pieces and
again.
-/

namespace EsOdbc

/-! ## Calls -/

/-- A call that converts a string: of `SQLFetch`, or of `SQLGetData`. -/
structure HeldCall where
  getData : Bool
  context : StringContext
  target : StringTarget
  app : AppSide

/-- A string of the current row between the calls: its memory, the C type it is got as, if it is,
and `gd_offt`. -/
structure RowString where
  mem : WStr
  gdCtype : Option StringTarget
  gdOfft : ℤ

namespace RowString

/-- A string that no call has converted. -/
def fresh (w : WStr) : RowString := ⟨w, none, 0⟩

/-- The call goes on with the string. -/
def Resumed (held : RowString) (call : HeldCall) : Prop :=
  call.getData = true ∧ held.gdCtype = some call.target

instance (held : RowString) (call : HeldCall) : Decidable (held.Resumed call) :=
  inferInstanceAs (Decidable (_ ∧ _))

/-- The `gd_offt` of a call. -/
def offset (held : RowString) (call : HeldCall) : Option ℤ :=
  if call.getData then some (if held.Resumed call then held.gdOfft else 0) else none

/-- What `SQLGetData` keeps of a call; it forgets a call that fails. -/
def after (mem : WStr) (call : HeldCall) (out : StringFetched) : RowString :=
  if call.getData ∧ out.state.retcode.succeeded then ⟨mem, some call.target, out.gdOfft.getD 0⟩
  else ⟨mem, none, 0⟩

/-- A call on a string of a column: none is `SQL_NO_DATA`.  CBOR is decoded for every call, from
`answer`; the memory of a string in JSON is as the call before left it. -/
def call (limit : ℕ) (column : StringColumn) (answer : Option WStr) (c : HeldCall)
    (held : RowString) : Exec (Option StringFetched × RowString) :=
  if held.Resumed c ∧ held.gdOfft < 0 then .done (none, held)
  else
    let mem := answer.getD held.mem
    let read := sql2cString limit c.context column c.target mem (held.offset c) c.app
    read.2.bind fun out ↦ .done (some out, after read.1 c out)

/-- What a run of calls comes to. -/
def run (limit : ℕ) (column : StringColumn) (answer : Option WStr) :
    List HeldCall → RowString → Exec (List (Option StringFetched))
  | [], _ => .done []
  | c :: cs, held =>
    (held.call limit column answer c).bind fun r ↦
      (run limit column answer cs r.2).bind fun outs ↦ .done (r.1 :: outs)

end RowString

/-- What calls come to on a string that the server sends in a format. -/
def fetched (limit : ℕ) (column : StringColumn) (cbor : Bool) (w : WStr) (calls : List HeldCall) :
    Exec (List (Option StringFetched)) :=
  RowString.run limit column (if cbor then some w else none) calls (.fresh w)

/-- A character column is fetched as the value that is cut to the limit, applied any number of
times, and any other column as without a limit. -/
def CutsCharacters (limit : ℕ) (column : StringColumn) (w : WStr) : Prop :=
  varcharLimitApply limit (varcharLimitApply limit w).1 = varcharLimitApply limit w ∧
    ∀ cbor calls, fetched limit column cbor w calls =
      fetched 0 column cbor (if column.Character then varcharLimited limit w else w) calls

/-- The column is one of characters, or nothing of the value is cut. -/
def CutWhen (limit : ℕ) (column : StringColumn) (w : WStr) : Prop :=
  column.Character ∨ limit = 0 ∨ w.length ≤ limit

/-- A value that shows in a text that it is cut: a date that is cut in front of its end, and a
timestamp for the buffer of its translation. -/
def ShowsCut (limit : ℕ) (w : WStr) : StringColumn → Prop
  | .plain .date => limit < dateTemplateLen ∧ dateTemplateLen ≤ w.length
  | .plain .timestamp => isoMinLen ≤ w.length ∧ w.length ≤ translateRoom
  | _ => False

/-! ## The cut -/

theorem varcharLimited_zero (w : WStr) : varcharLimited 0 w = w := rfl

theorem varcharLimited_of_le {limit : ℕ} {w : WStr} (h : limit = 0 ∨ w.length ≤ limit) :
    varcharLimited limit w = w := by
  rcases h with rfl | h
  · rfl
  · unfold varcharLimited
    split_ifs
    · rfl
    · rfl

theorem varcharLimited_of_lt {limit : ℕ} {w : WStr} (hpos : 0 < limit) (h : limit < w.length) :
    varcharLimited limit w = w.take limit := by
  rw [varcharLimited, if_neg (Nat.not_le_of_lt hpos), if_neg (Nat.not_le_of_lt h)]

/-- The memory of a string that is cut is cut as before. -/
theorem varcharLimitApply_idem (limit : ℕ) (w : WStr) :
    varcharLimitApply limit (varcharLimitApply limit w).1 = varcharLimitApply limit w := by
  by_cases h : limit ≤ 0 ∨ w.length ≤ limit
  · have hkept : (varcharLimitApply limit w).1 = w := if_pos h
    rw [hkept]
  · push Not at h
    have hset : (varcharLimitApply limit w).1 = w.set limit 0 := if_neg (by omega)
    have hlength : limit < (w.set limit 0).length := by simpa using h.2
    refine Prod.ext ?_ ?_
    · rw [hset]
      show (if _ then _ else _) = _
      rw [if_neg (by omega), List.set_set]
    · show varcharLimited limit (varcharLimitApply limit w).1 = varcharLimited limit w
      rw [hset, varcharLimited_of_lt h.1 hlength, varcharLimited_of_lt h.1 h.2,
        List.take_set_of_le le_rfl]

/-! ## Runs -/

/-- The string under the limit. -/
def RowString.cut (limit : ℕ) (held : RowString) : RowString :=
  { held with mem := varcharLimited limit held.mem }

/-- A conversion of the value that is cut. -/
theorem sql2cString_cut (limit : ℕ) (s : StringContext) (column : StringColumn)
    (target : StringTarget) (mem : WStr) (gdOfft : Option ℤ) (app : AppSide) :
    (sql2cString 0 s column target (varcharLimited limit mem) gdOfft app).2 =
      (sql2cString limit s column target mem gdOfft app).2 := rfl

/-- What is left of a string is the same, under the limit. -/
theorem cut_after (limit : ℕ) (mem : WStr) (c : HeldCall) (out : StringFetched) :
    (RowString.after (varcharLimitApply limit mem).1 c out).cut limit =
      RowString.after (varcharLimited limit mem) c out := by
  have hmem : varcharLimited limit (varcharLimitApply limit mem).1 = varcharLimited limit mem :=
    congrArg Prod.snd (varcharLimitApply_idem limit mem)
  unfold RowString.after
  split_ifs
  · simp only [RowString.cut, hmem]
  · simp only [RowString.cut, hmem]

/-- A call on a string that is not at its end. -/
theorem call_eq {limit : ℕ} {column : StringColumn} {answer : Option WStr} {c : HeldCall}
    {held : RowString} {mem : WStr} (hmem : answer.getD held.mem = mem)
    (hend : ¬(held.Resumed c ∧ held.gdOfft < 0)) :
    held.call limit column answer c =
      (sql2cString limit c.context column c.target mem (held.offset c) c.app).2.bind fun out ↦
        .done (some out, RowString.after (varcharLimitApply limit mem).1 c out) := by
  subst hmem
  exact if_neg hend

/-- A call under the limit is one without on the value that is cut. -/
theorem call_cut (limit : ℕ) (column : StringColumn) (answer : Option WStr) (c : HeldCall)
    (held : RowString) :
    (held.cut limit).call 0 column (answer.map (varcharLimited limit)) c =
      (held.call limit column answer c).bind fun r ↦ .done (r.1, r.2.cut limit) := by
  have hmem : (answer.map (varcharLimited limit)).getD (held.cut limit).mem =
      varcharLimited limit (answer.getD held.mem) := by
    cases answer with
    | none => rfl
    | some w => rfl
  by_cases hend : held.Resumed c ∧ held.gdOfft < 0
  · have hcut : (held.cut limit).Resumed c ∧ (held.cut limit).gdOfft < 0 := hend
    rw [RowString.call, if_pos hcut, RowString.call, if_pos hend]
    rfl
  · have hcut : ¬((held.cut limit).Resumed c ∧ (held.cut limit).gdOfft < 0) := hend
    have hoffset : (held.cut limit).offset c = held.offset c := rfl
    generalize hheld : answer.getD held.mem = mem at hmem
    rw [call_eq hheld hend, call_eq hmem hcut, hoffset, sql2cString_cut]
    cases (sql2cString limit c.context column c.target mem (held.offset c) c.app).2 with
    | undefined => rfl
    | exhausted => rfl
    | done out =>
      exact congrArg (fun left ↦ Exec.done (some out, left)) (cut_after limit mem c out).symm

/-- A run under the limit is one without on the value that is cut. -/
theorem run_cut (limit : ℕ) (column : StringColumn) (answer : Option WStr) (calls : List HeldCall)
    (held : RowString) :
    (held.cut limit).run 0 column (answer.map (varcharLimited limit)) calls =
      held.run limit column answer calls := by
  induction calls generalizing held with
  | nil => rfl
  | cons c cs ih =>
    unfold RowString.run
    rw [call_cut]
    cases held.call limit column answer c with
    | undefined => rfl
    | exhausted => rfl
    | done r =>
      show ((r.2.cut limit).run 0 column (answer.map (varcharLimited limit)) cs).bind _ = _
      rw [ih]
      rfl

/-- Whatever the column, it is fetched as the value that is cut. -/
theorem fetched_cut (limit : ℕ) (column : StringColumn) (cbor : Bool) (w : WStr)
    (calls : List HeldCall) :
    fetched limit column cbor w calls = fetched 0 column cbor (varcharLimited limit w) calls := by
  cases cbor with
  | false => exact (run_cut limit column none calls (.fresh w)).symm
  | true => exact (run_cut limit column (some w) calls (.fresh w)).symm

theorem cutsCharacters_iff {limit : ℕ} {column : StringColumn} {w : WStr} :
    CutsCharacters limit column w ↔ (¬column.Character → ∀ cbor calls,
      fetched 0 column cbor (varcharLimited limit w) calls = fetched 0 column cbor w calls) := by
  constructor
  · intro h hcolumn cbor calls
    rw [← fetched_cut, h.2 cbor calls, if_neg hcolumn]
  · intro h
    refine ⟨varcharLimitApply_idem limit w, ?_⟩
    intro cbor calls
    rw [fetched_cut]
    by_cases hcolumn : column.Character
    · rw [if_pos hcolumn]
    · rw [if_neg hcolumn, h hcolumn cbor calls]

/-! ## What shows -/

/-- A call of `SQLFetch` that asks for the length of a text, on a connection without time zones. -/
def askLength (today : IsoDate) : HeldCall where
  getData := false
  context :=
    { zone := ⟨false, today, some, some⟩, junk := [], octets := ⟨false, 0, 0⟩,
      arec := ⟨⟨0, Nat.zero_lt_succ 9⟩, 2⟩, irec := ⟨⟨0, Nat.zero_lt_succ 9⟩, 2⟩, precision := 0,
      scale := 0, dst := ⟨0, 0, 0, List.replicate 16 0, rfl⟩ }
  target := .wchar
  app := ⟨none, some 0⟩

/-- The length of a text that a call asks for. -/
def toldLength (n : ℕ) : Exec (List (Option StringFetched)) :=
  .done [some ⟨⟨.s00000, ⟨none, some (n * 2 : ℕ)⟩, none⟩, none⟩]

/-- What the state of a text is that cannot be translated. -/
def toldError : Exec (List (Option StringFetched)) :=
  .done [some ⟨⟨.sHY000, ⟨none, some 0⟩, none⟩, none⟩]

theorem toldLength_inj {m n : ℕ} (h : toldLength m = toldLength n) : m = n := by
  simp only [toldLength, Exec.done.injEq, List.cons.injEq, Option.some.injEq,
    StringFetched.mk.injEq, Transferred.mk.injEq, AppSide.mk.injEq, Nat.cast_inj] at h
  omega

theorem toldLength_ne (n : ℕ) : toldLength n ≠ toldError := by
  intro h
  simp [toldLength, toldError] at h

/-- What is asked of a string is what `wstr_to_string` comes to. -/
theorem asked_eq {today : IsoDate} {column : DateTimeColumn} {w : WStr} {sent : Transferred}
    (h : wstrToString ⟨false, today, some, some⟩ [] ⟨false, 0, 0⟩ .wide column w none
      ⟨none, some 0⟩ = .done sent) (cbor : Bool) :
    fetched 0 (.plain column) cbor w [askLength today] = .done [some ⟨sent, none⟩] := by
  have hmem : ((if cbor then some w else none).getD w : WStr) = w := by cases cbor <;> rfl
  unfold fetched RowString.run
  rw [call_eq hmem (by simp [RowString.Resumed, askLength])]
  show (((wstrToString ⟨false, today, some, some⟩ [] ⟨false, 0, 0⟩ .wide column w none
    ⟨none, some 0⟩).bind _).bind _).bind _ = _
  rw [h]
  rfl

/-- A text is told by its length. -/
theorem asked_ok {today : IsoDate} {column : DateTimeColumn} {w text : WStr}
    (h : (translated ⟨false, today, some, some⟩ [] column w).1 = ⟨.ok text, false⟩) (cbor : Bool) :
    fetched 0 (.plain column) cbor w [askLength today] = toldLength text.length := by
  refine asked_eq ?_ cbor
  dsimp only [wstrToString]
  rw [h]
  rfl

theorem asked_error {today : IsoDate} {column : DateTimeColumn} {w : WStr}
    (h : (translated ⟨false, today, some, some⟩ [] column w).1 = ⟨.error .sHY000, false⟩)
    (cbor : Bool) : fetched 0 (.plain column) cbor w [askLength today] = toldError := by
  refine asked_eq ?_ cbor
  dsimp only [wstrToString]
  rw [h]
  rfl

/-- A date is told, if it is long enough. -/
theorem asked_date (today : IsoDate) (cbor : Bool) (w : WStr) :
    fetched 0 (.plain .date) cbor w [askLength today] =
      if w.length < dateTemplateLen then toldError else toldLength dateTemplateLen := by
  have htranslated : (translated ⟨false, today, some, some⟩ [] .date w).1 =
      translateDateIso8601ToSql w := rfl
  split_ifs with h
  · exact asked_error (htranslated.trans (if_pos h)) cbor
  · have hlength : (w.take dateTemplateLen).length = dateTemplateLen := by
      rw [List.length_take, min_eq_left (not_lt.mp h)]
    have hok := asked_ok (htranslated.trans (if_neg h)) cbor
    rwa [hlength] at hok

/-- A timestamp is told without its last unit, if it is long enough. -/
theorem asked_timestamp (today : IsoDate) (cbor : Bool) {w : WStr}
    (hroom : w.length ≤ translateRoom) :
    fetched 0 (.plain .timestamp) cbor w [askLength today] =
      if w.length < isoMinLen then toldError else toldLength (w.length - 1) := by
  have hroom' : translateRoom = 56 := rfl
  have hbound : w.length < 2 ^ 31 := by omega
  have hn := intLength_of_lt hbound
  have htranslated : (translated ⟨false, today, some, some⟩ [] .timestamp w).1 =
      translateTimestampIso8601ToSql ⟨false, today, some, some⟩ w := by simp only [translated]
  split_ifs with h
  · have hshort : intLength w < isoMinLen := by
      rw [hn]
      exact_mod_cast h
    exact asked_error (htranslated.trans (translateTimestamp_short rfl hshort)) cbor
  · have hlong : ¬intLength w < isoMinLen := by
      rw [hn]
      exact_mod_cast h
    have hwithin : decide ((translateRoom : ℤ) < intLength w) = false := by
      rw [hn]
      exact decide_eq_false (not_lt.mpr (by exact_mod_cast hroom))
    have htext := htranslated.trans (translateTimestamp_long rfl hlong)
    rw [hwithin, hn, Int.toNat_natCast, List.take_length] at htext
    rw [asked_ok htext cbor, List.length_take, List.length_set, min_eq_left (Nat.sub_le _ _)]

/-- A cut that shows makes a difference. -/
theorem told_apart {limit : ℕ} {column : StringColumn} {w : WStr} (today : IsoDate)
    (hshows : ShowsCut limit w column) (hcut : 0 < limit ∧ limit < w.length) :
    ∃ calls, fetched 0 column false (varcharLimited limit w) calls ≠
      fetched 0 column false w calls := by
  have hlength : (w.take limit).length = limit := by rw [List.length_take, min_eq_left hcut.2.le]
  refine ⟨[askLength today], ?_⟩
  rw [varcharLimited_of_lt hcut.1 hcut.2]
  cases column with
  | interval t => exact hshows.elim
  | plain column =>
    cases column with
    | date =>
      rw [asked_date, asked_date, hlength, if_pos hshows.1, if_neg (not_lt.mpr hshows.2)]
      exact (toldLength_ne _).symm
    | timestamp =>
      rw [asked_timestamp today false (hlength.trans_le (hcut.2.le.trans hshows.2)),
        asked_timestamp today false hshows.2, hlength, if_neg (not_lt.mpr hshows.1)]
      split_ifs with h
      · exact (toldLength_ne _).symm
      · intro heq
        have hsub := toldLength_inj heq
        have hmin : 20 ≤ limit := not_lt.mp h
        omega
    | time => exact hshows.elim
    | varchar => exact hshows.elim
    | char => exact hshows.elim
    | other => exact hshows.elim

/-! ## The limit -/

/-- The limit cuts the columns of characters only, if the column is one or nothing of the value is
cut; for dates and timestamps that show it, only then. -/
theorem cutsCharacters_of_cutWhen (limit : ℕ) (column : StringColumn) (w : WStr) (today : IsoDate) :
    (CutWhen limit column w → CutsCharacters limit column w) ∧
      (ShowsCut limit w column → CutsCharacters limit column w → CutWhen limit column w) := by
  rw [cutsCharacters_iff]
  constructor
  · rintro (hcolumn | hcut) hother
    · exact absurd hcolumn hother
    · rw [varcharLimited_of_le hcut]
      exact fun cbor calls ↦ rfl
  · intro hshows hsame
    by_contra hcut
    obtain ⟨hcolumn, hzero, hlong⟩ : ¬column.Character ∧ limit ≠ 0 ∧ ¬w.length ≤ limit := by
      simpa only [CutWhen, not_or] using hcut
    obtain ⟨calls, hne⟩ := told_apart today hshows ⟨Nat.pos_of_ne_zero hzero, not_le.mp hlong⟩
    exact hne (hsame hcolumn false calls)

/-- A date that is cut is no date. -/
theorem not_cutsCharacters_date : ¬CutsCharacters 5 (.plain .date)
    [0x32, 0x30, 0x32, 0x34, 0x2D, 0x30, 0x33, 0x2D, 0x30, 0x31] := by
  intro h
  have hdate := h.2 false [askLength
    ⟨⟨2024, 3, 1, by decide, by decide, by decide, by decide, by decide⟩, by decide, by decide⟩]
  rw [fetched_cut, asked_date, if_pos (by decide), if_neg (by decide), asked_date,
    if_neg (by decide)] at hdate
  exact toldLength_ne _ hdate.symm

end EsOdbc

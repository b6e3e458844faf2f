import EsOdbc.Targets.Text
import EsOdbc.Timestamp.Fetched

/-!
# Texts that are cut

Numbers, dates and times fetched as texts: what the application's buffer holds, and when nothing of
their significant part is cut off.
-/

namespace EsOdbc

open Binary

/-! ## What a buffer holds -/

/-- A unit of ASCII that is no terminator. -/
def PlainUnits (w : WStr) : Prop := ∀ c ∈ w, c ≠ 0 ∧ c ≤ 127

/-- The memory starts with the text and its terminator. -/
def Holds (width : Width) (app : AppSide) (text : WStr) : Prop :=
  ∃ mem, app.data = some mem ∧ width.bytes (text ++ [0]) <+: mem

/-- The text is there whole, or with a warning cut behind its significant units, or is refused. -/
def KeptText (width : Width) (text : WStr) (significant : ℕ) (out : Exec Transferred) : Prop :=
  ∃ sent, out = .done sent ∧
    ((sent.state = .s00000 ∧ Holds width sent.app text) ∨
      (sent.state = .s01004 ∧ ∃ k, significant ≤ k ∧ k ≤ text.length ∧
        Holds width sent.app (text.take k)) ∨ sent.state = .s22003)

/-- The column of a value and its text. -/
def ServerValue.column : ServerValue → DateTimeColumn
  | plainDate _ => .date
  | date _ => .date
  | timestamp _ => .timestamp
  | time _ => .time

@[inherit_doc ServerValue.column]
def ServerValue.text : ServerValue → WStr
  | plainDate d => dateText d.toDate
  | date s => s.text
  | timestamp s => s.text
  | time t => t.text

/-- A value that is fetched as a text. -/
inductive TextValue where
  | integer (qword : UInt64) (unsignd : Bool)
  | double (dbl : Double) (prec : ℕ) (sciFloats : SciFloats)
  | dateTime (x : ServerValue)

namespace TextValue

/-- The value is fetched into a buffer: its column has no character data. -/
def fetch (ctx : ZoneContext) (junk : WStr) (maxLength : ℕ) (width : Width) (mem : List UInt8)
    (octetLen : Option ℤ) (x : TextValue) : Exec Transferred :=
  let c : OctetContext := ⟨false, maxLength, mem.length⟩
  match x with
  | integer qword unsignd => quadwordToStr c width qword unsignd none ⟨some mem, octetLen⟩
  | double dbl prec sciFloats => doubleToStr c width sciFloats prec dbl none ⟨some mem, octetLen⟩
  | dateTime x => wstrToString ctx junk c width x.column x.text none ⟨some mem, octetLen⟩

/-- The whole text, if there is one. -/
def wholeText (ctx : ZoneContext) (junk : WStr) : TextValue → Option WStr
  | integer qword unsignd => some (if unsignd then ui64tot qword.toNat else i64tot qword.toInt64.toInt)
  | double dbl prec sciFloats => some (doubleText sciFloats prec dbl)
  | dateTime x => (translated ctx junk x.column x.text).1.result.toOption

/-- The units that may not be cut: all of an integer and of a number in scientific notation, those in
front of the point of any other, and what is up to the seconds, three units behind the last colon. -/
def significant (text : WStr) : TextValue → ℕ
  | integer .. => text.length
  | double dbl _ sciFloats =>
    if floatsRep sciFloats dbl then text.length else (text.takeWhile (· ≠ 0x2E)).length
  | dateTime x => if x.column = .date then text.length else text.findIdx (· = 0x3A) + 6

/-- The text is kept in a buffer. -/
def Keeps (ctx : ZoneContext) (junk : WStr) (maxLength : ℕ) (width : Width) (mem : List UInt8)
    (octetLen : Option ℤ) (x : TextValue) : Prop :=
  ∃ text, x.wholeText ctx junk = some text ∧
    KeptText width text (x.significant text) (x.fetch ctx junk maxLength width mem octetLen)

/-- When nothing significant is cut off in a buffer of `cap` units. -/
def KeptWhen (ctx : ZoneContext) (junk : WStr) (width : Width) (cap : ℕ) (text : WStr) :
    TextValue → Prop
  | integer .. => True
  | x@(double dbl prec sciFloats) =>
    (width = .wide → text.length ≤ dblBase10MaxLen) ∧
    if text.length < cap then text.length ≤ dblBase10MaxLen
    else floatsRep sciFloats dbl = true ∨ cap < wholeCnt text.length prec ∨
      (x.significant text < cap ∧ cap ≤ dblBase10MaxLen + 1)
  | x@(dateTime v) =>
    (translated ctx junk v.column v.text).1.outside = false ∧
      (text.length < cap ∨ cap < (translated ctx junk v.column v.text).2 ∨ x.significant text < cap)

end TextValue

/-! ## Sizes -/

theorem Width.usize_pos (width : Width) : 0 < width.usize := by
  cases width with
  | narrow => exact Nat.one_pos
  | wide => exact Nat.two_pos

/-- How many units are copied of a column that has no character data, and whether it is less than all. -/
theorem buffOctetSize_units {c : OctetContext} (hc : c.limited = false) (n : ℕ) (width : Width) :
    c.buffOctetSize (n * width.usize) width.usize =
      (min (c.room / width.usize) n * width.usize, decide (c.room / width.usize < n)) := by
  have hu := width.usize_pos
  have hmax : c.max = 0 := by
    rw [OctetContext.max, hc]
    rfl
  have hless : c.room < n * width.usize ↔ c.room / width.usize < n :=
    (Nat.div_lt_iff_lt_mul hu).symm
  have halign : ∀ k, k - k % width.usize = k / width.usize * width.usize := by
    intro k
    rw [Nat.mul_comm]
    exact (Nat.sub_eq_of_eq_add (Nat.div_add_mod k width.usize).symm)
  rw [OctetContext.buffOctetSize, hmax]
  simp only [lt_irrefl, false_and, if_false, halign, hless]
  by_cases h : c.room / width.usize < n
  · rw [if_pos h, min_eq_left h.le]
  · rw [if_neg h, min_eq_right (not_lt.mp h), Nat.mul_div_cancel _ hu]

namespace Width

variable (width : Width)

theorem length_unitBytes (c : UInt16) : (width.unitBytes c).length = width.usize := by
  cases width with
  | narrow => rfl
  | wide => exact LittleEndian.length_intBytes 2 _

theorem bytes_append (v w : WStr) : width.bytes (v ++ w) = width.bytes v ++ width.bytes w :=
  List.flatMap_append

theorem bytes_cons (c : UInt16) (w : WStr) : width.bytes (c :: w) = width.unitBytes c ++ width.bytes w :=
  List.flatMap_cons

theorem length_bytes (w : WStr) : (width.bytes w).length = w.length * width.usize := by
  induction w with
  | nil => exact (Nat.zero_mul _).symm
  | cons c w ih =>
    rw [bytes_cons, List.length_append, ih, length_unitBytes, List.length_cons, Nat.succ_mul,
      Nat.add_comm]

/-- The bytes of the first units. -/
theorem take_bytes (k : ℕ) (w : WStr) :
    (width.bytes w).take (k * width.usize) = width.bytes (w.take k) := by
  have hsplit : width.bytes w = width.bytes (w.take k) ++ width.bytes (w.drop k) := by
    rw [← bytes_append, List.take_append_drop]
  by_cases hk : k ≤ w.length
  · have hlen : (width.bytes (w.take k)).length = k * width.usize := by
      rw [length_bytes, List.length_take, min_eq_left hk]
    rw [hsplit, ← hlen, List.take_left]
  · have hle := (not_le.mp hk).le
    rw [List.take_of_length_le hle, List.take_of_length_le]
    rw [length_bytes]
    exact Nat.mul_le_mul_right _ hle

/-- A unit of ASCII is given by its bytes. -/
theorem unitBytes_injective {c d : UInt16} (hc : c ≤ 127) (hd : d ≤ 127)
    (h : width.unitBytes c = width.unitBytes d) : c = d := by
  have hc' : c.toNat ≤ 127 := hc
  have hd' : d.toNat ≤ 127 := hd
  refine UInt16.toNat_inj.mp ?_
  cases width with
  | narrow =>
    have hbyte := congrArg UInt8.toNat (List.cons.inj h).1
    rw [UInt16.toNat_toUInt8, UInt16.toNat_toUInt8] at hbyte
    omega
  | wide =>
    have hhead := congrArg (fun bs : List UInt8 ↦ (bs.head?.getD 0).toNat) h
    have hform : ∀ n : ℕ, (((LittleEndian.intBytes 2 n).head?.getD 0).toNat) = n % 2 ^ 16 % 256 := by
      intro n
      simp [LittleEndian.intBytes, LittleEndian.bytes]
      omega
    rw [unitBytes, unitBytes] at hhead
    simp only [hform] at hhead
    omega

/-- What memory starts with is one unit. -/
theorem unitBytes_of_prefix {c d : UInt16} {bs bs' mem : List UInt8}
    (h : width.unitBytes c ++ bs <+: mem) (h' : width.unitBytes d ++ bs' <+: mem) :
    width.unitBytes c = width.unitBytes d := by
  have hlen : (width.unitBytes c).length = (width.unitBytes d).length := by
    rw [length_unitBytes, length_unitBytes]
  have hpre := List.prefix_of_prefix_length_le ((List.prefix_append _ _).trans h)
    ((List.prefix_append _ _).trans h') hlen.le
  exact hpre.eq_of_length hlen

end Width

/-- A buffer holds one text. -/
theorem holds_unique {width : Width} {app : AppSide} {v w : WStr} (hv : PlainUnits v)
    (hw : PlainUnits w) (h : Holds width app v) (h' : Holds width app w) : v = w := by
  obtain ⟨mem, hmem, hpre⟩ := h
  obtain ⟨mem', hmem', hpre'⟩ := h'
  obtain rfl := Option.some.inj (hmem.symm.trans hmem')
  clear hmem hmem' app
  induction v generalizing w mem with
  | nil =>
    cases w with
    | nil => rfl
    | cons d w =>
      rw [List.nil_append, Width.bytes_cons] at hpre
      rw [List.cons_append, Width.bytes_cons] at hpre'
      have hunits := width.unitBytes_of_prefix hpre hpre'
      have hd := hw d List.mem_cons_self
      exact absurd (width.unitBytes_injective (by decide) hd.2 hunits).symm hd.1
  | cons c v ih =>
    have hc := hv c List.mem_cons_self
    cases w with
    | nil =>
      rw [List.nil_append, Width.bytes_cons] at hpre'
      rw [List.cons_append, Width.bytes_cons] at hpre
      have hunits := width.unitBytes_of_prefix hpre' hpre
      exact absurd (width.unitBytes_injective (by decide) hc.2 hunits).symm hc.1
    | cons d w =>
      have hd := hw d List.mem_cons_self
      rw [List.cons_append, Width.bytes_cons] at hpre hpre'
      have hunits := width.unitBytes_of_prefix hpre hpre'
      obtain rfl := width.unitBytes_injective hc.2 hd.2 hunits
      obtain ⟨rest, rfl⟩ := (List.prefix_append _ _).trans hpre
      rw [List.prefix_append_right_inj] at hpre hpre'
      rw [ih (fun c hc ↦ hv c (List.mem_cons_of_mem _ hc))
        (fun c hc ↦ hw c (List.mem_cons_of_mem _ hc)) rest hpre hpre']

/-! ## What is sent -/

/-- A text is sent into a buffer of `cap` units: whole, or what fits with its terminator and a warning. -/
def SendsText (width : Width) (mem : List UInt8) (cap : ℕ) (text : WStr) (out : Exec Transferred) : Prop :=
  ∃ app, out = .done ⟨if text.length < cap then .s00000 else .s01004, app, none⟩ ∧
    (cap = 0 → app.data = some mem) ∧ (0 < cap → Holds width app (text.take (cap - 1)))

theorem exists_store {app : AppSide} {mem : List UInt8} (happ : app.data = some mem) {pos : ℕ}
    {bs : List UInt8} (h : pos + bs.length ≤ mem.length) :
    ∃ mem', Buffer.store mem pos bs = some mem' ∧
      app.store pos bs = .done { app with data := some mem' } := by
  obtain ⟨mem', hstore⟩ := Buffer.exists_store mem pos bs h
  refine ⟨mem', hstore, ?_⟩
  rw [AppSide.store, happ, Option.bind_some, hstore]
  rfl

theorem transferXstr0_sends {c : OctetContext} (hc : c.limited = false) (width : Width) (src : WStr)
    {mem : List UInt8} (hroom : c.room = mem.length) (octetLen : Option ℤ) :
    SendsText width mem (mem.length / width.usize) src
      (transferXstr0 c width src none ⟨some mem, octetLen⟩) := by
  have hu := width.usize_pos
  have hsize := buffOctetSize_units hc (src.length + 1) width
  rw [hroom] at hsize
  generalize hcap : mem.length / width.usize = cap at hsize ⊢
  have hfit : cap * width.usize ≤ mem.length := hcap ▸ Nat.div_mul_le_self _ _
  have hstate : (if decide (cap < src.length + 1) = true then SqlState.s01004 else .s00000) =
      if src.length < cap then .s00000 else .s01004 := by
    by_cases h : src.length < cap
    · rw [if_pos h, if_neg (by rw [decide_eq_true_eq]; omega)]
    · rw [if_neg h, if_pos (by rw [decide_eq_true_eq]; omega)]
  have hnone : gdOffsetApply none src = .done src := rfl
  have hdata : ((⟨some mem, octetLen⟩ : AppSide).writeOutOctets c (src.length * width.usize)).data =
    some mem := rfl
  rw [SendsText, transferXstr0, hnone, Exec.bind_done]
  dsimp only
  rw [hsize]
  dsimp only
  rw [hstate, if_neg (by rw [hdata]; exact Option.some_ne_none _)]
  generalize (⟨some mem, octetLen⟩ : AppSide).writeOutOctets c (src.length * width.usize) = app at hdata
  by_cases hzero : cap = 0
  · subst hzero
    rw [Nat.zero_min, Nat.zero_mul, if_pos rfl]
    exact ⟨app, rfl, fun _ ↦ hdata, fun h ↦ absurd h (Nat.lt_irrefl 0)⟩
  have hpos : 0 < cap := Nat.pos_of_ne_zero hzero
  have hcount : min cap (src.length + 1) * width.usize ≠ 0 := by
    refine (Nat.mul_pos ?_ hu).ne'
    omega
  rw [if_neg hcount, width.take_bytes, Nat.mul_div_cancel _ hu]
  have hlen : 0 + (width.bytes ((src ++ [0]).take (min cap (src.length + 1)))).length ≤ mem.length := by
    rw [Nat.zero_add, width.length_bytes]
    refine (Nat.mul_le_mul_right _ ?_).trans hfit
    exact (List.length_take_le _ _).trans (min_le_left _ _)
  obtain ⟨mem', hmem', hstored⟩ := exists_store hdata hlen
  have hpre : width.bytes ((src ++ [0]).take (min cap (src.length + 1))) <+: mem' :=
    Buffer.prefix_store (List.nil_prefix (l := mem)) hmem'
  rw [hstored, Exec.bind_done]
  by_cases hwhole : src.length < cap
  · rw [if_neg (by rw [decide_eq_true_eq]; omega), Exec.bind_done]
    refine ⟨_, rfl, fun h ↦ absurd h hzero, fun _ ↦ ⟨mem', rfl, ?_⟩⟩
    have hall : (src ++ [0]).take (min cap (src.length + 1)) = src ++ [0] := by
      rw [min_eq_right hwhole, List.take_of_length_le]
      rw [List.length_append, List.length_singleton]
    rw [hall] at hpre
    rwa [List.take_of_length_le (by omega)]
  · have hcut : min cap (src.length + 1) = cap := min_eq_left (by omega)
    rw [hcut] at hpre ⊢
    rw [if_pos (by rw [decide_eq_true_eq]; omega)]
    have hlen' : (cap - 1) * width.usize + (width.unitBytes 0).length ≤ mem'.length := by
      rw [width.length_unitBytes, Buffer.length_store hmem', ← Nat.succ_mul]
      refine (Nat.mul_le_mul_right _ ?_).trans hfit
      omega
    obtain ⟨mem'', hmem'', hstored'⟩ :=
      @exists_store { app with data := some mem' } mem' rfl ((cap - 1) * width.usize)
        (width.unitBytes 0) hlen'
    rw [hstored', Exec.bind_done]
    refine ⟨_, rfl, fun h ↦ absurd h hzero, fun _ ↦ ⟨mem'', rfl, ?_⟩⟩
    have hfirst : width.bytes (src.take (cap - 1)) <+: mem' := by
      refine List.IsPrefix.trans ?_ hpre
      have hsplit : (src ++ [0]).take cap =
          src.take (cap - 1) ++ ((src ++ [0]).take cap).drop (cap - 1) := by
        have htake : ((src ++ [0]).take cap).take (cap - 1) = src.take (cap - 1) := by
          rw [List.take_take, min_eq_left (Nat.sub_le _ _), List.take_append_of_le_length (by omega)]
        rw [← htake, List.take_append_drop]
      rw [hsplit, width.bytes_append]
      exact List.prefix_append _ _
    have hpos' : (width.bytes (src.take (cap - 1))).length = (cap - 1) * width.usize := by
      rw [width.length_bytes, List.length_take, min_eq_left (by omega)]
    rw [← hpos'] at hmem''
    have hfinal := Buffer.prefix_store hfirst hmem''
    have hone : width.bytes [0] = width.unitBytes 0 := List.append_nil _
    rw [width.bytes_append, hone]
    exact hfinal

/-! ## Narrow texts -/

theorem narrow_bytes (w : WStr) : Width.narrow.bytes w = w.map UInt16.toUInt8 := by
  induction w with
  | nil => rfl
  | cons c w ih =>
    rw [Width.bytes_cons, ih]
    rfl

theorem utf8_plain {c : UInt16} (h : c ≤ 127) : Utf.utf8 [Char.ofNat c.toNat] = [c.toUInt8] := by
  have hall : ∀ n : Fin 128, Utf.utf8 [Char.ofNat n.val] = [(UInt16.ofNat n.val).toUInt8] := by
    decide +kernel
  have hlt : c.toNat < 128 := Nat.lt_succ_of_le h
  have hc := hall ⟨c.toNat, hlt⟩
  rwa [UInt16.ofNat_toNat] at hc

theorem not_surrogate_plain {c : UInt16} (h : c ≤ 127) : Utf.isHigh c = false ∧ Utf.isLow c = false := by
  have hc : c.toNat ≤ 127 := h
  constructor
  · rw [Utf.isHigh, decide_eq_false (by omega), Bool.false_and]
  · rw [Utf.isLow, decide_eq_false (by omega), Bool.false_and]

/-- Units of ASCII are one byte each. -/
theorem u16wcToMbu8Into_plain {w : WStr} (h : ∀ c ∈ w, c ≤ 127) (room : ℕ) :
    u16wcToMbu8Into room w =
      if room < w.length then .error .room else .ok (Width.narrow.bytes w) := by
  induction w generalizing room with
  | nil => rfl
  | cons c w ih =>
    have hc := h c List.mem_cons_self
    have hw := ih fun d hd ↦ h d (List.mem_cons_of_mem _ hd)
    obtain ⟨hhigh, hlow⟩ := not_surrogate_plain hc
    cases w with
    | nil =>
      rw [u16wcToMbu8Into, hhigh, hlow, utf8_plain hc]
      rfl
    | cons d w =>
      rw [u16wcToMbu8Into, hhigh, hlow, utf8_plain hc]
      simp only [Bool.false_eq_true, if_false, List.length_nil, List.length_cons, Nat.zero_add, hw]
      by_cases hroom : room < 1
      · rw [if_pos hroom, if_pos (by omega)]
      · rw [if_neg hroom]
        by_cases hrest : room - 1 < w.length + 1
        · rw [if_pos hrest, if_pos (by omega)]
          rfl
        · rw [if_neg hrest, if_neg (by omega)]
          rfl

/-- The longest start that fits is taken. -/
theorem trimToFit_plain {src : WStr} (h : ∀ c ∈ src, c ≤ 127) {room m : ℕ} (hroom : 0 < room)
    (hm : room ≤ m) (hlen : m ≤ src.length) :
    trimToFit src room m = .done (.ok (room, Width.narrow.bytes (src.take room))) := by
  induction m, hm using Nat.le_induction with
  | base =>
    obtain ⟨k, rfl⟩ : ∃ k, room = k + 1 := Nat.exists_eq_succ_of_ne_zero hroom.ne'
    have hplain : ∀ c ∈ src.take (k + 1), c ≤ 127 := fun c hc ↦ h c (List.mem_of_mem_take hc)
    have hconv := u16wcToMbu8Into_plain hplain (k + 1)
    rw [if_neg (by rw [List.length_take]; omega)] at hconv
    rw [trimToFit, hconv]
  | succ m hm ih =>
    have hplain : ∀ c ∈ src.take (m + 1), c ≤ 127 := fun c hc ↦ h c (List.mem_of_mem_take hc)
    have hconv := u16wcToMbu8Into_plain hplain room
    rw [if_pos (by rw [List.length_take]; omega)] at hconv
    rw [trimToFit, hconv]
    exact ih (by omega)

theorem wstrToCstr_sends {c : OctetContext} (hc : c.limited = false) {src : WStr} (hplain : PlainUnits src)
    {mem : List UInt8} (hroom : c.room = mem.length) (octetLen : Option ℤ) :
    SendsText .narrow mem mem.length src (wstrToCstr c src none ⟨some mem, octetLen⟩) := by
  have hnone : gdOffsetApply none src = .done src := rfl
  have hascii : ∀ c ∈ src ++ [0], c ≤ 127 := by
    intro c hc
    obtain hc | hc := List.mem_append.mp hc
    · exact (hplain c hc).2
    · rw [List.mem_singleton.mp hc]
      decide
  have hall : (src ++ [0]).length = src.length + 1 := by rw [List.length_append, List.length_singleton]
  have hconv := u16wcToMbu8Into_plain hascii (3 * (src.length + 1))
  rw [if_neg (by omega)] at hconv
  have hbytes : (Width.narrow.bytes (src ++ [0])).length = src.length + 1 := by
    rw [Width.length_bytes, hall]
    exact Nat.mul_one _
  have hsize := buffOctetSize_units hc (src.length + 1) .narrow
  rw [hroom] at hsize
  simp only [Width.usize, Nat.mul_one, Nat.div_one] at hsize
  generalize hcap : mem.length = cap at hsize ⊢
  have hstate : (if decide (cap < src.length + 1) = true then SqlState.s01004 else .s00000) =
      if src.length < cap then .s00000 else .s01004 := by
    by_cases h : src.length < cap
    · rw [if_pos h, if_neg (by rw [decide_eq_true_eq]; omega)]
    · rw [if_neg h, if_pos (by rw [decide_eq_true_eq]; omega)]
  have hdata : ((⟨some mem, octetLen⟩ : AppSide).writeOutOctets c (src.length + 1 - 1)).data =
    some mem := rfl
  rw [SendsText, wstrToCstr, hnone, Exec.bind_done, hconv]
  dsimp only
  rw [hbytes, hsize]
  dsimp only
  rw [hstate, if_neg (by rw [hdata]; exact Option.some_ne_none _)]
  generalize (⟨some mem, octetLen⟩ : AppSide).writeOutOctets c (src.length + 1 - 1) = app at hdata
  by_cases hzero : cap = 0
  · subst hzero
    rw [Nat.zero_min, if_pos rfl]
    exact ⟨app, rfl, fun _ ↦ hdata, fun h ↦ absurd h (Nat.lt_irrefl 0)⟩
  have hpos : 0 < cap := Nat.pos_of_ne_zero hzero
  rw [if_neg (by omega), trimToFit_plain hascii (by omega) (min_le_right _ _) hall.ge, Exec.bind_done]
  dsimp only
  have hkept : (Width.narrow.bytes ((src ++ [0]).take (min cap (src.length + 1)))).length =
      min cap (src.length + 1) := by
    rw [Width.length_bytes, List.length_take, hall, min_eq_left (min_le_right _ _)]
    exact Nat.mul_one _
  obtain ⟨mem', hmem', hstored⟩ := @exists_store app mem hdata 0
    (Width.narrow.bytes ((src ++ [0]).take (min cap (src.length + 1)))) (by omega)
  have hpre : Width.narrow.bytes ((src ++ [0]).take (min cap (src.length + 1))) <+: mem' :=
    Buffer.prefix_store (List.nil_prefix (l := mem)) hmem'
  rw [hstored, Exec.bind_done]
  by_cases hwhole : src.length < cap
  · have htake : (src ++ [0]).take (min cap (src.length + 1)) = src ++ [0] := by
      rw [min_eq_right hwhole, List.take_of_length_le hall.le]
    have hlast : (Width.narrow.bytes ((src ++ [0]).take (min cap (src.length + 1)))).getLast? =
        some 0 := by
      rw [htake, narrow_bytes, List.map_append]
      exact List.getLast?_concat
    rw [if_pos hlast]
    refine ⟨_, rfl, fun h ↦ absurd h hzero, fun _ ↦ ⟨mem', rfl, ?_⟩⟩
    rw [htake] at hpre
    rwa [List.take_of_length_le (by omega)]
  · have hcut : (src ++ [0]).take (min cap (src.length + 1)) = src.take cap := by
      rw [min_eq_left (by omega), List.take_append_of_le_length (by omega)]
    obtain ⟨k, rfl⟩ : ∃ k, cap = k + 1 := Nat.exists_eq_succ_of_ne_zero hzero
    have hk : k < src.length := by omega
    have hsucc : src.take (k + 1) = src.take k ++ [src[k]] := (List.take_append_getElem hk).symm
    have hunit := hplain _ (List.getElem_mem hk)
    have hlast : (Width.narrow.bytes ((src ++ [0]).take (min (k + 1) (src.length + 1)))).getLast? ≠
        some 0 := by
      rw [hcut, hsucc, narrow_bytes, List.map_append, List.map_singleton, List.getLast?_concat]
      intro h
      have hzero' : Width.narrow.unitBytes src[k] = Width.narrow.unitBytes 0 :=
        congrArg (fun b : UInt8 ↦ [b]) (Option.some.inj h)
      exact hunit.1 (Width.narrow.unitBytes_injective hunit.2 (by decide) hzero')
    rw [if_neg hlast, hkept, min_eq_left (by omega), Nat.add_sub_cancel]
    obtain ⟨mem'', hmem'', hstored'⟩ := @exists_store { app with data := some mem' } mem' rfl k [0]
      (by rw [Buffer.length_store hmem', hcap]; exact le_rfl)
    rw [hstored', Exec.bind_done, if_neg hwhole]
    refine ⟨_, rfl, fun h ↦ absurd h hzero, fun _ ↦ ⟨mem'', rfl, ?_⟩⟩
    have hfirst : Width.narrow.bytes (src.take k) <+: mem' := by
      refine List.IsPrefix.trans ?_ hpre
      rw [hcut, hsucc, Width.bytes_append]
      exact List.prefix_append _ _
    have hpos' : (Width.narrow.bytes (src.take k)).length = k := by
      rw [Width.length_bytes, List.length_take, min_eq_left hk.le]
      exact Nat.mul_one _
    rw [← hpos'] at hmem''
    have hfinal := Buffer.prefix_store hfirst hmem''
    rw [Width.bytes_append]
    exact hfinal

/-! ## What is kept -/

/-- What is sent is kept when what fits has the significant units. -/
theorem kept_of_sends {width : Width} {mem : List UInt8} {cap significant : ℕ} {text : WStr}
    {out : Exec Transferred} (hplain : PlainUnits text) (hmem : mem.length / width.usize = cap)
    (h : SendsText width mem cap text out) :
    KeptText width text significant out ↔ text.length < cap ∨ significant < cap := by
  obtain ⟨app, rfl, hzero, hholds⟩ := h
  by_cases hwhole : text.length < cap
  · refine iff_of_true ⟨_, rfl, .inl ⟨if_pos hwhole, ?_⟩⟩ (.inl hwhole)
    have happ := hholds (by omega)
    rwa [List.take_of_length_le (by omega)] at happ
  rw [or_iff_right hwhole]
  constructor
  · rintro ⟨sent, hsent, hcase⟩
    obtain rfl := Exec.done.inj hsent
    rw [if_neg hwhole] at hcase
    obtain ⟨hstate, -⟩ | ⟨-, k, hk, hle, hkept⟩ | hstate := hcase
    · cases hstate
    · have hpos : 0 < cap := by
        refine Nat.pos_of_ne_zero fun hcap ↦ ?_
        obtain ⟨mem', hmem', hpre⟩ := hkept
        obtain rfl := Option.some.inj ((hzero hcap).symm.trans hmem')
        have hlen := hpre.length_le
        have hpos := width.usize_pos
        rw [width.length_bytes, List.length_append, List.length_singleton] at hlen
        have hone : width.usize ≤ mem.length := (Nat.le_mul_of_pos_left _ (Nat.succ_pos _)).trans hlen
        have hdiv := Nat.div_pos hone hpos
        omega
      have htake : ∀ j, PlainUnits (text.take j) := fun j c hc ↦ hplain c (List.mem_of_mem_take hc)
      have hsame := congrArg List.length (holds_unique (htake _) (htake _) hkept (hholds hpos))
      rw [List.length_take, List.length_take, min_eq_left hle] at hsame
      omega
    · cases hstate
  · intro hcap
    refine ⟨_, rfl, .inr (.inl ⟨if_neg hwhole, cap - 1, by omega, by omega, hholds (by omega)⟩)⟩

theorem not_kept_error {width : Width} {text : WStr} {significant : ℕ} {sent : Transferred}
    (hzero : sent.state ≠ .s00000) (hcut : sent.state ≠ .s01004) (hrange : sent.state ≠ .s22003) :
    ¬KeptText width text significant (.done sent) := by
  rintro ⟨sent', hsent, h⟩
  obtain rfl := Exec.done.inj hsent
  obtain ⟨h, -⟩ | ⟨h, -⟩ | h := h
  · exact hzero h
  · exact hcut h
  · exact hrange h

theorem not_kept_undefined {width : Width} {text : WStr} {significant : ℕ} :
    ¬KeptText width text significant .undefined := by
  rintro ⟨sent, hsent, -⟩
  cases hsent

/-! ## Integers -/

theorem integer_kept (ctx : ZoneContext) (junk : WStr) (maxLength : ℕ) (width : Width)
    (mem : List UInt8) (octetLen : Option ℤ) (qword : UInt64) (unsignd : Bool) :
    KeptText width (if unsignd then ui64tot qword.toNat else i64tot qword.toInt64.toInt)
      (if unsignd then ui64tot qword.toNat else i64tot qword.toInt64.toInt).length
      ((TextValue.integer qword unsignd).fetch ctx junk maxLength width mem octetLen) := by
  rw [TextValue.fetch, quadwordToStr]
  generalize (if unsignd then ui64tot qword.toNat else i64tot qword.toInt64.toInt) = text
  obtain ⟨app, hsent, -, hholds⟩ :=
    @transferXstr0_sends ⟨false, maxLength, mem.length⟩ rfl width text mem rfl octetLen
  rw [hsent, Exec.bind_done]
  by_cases hwhole : text.length < mem.length / width.usize
  · rw [if_pos hwhole, if_neg (fun h ↦ by cases h.1)]
    have happ := hholds (by omega)
    rw [List.take_of_length_le (by omega)] at happ
    exact ⟨_, rfl, .inl ⟨rfl, happ⟩⟩
  · rw [if_neg hwhole, if_pos ⟨rfl, rfl⟩]
    exact ⟨_, rfl, .inr (.inr rfl)⟩

/-! ## Floating-point numbers -/

theorem digitUnits_plain (ds : List (Fin 10)) : PlainUnits (digitUnits ds) := by
  intro c hc
  obtain ⟨-, hne, hle⟩ := stampUnits_plain (mem_stampUnits_digits hc)
  exact ⟨hne, hle⟩

theorem PlainUnits.append {v w : WStr} (hv : PlainUnits v) (hw : PlainUnits w) : PlainUnits (v ++ w) := by
  intro c hc
  obtain hc | hc := List.mem_append.mp hc
  · exact hv c hc
  · exact hw c hc

theorem PlainUnits.cons {c : UInt16} {w : WStr} (hc : c ≠ 0 ∧ c ≤ 127) (hw : PlainUnits w) :
    PlainUnits (c :: w) := by
  intro d hd
  obtain rfl | hd := List.mem_cons.mp hd
  · exact hc
  · exact hw d hd

theorem plainUnits_nil : PlainUnits [] := by
  intro c hc
  cases hc

theorem signText_plain (neg : Bool) : PlainUnits (Decimal.signText (if neg then some true else none)) := by
  cases neg with
  | false => exact plainUnits_nil
  | true => exact .cons (by decide) plainUnits_nil

theorem fixedUnits_plain (prec m : ℕ) (neg : Bool) : PlainUnits (fixedUnits prec m neg) := by
  refine ((signText_plain neg).append (digitUnits_plain _)).append ?_
  split_ifs
  · exact plainUnits_nil
  · exact .cons (by decide) (digitUnits_plain _)

theorem exponentText_plain (e : ℤ) : PlainUnits (exponentText e) := by
  refine .cons (by decide) (.cons ?_ ?_)
  · split_ifs <;> decide
  · split_ifs
    · exact digitUnits_plain _
    · exact digitUnits_plain _

theorem doubleText_plain (sciFloats : SciFloats) (prec : ℕ) (dbl : Double) :
    PlainUnits (doubleText sciFloats prec dbl) := by
  have hword {w : WStr} (h : w.all (fun c ↦ c ≠ 0 && c ≤ 127) = true) : PlainUnits w := by
    intro c hc
    have hall := List.all_eq_true.mp h c hc
    rwa [Bool.and_eq_true, decide_eq_true_eq, decide_eq_true_eq] at hall
  rw [doubleText]
  split_ifs
  · cases dbl with
    | fin q => exact (fixedUnits_plain _ _ _).append (exponentText_plain _)
    | negZero => exact (fixedUnits_plain _ _ _).append (exponentText_plain _)
    | inf neg => exact (signText_plain neg).append (hword (by decide))
    | nan => exact hword (w := [0x4E, 0x41, 0x4E]) (by decide)
  · cases dbl with
    | fin q => exact fixedUnits_plain _ _ _
    | negZero => exact fixedUnits_plain _ _ _
    | inf neg => exact (signText_plain neg).append (hword (w := infWord) (by decide))
    | nan => exact hword (w := nanWord) (by decide)

theorem double_kept (ctx : ZoneContext) (junk : WStr) (maxLength : ℕ) (width : Width)
    (mem : List UInt8) (octetLen : Option ℤ) (dbl : Double) (prec : ℕ) (sciFloats : SciFloats) :
    KeptText width (doubleText sciFloats prec dbl)
      ((TextValue.double dbl prec sciFloats).significant (doubleText sciFloats prec dbl))
      ((TextValue.double dbl prec sciFloats).fetch ctx junk maxLength width mem octetLen) ↔
    (TextValue.double dbl prec sciFloats).KeptWhen ctx junk width (mem.length / width.usize)
      (doubleText sciFloats prec dbl) := by
  have hplain := doubleText_plain sciFloats prec dbl
  have hsig : (TextValue.double dbl prec sciFloats).significant (doubleText sciFloats prec dbl) ≤
      (doubleText sciFloats prec dbl).length := by
    rw [TextValue.significant]
    split_ifs
    · exact le_rfl
    · exact (List.takeWhile_sublist _).length_le
  rw [TextValue.fetch, TextValue.KeptWhen, doubleToStr]
  dsimp only
  generalize (TextValue.double dbl prec sciFloats).significant (doubleText sciFloats prec dbl) = sig
    at hsig ⊢
  generalize doubleText sciFloats prec dbl = text at hplain hsig ⊢
  have hsize := @buffOctetSize_units ⟨false, maxLength, mem.length⟩ rfl (text.length + 1) width
  dsimp only at hsize
  generalize hcap : mem.length / width.usize = cap at hsize ⊢
  have hsends := @transferXstr0_sends ⟨false, maxLength, mem.length⟩ rfl width text mem rfl octetLen
  rw [hcap] at hsends
  have hkept := @kept_of_sends width mem cap sig text _ hplain hcap hsends
  have hoff : text.length - ((none : Option ℤ).getD 0).toNat + 1 = text.length + 1 := rfl
  have hzero : ((none : Option ℤ).getD 0).toNat = 0 := rfl
  rw [hoff, hzero, hsize]
  dsimp only
  rw [Nat.mul_div_cancel _ width.usize_pos, Nat.zero_add]
  by_cases hprint : width = .wide ∧ dblBase10MaxLen < text.length
  · rw [if_pos hprint]
    refine iff_of_false (not_kept_error (by simp) (by simp) (by simp)) fun h ↦ ?_
    exact absurd (h.1 hprint.1) (not_le.mpr hprint.2)
  have hfits : width = .wide → text.length ≤ dblBase10MaxLen :=
    fun hw ↦ not_lt.mp fun hlt ↦ hprint ⟨hw, hlt⟩
  rw [if_neg hprint, and_iff_right hfits]
  by_cases hwhole : text.length < cap
  · have hall : ¬decide (cap < text.length + 1) = true := fun h ↦ by
      have := of_decide_eq_true h
      omega
    rw [if_neg (fun h ↦ hall h.1), if_pos hwhole]
    by_cases hbuff : dblBase10MaxLen + 1 < min cap (text.length + 1)
    · rw [if_pos ⟨Option.some_ne_none _, hbuff⟩]
      exact iff_of_false not_kept_undefined (by omega)
    · rw [if_neg (fun h ↦ hbuff h.2), hkept]
      exact iff_of_true (.inl hwhole) (by omega)
  · rw [if_neg hwhole, min_eq_left (by omega)]
    by_cases hreject : floatsRep sciFloats dbl = true ∨ cap < wholeCnt text.length prec
    · rw [if_pos ⟨decide_eq_true (by omega), hreject⟩]
      refine iff_of_true ⟨_, rfl, .inr (.inr rfl)⟩ ?_
      obtain h | h := hreject
      · exact .inl h
      · exact .inr (.inl h)
    · rw [if_neg (fun h ↦ hreject h.2), ← or_assoc, or_iff_right hreject]
      by_cases hbuff : dblBase10MaxLen + 1 < cap
      · rw [if_pos ⟨Option.some_ne_none _, hbuff⟩]
        exact iff_of_false not_kept_undefined (by omega)
      · rw [if_neg (fun h ↦ hbuff h.2), hkept, or_iff_right hwhole, and_iff_left (not_lt.mp hbuff)]

/-! ## Dates and times -/

theorem zeroPadded_plain (k n : ℕ) : PlainUnits (zeroPadded k n) := by
  rw [zeroPadded]
  split_ifs
  · exact digitUnits_plain _
  · exact digitUnits_plain _

theorem stampText_plain (tss : TimestampStruct) (decdigits : ℤ) : PlainUnits (stampText tss decdigits) := by
  have hyear : PlainUnits (yearText tss.year) := by
    rw [yearText]
    split_ifs
    · exact .cons (by decide) (zeroPadded_plain _ _)
    · exact zeroPadded_plain _ _
  have hfraction : PlainUnits (fractionText tss.fraction decdigits) := by
    rw [fractionText]
    split_ifs
    · exact .cons (by decide) (zeroPadded_plain _ _)
    · exact plainUnits_nil
  exact hyear.append (.cons (by decide) ((zeroPadded_plain _ _).append (.cons (by decide)
    ((zeroPadded_plain _ _).append (.cons (by decide) ((zeroPadded_plain _ _).append
      (.cons (by decide) ((zeroPadded_plain _ _).append (.cons (by decide)
        ((zeroPadded_plain _ _).append hfraction))))))))))

theorem PlainUnits.take {w : WStr} (h : PlainUnits w) (n : ℕ) : PlainUnits (w.take n) :=
  fun c hc ↦ h c (List.mem_of_mem_take hc)

theorem PlainUnits.drop {w : WStr} (h : PlainUnits w) (n : ℕ) : PlainUnits (w.drop n) :=
  fun c hc ↦ h c (List.mem_of_mem_drop hc)

theorem printSql_plain {tss : TimestampStruct} {text : WStr} (h : printSql tss = .ok text) :
    PlainUnits text := by
  have hplain := stampText_plain tss defSecPrecision
  rw [printSql, printTimestamp] at h
  dsimp only at h
  generalize stampText tss defSecPrecision = whole at h hplain
  by_cases hlong : isoMaxLen + 1 < whole.length
  · rw [if_pos hlong] at h
    cases h
  rw [if_neg hlong] at h
  generalize (if cutAt 0 < (whole.length : ℤ) then cutAt 0 else (whole.length : ℤ)) = n at h
  by_cases hneg : n < 0
  · rw [if_pos hneg] at h
    cases h
  · rw [if_neg hneg] at h
    obtain rfl := Except.ok.inj h
    exact hplain.take _

/-- A text of ASCII is translated to one. -/
theorem translated_plain {ctx : ZoneContext} {junk w text : WStr} {column : DateTimeColumn}
    (hw : PlainUnits w) (h : (translated ctx junk column w).1.result = .ok text) : PlainUnits text := by
  cases column with
  | date =>
    change (translateDateIso8601ToSql w).result = _ at h
    rw [translateDateIso8601ToSql] at h
    by_cases hshort : w.length < dateTemplateLen
    · rw [if_pos hshort] at h
      cases h
    · rw [if_neg hshort] at h
      obtain rfl := Except.ok.inj h
      exact hw.take _
  | timestamp =>
    change (translateTimestampIso8601ToSql ctx w).result = _ at h
    cases htz : ctx.applyTz with
    | true =>
      simp only [translateTimestampIso8601ToSql, htz, if_true] at h
      cases hread : (parseIso8601Timestamp ctx false (.wide w)).result with
      | error e =>
        rw [hread] at h
        cases h
      | ok tss =>
        rw [hread] at h
        exact printSql_plain h
    | false =>
      simp only [translateTimestampIso8601ToSql, htz, Bool.false_eq_true, if_false] at h
      generalize intLength w = n at h
      by_cases hshort : n < isoMinLen
      · rw [if_pos hshort] at h
        cases h
      · rw [if_neg hshort] at h
        obtain rfl := Except.ok.inj h
        refine PlainUnits.take (fun c hc ↦ ?_) _
        obtain hc | rfl := List.mem_or_eq_of_mem_set hc
        · exact hw.take _ c hc
        · decide
  | time =>
    change (translateTimeIso8601ToSql ctx junk w).result = _ at h
    simp only [translateTimeIso8601ToSql] at h
    generalize intLength w = n at h
    by_cases hshort : n < timeTemplateLen
    · rw [if_pos hshort] at h
      cases h
    rw [if_neg hshort] at h
    by_cases hpath : ctx.applyTz = true ∨ w.getD (n.toNat - 1) 0 ≠ 0x5A
    · rw [if_pos hpath] at h
      dsimp only at h
      cases hread : (parseDateTimeTs ctx true junk (.wide (w.take n.toNat))).result with
      | error e =>
        rw [hread] at h
        cases h
      | ok r =>
        rw [hread, Except.bind] at h
        cases hprint : printSql r.1 with
        | error e =>
          rw [hprint] at h
          cases h
        | ok whole =>
          rw [hprint] at h
          obtain rfl := Except.ok.inj h
          exact (printSql_plain hprint).drop _
    · rw [if_neg hpath] at h
      obtain rfl := Except.ok.inj h
      exact hw.take _
  | varchar => exact Except.ok.inj h ▸ hw
  | char => exact Except.ok.inj h ▸ hw
  | other => exact Except.ok.inj h ▸ hw

theorem ServerValue.text_plain (x : ServerValue) : PlainUnits x.text := by
  cases x with
  | plainDate d => exact @DateTimeText.ascii (.date d)
  | date s => exact fun c hc ↦ s.ascii hc
  | timestamp s => exact fun c hc ↦ s.ascii hc
  | time t => exact fun c hc ↦ t.ascii hc

theorem min_xfer_pos (ctx : ZoneContext) (junk : WStr) (x : ServerValue) :
    (translated ctx junk x.column x.text).2 ≠ 0 := by
  cases x with
  | plainDate d => exact Nat.succ_ne_zero _
  | date s => exact Nat.succ_ne_zero _
  | timestamp s => exact Nat.succ_ne_zero _
  | time t => exact Nat.succ_ne_zero _

theorem dateTime_kept {ctx : ZoneContext} {junk : WStr} (maxLength : ℕ) (width : Width)
    (mem : List UInt8) (octetLen : Option ℤ) (x : ServerValue) {text : WStr}
    (htext : (translated ctx junk x.column x.text).1.result = .ok text) (significant : ℕ) :
    KeptText width text significant
      ((TextValue.dateTime x).fetch ctx junk maxLength width mem octetLen) ↔
    (translated ctx junk x.column x.text).1.outside = false ∧
      (text.length < mem.length / width.usize ∨
        mem.length / width.usize < (translated ctx junk x.column x.text).2 ∨
          significant < mem.length / width.usize) := by
  have hplain := translated_plain x.text_plain htext
  have hmin := min_xfer_pos ctx junk x
  rw [TextValue.fetch, wstrToString]
  dsimp only
  rw [htext]
  dsimp only
  generalize (translated ctx junk x.column x.text).2 = minXfer at hmin ⊢
  cases houtside : (translated ctx junk x.column x.text).1.outside with
  | true =>
    rw [if_pos rfl]
    exact iff_of_false not_kept_undefined fun h ↦ by cases h.1
  | false =>
    rw [if_neg Bool.false_ne_true, and_iff_right rfl]
    have hsize := @buffOctetSize_units ⟨false, maxLength, mem.length⟩ rfl (text.length + 1) width
    dsimp only at hsize
    rw [hsize]
    dsimp only
    rw [Nat.mul_div_cancel _ width.usize_pos]
    have hsends : SendsText width mem (mem.length / width.usize) text
        (wstrToXstr ⟨false, maxLength, mem.length⟩ width text none ⟨some mem, octetLen⟩) := by
      cases width with
      | narrow =>
        have hone : mem.length / Width.narrow.usize = mem.length := Nat.div_one _
        rw [hone, wstrToXstr]
        exact @wstrToCstr_sends ⟨false, maxLength, mem.length⟩ rfl text hplain mem rfl octetLen
      | wide => exact @transferXstr0_sends ⟨false, maxLength, mem.length⟩ rfl .wide text mem rfl octetLen
    generalize hcap : mem.length / width.usize = cap at hsends ⊢
    have hkept := @kept_of_sends width mem cap significant text _ hplain hcap hsends
    obtain ⟨app, hsent, -, -⟩ := hsends
    rw [hsent] at hkept ⊢
    rw [Exec.bind_done]
    by_cases hwhole : text.length < cap
    · rw [if_pos hwhole] at hkept ⊢
      rw [if_neg (fun h ↦ by cases h.1), hkept]
      exact iff_of_true (.inl hwhole) (.inl hwhole)
    · rw [if_neg hwhole] at hkept ⊢
      rw [min_eq_left (by omega), or_iff_right hwhole]
      by_cases hsmall : cap < minXfer
      · rw [if_pos ⟨rfl, hmin, hsmall⟩]
        exact iff_of_true ⟨_, rfl, .inr (.inr rfl)⟩ (.inl hsmall)
      · rw [if_neg (fun h ↦ hsmall h.2.2), hkept, or_iff_right hwhole, or_iff_right hsmall]

/-! ## Main result -/

/-- A number, a date or a time that is fetched as a text is cut in its significant part, or not
stored at all, exactly when this is said. -/
theorem textKept_iff (ctx : ZoneContext) (junk : WStr) (maxLength : ℕ) (width : Width)
    (mem : List UInt8) (octetLen : Option ℤ) (x : TextValue) :
    x.Keeps ctx junk maxLength width mem octetLen ↔ ∃ text, x.wholeText ctx junk = some text ∧
      x.KeptWhen ctx junk width (mem.length / width.usize) text := by
  rw [TextValue.Keeps]
  refine exists_congr fun text ↦ and_congr_right fun htext ↦ ?_
  cases x with
  | integer qword unsignd =>
    obtain rfl := Option.some.inj htext
    exact iff_of_true (integer_kept ctx junk maxLength width mem octetLen qword unsignd) trivial
  | double dbl prec sciFloats =>
    obtain rfl := Option.some.inj htext
    exact double_kept ctx junk maxLength width mem octetLen dbl prec sciFloats
  | dateTime v =>
    have hresult : (translated ctx junk v.column v.text).1.result = .ok text := by
      change (translated ctx junk v.column v.text).1.result.toOption = some text at htext
      cases h : (translated ctx junk v.column v.text).1.result with
      | error e =>
        rw [h] at htext
        cases htext
      | ok w =>
        rw [h] at htext
        rw [Option.some.inj htext]
    exact dateTime_kept maxLength width mem octetLen v hresult _

/-- Of 12.5 in two bytes only its first digit is left. -/
theorem not_keeps_wholeDigit : ¬(TextValue.double (.fin (25 / 2)) 1 .default).Keeps
    ⟨false, ⟨⟨2024, 3, 1, by decide, by decide, by decide, by decide, by decide⟩, by decide, by decide⟩,
      some, some⟩ [] 0 .narrow [0xFF, 0xFF] none := by
  have hprint : doubleText .default 1 (.fin (25 / 2)) = [0x31, 0x32, 0x2E, 0x35] := by decide +kernel
  have hrep : floatsRep .default (.fin (25 / 2)) = false := rfl
  rintro ⟨text, htext, sent, hsent, hcase⟩
  obtain rfl : [0x31, 0x32, 0x2E, 0x35] = text := hprint ▸ Option.some.inj htext
  rw [TextValue.fetch, doubleToStr, hprint, hrep] at hsent
  obtain rfl : ⟨.s01004, ⟨some [0x31, 0], none⟩, none⟩ = sent := Exec.done.inj hsent
  rw [TextValue.significant, hrep] at hcase
  obtain ⟨hstate, -⟩ | ⟨-, k, hk, -, mem, hmem, hpre⟩ | hstate := hcase
  · cases hstate
  · obtain rfl := Option.some.inj hmem
    have htwo : 2 ≤ k := hk
    have hlen := hpre.length_le
    rw [Width.length_bytes, List.length_append, List.length_take] at hlen
    simp [Width.usize] at hlen
    omega
  · cases hstate

end EsOdbc

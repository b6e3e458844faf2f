import EsOdbc.Targets.Kept
import EsOdbc.Targets.Limit

/-!
# Texts in pieces

What an application gets of a text that it asks for with one call of `SQLGetData` after the other:
the pieces are stored with their terminators, put together they are the text, and after the last one
there is no more data.
-/

namespace EsOdbc

/-! ## Without `SQL_ATTR_MAX_LENGTH` -/

namespace OctetContext

/-- The context of a column that the attribute does not limit. -/
def unlimited (c : OctetContext) : OctetContext := { c with limited := false }

theorem buffOctetSize_unlimited {c : OctetContext} (h : c.max = 0) (avail unitSize : ℕ) :
    c.buffOctetSize avail unitSize = c.unlimited.buffOctetSize avail unitSize := by
  have hmax : c.unlimited.max = 0 := rfl
  simp only [buffOctetSize, h, hmax]
  rfl

theorem indicated_unlimited {c : OctetContext} (h : c.max = 0) (avail : ℕ) :
    c.indicated avail = avail := by
  rw [indicated, h, if_neg (Nat.lt_irrefl 0)]

end OctetContext

theorem writeOutOctets_unlimited {c : OctetContext} (h : c.max = 0) (app : AppSide) (avail : ℕ) :
    app.writeOutOctets c avail = app.writeOutOctets c.unlimited avail := by
  have hmax : c.unlimited.max = 0 := rfl
  simp only [AppSide.writeOutOctets, OctetContext.indicated_unlimited h,
    OctetContext.indicated_unlimited hmax]

theorem transferXstr0_unlimited {c : OctetContext} (h : c.max = 0) (width : Width) (src : WStr)
    (gdOfft : Option ℤ) (app : AppSide) :
    transferXstr0 c width src gdOfft app = transferXstr0 c.unlimited width src gdOfft app := by
  simp only [transferXstr0, OctetContext.buffOctetSize_unlimited h, writeOutOctets_unlimited h]

theorem wstrToCstr_unlimited {c : OctetContext} (h : c.max = 0) (src : WStr) (gdOfft : Option ℤ)
    (app : AppSide) : wstrToCstr c src gdOfft app = wstrToCstr c.unlimited src gdOfft app := by
  simp only [wstrToCstr, OctetContext.buffOctetSize_unlimited h, writeOutOctets_unlimited h]

/-! ## From an offset -/

theorem AppSide.store_octetLen {app app' : AppSide} {pos : ℕ} {bs : List UInt8}
    (h : app.store pos bs = .done app') : app'.octetLen = app.octetLen := by
  rw [AppSide.store] at h
  cases hmem : app.data.bind fun mem ↦ Buffer.store mem pos bs with
  | none =>
    rw [hmem] at h
    cases h
  | some mem =>
    rw [hmem] at h
    obtain rfl := Exec.done.inj h
    rfl

/-- A text from an offset on is the rest of it. -/
theorem gdOffsetApply_drop {α : Type} {src : List α} {offt : ℕ} (h : offt ≤ src.length) :
    gdOffsetApply (some (offt : ℤ)) src = .done (src.drop offt) := by
  have hbound : 0 ≤ (offt : ℤ) ∧ (offt : ℤ) ≤ src.length := by omega
  rw [gdOffsetApply, if_pos hbound, Int.toNat_natCast]

/-- The offset behind a piece. -/
def offsetBehind (offt cap : ℕ) (left : WStr) : ℤ :=
  if left.length < cap then -1 else offt + (cap - 1 : ℕ)

/-- A piece is sent as a text is, from where the one before it ended; the length is that of all that
is left. -/
def SendsPiece (width : Width) (octetLen : Option ℤ) (cap offt : ℕ) (left : WStr)
    (out : Exec Transferred) : Prop :=
  ∃ app, out = .done ⟨if left.length < cap then .s00000 else .s01004, app,
      some (offsetBehind offt cap left)⟩ ∧
    (0 < cap → Holds width app (left.take (cap - 1))) ∧
      app.octetLen = octetLen.map fun _ ↦ ((left.length * width.usize : ℕ) : ℤ)

/-- The `gd_offt` behind so many octets of what is left. -/
def gdOfftBehind (width : Width) (offt octets : ℕ) (left : WStr) : Option ℤ :=
  if octets = 0 then some (offt : ℤ)
  else gdOffsetUpdate (some (offt : ℤ)) left.length (octets / width.usize - 1)

/-- What is sent from an offset on is what is sent of the rest of the text; the offset moves. -/
theorem transferXstr0_offset {c : OctetContext} {width : Width} {src left : WStr} {offt octets : ℕ}
    {app : AppSide} {sent : Transferred} (hofft : offt ≤ src.length) (hleft : src.drop offt = left)
    (hoctets : (c.buffOctetSize ((left.length + 1) * width.usize) width.usize).1 = octets)
    (hdata : app.data ≠ none) (h : transferXstr0 c width left none app = .done sent) :
    transferXstr0 c width src (some offt) app =
        .done ⟨sent.state, sent.app, gdOfftBehind width offt octets left⟩ ∧
      sent.app.octetLen = (app.writeOutOctets c (left.length * width.usize)).octetLen := by
  have hnone : gdOffsetApply none left = .done left := rfl
  have hdata' : (app.writeOutOctets c (left.length * width.usize)).data ≠ none := hdata
  rw [transferXstr0, hnone, Exec.bind_done] at h
  rw [transferXstr0, gdOffsetApply_drop hofft, hleft, Exec.bind_done]
  dsimp only at h ⊢
  rw [if_neg hdata', hoctets] at h ⊢
  generalize app.writeOutOctets c (left.length * width.usize) = app at h ⊢
  by_cases hzero : octets = 0
  · rw [if_pos hzero] at h ⊢
    obtain rfl := Exec.done.inj h
    exact ⟨by rw [gdOfftBehind, if_pos hzero], rfl⟩
  · rw [if_neg hzero] at h ⊢
    rw [gdOfftBehind, if_neg hzero]
    cases hstore : app.store 0 ((width.bytes (left ++ [0])).take octets) with
    | undefined =>
      rw [hstore] at h
      cases h
    | exhausted =>
      rw [hstore] at h
      cases h
    | done app₁ =>
      rw [hstore, Exec.bind_done] at h
      rw [Exec.bind_done]
      have hlen₁ := AppSide.store_octetLen hstore
      by_cases hcut : (c.buffOctetSize ((left.length + 1) * width.usize) width.usize).2 = true
      · rw [if_pos hcut] at h ⊢
        cases hend : app₁.store ((octets / width.usize - 1) * width.usize) (width.unitBytes 0) with
        | undefined =>
          rw [hend] at h
          cases h
        | exhausted =>
          rw [hend] at h
          cases h
        | done app₂ =>
          rw [hend, Exec.bind_done] at h
          rw [Exec.bind_done]
          obtain rfl := Exec.done.inj h
          exact ⟨rfl, (AppSide.store_octetLen hend).trans hlen₁⟩
      · rw [if_neg hcut, Exec.bind_done] at h ⊢
        obtain rfl := Exec.done.inj h
        exact ⟨rfl, hlen₁⟩

/-- The offset behind what a buffer of `cap` units takes. -/
theorem gdOfftBehind_eq (width : Width) (offt cap : ℕ) (left : WStr) :
    gdOfftBehind width offt (min cap (left.length + 1) * width.usize) left =
      some (offsetBehind offt cap left) := by
  have hu := width.usize_pos
  rw [gdOfftBehind, offsetBehind, Nat.mul_div_cancel _ hu]
  by_cases hzero : cap = 0
  · subst hzero
    rw [Nat.zero_min, Nat.zero_mul, if_pos rfl, if_neg (Nat.not_lt_zero _)]
    simp
  · have hcount : min cap (left.length + 1) * width.usize ≠ 0 := by
      refine (Nat.mul_pos ?_ hu).ne'
      omega
    rw [if_neg hcount, gdOffsetUpdate, Option.map_some]
    by_cases hwhole : left.length < cap
    · rw [if_pos hwhole, min_eq_right hwhole, Nat.add_sub_cancel, if_pos le_rfl]
    · rw [if_neg hwhole, min_eq_left (by omega), if_neg (by omega)]

/-- `transfer_xstr0` sends a piece. -/
theorem transferXstr0_piece {c : OctetContext} (hmax : c.max = 0) (width : Width) {src : WStr}
    {offt : ℕ} (hofft : offt ≤ src.length) {mem : List UInt8} (hroom : c.room = mem.length)
    (octetLen : Option ℤ) :
    SendsPiece width octetLen (mem.length / width.usize) offt (src.drop offt)
      (transferXstr0 c width src (some offt) ⟨some mem, octetLen⟩) := by
  have hroom' : c.unlimited.room = mem.length := hroom
  have hsize := buffOctetSize_units (c := c.unlimited) rfl ((src.drop offt).length + 1) width
  obtain ⟨app, hsent, -, hholds⟩ := transferXstr0_sends (c := c.unlimited) rfl width (src.drop offt)
    hroom' octetLen
  obtain ⟨hpiece, hlen⟩ := transferXstr0_offset hofft rfl rfl (Option.some_ne_none mem) hsent
  rw [hsize, hroom', gdOfftBehind_eq] at hpiece
  rw [transferXstr0_unlimited hmax]
  refine ⟨app, hpiece, hholds, hlen.trans ?_⟩
  rw [AppSide.writeOutOctets, OctetContext.indicated_unlimited rfl]

/-- What is narrowed from an offset on is what is narrowed of the rest of the text, `out` being what
fits; the offset moves behind it, or in front of the unit that makes place for the terminator. -/
theorem wstrToCstr_offset {c : OctetContext} {src left : WStr} {offt : ℕ} {app : AppSide}
    {whole : List UInt8} {out : ℕ × List UInt8} {sent : Transferred} (hofft : offt ≤ src.length)
    (hleft : src.drop offt = left)
    (hwhole : u16wcToMbu8Into (3 * (left.length + 1)) (left ++ [0]) = .ok whole)
    (hroom : (c.buffOctetSize whole.length 1).1 ≠ 0)
    (hout : trimToFit (left ++ [0]) (c.buffOctetSize whole.length 1).1 (left.length + 1) =
      .done (.ok out)) (hdata : app.data ≠ none) (h : wstrToCstr c left none app = .done sent) :
    wstrToCstr c src (some offt) app =
        .done ⟨sent.state, sent.app, gdOffsetUpdate (some offt) left.length
          (if out.2.getLast? = some 0 then out.1 else out.1 - 1)⟩ ∧
      sent.app.octetLen = (app.writeOutOctets c (whole.length - 1)).octetLen := by
  have hnone : gdOffsetApply none left = .done left := rfl
  have hdata' : (app.writeOutOctets c (whole.length - 1)).data ≠ none := hdata
  rw [wstrToCstr, hnone, Exec.bind_done, hwhole] at h
  rw [wstrToCstr, gdOffsetApply_drop hofft, hleft, Exec.bind_done, hwhole]
  dsimp only at h ⊢
  rw [if_neg hdata', if_neg hroom, hout, Exec.bind_done] at h ⊢
  dsimp only at h ⊢
  generalize app.writeOutOctets c (whole.length - 1) = app at h ⊢
  cases hstore : app.store 0 out.2 with
  | undefined =>
    rw [hstore] at h
    cases h
  | exhausted =>
    rw [hstore] at h
    cases h
  | done app₁ =>
    rw [hstore, Exec.bind_done] at h
    rw [Exec.bind_done]
    have hlen₁ := AppSide.store_octetLen hstore
    by_cases hlast : out.2.getLast? = some 0
    · rw [if_pos hlast] at h ⊢
      rw [if_pos hlast]
      obtain rfl := Exec.done.inj h
      exact ⟨rfl, hlen₁⟩
    · rw [if_neg hlast] at h ⊢
      rw [if_neg hlast]
      cases hend : app₁.store (out.2.length - 1) [0] with
      | undefined =>
        rw [hend] at h
        cases h
      | exhausted =>
        rw [hend] at h
        cases h
      | done app₂ =>
        rw [hend, Exec.bind_done] at h
        rw [Exec.bind_done]
        obtain rfl := Exec.done.inj h
        exact ⟨rfl, (AppSide.store_octetLen hend).trans hlen₁⟩

/-- What fits of a text of ASCII ends in the terminator, if all of it fits. -/
theorem getLast?_fits {left : WStr} (hplain : PlainUnits left) {cap : ℕ} (hcap : 0 < cap) :
    (Width.narrow.bytes ((left ++ [0]).take (min cap (left.length + 1)))).getLast? = some 0 ↔
      left.length < cap := by
  have hall : (left ++ [0]).length = left.length + 1 := by
    rw [List.length_append, List.length_singleton]
  by_cases hwhole : left.length < cap
  · refine iff_of_true ?_ hwhole
    rw [min_eq_right hwhole, List.take_of_length_le hall.le, narrow_bytes, List.map_append]
    exact List.getLast?_concat
  · refine iff_of_false ?_ hwhole
    obtain ⟨k, rfl⟩ : ∃ k, cap = k + 1 := Nat.exists_eq_succ_of_ne_zero hcap.ne'
    have hk : k < left.length := by omega
    have hunit := hplain _ (List.getElem_mem hk)
    rw [min_eq_left (by omega), List.take_append_of_le_length (by omega),
      ← List.take_append_getElem hk, narrow_bytes, List.map_append, List.map_singleton,
      List.getLast?_concat]
    intro h
    have hzero : Width.narrow.unitBytes left[k] = Width.narrow.unitBytes 0 :=
      congrArg (fun b : UInt8 ↦ [b]) (Option.some.inj h)
    exact hunit.1 (Width.narrow.unitBytes_injective hunit.2 (by decide) hzero)

/-- `wstr_to_cstr` sends a piece of ASCII. -/
theorem wstrToCstr_piece {c : OctetContext} (hmax : c.max = 0) {src : WStr}
    (hplain : PlainUnits src) {offt : ℕ} (hofft : offt ≤ src.length) {mem : List UInt8}
    (hroom : c.room = mem.length) (octetLen : Option ℤ) :
    SendsPiece .narrow octetLen mem.length offt (src.drop offt)
      (wstrToCstr c src (some offt) ⟨some mem, octetLen⟩) := by
  have hroom' : c.unlimited.room = mem.length := hroom
  have hrest : PlainUnits (src.drop offt) := fun c hc ↦ hplain c (List.mem_of_mem_drop hc)
  rw [wstrToCstr_unlimited hmax]
  generalize hleft : src.drop offt = left at hrest ⊢
  obtain ⟨app, hsent, -, hholds⟩ := wstrToCstr_sends (c := c.unlimited) rfl hrest hroom' octetLen
  have hascii : ∀ c ∈ left ++ [0], c ≤ 127 := by
    intro c hc
    rcases List.mem_append.mp hc with hc | hc
    · exact (hrest c hc).2
    · rw [List.mem_singleton.mp hc]
      decide
  have hall : (left ++ [0]).length = left.length + 1 := by
    rw [List.length_append, List.length_singleton]
  have hwhole := u16wcToMbu8Into_plain hascii (3 * (left.length + 1))
  rw [if_neg (by omega)] at hwhole
  have hbytes : (Width.narrow.bytes (left ++ [0])).length = left.length + 1 := by
    rw [Width.length_bytes, hall]
    exact Nat.mul_one _
  have hsize := buffOctetSize_units (c := c.unlimited) rfl (left.length + 1) .narrow
  simp only [Width.usize, Nat.mul_one, Nat.div_one, hroom'] at hsize
  rw [← hbytes] at hsize
  have hlen : (AppSide.writeOutOctets ⟨some mem, octetLen⟩ c.unlimited
      ((Width.narrow.bytes (left ++ [0])).length - 1)).octetLen =
      octetLen.map fun _ ↦ ((left.length * Width.narrow.usize : ℕ) : ℤ) := by
    rw [AppSide.writeOutOctets, OctetContext.indicated_unlimited rfl, hbytes, Nat.add_sub_cancel,
      Width.usize, Nat.mul_one]
  by_cases hzero : mem.length = 0
  · rw [hzero] at hsize ⊢
    rw [Nat.zero_min] at hsize
    refine ⟨_, ?_, fun h ↦ absurd h (Nat.lt_irrefl 0), hlen⟩
    have hdata : (AppSide.writeOutOctets ⟨some mem, octetLen⟩ c.unlimited
        ((Width.narrow.bytes (left ++ [0])).length - 1)).data ≠ none := Option.some_ne_none mem
    have hcut : decide (0 < (Width.narrow.bytes (left ++ [0])).length) = true := by
      rw [hbytes]
      exact decide_eq_true (Nat.succ_pos _)
    have hstay : (offt : ℤ) + (0 - 1 : ℕ) = offt := by omega
    rw [wstrToCstr, gdOffsetApply_drop hofft, hleft, Exec.bind_done, hwhole]
    dsimp only
    rw [hsize, if_neg hdata, if_pos rfl, offsetBehind, if_neg (Nat.not_lt_zero _),
      if_neg (Nat.not_lt_zero _), hcut, if_pos rfl, hstay]
  · have hpos : 0 < mem.length := Nat.pos_of_ne_zero hzero
    have hfits := @trimToFit_plain (left ++ [0]) hascii (min mem.length (left.length + 1))
      (left.length + 1) (by omega) (min_le_right _ _) hall.ge
    obtain ⟨hpiece, hlen'⟩ := wstrToCstr_offset hofft hleft hwhole (by rw [hsize, hbytes]; omega)
      (by rw [hsize, hbytes]; exact hfits) (Option.some_ne_none mem) hsent
    refine ⟨app, ?_, hholds, hlen'.trans hlen⟩
    rw [hpiece]
    refine congrArg (fun moved ↦ Exec.done (Transferred.mk _ _ moved)) ?_
    rw [offsetBehind, gdOffsetUpdate, Option.map_some]
    by_cases hlast : left.length < mem.length
    · rw [if_pos ((getLast?_fits hrest hpos).mpr hlast), if_pos hlast, min_eq_right hlast,
        if_pos (Nat.le_succ _)]
    · rw [if_neg (fun h ↦ hlast ((getLast?_fits hrest hpos).mp h)), if_neg hlast,
        min_eq_left (by omega), if_neg (by omega)]

/-! ## Runs of calls -/

/-- The C type of a text. -/
def Width.target : Width → StringTarget
  | narrow => .char
  | wide => .wchar

/-- A call of `SQLGetData` that asks for a text in a buffer, without a maximum set. -/
structure PieceCall (width : Width) where
  context : StringContext
  mem : List UInt8
  octetLen : Option ℤ
  room : context.octets.room = mem.length
  unlimited : context.octets.max = 0

namespace PieceCall

variable {width : Width}

/-- The units of the buffer. -/
def cap (c : PieceCall width) : ℕ := c.mem.length / width.usize

def toHeldCall (c : PieceCall width) : HeldCall where
  getData := true
  context := c.context
  target := width.target
  app := ⟨some c.mem, c.octetLen⟩

end PieceCall

/-- A call of a run gets a piece of what is left: it is there with its terminator, if the buffer has
a unit for that, and the length is that of all that was left. -/
structure GotPiece {width : Width} (c : PieceCall width) (left piece : WStr) (f : StringFetched) :
    Prop where
  piece_eq : piece = left.take (c.cap - 1)
  state : f.state = if left.length < c.cap then .s00000 else .s01004
  holds : 0 < c.cap → Holds width f.app piece
  octetLen : f.app.octetLen = c.octetLen.map fun _ ↦ ((left.length * width.usize : ℕ) : ℤ)

/-- What calls get of a text, and the pieces: up to the one that gets the last of it, behind which
there is no more data. -/
inductive InPieces {width : Width} :
    WStr → List (PieceCall width) → List (Option StringFetched) → List WStr → Prop where
  | stop (left : WStr) : InPieces left [] [] []
  | last {left : WStr} {c : PieceCall width} {f : StringFetched} (cs : List (PieceCall width)) :
    GotPiece c left left f → left.length < c.cap →
      InPieces left (c :: cs) (some f :: cs.map fun _ ↦ none) [left]
  | more {left piece : WStr} {c : PieceCall width} {cs : List (PieceCall width)} {f : StringFetched}
    {outs : List (Option StringFetched)} {pieces : List WStr} :
    GotPiece c left piece f → c.cap ≤ left.length →
      InPieces (left.drop (c.cap - 1)) cs outs pieces →
      InPieces left (c :: cs) (some f :: outs) (piece :: pieces)

/-- Put together the pieces are the text, as far as the buffers have units for it. -/
theorem InPieces.flatten {width : Width} {left : WStr} {cs : List (PieceCall width)}
    {outs : List (Option StringFetched)} {pieces : List WStr} (h : InPieces left cs outs pieces) :
    pieces.flatten = left.take (cs.map fun c ↦ c.cap - 1).sum := by
  induction h with
  | stop left => rfl
  | last cs _ hlast =>
    rw [List.map_cons, List.sum_cons, List.take_of_length_le (by omega), List.flatten_singleton]
  | more hgot _ _ ih =>
    rw [List.map_cons, List.sum_cons, List.flatten_cons, ih, hgot.piece_eq, List.take_add]

/-- A value of a character column is not translated. -/
theorem wstrToString_characters {column : DateTimeColumn} (h : column = .varchar ∨ column = .char)
    (ctx : ZoneContext) (junk : WStr) (c : OctetContext) (width : Width) (w : WStr)
    (gdOfft : Option ℤ) (app : AppSide) :
    wstrToString ctx junk c width column w gdOfft app = wstrToXstr c width w gdOfft app := by
  have hsame : (wstrToXstr c width w gdOfft app).bind (fun sent ↦ .done sent) =
      wstrToXstr c width w gdOfft app := by
    cases wstrToXstr c width w gdOfft app with
    | undefined => rfl
    | exhausted => rfl
    | done sent => rfl
  rcases h with rfl | rfl
  · refine Eq.trans ?_ hsame
    simp only [wstrToString, translated, ne_eq, not_true_eq_false, false_and, and_false, if_false,
      Bool.false_eq_true]
  · refine Eq.trans ?_ hsame
    simp only [wstrToString, translated, ne_eq, not_true_eq_false, false_and, and_false, if_false,
      Bool.false_eq_true]

/-- `wstr_to_cstr` and `wstr_to_wstr` send a piece. -/
theorem wstrToXstr_piece {width : Width} (c : PieceCall width) {t : WStr}
    (hplain : width = .narrow → PlainUnits t) {offt : ℕ} (hofft : offt ≤ t.length) :
    SendsPiece width c.octetLen c.cap offt (t.drop offt)
      (wstrToXstr c.context.octets width t (some offt) ⟨some c.mem, c.octetLen⟩) := by
  cases width with
  | narrow =>
    have hpiece := wstrToCstr_piece c.unlimited (hplain rfl) hofft c.room c.octetLen
    have hcap : c.cap = c.mem.length := Nat.div_one _
    rw [hcap]
    exact hpiece
  | wide => exact transferXstr0_piece c.unlimited .wide hofft c.room c.octetLen

namespace RowString

/-- The string is to be gone on with at an offset, by calls for the C type. -/
def At (t : WStr) (target : StringTarget) (offt : ℤ) (held : RowString) : Prop :=
  held.mem = t ∧ (held.gdCtype = some target ∧ held.gdOfft = offt ∨ held.gdCtype = none ∧ offt = 0)

end RowString

/-- A character column as a text. -/
theorem sql2cString_characters {col : DateTimeColumn} (hcol : col = .varchar ∨ col = .char)
    (s : StringContext) (width : Width) (t : WStr) (gdOfft : Option ℤ) (app : AppSide) :
    (sql2cString 0 s (.plain col) width.target t gdOfft app).2 =
      (wstrToXstr s.octets width t gdOfft app).bind fun sent ↦ .done ⟨sent, none⟩ := by
  rw [← wstrToString_characters hcol s.zone s.junk]
  cases width with
  | narrow => rfl
  | wide => rfl

/-- A call gets the next piece. -/
theorem call_piece {width : Width} {column : StringColumn} (hcolumn : column.Character) {t : WStr}
    (hplain : width = .narrow → PlainUnits t) {answer : Option WStr} (hanswer : answer.getD t = t)
    (c : PieceCall width) {offt : ℕ} (hofft : offt ≤ t.length) {held : RowString}
    (hat : held.At t width.target offt) :
    ∃ f held', held.call 0 column answer c.toHeldCall = .done (some f, held') ∧
      GotPiece c (t.drop offt) ((t.drop offt).take (c.cap - 1)) f ∧
        held'.At t width.target (offsetBehind offt c.cap (t.drop offt)) := by
  obtain ⟨hmem, hstate⟩ := hat
  obtain ⟨col, rfl, hcol⟩ : ∃ col, column = .plain col ∧ (col = .varchar ∨ col = .char) := by
    cases column with
    | plain col => exact ⟨col, rfl, hcolumn⟩
    | interval _ => exact hcolumn.elim
  have hoffset : held.offset c.toHeldCall = some (offt : ℤ) := by
    rw [RowString.offset, if_pos (show c.toHeldCall.getData = true from rfl)]
    rcases hstate with ⟨htype, hgd⟩ | ⟨htype, hgd⟩
    · rw [if_pos ⟨rfl, htype⟩, hgd]
    · have hnew : ¬held.Resumed c.toHeldCall := fun h ↦ Option.some_ne_none _ (h.2.symm.trans htype)
      rw [if_neg hnew, hgd]
  have hend : ¬(held.Resumed c.toHeldCall ∧ held.gdOfft < 0) := by
    rintro ⟨⟨-, htype⟩, hneg⟩
    rcases hstate with ⟨-, hgd⟩ | ⟨hnone, -⟩
    · omega
    · exact Option.some_ne_none _ (htype.symm.trans hnone)
  obtain ⟨app, hsent, hholds, hlen⟩ := wstrToXstr_piece c hplain hofft
  have hread : (sql2cString 0 c.context (.plain col) width.target t (some (offt : ℤ))
      ⟨some c.mem, c.octetLen⟩).2 =
        .done ⟨⟨if (t.drop offt).length < c.cap then .s00000 else .s01004, app,
          some (offsetBehind offt c.cap (t.drop offt))⟩, none⟩ := by
    rw [sql2cString_characters hcol, hsent]
    rfl
  generalize hout : (⟨⟨if (t.drop offt).length < c.cap then .s00000 else .s01004, app,
    some (offsetBehind offt c.cap (t.drop offt))⟩, none⟩ : StringFetched) = out at hread
  have hstates : out.state.retcode.succeeded = true := by
    rw [← hout]
    dsimp only
    split_ifs
    · rfl
    · rfl
  refine ⟨out, RowString.after t c.toHeldCall out, ?_, ?_, ?_⟩
  · have hmem' : answer.getD held.mem = t := by rw [hmem, hanswer]
    rw [call_eq hmem' hend, hoffset]
    show (sql2cString 0 c.context (.plain col) width.target t (some (offt : ℤ))
      ⟨some c.mem, c.octetLen⟩).2.bind _ = _
    rw [hread]
    rfl
  · rw [← hout]
    exact ⟨rfl, rfl, hholds, hlen⟩
  · rw [RowString.after, if_pos ⟨rfl, hstates⟩, ← hout]
    exact ⟨rfl, .inl ⟨rfl, rfl⟩⟩

/-- Behind the last piece there is no more data. -/
theorem run_ended {width : Width} {column : StringColumn} {answer : Option WStr}
    (cs : List (PieceCall width)) {held : RowString}
    (hend : held.gdCtype = some width.target ∧ held.gdOfft < 0) :
    held.run 0 column answer (cs.map PieceCall.toHeldCall) = .done (cs.map fun _ ↦ none) := by
  induction cs with
  | nil => rfl
  | cons c cs ih =>
    have hresumed : held.Resumed c.toHeldCall ∧ held.gdOfft < 0 := ⟨⟨rfl, hend.1⟩, hend.2⟩
    rw [List.map_cons, RowString.run, RowString.call, if_pos hresumed, Exec.bind_done]
    dsimp only
    rw [ih]
    rfl

/-- Calls get what is left of a text in pieces. -/
theorem run_pieces {width : Width} {column : StringColumn} (hcolumn : column.Character) {t : WStr}
    (hplain : width = .narrow → PlainUnits t) {answer : Option WStr} (hanswer : answer.getD t = t)
    (cs : List (PieceCall width)) {offt : ℕ} (hofft : offt ≤ t.length) {held : RowString}
    (hat : held.At t width.target offt) :
    ∃ outs pieces, held.run 0 column answer (cs.map PieceCall.toHeldCall) = .done outs ∧
      InPieces (t.drop offt) cs outs pieces := by
  induction cs generalizing offt held with
  | nil => exact ⟨[], [], rfl, .stop _⟩
  | cons c cs ih =>
    obtain ⟨f, held', hcall, hgot, hat'⟩ := call_piece hcolumn hplain hanswer c hofft hat
    by_cases hlast : (t.drop offt).length < c.cap
    · have hend : held'.gdCtype = some width.target ∧ held'.gdOfft < 0 := by
        rw [offsetBehind, if_pos hlast] at hat'
        rcases hat'.2 with ⟨htype, hgd⟩ | ⟨-, hgd⟩
        · exact ⟨htype, hgd ▸ Int.negSucc_lt_zero 0⟩
        · cases hgd
      refine ⟨some f :: cs.map fun _ ↦ none, [t.drop offt], ?_, .last cs ?_ hlast⟩
      · rw [List.map_cons, RowString.run, hcall, Exec.bind_done]
        dsimp only
        rw [run_ended cs hend]
        rfl
      · rwa [List.take_of_length_le (by omega)] at hgot
    · have hmore : c.cap ≤ (t.drop offt).length := not_lt.mp hlast
      rw [offsetBehind, if_neg hlast] at hat'
      have hle : offt + (c.cap - 1) ≤ t.length := by
        rw [List.length_drop] at hmore
        omega
      obtain ⟨outs, pieces, hrun, hin⟩ := ih hle (by exact_mod_cast hat')
      rw [← List.drop_drop] at hin
      refine ⟨some f :: outs, _ :: pieces, ?_, .more hgot hmore hin⟩
      rw [List.map_cons, RowString.run, hcall, Exec.bind_done]
      dsimp only
      rw [hrun]
      rfl

/-- A character column that an application gets with any calls of `SQLGetData`, wide or, if it is
ASCII, narrow, comes in pieces that are the text, as far as the buffers have units for it. -/
theorem fetched_in_pieces {width : Width} {column : StringColumn} (hcolumn : column.Character)
    (limit : ℕ) (cbor : Bool) (w : WStr) (hplain : width = .narrow → PlainUnits w)
    (cs : List (PieceCall width)) :
    ∃ outs pieces, fetched limit column cbor w (cs.map PieceCall.toHeldCall) = .done outs ∧
      InPieces (varcharLimited limit w) cs outs pieces ∧
        pieces.flatten = (varcharLimited limit w).take (cs.map fun c ↦ c.cap - 1).sum := by
  rw [fetched_cut]
  have hplain' : width = .narrow → PlainUnits (varcharLimited limit w) := by
    intro hwidth c hc
    refine hplain hwidth c ?_
    rw [varcharLimited] at hc
    split_ifs at hc
    · exact hc
    · exact hc
    · exact List.mem_of_mem_take hc
  generalize varcharLimited limit w = t at hplain' ⊢
  have hanswer : (if cbor then some t else none).getD t = t := by cases cbor <;> rfl
  obtain ⟨outs, pieces, hrun, hin⟩ := run_pieces hcolumn hplain' hanswer cs (Nat.zero_le t.length)
    (show (RowString.fresh t).At t width.target (0 : ℕ) from ⟨rfl, .inr ⟨rfl, rfl⟩⟩)
  rw [List.drop_zero] at hin
  exact ⟨outs, pieces, hrun, hin, hin.flatten⟩

/-- The first day of the epoch. -/
def epochDay : IsoDate where
  year := 1970
  month := 1
  day := 1
  month_pos := le_rfl
  month_le := Nat.le_add_left 1 11
  day_pos := le_rfl
  day_le := Nat.le_add_left 1 30
  start := fun _ ↦ Nat.le_add_left 1 1969
  year_pos := Nat.le_add_left 1 1969
  year_le := Nat.le_add_left 1970 8029

/-- A call with a buffer of two units. -/
def twoUnits : PieceCall .wide where
  context := { (askLength epochDay).context with octets := ⟨true, 0, 4⟩ }
  mem := [0, 0, 0, 0]
  octetLen := none
  room := rfl
  unlimited := rfl

/-- A text of two units in three calls. -/
theorem fetched_in_pieces_two : ∃ outs pieces,
    fetched 0 (.plain .varchar) false [0x61, 0x62]
      ([twoUnits, twoUnits, twoUnits].map PieceCall.toHeldCall) = .done outs ∧
      InPieces (varcharLimited 0 [0x61, 0x62]) [twoUnits, twoUnits, twoUnits] outs pieces ∧
        pieces.flatten = (varcharLimited 0 [0x61, 0x62]).take
          ([twoUnits, twoUnits, twoUnits].map fun c ↦ c.cap - 1).sum :=
  fetched_in_pieces (show StringColumn.Character (.plain .varchar) from Or.inl rfl) 0 false _
    (fun h ↦ by cases h) _

end EsOdbc

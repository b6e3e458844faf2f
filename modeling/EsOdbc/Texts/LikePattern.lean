import EsOdbc.Lib.Like
import EsOdbc.Memory
import EsOdbc.Ujson

/-!
# Names as patterns

`metadata_id_escape` (`util.c`).  Its loop takes in the unit behind the name: where that is a
terminator it is copied, and uncounted.
-/

namespace EsOdbc

/-! ## The source -/

/-- `%`, `_` and `\`. -/
def pva : Like.Specials UInt16 := ⟨0x25, 0x5F, 0x5C, by decide, by decide⟩

/-- The flag, the destination and its count. -/
structure IdEscaped where
  escaped : Bool
  dst : WStr
  cnt : ℕ
deriving DecidableEq, Repr

/-- The source as it is. -/
def copySource (src dst : WStr) (cnt : ℕ) : Exec IdEscaped :=
  (Exec.ofOption (Buffer.load src 0 cnt)).bind fun units ↦
    (Exec.ofOption (Buffer.store dst 0 units)).bind fun dst ↦ .done ⟨false, dst, cnt⟩

/-- Whether the loop of `metadata_id_escape` gives up. -/
def givesUp (cnt : ℕ) (force : Bool) (prev crr : UInt16) : Prop :=
  Like.Special pva crr ∧ (prev = pva.escape ∨ cnt = 1) ∧ force = false

instance (cnt : ℕ) (force : Bool) (prev crr : UInt16) : Decidable (givesUp cnt force prev crr) := by
  unfold givesUp
  infer_instance

/-- The loop of `metadata_id_escape`, at unit `i` with so many to go. -/
def idEscapeLoop (src : WStr) (cnt : ℕ) (force : Bool) :
    ℕ → ℕ → UInt16 → Bool → WStr × ℕ → Exec IdEscaped
  | 0, _, _, ret, dst => .done ⟨ret, dst.1, if 0 < dst.2 then dst.2 - 1 else 0⟩
  | left + 1, i, prev, ret, dst =>
    (Exec.ofOption src[i]?).bind fun crr ↦
      if givesUp cnt force prev crr then copySource src dst.1 cnt
      else (put dst (Like.escape pva [crr])).bind fun dst ↦
        idEscapeLoop src cnt force left (i + 1) crr (ret || decide (Like.Special pva crr)) dst

/-- `metadata_id_escape`. -/
def metadataIdEscape (src : WStr) (cnt : ℕ) (force : Bool) (dst : WStr) : Exec IdEscaped :=
  idEscapeLoop src cnt force (cnt + 1) 0 0 false (dst, 0)

/-! ## The loop -/

/-- Whether the loop gives up on one of these units. -/
def stops (cnt : ℕ) (force : Bool) : UInt16 → WStr → Prop
  | _, [] => False
  | prev, crr :: u => givesUp cnt force prev crr ∨ stops cnt force crr u

/-- The last of some units, or the one in front of them. -/
def lastUnit : UInt16 → WStr → UInt16
  | prev, [] => prev
  | _, crr :: u => lastUnit crr u

variable {cnt : ℕ} {force : Bool}

theorem escape_cons (crr : UInt16) (u : WStr) :
    Like.escape pva (crr :: u) = Like.escape pva [crr] ++ Like.escape pva u :=
  Like.escape_append [crr] u

/-- The loop over units that it does not give up on. -/
theorem idEscapeLoop_escapes (pre u behind : WStr) (left : ℕ) {prev : UInt16} {ret : Bool}
    {dst : WStr × ℕ} (hstop : ¬stops cnt force prev u)
    (hroom : dst.2 + (Like.escape pva u).length ≤ dst.1.length) :
    ∃ ret' buf, idEscapeLoop (pre ++ (u ++ behind)) cnt force (u.length + left) pre.length prev ret
        dst = idEscapeLoop (pre ++ (u ++ behind)) cnt force left (pre ++ u).length (lastUnit prev u)
          ret' (buf, dst.2 + (Like.escape pva u).length) ∧ buf.length = dst.1.length ∧
      buf.take (dst.2 + (Like.escape pva u).length) = dst.1.take dst.2 ++ Like.escape pva u := by
  induction u generalizing pre prev ret dst with
  | nil =>
    refine ⟨ret, dst.1, ?_, rfl, ?_⟩
    · rw [List.length_nil, Nat.zero_add, List.append_nil]
      rfl
    · rw [Like.escape_nil, List.append_nil]
      rfl
  | cons crr u ih =>
    rw [stops, not_or] at hstop
    have htotal : dst.2 + (Like.escape pva (crr :: u)).length =
        dst.2 + (Like.escape pva [crr]).length + (Like.escape pva u).length := by
      rw [escape_cons, List.length_append, Nat.add_assoc]
    rw [htotal] at hroom
    have hread : (pre ++ (crr :: u ++ behind))[pre.length]? = some crr := by simp
    have hnext : pre ++ (crr :: u ++ behind) = (pre ++ [crr]) ++ (u ++ behind) := by simp
    have hthrough : pre ++ crr :: u = (pre ++ [crr]) ++ u := by simp
    have hleft : (crr :: u).length + left = (u.length + left) + 1 := by
      rw [List.length_cons]
      omega
    obtain ⟨buf, hput, hsize, htake⟩ := put_done ((Nat.le_add_right _ _).trans hroom)
    obtain ⟨ret', buf', hrun, hsize', htake'⟩ := @ih (pre ++ [crr]) crr
      (ret || decide (Like.Special pva crr)) (buf, dst.2 + (Like.escape pva [crr]).length) hstop.2
      (hsize ▸ hroom)
    have hlen : (pre ++ [crr]).length = pre.length + 1 := List.length_append
    refine ⟨ret', buf', ?_, hsize'.trans hsize, ?_⟩
    · rw [hleft, idEscapeLoop, hread, Exec.ofOption_some, Exec.bind_done, if_neg hstop.1, hput,
        Exec.bind_done, ← hlen, hnext, hrun, htotal, hthrough, lastUnit]
    · rw [htotal, htake', htake, List.append_assoc, ← escape_cons]

/-- The loop over units that it gives up on: the source is copied. -/
theorem idEscapeLoop_stops (pre u behind : WStr) (left : ℕ) {prev : UInt16} {ret : Bool}
    {dst : WStr × ℕ} (hstop : stops cnt force prev u)
    (hroom : dst.2 + (Like.escape pva u).length ≤ dst.1.length) :
    ∃ buf : WStr, buf.length = dst.1.length ∧
      idEscapeLoop (pre ++ (u ++ behind)) cnt force (u.length + left) pre.length prev ret dst =
        copySource (pre ++ (u ++ behind)) buf cnt := by
  induction u generalizing pre prev ret dst with
  | nil => exact absurd hstop id
  | cons crr u ih =>
    rw [escape_cons, List.length_append, ← Nat.add_assoc] at hroom
    have hread : (pre ++ (crr :: u ++ behind))[pre.length]? = some crr := by simp
    have hnext : pre ++ (crr :: u ++ behind) = (pre ++ [crr]) ++ (u ++ behind) := by simp
    have hleft : (crr :: u).length + left = (u.length + left) + 1 := by
      rw [List.length_cons]
      omega
    rw [hleft, idEscapeLoop, hread, Exec.ofOption_some, Exec.bind_done]
    by_cases hcrr : givesUp cnt force prev crr
    · exact ⟨dst.1, rfl, if_pos hcrr⟩
    · have hrest : stops cnt force crr u := hstop.resolve_left hcrr
      obtain ⟨buf, hput, hsize, -⟩ := put_done ((Nat.le_add_right _ _).trans hroom)
      obtain ⟨buf', hsize', hrun⟩ := @ih (pre ++ [crr]) crr (ret || decide (Like.Special pva crr))
        (buf, dst.2 + (Like.escape pva [crr]).length) hrest (hsize ▸ hroom)
      have hlen : (pre ++ [crr]).length = pre.length + 1 := List.length_append
      refine ⟨buf', hsize'.trans hsize, ?_⟩
      rw [if_neg hcrr, hput, Exec.bind_done, ← hlen, hnext, hrun]

/-- What the loop gives up on: a name of one special unit, or a special unit behind an escape. -/
theorem stops_iff {prev : UInt16} {u : WStr} : stops cnt force prev u ↔ force = false ∧
    ((cnt = 1 ∧ ∃ c ∈ u, Like.Special pva c) ∨
      ∃ a c b, prev :: u = a ++ pva.escape :: c :: b ∧ Like.Special pva c) := by
  induction u generalizing prev with
  | nil =>
    refine iff_of_false id ?_
    rintro ⟨-, ⟨-, c, hc, -⟩ | ⟨a, c, b, h, -⟩⟩
    · cases hc
    · have hlen := congrArg List.length h
      simp only [List.length_append, List.length_cons, List.length_nil] at hlen
      omega
  | cons crr u ih =>
    rw [stops, ih]
    constructor
    · rintro (⟨hspecial, hprev | hone, hforce⟩ | ⟨hforce, ⟨hone, c, hc, hspecial⟩ | ⟨a, c, b, h, hspecial⟩⟩)
      · exact ⟨hforce, .inr ⟨[], crr, u, by rw [hprev]; rfl, hspecial⟩⟩
      · exact ⟨hforce, .inl ⟨hone, crr, List.mem_cons_self, hspecial⟩⟩
      · exact ⟨hforce, .inl ⟨hone, c, List.mem_cons_of_mem _ hc, hspecial⟩⟩
      · exact ⟨hforce, .inr ⟨prev :: a, c, b, by rw [h]; rfl, hspecial⟩⟩
    · rintro ⟨hforce, ⟨hone, c, hc, hspecial⟩ | ⟨a, c, b, h, hspecial⟩⟩
      · rcases List.mem_cons.mp hc with rfl | hc
        · exact .inl ⟨hspecial, .inr hone, hforce⟩
        · exact .inr ⟨hforce, .inl ⟨hone, c, hc, hspecial⟩⟩
      · cases a with
        | nil =>
          obtain ⟨hprev, h⟩ := List.cons.inj h
          obtain ⟨rfl, -⟩ := List.cons.inj h
          exact .inl ⟨hspecial, .inl hprev, hforce⟩
        | cons p a =>
          obtain ⟨-, h⟩ := List.cons.inj h
          exact .inr ⟨hforce, .inr ⟨a, c, b, h, hspecial⟩⟩

/-! ## The name -/

/-- A special unit that is escaped already, or stands alone. -/
def Kept (s : WStr) : Prop :=
  (∃ a c b, s = a ++ pva.escape :: c :: b ∧ Like.Special pva c) ∨ ∃ c, s = [c] ∧ Like.Special pva c

theorem stops_zero_iff {s : WStr} : stops s.length force 0 s ↔ force = false ∧ Kept s := by
  rw [stops_iff, Kept]
  refine and_congr_right fun _ ↦ ⟨?_, ?_⟩
  · rintro (⟨hone, c, hc, hspecial⟩ | ⟨a, c, b, h, hspecial⟩)
    · obtain ⟨d, rfl⟩ := List.length_eq_one_iff.mp hone
      exact .inr ⟨d, rfl, List.mem_singleton.mp hc ▸ hspecial⟩
    · cases a with
      | nil => exact absurd (List.cons.inj h).1 (by decide)
      | cons p a => exact .inl ⟨a, c, b, (List.cons.inj h).2, hspecial⟩
  · rintro (⟨a, c, b, rfl, hspecial⟩ | ⟨c, rfl, hspecial⟩)
    · exact .inr ⟨0 :: a, c, b, rfl, hspecial⟩
    · exact .inl ⟨rfl, c, List.mem_singleton_self c, hspecial⟩

variable {s behind room : WStr} {c : UInt16}

theorem copySource_done (hroom : s.length ≤ room.length) :
    ∃ out, copySource (s ++ behind) room s.length = .done ⟨false, out, s.length⟩ ∧
      out.take s.length = s := by
  have hload : Buffer.load (s ++ behind) 0 s.length = some s := by
    rw [Buffer.load_eq_some (by simp), List.drop_zero, List.take_left]
  obtain ⟨out, hstore⟩ := Buffer.exists_store room 0 s (by simpa using hroom)
  have htake := Buffer.take_store hstore
  rw [Nat.zero_add, List.take_zero, List.nil_append] at htake
  refine ⟨out, ?_, htake⟩
  rw [copySource, hload, Exec.ofOption_some, Exec.bind_done, hstore]
  rfl

/-- A name that the loop gives up on is copied. -/
theorem metadataIdEscape_kept (hkept : force = false ∧ Kept s)
    (hroom : room.length = 2 * s.length + 1) :
    ∃ out, metadataIdEscape (s ++ behind) s.length force room = .done ⟨false, out, s.length⟩ ∧
      out.take s.length = s := by
  have hfits : 0 + (Like.escape pva s).length ≤ room.length := by
    have hle := Like.length_escape_le (S := pva) s
    omega
  obtain ⟨buf, hsize, hrun⟩ := @idEscapeLoop_stops s.length force [] s behind 1 0 false (room, 0)
    (stops_zero_iff.mpr hkept) hfits
  obtain ⟨out, hcopy, htake⟩ := @copySource_done s behind buf (by rw [hsize]; dsimp only; omega)
  exact ⟨out, hrun.trans hcopy, htake⟩

/-- Another name is escaped, up to the unit behind it. -/
theorem metadataIdEscape_through (hkept : ¬(force = false ∧ Kept s))
    (hroom : room.length = 2 * s.length + 1) :
    ∃ ret out, metadataIdEscape (s ++ behind) s.length force room =
        idEscapeLoop (s ++ behind) s.length force 1 s.length (lastUnit 0 s) ret
          (out, (Like.escape pva s).length) ∧ out.length = room.length ∧
      out.take (Like.escape pva s).length = Like.escape pva s := by
  have hfits : 0 + (Like.escape pva s).length ≤ room.length := by
    have hle := Like.length_escape_le (S := pva) s
    omega
  obtain ⟨ret, out, hrun, hsize, htake⟩ := @idEscapeLoop_escapes s.length force [] s behind 1 0
    false (room, 0) (fun h ↦ hkept (stops_zero_iff.mp h)) hfits
  rw [Nat.zero_add] at hrun htake
  exact ⟨ret, out, hrun, hsize, htake⟩

/-- What is to be written for a name. -/
def IdText (s : WStr) (force : Bool) (w : WStr) : Prop :=
  (force = false ∧ Kept s ∧ w = s) ∨ (¬(force = false ∧ Kept s) ∧ w = Like.escape pva s)

/-- The result is that text, in a destination of twice the units of the name and one more: as a
pattern, the forced one matches the name only. -/
def EscapesId (s behind : WStr) (force : Bool) : Prop :=
  ∀ room : WStr, room.length = 2 * s.length + 1 → ∃ ret out w, IdText s force w ∧
    metadataIdEscape (s ++ behind) s.length force room = .done ⟨ret, out, w.length⟩ ∧
    out.take w.length = w ∧ (force = true → ∀ t, Like.Matches pva w t ↔ t = s)

theorem IdText.matches_iff {w t : WStr} (h : IdText s true w) :
    Like.Matches pva w t ↔ t = s := by
  obtain ⟨hforce, -⟩ | ⟨-, rfl⟩ := h
  · cases hforce
  · exact Like.matches_escape_iff

/-- The last unit is one of the units, or the one in front of them. -/
theorem lastUnit_mem (prev : UInt16) (u : WStr) : lastUnit prev u = prev ∨ lastUnit prev u ∈ u := by
  induction u generalizing prev with
  | nil => exact .inl rfl
  | cons crr u ih =>
    refine .inr ?_
    obtain h | h := ih crr
    · rw [lastUnit, h]
      exact List.mem_cons_self
    · exact List.mem_cons_of_mem _ h

/-- The loop at the unit behind the name, where that is no special one. -/
theorem idEscapeLoop_behind_plain (hc : ¬Like.Special pva c) {prev : UInt16} {ret : Bool}
    {dst : WStr × ℕ} (hroom : dst.2 + 1 ≤ dst.1.length) :
    ∃ ret' out, idEscapeLoop (s ++ c :: behind) cnt force 1 s.length prev ret dst =
        .done ⟨ret', out, dst.2⟩ ∧ out.take dst.2 = dst.1.take dst.2 := by
  have hread : (s ++ c :: behind)[s.length]? = some c := by simp
  have hplain : Like.escape pva [c] = [c] := Like.escape_cons_plain hc []
  obtain ⟨out, hput, -, htake⟩ := @put_done _ dst [c] hroom
  refine ⟨ret || decide (Like.Special pva c), out, ?_, ?_⟩
  · rw [idEscapeLoop, hread, Exec.ofOption_some, Exec.bind_done, if_neg fun h ↦ hc h.1, hplain, hput,
      Exec.bind_done, idEscapeLoop]
    dsimp only
    rw [List.length_singleton, if_pos (Nat.succ_pos _), Nat.add_sub_cancel]
  · have hpre : out.take dst.2 = (out.take (dst.2 + [c].length)).take dst.2 := by
      rw [List.take_take, Nat.min_eq_left (Nat.le_add_right _ _)]
    rw [hpre, htake, List.take_left' (List.length_take_of_le (Nat.le_of_succ_le hroom))]

/-- There, a special one is counted. -/
theorem idEscapeLoop_behind_special (hc : Like.Special pva c) {prev : UInt16} {ret : Bool}
    (hgoes : ¬givesUp cnt force prev c) {dst : WStr × ℕ} {r : IdEscaped}
    (h : idEscapeLoop (s ++ c :: behind) cnt force 1 s.length prev ret dst = .done r) :
    r.cnt = dst.2 + 1 := by
  have hread : (s ++ c :: behind)[s.length]? = some c := by simp
  have hspecial : Like.escape pva [c] = [pva.escape, c] := Like.escape_cons_special hc []
  rw [idEscapeLoop, hread, Exec.ofOption_some, Exec.bind_done, if_neg hgoes, hspecial, put] at h
  cases hstore : Buffer.store dst.1 dst.2 [pva.escape, c] with
  | none =>
    rw [hstore] at h
    cases h
  | some buf =>
    rw [hstore] at h
    cases h
    rfl

theorem escape_of_length_one (hone : s.length = 1) (hkept : ¬Kept s) : Like.escape pva s = s := by
  obtain ⟨a, rfl⟩ := List.length_eq_one_iff.mp hone
  exact Like.escape_cons_plain (fun ha ↦ hkept (.inr ⟨a, rfl, ha⟩)) []

/-- A name is escaped as described where it is copied, or where the unit behind it is no special
one; that makes no difference only to a name of one unit, unless it is forced. -/
theorem escapesId_iff (s behind : WStr) (force : Bool) : EscapesId s behind force ↔
    (force = false ∧ Kept s) ∨ ∃ c, behind.head? = some c ∧
      (¬Like.Special pva c ∨ (force = false ∧ s.length = 1)) := by
  constructor
  · intro h
    refine or_iff_not_imp_left.mpr fun hkept ↦ ?_
    obtain ⟨ret, out, w, hw, hrun, htake, -⟩ :=
      h (List.replicate (2 * s.length + 1) 0) List.length_replicate
    obtain ⟨hforce, hyes, -⟩ | ⟨-, rfl⟩ := hw
    · exact absurd ⟨hforce, hyes⟩ hkept
    obtain ⟨ret', buf, hthrough, hsize, -⟩ := @metadataIdEscape_through force s behind
      (List.replicate (2 * s.length + 1) 0) hkept List.length_replicate
    rw [hthrough] at hrun
    cases behind with
    | nil =>
      rw [idEscapeLoop, List.append_nil, List.getElem?_eq_none le_rfl] at hrun
      cases hrun
    | cons c rest =>
      refine ⟨c, rfl, or_iff_not_imp_left.mpr fun hc ↦ ?_⟩
      replace hc := not_not.mp hc
      by_cases hup : givesUp s.length force (lastUnit 0 s) c
      · refine ⟨hup.2.2, hup.2.1.resolve_left fun hlast ↦ ?_⟩
        have hread : (s ++ c :: rest)[s.length]? = some c := by simp
        obtain ⟨out', hcopy, -⟩ := @copySource_done s (c :: rest) buf (by
          rw [hsize, List.length_replicate]
          omega)
        rw [idEscapeLoop, hread, Exec.ofOption_some, Exec.bind_done, if_pos hup, hcopy] at hrun
        have hcnt : s.length = (Like.escape pva s).length :=
          congrArg IdEscaped.cnt (Exec.done.inj hrun)
        have hmem : pva.escape ∈ s := by
          obtain hzero | hmem := lastUnit_mem 0 s
          · exact absurd (hzero.symm.trans hlast) (by decide)
          · exact hlast ▸ hmem
        exact absurd hcnt (Like.lt_length_escape hmem (.inr (.inr rfl))).ne
      · exact absurd (idEscapeLoop_behind_special hc hup hrun) (Nat.succ_ne_self _).symm
  · intro h room hroom
    by_cases hkept : force = false ∧ Kept s
    · obtain ⟨out, hrun, htake⟩ := @metadataIdEscape_kept force s behind room hkept hroom
      refine ⟨false, out, s, .inl ⟨hkept.1, hkept.2, rfl⟩, hrun, htake, fun hforce ↦ ?_⟩
      exact absurd (hforce.symm.trans hkept.1) (by decide)
    · have hw : IdText s force (Like.escape pva s) := .inr ⟨hkept, rfl⟩
      have hmatches (hforce : force = true) (t : WStr) :
          Like.Matches pva (Like.escape pva s) t ↔ t = s := Like.matches_escape_iff
      obtain ⟨c, hhead, hc⟩ := h.resolve_left hkept
      obtain ⟨rest, rfl⟩ := List.head?_eq_some_iff.mp hhead
      obtain ⟨ret, buf, hthrough, hsize, htake⟩ :=
        @metadataIdEscape_through force s (c :: rest) room hkept hroom
      by_cases hspecial : Like.Special pva c
      · obtain ⟨hforce, hone⟩ := hc.resolve_left (not_not.mpr hspecial)
        have hplain := escape_of_length_one hone fun hyes ↦ hkept ⟨hforce, hyes⟩
        have hread : (s ++ c :: rest)[s.length]? = some c := by simp
        obtain ⟨out, hcopy, hout⟩ := @copySource_done s (c :: rest) buf (by
          rw [hsize, hroom]
          omega)
        have hup : givesUp s.length force (lastUnit 0 s) c := ⟨hspecial, .inr hone, hforce⟩
        refine ⟨false, out, Like.escape pva s, hw, ?_, ?_, hmatches⟩
        · rw [hthrough, idEscapeLoop, hread, Exec.ofOption_some, Exec.bind_done, if_pos hup, hcopy,
            hplain]
        · rw [hplain, hout]
      · have hle := Like.length_escape_le (S := pva) s
        obtain ⟨ret', out, hrun, hout⟩ := @idEscapeLoop_behind_plain s.length force s rest c hspecial
          (lastUnit 0 s) ret (buf, (Like.escape pva s).length) (by
            rw [hsize, hroom]
            exact Nat.succ_le_succ hle)
        exact ⟨ret', out, _, hw, hthrough.trans hrun, hout.trans htake, hmatches⟩

/-- A name of one letter in front of a percent sign. -/
theorem not_escapesId_percent : ¬EscapesId [0x61] [0x25] true := by
  intro h
  obtain ⟨ret, out, w, hw, hrun, -, -⟩ := h [0, 0, 0] rfl
  have hdone : metadataIdEscape ([0x61] ++ [0x25]) 1 true [0, 0, 0] =
    .done ⟨true, [0x61, 0x5C, 0x25], 2⟩ := by decide
  have hcnt : 2 = w.length := congrArg IdEscaped.cnt (Exec.done.inj (hdone.symm.trans hrun))
  obtain ⟨hforce, -⟩ | ⟨-, rfl⟩ := hw
  · cases hforce
  · exact absurd hcnt (by decide)

end EsOdbc

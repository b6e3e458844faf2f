import EsOdbc.Dsn.RoundTrip

/-!
# The buffers of DSN attributes

What `dsn.c` does to an `esodbc_dsn_attrs_st`, call after call.  The functions are over
anything that a value can be stored in: the structure in memory, where a value is copied
over what its part of the buffer held, and the values that were stored, one after the
other.  The second tells when the first holds terminated strings.
-/

namespace EsOdbc

/-- Something the values of attributes are kept in. -/
class DsnStore (σ : Type) where
  value : σ → DsnAttr → WStr
  store : σ → DsnAttr → (v : WStr) → v.length ≤ dsnMaxAttrLen → σ

open DsnStore (value store)

/-! ## The functions of `dsn.c` -/

namespace Dsn

section Functions

variable {σ : Type} [DsnStore σ]

/-- `assign_dsn_attr`; no result is its error. -/
def assignDsnAttr (s : σ) (keyword val : WStr) (overwrite : Bool) : Option (DsnAssign × σ) :=
  if h : val.length ≤ dsnMaxAttrLen then
    match DsnAttr.all.find? fun a ↦ eqCaseWstr a.keyword keyword with
    | none => some (.notMatched, s)
    | some a =>
      if value s a ≠ [] then
        if overwrite then some (.overwritten, store s a val h) else some (.notOverwritten, s)
      else
        some (.assigned, store s a val h)
  else
    none

/-- One turn of the loop of `parse_connection_string`; without a result nothing was stored. -/
def parseTurn (s : σ) (text : WStr) : Option (σ × WStr) :=
  (parseToken false text).bind fun (keyword, text) ↦
    let ws := skipWs false text
    if !ws.2 then none
    else if ws.1.head? ≠ some 0x3D then none
    else
      let ws := skipWs false ws.1.tail
      if !ws.2 then some (s, ws.1)
      else
        (parseToken true ws.1).bind fun (val, text) ↦
          (assignDsnAttr s keyword val true).map fun r ↦ (r.2, text)

/-- The loop of `parse_connection_string`, with what it returns. -/
def parseLoop : ℕ → σ → WStr → Bool × σ
  | 0, s, _ => (false, s)
  | n + 1, s, text =>
    let ws := skipWs true text
    if !ws.2 then (true, s)
    else (parseTurn s ws.1).elim (false, s) fun r ↦ parseLoop n r.1 r.2

/-- `parse_connection_string`. -/
def parseConnectionString (s : σ) (text : WStr) : Bool × σ :=
  parseLoop (text.length + 1) s text

/-- The entries of a doubly null-terminated list, with the entry that has been started. -/
def entries00 : WStr → WStr → List WStr
  | entry, [] => if entry = [] then [] else [entry]
  | entry, c :: list00 =>
    if c = 0 then
      if entry = [] then [] else entry :: entries00 [] list00
    else
      entries00 (entry ++ [c]) list00

/-- The loop of `parse_00_list`. -/
def parseEntries : List WStr → σ → Bool × σ
  | [], s => (true, s)
  | entry :: entries, s =>
    if 2 ^ 15 - 1 < entry.length then (false, s)
    else
      let r := parseConnectionString s entry
      if r.1 then parseEntries entries r.2 else r

/-- `parse_00_list`. -/
def parse00List (s : σ) (list00 : WStr) : Bool × σ := parseEntries (entries00 [] list00) s

/-- The loop of `load_system_dsn` over the names of the keys; `get` is what the registry
has for one. -/
def loadKeys (get : WStr → Option WStr) (overwrite : Bool) : List WStr → σ → ℤ × σ
  | [], s => (1, s)
  | keyword :: keys, s =>
    if eqCaseWstr keyword DsnAttr.driver.keyword then loadKeys get overwrite keys s
    else
      match get keyword with
      | none => (-1, s)
      | some val =>
        (assignDsnAttr s keyword val overwrite).elim (0, s) fun r ↦ loadKeys get overwrite keys r.2

/-- `load_system_dsn`; `names` is the list of the keys, where it can be read. -/
def loadSystemDsn (s : σ) (names : Option WStr) (get : WStr → Option WStr) (overwrite : Bool) :
    ℤ × σ :=
  match names with
  | none => (-1, s)
  | some names => loadKeys get overwrite (entries00 [] names) s

/-- A default that is assigned. -/
def assignDefault (s : σ) (a : DsnAttr) (val : WStr) : σ :=
  (assignDsnAttr s a.keyword val false).elim s (·.2)

/-- The defaults that a cloud ID stands for otherwise. -/
def serverDefaults : List (DsnAttr × WStr) :=
  [(.server, wstr "127.0.0.1"), (.port, wstr "9200"), (.secure, wstr "1")]

/-- The other defaults. -/
def dsnDefaults : List (DsnAttr × WStr) :=
  [(.timeout, wstr "0"), (.follow, wstr "true"), (.packing, wstr "CBOR"),
    (.compression, wstr "auto"), (.maxFetchSize, wstr "0"), (.maxBodySize, wstr "100"),
    (.applyTz, wstr "false"), (.earlyExec, wstr "true"), (.sciFloats, wstr "default"),
    (.varcharLimit, wstr "0"), (.mfieldLenient, wstr "true"), (.autoEscPva, wstr "true"),
    (.idxIncFrozen, wstr "false"), (.proxyEnabled, wstr "false"),
    (.proxyAuthEnabled, wstr "false"), (.traceEnabled, wstr "0"), (.traceLevel, wstr "WARN")]

/-- `assign_dsn_defaults`. -/
def assignDsnDefaults (s : σ) : σ :=
  let s := if value s .cloudId = []
    then serverDefaults.foldl (fun s d ↦ assignDefault s d.1 d.2) s else s
  dsnDefaults.foldl (fun s d ↦ assignDefault s d.1 d.2) s

end Functions

/-- A call on an attribute structure. -/
inductive Call where
  | assignDsnAttr (keyword val : WStr) (overwrite : Bool)
  | parseConnectionString (text : WStr)
  | parse00List (list00 : WStr)
  | loadSystemDsn (names : Option WStr) (get : WStr → Option WStr) (overwrite : Bool)
  | assignDsnDefaults

variable {σ τ : Type} [DsnStore σ] [DsnStore τ]

/-- What a call leaves, whatever it returns. -/
def Call.run (s : σ) : Call → σ
  | .assignDsnAttr keyword val overwrite =>
    (Dsn.assignDsnAttr s keyword val overwrite).elim s (·.2)
  | .parseConnectionString text => (Dsn.parseConnectionString s text).2
  | .parse00List list00 => (Dsn.parse00List s list00).2
  | .loadSystemDsn names get overwrite => (Dsn.loadSystemDsn s names get overwrite).2
  | .assignDsnDefaults => Dsn.assignDsnDefaults s

/-- What a sequence of calls leaves. -/
def run (s : σ) (calls : List Call) : σ := calls.foldl Call.run s

/-! ## Simulation -/

/-- A relation of two stores that values cannot tell apart and that storing keeps. -/
structure Simulates (R : σ → τ → Prop) : Prop where
  value : ∀ {s t}, R s t → ∀ a, DsnStore.value s a = DsnStore.value t a
  store : ∀ {s t}, R s t → ∀ a v h, R (DsnStore.store s a v h) (DsnStore.store t a v h)

namespace Simulates

variable {R : σ → τ → Prop} (sim : Simulates R) {s : σ} {t : τ} (h : R s t)
include sim h

theorem assignDsnAttr (keyword val : WStr) (overwrite : Bool) :
    Option.Rel (fun r q ↦ r.1 = q.1 ∧ R r.2 q.2) (Dsn.assignDsnAttr s keyword val overwrite)
      (Dsn.assignDsnAttr t keyword val overwrite) := by
  rw [Dsn.assignDsnAttr, Dsn.assignDsnAttr]
  by_cases hlen : val.length ≤ dsnMaxAttrLen
  · rw [dif_pos hlen, dif_pos hlen]
    cases DsnAttr.all.find? fun a ↦ eqCaseWstr a.keyword keyword with
    | none => exact .some ⟨rfl, h⟩
    | some a =>
      simp only [sim.value h]
      split
      · split
        · exact .some ⟨rfl, sim.store h a val hlen⟩
        · exact .some ⟨rfl, h⟩
      · exact .some ⟨rfl, sim.store h a val hlen⟩
  · rw [dif_neg hlen, dif_neg hlen]
    exact .none

theorem parseTurn (text : WStr) :
    Option.Rel (fun r q ↦ R r.1 q.1 ∧ r.2 = q.2) (Dsn.parseTurn s text) (Dsn.parseTurn t text) := by
  rw [Dsn.parseTurn, Dsn.parseTurn]
  cases parseToken false text with
  | none => exact .none
  | some r =>
    dsimp only [Option.bind_some]
    split
    · exact .none
    · split
      · exact .none
      · split
        · exact .some ⟨h, rfl⟩
        · cases parseToken true (skipWs false (skipWs false r.2).1.tail).1 with
          | none => exact .none
          | some q =>
            dsimp only [Option.bind_some]
            cases hs : Dsn.assignDsnAttr s r.1 q.1 true <;>
              cases ht : Dsn.assignDsnAttr t r.1 q.1 true <;>
              have hassign := sim.assignDsnAttr h r.1 q.1 true <;> rw [hs, ht] at hassign
            · exact .none
            · cases hassign
            · cases hassign
            · exact .some ⟨(Option.rel_some_some.mp hassign).2, rfl⟩

theorem parseLoop (n : ℕ) (text : WStr) :
    (Dsn.parseLoop n s text).1 = (Dsn.parseLoop n t text).1 ∧
      R (Dsn.parseLoop n s text).2 (Dsn.parseLoop n t text).2 := by
  induction n generalizing s t text with
  | zero => exact ⟨rfl, h⟩
  | succ n ih =>
    rw [Dsn.parseLoop, Dsn.parseLoop]
    split
    · exact ⟨rfl, h⟩
    · cases hs : Dsn.parseTurn s (skipWs true text).1 <;>
        cases ht : Dsn.parseTurn t (skipWs true text).1 <;>
        have hturn := sim.parseTurn h (skipWs true text).1 <;> rw [hs, ht] at hturn
      · exact ⟨rfl, h⟩
      · cases hturn
      · cases hturn
      · obtain ⟨hR, htext⟩ := Option.rel_some_some.mp hturn
        rw [Option.elim_some, Option.elim_some, htext]
        exact ih hR _

theorem parseEntries (entries : List WStr) :
    (Dsn.parseEntries entries s).1 = (Dsn.parseEntries entries t).1 ∧
      R (Dsn.parseEntries entries s).2 (Dsn.parseEntries entries t).2 := by
  induction entries generalizing s t with
  | nil => exact ⟨rfl, h⟩
  | cons entry entries ih =>
    rw [Dsn.parseEntries, Dsn.parseEntries]
    split
    · exact ⟨rfl, h⟩
    · obtain ⟨hret, hR⟩ := sim.parseLoop h (entry.length + 1) entry
      dsimp only [Dsn.parseConnectionString]
      rw [hret]
      split
      · exact ih hR
      · exact ⟨hret, hR⟩

theorem loadKeys (get : WStr → Option WStr) (overwrite : Bool) (keys : List WStr) :
    (Dsn.loadKeys get overwrite keys s).1 = (Dsn.loadKeys get overwrite keys t).1 ∧
      R (Dsn.loadKeys get overwrite keys s).2 (Dsn.loadKeys get overwrite keys t).2 := by
  induction keys generalizing s t with
  | nil => exact ⟨rfl, h⟩
  | cons keyword keys ih =>
    rw [Dsn.loadKeys, Dsn.loadKeys]
    split
    · exact ih h
    · cases get keyword with
      | none => exact ⟨rfl, h⟩
      | some val =>
        dsimp only
        cases hs : Dsn.assignDsnAttr s keyword val overwrite <;>
          cases ht : Dsn.assignDsnAttr t keyword val overwrite <;>
          have hassign := sim.assignDsnAttr h keyword val overwrite <;> rw [hs, ht] at hassign
        · exact ⟨rfl, h⟩
        · cases hassign
        · cases hassign
        · exact ih (Option.rel_some_some.mp hassign).2

theorem elim_assignDsnAttr (keyword val : WStr) (overwrite : Bool) :
    R ((Dsn.assignDsnAttr s keyword val overwrite).elim s (·.2))
      ((Dsn.assignDsnAttr t keyword val overwrite).elim t (·.2)) := by
  cases hs : Dsn.assignDsnAttr s keyword val overwrite <;>
    cases ht : Dsn.assignDsnAttr t keyword val overwrite <;>
    have hassign := sim.assignDsnAttr h keyword val overwrite <;> rw [hs, ht] at hassign
  · exact h
  · cases hassign
  · cases hassign
  · exact (Option.rel_some_some.mp hassign).2

theorem foldl_assignDefault (defaults : List (DsnAttr × WStr)) :
    R (defaults.foldl (fun s d ↦ assignDefault s d.1 d.2) s)
      (defaults.foldl (fun s d ↦ assignDefault s d.1 d.2) t) := by
  induction defaults generalizing s t with
  | nil => exact h
  | cons d defaults ih => exact ih (sim.elim_assignDsnAttr h d.1.keyword d.2 false)

theorem assignDsnDefaults : R (Dsn.assignDsnDefaults s) (Dsn.assignDsnDefaults t) := by
  rw [Dsn.assignDsnDefaults, Dsn.assignDsnDefaults, sim.value h]
  split
  · exact sim.foldl_assignDefault (sim.foldl_assignDefault h _) _
  · exact sim.foldl_assignDefault h _

theorem call (c : Call) : R (c.run s) (c.run t) := by
  cases c with
  | assignDsnAttr keyword val overwrite => exact sim.elim_assignDsnAttr h keyword val overwrite
  | parseConnectionString text => exact (sim.parseLoop h _ text).2
  | parse00List list00 => exact (sim.parseEntries h _).2
  | loadSystemDsn names get overwrite =>
    cases names with
    | none => exact h
    | some names => exact (sim.loadKeys h get overwrite _).2
  | assignDsnDefaults =>
    rw [Call.run, Call.run]
    exact sim.assignDsnDefaults h

/-- Stores that are related at first are related after every sequence of calls. -/
theorem run (calls : List Call) : R (Dsn.run s calls) (Dsn.run t calls) := by
  induction calls generalizing s t with
  | nil => exact h
  | cons c calls ih => exact ih (sim.call h c)

end Simulates

end Dsn

/-! ## The values that were stored -/

/-- Of each attribute the values that were stored, the last one first. -/
structure DsnHistory where
  vals : DsnAttr → List WStr

instance : DsnStore DsnHistory where
  value h a := (h.vals a).headD []
  store h a v _ := ⟨Function.update h.vals a (v :: h.vals a)⟩

def DsnHistory.init : DsnHistory := ⟨fun _ ↦ []⟩

/-- Storing the last value leaves its string terminated: it is not of the maximum length, and
where a value stored before is longer, the last such has a terminator at its end. -/
def Terminated : List WStr → Prop
  | [] => True
  | v :: older => v.length < dsnMaxAttrLen ∧
      ∀ u ∈ older.find? fun u ↦ decide (v.length < u.length), u[v.length]? = some 0

/-! ## The structure in memory -/

/-- `esodbc_dsn_attrs_st`: of each attribute its part of `buff`, and the count. -/
structure DsnBuffers where
  str : DsnAttr → WStr
  cnt : DsnAttr → ℕ
  room : ∀ a, (str a).length = dsnMaxAttrLen
  fits : ∀ a, cnt a ≤ dsnMaxAttrLen

namespace DsnBuffers

/-- `init_dsn_attrs`. -/
def init : DsnBuffers where
  str _ := List.replicate dsnMaxAttrLen 0
  cnt _ := 0
  room _ := List.length_replicate
  fits _ := Nat.zero_le _

/-- `memcpy` of a value to the start of its part, and its count. -/
def copy (s : DsnBuffers) (a : DsnAttr) (v : WStr) (h : v.length ≤ dsnMaxAttrLen) :
    DsnBuffers where
  str := Function.update s.str a (v ++ (s.str a).drop v.length)
  cnt := Function.update s.cnt a v.length
  room b := by
    by_cases hb : b = a
    · subst hb
      rw [Function.update_self, List.length_append, List.length_drop, s.room]
      omega
    · rw [Function.update_of_ne hb]
      exact s.room b
  fits b := by
    by_cases hb : b = a
    · subst hb
      rwa [Function.update_self]
    · rw [Function.update_of_ne hb]
      exact s.fits b

instance : DsnStore DsnBuffers where
  value s a := (s.str a).take (s.cnt a)
  store := copy

/-- The part of an attribute holds `v` with a terminator behind it, which a reader of the
string stops at if there is none in it. -/
structure Holds (s : DsnBuffers) (a : DsnAttr) (v : WStr) : Prop where
  value : (s.str a).take (s.cnt a) = v
  nul : (s.str a)[s.cnt a]? = some 0
  read : 0 ∉ v → (s.str a).takeWhile (· ≠ 0) = v

end DsnBuffers

/-! ## What lies in the buffers -/

/-- The values stored, each copied over what was there before. -/
def laid : List WStr → WStr
  | [] => List.replicate dsnMaxAttrLen 0
  | v :: older => v ++ (laid older).drop v.length

/-- Past the last value lies the end of the last value that is longer. -/
theorem getElem?_laid {i : ℕ} (hi : i < dsnMaxAttrLen) (vs : List WStr) :
    (laid vs)[i]? = (vs.find? fun u ↦ decide (i < u.length)).elim (some 0) (·[i]?) := by
  induction vs with
  | nil => exact List.getElem?_replicate_of_lt hi
  | cons v older ih =>
    rw [laid]
    by_cases hlt : i < v.length
    · rw [List.getElem?_append_left hlt, List.find?_cons_of_pos (by simpa using hlt),
        Option.elim_some]
    · rw [List.getElem?_append_right (Nat.le_of_not_lt hlt), List.getElem?_drop,
        Nat.add_sub_cancel' (Nat.le_of_not_lt hlt), List.find?_cons_of_neg (by simpa using hlt), ih]

/-- The structure in memory after the values of a history. -/
def DsnBuffers.Tracks (s : DsnBuffers) (h : DsnHistory) : Prop :=
  ∀ a, s.str a = laid (h.vals a) ∧ s.cnt a = ((h.vals a).headD []).length

theorem DsnBuffers.simulates : Dsn.Simulates DsnBuffers.Tracks where
  value {s h} hs a := by
    obtain ⟨hstr, hcnt⟩ := hs a
    show (s.str a).take (s.cnt a) = (h.vals a).headD []
    rw [hstr, hcnt]
    cases h.vals a with
    | nil => rfl
    | cons v older => exact List.take_left' rfl
  store {s h} hs a v hlen b := by
    show Function.update s.str a _ b = laid (Function.update h.vals a _ b) ∧
      Function.update s.cnt a _ b = ((Function.update h.vals a _ b).headD []).length
    by_cases hb : b = a
    · subst hb
      rw [Function.update_self, Function.update_self, Function.update_self, (hs b).1]
      exact ⟨rfl, rfl⟩
    · rw [Function.update_of_ne hb, Function.update_of_ne hb, Function.update_of_ne hb]
      exact hs b

theorem takeWhile_of_nul {t : WStr} {n : ℕ} (hnul : t[n]? = some 0) (h0 : 0 ∉ t.take n) :
    t.takeWhile (· ≠ 0) = t.take n := by
  obtain ⟨hn, hget⟩ := List.getElem?_eq_some_iff.mp hnul
  have hdrop : t.drop n = 0 :: t.drop (n + 1) := by rw [List.drop_eq_getElem_cons hn, hget]
  conv_lhs => rw [← List.take_append_drop n t, hdrop]
  rw [List.takeWhile_append_of_pos, List.takeWhile_cons_of_neg (by simp), List.append_nil]
  intro c hc
  simpa using ne_of_mem_of_not_mem hc h0

/-- The last value of an attribute is held as a string exactly if storing it left it so. -/
theorem DsnBuffers.holds_iff {s : DsnBuffers} {h : DsnHistory} (hs : s.Tracks h) (a : DsnAttr) :
    s.Holds a ((h.vals a).headD []) ↔ Terminated (h.vals a) := by
  obtain ⟨hstr, hcnt⟩ := hs a
  have hvalue : (s.str a).take (s.cnt a) = (h.vals a).headD [] := DsnBuffers.simulates.value hs a
  have hholds : s.Holds a ((h.vals a).headD []) ↔ (s.str a)[s.cnt a]? = some 0 := by
    refine ⟨fun hh ↦ hh.nul, fun hnul ↦ ⟨hvalue, hnul, fun h0 ↦ ?_⟩⟩
    rw [← hvalue] at h0 ⊢
    exact takeWhile_of_nul hnul h0
  rw [hholds, hcnt]
  cases hh : h.vals a with
  | nil =>
    refine iff_of_true ?_ trivial
    rw [hstr, hh]
    exact List.getElem?_replicate_of_lt (by decide)
  | cons v older =>
    rw [List.headD_cons, Terminated]
    by_cases hlen : v.length < dsnMaxAttrLen
    · rw [hstr, hh, getElem?_laid hlen, List.find?_cons_of_neg (by simp), and_iff_right hlen]
      cases older.find? fun u ↦ decide (v.length < u.length) with
      | none => exact iff_of_true rfl nofun
      | some u => simp
    · refine iff_of_false ?_ fun h ↦ hlen h.1
      rw [List.getElem?_eq_none]
      · exact nofun
      · rw [s.room]
        exact Nat.le_of_not_lt hlen

/-- After every sequence of calls every attribute holds the last value stored in it as a string,
exactly if storing it left it terminated. -/
theorem attrs_terminated (calls : List Dsn.Call) :
    (∀ a, (Dsn.run DsnBuffers.init calls).Holds a (((Dsn.run DsnHistory.init calls).vals a).headD [])) ↔
      ∀ a, Terminated ((Dsn.run DsnHistory.init calls).vals a) := by
  have htracks : (Dsn.run DsnBuffers.init calls).Tracks (Dsn.run DsnHistory.init calls) :=
    DsnBuffers.simulates.run (fun _ ↦ ⟨rfl, rfl⟩) calls
  exact forall_congr' fun a ↦ DsnBuffers.holds_iff htracks a

/-- `UID=ab;UID=c`: what is read of the user is `cb`. -/
theorem attrs_overwritten :
    let s := Dsn.run DsnBuffers.init [.parseConnectionString (wstr "UID=ab;UID=c")]
    ((Dsn.run DsnHistory.init [.parseConnectionString (wstr "UID=ab;UID=c")]).vals .uid).head? =
        some (wstr "c") ∧
      (s.str .uid).takeWhile (· ≠ 0) = wstr "cb" ∧ ¬ s.Holds .uid (wstr "c") := by
  refine ⟨?_, ?_, fun h ↦ ?_⟩
  · decide +kernel
  · decide +kernel
  · exact absurd (h.read (by decide)) (by decide +kernel)

/-! ## The values alone -/

instance : DsnStore DsnAttrs where
  value := DsnAttrs.val
  store := DsnAttrs.set

/-- The values in memory are stored as values alone are. -/
theorem DsnBuffers.simulates_attrs :
    Dsn.Simulates fun (s : DsnBuffers) (t : DsnAttrs) ↦ ∀ a, value s a = value t a where
  value h := h
  store {s t} h a v hlen b := by
    show (Function.update s.str a _ b).take (Function.update s.cnt a _ b) =
      Function.update t.val a v b
    by_cases hb : b = a
    · subst hb
      rw [Function.update_self, Function.update_self, Function.update_self]
      exact List.take_left' rfl
    · rw [Function.update_of_ne hb, Function.update_of_ne hb, Function.update_of_ne hb]
      exact h b

/-- The parser of connection strings is the one whose texts are read back. -/
theorem parseLoop_attrs (n : ℕ) (attrs : DsnAttrs) (text : WStr) (out : DsnAttrs) :
    parseLoop n attrs text = some out ↔ Dsn.parseLoop n attrs text = (true, out) := by
  induction n generalizing attrs text with
  | zero => simp [parseLoop, Dsn.parseLoop]
  | succ n ih =>
    have hturn : Dsn.parseTurn attrs (skipWs true text).1 = parseTurn attrs (skipWs true text).1 :=
      rfl
    rw [parseLoop, Dsn.parseLoop, hturn]
    cases (skipWs true text).2 with
    | false => simp
    | true =>
      simp only [Bool.not_true, Bool.false_eq_true, if_false]
      cases parseTurn attrs (skipWs true text).1 with
      | none => simp
      | some r => exact ih r.1 r.2

end EsOdbc

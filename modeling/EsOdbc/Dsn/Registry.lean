import Mathlib.Data.List.AList
import EsOdbc.Dsn.Buffers

/-!
# DSN attributes in the registry

`write_system_dsn`, and `load_system_dsn` on what it leaves.  The keys of a data source are
a map from the attributes whose keywords they are to strings; of the installer's functions
a write can be denied, and a value that is read is cut to its buffer.
-/

namespace EsOdbc

open DsnStore (value store)

/-- The keys of a data source. -/
abbrev Profile : Type := AList fun _ : DsnAttr ↦ WStr

namespace Profile

/-- `SQLWritePrivateProfileStringW`: without a string the key is deleted. -/
def write (p : Profile) (a : DsnAttr) : Option WStr → Profile
  | some v => p.insert a v
  | none => p.erase a

/-- `SQLGetPrivateProfileStringW` without a key: the names of the keys. -/
def names (p : Profile) : WStr := p.keys.flatMap (fun a ↦ a.keyword ++ [0]) ++ [0]

/-- `SQLGetPrivateProfileStringW` with a key, into a buffer for the longest value. -/
def read (p : Profile) (keyword : WStr) : Option WStr :=
  some ((((DsnAttr.all.find? fun a ↦ eqCaseWstr a.keyword keyword).bind p.lookup).getD []).take
    (dsnMaxAttrLen - 1))

end Profile

/-- The keys, and the writes that were made. -/
structure Registry where
  profile : Profile
  log : List (DsnAttr × Option WStr)

def Registry.write (r : Registry) (a : DsnAttr) (w : Option WStr) : Registry where
  profile := r.profile.write a w
  log := r.log ++ [(a, w)]

/-- The string at the start of an attribute's part of the buffer; without a terminator it goes
on in the parts behind it. -/
def DsnBuffers.cstr (s : DsnBuffers) (a : DsnAttr) : WStr :=
  ((DsnAttr.all.dropWhile (· ≠ a)).flatMap s.str).takeWhile (· ≠ 0)

/-! ## `write_system_dsn` -/

/-- The table of `write_system_dsn`: the attribute to write, under its keyword, and the one of
the old attributes it is compared with. -/
def dsnTable : List (DsnAttr × DsnAttr) :=
  [(.description, .description), (.pwd, .pwd), (.uid, .uid), (.apiKey, .apiKey),
    (.cloudId, .cloudId), (.server, .server), (.port, .port), (.secure, .secure),
    (.caPath, .caPath), (.timeout, .timeout), (.follow, .follow), (.catalog, .catalog),
    (.packing, .packing), (.compression, .packing), (.maxFetchSize, .maxFetchSize),
    (.maxBodySize, .maxBodySize), (.applyTz, .applyTz), (.earlyExec, .earlyExec),
    (.sciFloats, .sciFloats), (.varcharLimit, .varcharLimit), (.mfieldLenient, .mfieldLenient),
    (.autoEscPva, .autoEscPva), (.idxIncFrozen, .idxIncFrozen), (.proxyEnabled, .proxyEnabled),
    (.proxyType, .proxyType), (.proxyHost, .proxyHost), (.proxyPort, .proxyPort),
    (.proxyAuthEnabled, .proxyAuthEnabled), (.proxyAuthUid, .proxyAuthUid),
    (.proxyAuthPwd, .proxyAuthPwd), (.traceEnabled, .traceEnabled), (.traceFile, .traceFile),
    (.traceLevel, .traceLevel)]

/-- What is written for an entry of the table, if anything is. -/
def entryWrite (new : DsnBuffers) (old : Option DsnBuffers) (e : DsnAttr × DsnAttr) :
    Option (Option WStr) :=
  match old with
  | some old =>
    if value new e.1 = value old e.2 then none
    else some (if value new e.1 ≠ [] then some (new.cstr e.1) else none)
  | none => if value new e.1 ≠ [] then some (some (new.cstr e.1)) else none

/-- The loop of `write_system_dsn`; `denied` tells the keys whose write fails. -/
def writeEntries (denied : DsnAttr → Bool) (new : DsnBuffers) (old : Option DsnBuffers) :
    List (DsnAttr × DsnAttr) → Registry → Bool × Registry
  | [], r => (true, r)
  | e :: es, r =>
    match entryWrite new old e with
    | none => writeEntries denied new old es r
    | some w =>
      if denied e.1 then (false, r) else writeEntries denied new old es (r.write e.1 w)

/-- `write_system_dsn`. -/
def writeSystemDsn (denied : DsnAttr → Bool) (new : DsnBuffers) (old : Option DsnBuffers)
    (p : Profile) : Bool × Registry :=
  writeEntries denied new old dsnTable ⟨p, []⟩

/-! ## The writes -/

/-- The attributes that are kept in the registry. -/
def dsnKept : List DsnAttr := dsnTable.map Prod.fst

theorem dsnKept_nodup : dsnKept.Nodup := by decide

section Writes

variable {denied : DsnAttr → Bool} {new : DsnBuffers} {old : Option DsnBuffers}

/-- Without a failure the log grows by the writes of the entries, and a key has what was last
written for it. -/
theorem writeEntries_eq {es : List (DsnAttr × DsnAttr)} {r r' : Registry}
    (hnodup : (es.map Prod.fst).Nodup) (h : writeEntries denied new old es r = (true, r')) :
    r'.log = r.log ++ es.filterMap (fun e ↦ (entryWrite new old e).map (e.1, ·)) ∧
      (∀ a ∉ es.map Prod.fst, r'.profile.lookup a = r.profile.lookup a) ∧
      ∀ e ∈ es, r'.profile.lookup e.1 = (entryWrite new old e).getD (r.profile.lookup e.1) := by
  induction es generalizing r with
  | nil =>
    obtain ⟨-, rfl⟩ := Prod.mk.inj h
    exact ⟨(List.append_nil _).symm, fun _ _ ↦ rfl, nofun⟩
  | cons e es ih =>
    rw [List.map_cons, List.nodup_cons] at hnodup
    rw [writeEntries] at h
    cases hw : entryWrite new old e with
    | none =>
      simp only [hw] at h
      obtain ⟨hlog, hother, hes⟩ := ih hnodup.2 h
      refine ⟨?_, fun a ha ↦ ?_, List.forall_mem_cons.mpr ⟨?_, hes⟩⟩
      · rw [hlog, List.filterMap_cons_none (by rw [hw]; rfl)]
      · exact hother a fun hmem ↦ ha (List.mem_cons_of_mem _ hmem)
      · rw [hother _ hnodup.1, hw, Option.getD_none]
    | some w =>
      simp only [hw] at h
      split at h
      · cases h
      · obtain ⟨hlog, hother, hes⟩ := ih hnodup.2 h
        have hlookup (a : DsnAttr) : (r.write e.1 w).profile.lookup a =
            if a = e.1 then w else r.profile.lookup a := by
          by_cases ha : a = e.1
          · subst ha
            rw [if_pos rfl]
            cases w with
            | none => exact AList.lookup_erase _ _
            | some v => exact AList.lookup_insert _
          · rw [if_neg ha]
            cases w with
            | none => exact AList.lookup_erase_ne ha
            | some v => exact AList.lookup_insert_ne ha
        refine ⟨?_, fun a ha ↦ ?_, List.forall_mem_cons.mpr ⟨?_, fun f hf ↦ ?_⟩⟩
        · rw [hlog, Registry.write, List.append_assoc,
            List.filterMap_cons_some (b := (e.1, w)) (by rw [hw]; rfl)]
          rfl
        · rw [hother a fun hmem ↦ ha (List.mem_cons_of_mem _ hmem), hlookup, if_neg]
          rintro rfl
          exact ha List.mem_cons_self
        · rw [hother _ hnodup.1, hlookup, if_pos rfl, hw, Option.getD_some]
        · rw [hes f hf, hlookup, if_neg]
          intro heq
          exact hnodup.1 (heq ▸ List.mem_map_of_mem hf)

/-- Where no write fails, none stops the loop. -/
theorem writeEntries_granted (es : List (DsnAttr × DsnAttr)) (r : Registry) :
    ∃ r', writeEntries (fun _ ↦ false) new old es r = (true, r') := by
  induction es generalizing r with
  | nil => exact ⟨r, rfl⟩
  | cons e es ih =>
    rw [writeEntries]
    cases entryWrite new old e with
    | none => exact ih r
    | some w => exact ih (r.write e.1 w)

end Writes

/-! ## Reading back -/

/-- No entry is started at the terminator of another one. -/
theorem entries00_cons (entry : WStr) (t : WStr) {w : WStr} (hw : w ≠ []) (h0 : 0 ∉ w) :
    Dsn.entries00 entry (w ++ 0 :: t) = (entry ++ w) :: Dsn.entries00 [] t := by
  induction w generalizing entry with
  | nil => exact absurd rfl hw
  | cons c w ih =>
    rw [List.mem_cons, not_or] at h0
    rw [List.cons_append, Dsn.entries00, if_neg (Ne.symm h0.1)]
    cases w with
    | nil =>
      rw [List.nil_append, Dsn.entries00, if_pos rfl, if_neg (by simp)]
    | cons d w => rw [ih _ (List.cons_ne_nil _ _) h0.2, List.append_assoc, List.singleton_append]

theorem keyword_ne_nil (a : DsnAttr) : a.keyword ≠ [] := by
  cases a <;> exact List.cons_ne_nil _ _

theorem keyword_nul (a : DsnAttr) : 0 ∉ a.keyword := by
  intro h
  exact absurd (List.all_eq_true.mp (keyword_other a) 0 h) (by decide)

theorem Profile.entries_names (p : Profile) :
    Dsn.entries00 [] p.names = p.keys.map DsnAttr.keyword := by
  rw [Profile.names]
  induction p.keys with
  | nil => rfl
  | cons a keys ih =>
    rw [List.flatMap_cons, List.append_assoc, List.append_assoc, List.singleton_append,
      entries00_cons _ _ (keyword_ne_nil a) (keyword_nul a), ih]
    rfl

/-- What the registry has for an attribute, as it is read. -/
def Profile.readAttr (p : Profile) (a : DsnAttr) : WStr :=
  ((p.lookup a).getD []).take (dsnMaxAttrLen - 1)

theorem Profile.read_keyword (p : Profile) (a : DsnAttr) :
    p.read a.keyword = some (p.readAttr a) := by
  rw [Profile.read, keyword_found, Option.bind_some]
  rfl

theorem eqCase_driver (a : DsnAttr) :
    eqCaseWstr a.keyword DsnAttr.driver.keyword = decide (a = .driver) := by
  cases a <;> decide +kernel

/-- The values read for keys that differ, where nothing was stored before. -/
theorem loadKeys_val {get : WStr → Option WStr} {f : DsnAttr → WStr} {keys : List DsnAttr}
    (overwrite : Bool) (hnodup : keys.Nodup) (hget : ∀ a, get a.keyword = some (f a))
    (hlen : ∀ a, (f a).length ≤ dsnMaxAttrLen) (s : DsnAttrs) (hs : ∀ a ∈ keys, s.val a = []) :
    ∃ s', Dsn.loadKeys get overwrite (keys.map DsnAttr.keyword) s = (1, s') ∧
      ∀ a, s'.val a = if a ∈ keys ∧ a ≠ .driver then f a else s.val a := by
  induction keys generalizing s with
  | nil => exact ⟨s, rfl, fun a ↦ (if_neg fun h ↦ List.not_mem_nil h.1).symm⟩
  | cons b keys ih =>
    rw [List.nodup_cons] at hnodup
    rw [List.forall_mem_cons] at hs
    rw [List.map_cons, Dsn.loadKeys, eqCase_driver]
    by_cases hb : b = .driver
    · rw [if_pos (decide_eq_true hb)]
      obtain ⟨s', hload, hval⟩ := ih hnodup.2 s hs.2
      refine ⟨s', hload, fun a ↦ ?_⟩
      rw [hval a]
      refine if_congr ?_ rfl rfl
      rw [List.mem_cons, hb]
      tauto
    · rw [if_neg (by simpa using hb), hget b]
      obtain ⟨r, hassign⟩ := @assign_keyword s b overwrite _ (hlen b) (.inr hs.1)
      have hassign : Dsn.assignDsnAttr s b.keyword (f b) overwrite =
          some (r, s.set b (f b) (hlen b)) := hassign
      have hfresh : ∀ a ∈ keys, (s.set b (f b) (hlen b)).val a = [] := by
        intro a ha
        refine (Function.update_of_ne ?_ _ _).trans (hs.2 a ha)
        rintro rfl
        exact hnodup.1 ha
      obtain ⟨s', hload, hval⟩ := ih hnodup.2 _ hfresh
      refine ⟨s', ?_, fun a ↦ ?_⟩
      · simp only [hassign]
        exact hload
      · rw [hval a]
        by_cases hab : a = b
        · subst hab
          rw [if_neg fun h ↦ hnodup.1 h.1, if_pos ⟨List.mem_cons_self, hb⟩]
          exact Function.update_self _ _ _
        · have hset : (s.set b (f b) (hlen b)).val a = s.val a := Function.update_of_ne hab _ _
          rw [hset]
          refine if_congr ?_ rfl rfl
          rw [List.mem_cons, or_iff_right hab]

/-- `load_system_dsn` into attributes without values stores what is read for each key. -/
theorem loadSystemDsn_val (p : Profile) (overwrite : Bool) :
    ∃ s, Dsn.loadSystemDsn DsnBuffers.init (some p.names) p.read overwrite = (1, s) ∧
      ∀ a ≠ .driver, value s a = p.readAttr a := by
  have hlen (a : DsnAttr) : (p.readAttr a).length ≤ dsnMaxAttrLen :=
    (List.length_take_le _ _).trans (by decide)
  obtain ⟨t, hload, hval⟩ := loadKeys_val overwrite p.keys_nodup p.read_keyword hlen .init
    fun _ _ ↦ rfl
  obtain ⟨hret, hsim⟩ := DsnBuffers.simulates_attrs.loadKeys (s := .init) (t := .init) (fun _ ↦ rfl)
    p.read overwrite (p.keys.map DsnAttr.keyword)
  rw [hload] at hret hsim
  refine ⟨_, Prod.ext ?_ rfl, fun a ha ↦ ?_⟩
  · rw [Dsn.loadSystemDsn, p.entries_names]
    exact hret
  · rw [Dsn.loadSystemDsn, p.entries_names]
    refine (hsim a).trans ((hval a).trans ?_)
    by_cases hmem : a ∈ p.keys
    · rw [if_pos ⟨hmem, ha⟩]
    · rw [if_neg fun h ↦ hmem h.1, Profile.readAttr, AList.lookup_eq_none.mpr hmem]
      rfl

/-! ## The registry after it -/

/-- The keys are those of the attributes that have a value, among those that are kept. -/
def Profile.Holds (p : Profile) (s : DsnBuffers) : Prop :=
  ∀ a ∈ dsnKept, p.lookup a = if value s a = [] then none else some (value s a)

/-- The registry has been brought from `old` to `new`: a key was written where the value is
another, and deleted where it has become empty; the keys are those of `new`, and they read as
its values. -/
structure Updated (new old : DsnBuffers) (r : Registry) : Prop where
  written : ∀ a ∈ dsnKept, (∃ w, (a, w) ∈ r.log) ↔ value new a ≠ value old a
  deleted : ∀ a ∈ dsnKept, (a, none) ∈ r.log ↔ value new a = [] ∧ value old a ≠ []
  holds : r.profile.Holds new
  reload : ∀ overwrite, ∃ s,
    Dsn.loadSystemDsn DsnBuffers.init (some r.profile.names) r.profile.read overwrite = (1, s) ∧
      ∀ a ∈ dsnKept, value s a = value new a

/-- What the table does not get wrong: the new compression is as much the old packing as it is
the old compression; a new value to write is a terminated string; and no new value is as long as
the buffer it will be read into. -/
structure Writable (new old : DsnBuffers) : Prop where
  compression : value new .compression = value old .packing ↔
    value new .compression = value old .compression
  string : ∀ a ∈ dsnKept, value new a ≠ value old a → value new a ≠ [] → new.cstr a = value new a
  short : ∀ a ∈ dsnKept, (value new a).length < dsnMaxAttrLen

/-- The keys of some attributes. -/
def Profile.ofAttrs (s : DsnBuffers) (as : List DsnAttr) : Profile :=
  as.foldr (fun a p ↦ if value s a = [] then p else p.insert a (value s a)) ∅

theorem Profile.lookup_ofAttrs (s : DsnBuffers) (as : List DsnAttr) (a : DsnAttr) :
    (Profile.ofAttrs s as).lookup a =
      if a ∈ as ∧ value s a ≠ [] then some (value s a) else none := by
  induction as with
  | nil => exact (if_neg fun h ↦ List.not_mem_nil h.1).symm
  | cons b as ih =>
    rw [Profile.ofAttrs, List.foldr_cons, ← Profile.ofAttrs]
    by_cases hab : a = b
    · subst hab
      by_cases ha : value s a = []
      · rw [if_pos ha, ih, if_neg fun h ↦ h.2 ha, if_neg fun h ↦ h.2 ha]
      · rw [if_neg ha, AList.lookup_insert, if_pos ⟨List.mem_cons_self, ha⟩]
    · have hcons : a ∈ b :: as ↔ a ∈ as := List.mem_cons.trans (or_iff_right hab)
      have hstep : (if value s b = [] then Profile.ofAttrs s as
          else (Profile.ofAttrs s as).insert b (value s b)).lookup a =
            (Profile.ofAttrs s as).lookup a := by
        split
        · rfl
        · exact AList.lookup_insert_ne hab
      rw [hstep, ih]
      exact if_congr (and_congr_left' hcons.symm) rfl rfl

theorem Profile.holds_ofAttrs (s : DsnBuffers) : (Profile.ofAttrs s dsnKept).Holds s := by
  intro a ha
  rw [Profile.lookup_ofAttrs]
  by_cases hnil : value s a = []
  · rw [if_pos hnil, if_neg fun h ↦ h.2 hnil]
  · rw [if_neg hnil, if_pos ⟨ha, hnil⟩]

/-- What an attribute's new value is compared with. -/
def compared (a : DsnAttr) : DsnAttr := if a = .compression then .packing else a

theorem dsnTable_eq : dsnTable = dsnKept.map fun a ↦ (a, compared a) := by decide

section Updated

variable {new old : DsnBuffers} {denied : DsnAttr → Bool} {p : Profile} {r : Registry}

/-- What a write that succeeds has done, attribute by attribute. -/
theorem writeSystemDsn_eq (hold : p.Holds old)
    (h : writeSystemDsn denied new (some old) p = (true, r)) :
    (∀ a ∈ dsnKept, ∀ w, (a, w) ∈ r.log ↔ value new a ≠ value old (compared a) ∧
      w = if value new a ≠ [] then some (new.cstr a) else none) ∧
    ∀ a ∈ dsnKept, r.profile.lookup a =
      if value new a = value old (compared a) then
        if value old a = [] then none else some (value old a)
      else if value new a ≠ [] then some (new.cstr a) else none := by
  obtain ⟨hlog, -, hlookup⟩ := writeEntries_eq dsnKept_nodup h
  have hentry (a : DsnAttr) : entryWrite new (some old) (a, compared a) =
      if value new a = value old (compared a) then none
      else some (if value new a ≠ [] then some (new.cstr a) else none) := rfl
  refine ⟨fun a ha w ↦ ?_, fun a ha ↦ ?_⟩
  · rw [hlog, List.nil_append, List.mem_filterMap, dsnTable_eq]
    constructor
    · rintro ⟨e, he, hw⟩
      obtain ⟨b, -, rfl⟩ := List.mem_map.mp he
      obtain ⟨w', hw', heq⟩ := Option.map_eq_some_iff.mp hw
      obtain ⟨rfl, rfl⟩ := Prod.mk.inj heq
      rw [hentry] at hw'
      split at hw'
      · cases hw'
      · next hne => exact ⟨hne, (Option.some.inj hw').symm⟩
    · rintro ⟨hne, rfl⟩
      refine ⟨(a, compared a), List.mem_map.mpr ⟨a, ha, rfl⟩, ?_⟩
      rw [hentry, if_neg hne]
      rfl
  · have hmem : (a, compared a) ∈ dsnTable := by
      rw [dsnTable_eq]
      exact List.mem_map.mpr ⟨a, ha, rfl⟩
    rw [hlookup _ hmem, hentry]
    split
    · exact hold a ha
    · rfl

/-- The table compares an attribute with itself, or as if it did. -/
theorem Writable.compared_iff (h : Writable new old) (a : DsnAttr) :
    value new a = value old (compared a) ↔ value new a = value old a := by
  rw [compared]
  split
  · next ha =>
    rw [ha]
    exact h.compression
  · exact Iff.rfl

/-- What is written is what is read. -/
theorem Writable.updated (h : Writable new old) (hold : p.Holds old)
    (hwrite : writeSystemDsn denied new (some old) p = (true, r)) : Updated new old r := by
  obtain ⟨hlog, hlookup⟩ := writeSystemDsn_eq hold hwrite
  have hholds : r.profile.Holds new := by
    intro a ha
    rw [hlookup a ha]
    by_cases heq : value new a = value old a
    · rw [if_pos ((h.compared_iff a).mpr heq), heq]
    · rw [if_neg fun h' ↦ heq ((h.compared_iff a).mp h')]
      by_cases hne : value new a = []
      · rw [if_neg (not_not.mpr hne), if_pos hne]
      · rw [if_pos hne, if_neg hne, h.string a ha heq hne]
  refine ⟨fun a ha ↦ ?_, fun a ha ↦ ?_, hholds, fun overwrite ↦ ?_⟩
  · simp only [hlog a ha, ne_eq, h.compared_iff, exists_and_left, exists_eq, and_true]
  · rw [hlog a ha, ne_eq, h.compared_iff]
    by_cases hne : value new a = []
    · rw [if_neg (not_not.mpr hne), hne]
      exact ⟨fun hw ↦ ⟨rfl, fun hnil ↦ hw.1 hnil.symm⟩, fun hw ↦ ⟨fun hnil ↦ hw.2 hnil.symm, rfl⟩⟩
    · exact iff_of_false (fun hw ↦ by simp [hne] at hw) fun hw ↦ hne hw.1
  · obtain ⟨s, hload, hval⟩ := loadSystemDsn_val r.profile overwrite
    refine ⟨s, hload, fun a ha ↦ ?_⟩
    have hdriver : a ≠ .driver := by
      rintro rfl
      exact absurd ha (by decide)
    have hshort := h.short a ha
    rw [hval a hdriver, Profile.readAttr, hholds a ha]
    split
    · next hne => rw [hne]; rfl
    · exact List.take_of_length_le (Nat.le_sub_one_of_lt hshort)

end Updated

/-- A write that succeeds brings the registry from the old attributes to the new ones, exactly
if the attributes are such that the table and the buffers do not get in the way. -/
theorem write_system_dsn_updates (new old : DsnBuffers) :
    (∀ denied p r, p.Holds old → writeSystemDsn denied new (some old) p = (true, r) →
      Updated new old r) ↔ Writable new old := by
  refine ⟨fun h ↦ ?_, fun h denied p r hold hwrite ↦ h.updated hold hwrite⟩
  have hold := Profile.holds_ofAttrs old
  obtain ⟨r, hwrite⟩ : ∃ r, writeSystemDsn (fun _ ↦ false) new (some old)
      (Profile.ofAttrs old dsnKept) = (true, r) := writeEntries_granted _ _
  have hup := h _ _ r hold hwrite
  obtain ⟨hlog, hlookup⟩ := writeSystemDsn_eq hold hwrite
  have hcompared {a : DsnAttr} (ha : a ∈ dsnKept) :
      value new a = value old (compared a) ↔ value new a = value old a := by
    have hw := hup.written a ha
    simp only [hlog a ha, exists_and_left, exists_eq, and_true] at hw
    exact not_iff_not.mp hw
  refine ⟨hcompared (by decide), fun a ha hne hnil ↦ ?_, fun a ha ↦ ?_⟩
  · have hread := hup.holds a ha
    rw [hlookup a ha, if_neg fun h' ↦ hne ((hcompared ha).mp h'), if_pos hnil, if_neg hnil] at hread
    exact Option.some.inj hread
  · obtain ⟨s, hload, hval⟩ := hup.reload true
    obtain ⟨s', hload', hval'⟩ := loadSystemDsn_val r.profile true
    obtain rfl : s = s' := (Prod.mk.inj (hload.symm.trans hload')).2
    have hdriver : a ≠ .driver := by
      rintro rfl
      exact absurd ha (by decide)
    rw [← hval a ha, hval' a hdriver, Profile.readAttr, List.length_take]
    exact (Nat.min_le_left _ _).trans_lt (by decide)

/-- The attributes of `Compression=on`. -/
def compressionOn : DsnBuffers :=
  Dsn.run .init [.parseConnectionString (wstr "Compression=on")]

/-- `Compression=on` is not deleted when the compression is emptied, there being no packing
either. -/
theorem write_system_dsn_compression :
    ∃ p r, p.Holds compressionOn ∧
      writeSystemDsn (fun _ ↦ false) .init (some compressionOn) p = (true, r) ∧
        r.profile.lookup .compression = some (wstr "on") ∧ ¬ Updated .init compressionOn r := by
  have hold := Profile.holds_ofAttrs compressionOn
  obtain ⟨r, hwrite⟩ : ∃ r, writeSystemDsn (fun _ ↦ false) .init (some compressionOn)
      (Profile.ofAttrs compressionOn dsnKept) = (true, r) := writeEntries_granted _ _
  have hsame : value DsnBuffers.init .compression = value compressionOn (compared .compression) := by
    decide +kernel
  have hon : value compressionOn .compression = wstr "on" := by decide +kernel
  have hkey : r.profile.lookup .compression = some (wstr "on") := by
    rw [(writeSystemDsn_eq hold hwrite).2 .compression (by decide), if_pos hsame, hon,
      if_neg (by decide)]
  refine ⟨_, r, hold, hwrite, hkey, fun hup ↦ ?_⟩
  have hread := hup.holds .compression (by decide)
  rw [hkey, if_pos (by decide)] at hread
  cases hread

end EsOdbc

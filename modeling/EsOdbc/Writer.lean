import EsOdbc.Memory

/-!
# Writers

A serializer of the C program moves a position in a buffer and may fail on the way; without a
buffer it only counts.  What a writer needs is stated in units it moves by, and in units it
touches behind them.
-/

namespace EsOdbc

/-- The buffer, unless only the length is asked for, and the position in it. -/
abbrev Dest (α : Type) := Option (List α) × ℕ

/-- A serializer. -/
abbrev Writer (α ε : Type) := Dest α → Exec (Except ε (Dest α))

namespace Writer

variable {α ε : Type}

/-- Units stored at the position, which moves by a number of its own. -/
def poke (units : List α) (n : ℕ) : Writer α ε := fun out ↦
  match out.1 with
  | none => .done (.ok (none, out.2 + n))
  | some buf => (Exec.ofOption (Buffer.store buf out.2 units)).bind fun buf ↦
      .done (.ok (some buf, out.2 + n))

/-- Units stored at the position, which moves behind them. -/
def emit (units : List α) : Writer α ε := poke units units.length

/-- What follows a writer that did not fail. -/
def next (f : Writer α ε) : Except ε (Dest α) → Exec (Except ε (Dest α))
  | .ok out => f out
  | .error e => .done (.error e)

/-- One writer after the other, up to the first that fails. -/
def seq : List (Writer α ε) → Writer α ε
  | [], out => .done (.ok out)
  | f :: fs, out => (f out).bind (next (seq fs))

/-- A writer that may be left out. -/
def when (present : Bool) (f : Writer α ε) : Writer α ε := if present then f else seq []

/-- The writer moves by no more than `k`, and touches no more than `t` units behind that. -/
def Within (f : Writer α ε) (k t : ℕ) : Prop :=
  ∀ buf pos, pos + k + t ≤ buf.length → ∃ r, f (some buf, pos) = .done r ∧
    ∀ out, r = .ok out → ∃ buf' pos', out = (some buf', pos') ∧ buf'.length = buf.length ∧
      pos' ≤ pos + k

/-- The writer moves by `k`, or has not the room for it. -/
def Exactly (f : Writer α ε) (k : ℕ) : Prop :=
  ∀ buf pos r, pos ≤ buf.length → f (some buf, pos) = .done r →
    ∃ buf', r = .ok (some buf', pos + k) ∧ buf'.length = buf.length ∧ pos + k ≤ buf.length

/-- The writer counts `k`. -/
def Counts (f : Writer α ε) (k : ℕ) : Prop := ∀ pos, f (none, pos) = .done (.ok (none, pos + k))

/-- The writer does not count to its end. -/
def Refuses (f : Writer α ε) : Prop := ∀ pos, ∃ e, f (none, pos) = .done (.error e)

variable {f g : Writer α ε} {fs : List (Writer α ε)} {units : List α} {j k n s t : ℕ}

theorem poke_some (buf : List α) (pos : ℕ) : (poke units n : Writer α ε) (some buf, pos) =
    (Exec.ofOption (Buffer.store buf pos units)).bind fun buf ↦ .done (.ok (some buf, pos + n)) :=
  rfl

/-! ## Room -/

theorem Within.mono (h : Within f j s) (hk : j ≤ k) (ht : j + s ≤ k + t) : Within f k t := by
  intro buf pos hroom
  obtain ⟨r, hr, hout⟩ := h buf pos (by omega)
  refine ⟨r, hr, fun out ho ↦ ?_⟩
  obtain ⟨buf', pos', rfl, hlen, hpos⟩ := hout out ho
  exact ⟨buf', pos', rfl, hlen, hpos.trans (Nat.add_le_add_left hk _)⟩

theorem Within.of_eq (h : Within f j t) (he : j = k) : Within f k t := he ▸ h

theorem within_poke (hn : n ≤ k) (hunits : units.length ≤ k + t) :
    Within (poke units n : Writer α ε) k t := by
  intro buf pos hroom
  obtain ⟨buf', hstore⟩ := Buffer.exists_store buf pos units (by omega)
  refine ⟨_, by rw [poke_some, hstore]; rfl, ?_⟩
  intro out ho
  cases ho
  exact ⟨_, _, rfl, Buffer.length_store hstore, Nat.add_le_add_left hn _⟩

theorem within_emit (units : List α) : Within (emit units : Writer α ε) units.length 0 :=
  within_poke le_rfl le_rfl

theorem within_nil : Within (seq [] : Writer α ε) 0 0 := by
  intro buf pos _
  refine ⟨_, rfl, fun out ho ↦ ?_⟩
  cases ho
  exact ⟨buf, pos, rfl, rfl, le_rfl⟩

/-- What a writer touches behind its own units is in the room of those that follow. -/
theorem Within.cons (hf : Within f j s) (hfs : Within (seq fs) k t) (hs : s ≤ k + t) :
    Within (seq (f :: fs)) (j + k) t := by
  intro buf pos hroom
  obtain ⟨r, hr, hout⟩ := hf buf pos (by omega)
  cases r with
  | error e =>
    refine ⟨.error e, by rw [seq, hr]; rfl, fun out ho ↦ ?_⟩
    cases ho
  | ok out =>
    obtain ⟨buf', pos', rfl, hlen, hpos⟩ := hout _ rfl
    obtain ⟨r', hr', hout'⟩ := hfs buf' pos' (by omega)
    refine ⟨r', by rw [seq, hr]; exact hr', fun out ho ↦ ?_⟩
    obtain ⟨buf'', pos'', rfl, hlen', hpos'⟩ := hout' out ho
    exact ⟨buf'', pos'', rfl, hlen'.trans hlen, by omega⟩

theorem Within.emit_cons (h : Within (seq fs) k t) :
    Within (seq (emit units :: fs)) (units.length + k) t :=
  (within_emit units).cons h (Nat.zero_le _)

theorem Within.when (h : Within f k 0) (present : Bool) :
    Within (when present f) (if present then k else 0) 0 := by
  cases present with
  | true => exact h
  | false => exact within_nil

/-! ## No more room -/

theorem exactly_emit (units : List α) : Exactly (emit units : Writer α ε) units.length := by
  intro buf pos r _ hr
  rw [emit, poke_some] at hr
  cases hstore : Buffer.store buf pos units with
  | none =>
    rw [hstore] at hr
    cases hr
  | some buf' =>
    rw [hstore] at hr
    cases hr
    exact ⟨buf', rfl, Buffer.length_store hstore, Buffer.le_of_store hstore⟩

theorem exactly_nil : Exactly (seq [] : Writer α ε) 0 := by
  intro buf pos r hpos hr
  cases hr
  exact ⟨buf, rfl, rfl, hpos⟩

theorem Exactly.of_eq (h : Exactly f j) (he : j = k) : Exactly f k := he ▸ h

/-- The first writer of several that come to their end. -/
theorem Exactly.step (hf : Exactly f j) {buf : List α} {pos : ℕ} {r : Except ε (Dest α)}
    (hpos : pos ≤ buf.length) (hr : seq (f :: fs) (some buf, pos) = .done r) :
    ∃ buf', buf'.length = buf.length ∧ pos + j ≤ buf.length ∧
      seq fs (some buf', pos + j) = .done r := by
  rw [seq, Exec.bind_eq_done] at hr
  obtain ⟨r', hr', hr⟩ := hr
  obtain ⟨buf', rfl, hlen, hle⟩ := hf buf pos r' hpos hr'
  exact ⟨buf', hlen, hle, hr⟩

theorem Exactly.cons (hf : Exactly f j) (hfs : Exactly (seq fs) k) :
    Exactly (seq (f :: fs)) (j + k) := by
  intro buf pos r hpos hr
  obtain ⟨buf', hlen, hle, hr⟩ := hf.step hpos hr
  obtain ⟨buf'', rfl, hlen', hle'⟩ := hfs buf' (pos + j) r (hlen ▸ hle) hr
  rw [← Nat.add_assoc]
  exact ⟨buf'', rfl, hlen'.trans hlen, hlen ▸ hle'⟩

theorem Exactly.emit_cons (h : Exactly (seq fs) k) :
    Exactly (seq (emit units :: fs)) (units.length + k) :=
  (exactly_emit units).cons h

theorem Exactly.when (h : Exactly f k) (present : Bool) :
    Exactly (when present f) (if present then k else 0) := by
  cases present with
  | true => exact h
  | false => exact exactly_nil

/-! ## Counting -/

theorem counts_poke (units : List α) (n : ℕ) : Counts (poke units n : Writer α ε) n := fun _ ↦ rfl

theorem counts_emit (units : List α) : Counts (emit units : Writer α ε) units.length :=
  counts_poke units _

theorem counts_nil : Counts (seq [] : Writer α ε) 0 := fun _ ↦ rfl

theorem Counts.cons (hf : Counts f j) (hfs : Counts (seq fs) k) : Counts (seq (f :: fs)) (j + k) := by
  intro pos
  rw [seq, hf pos, Exec.bind_done, ← Nat.add_assoc]
  exact hfs _

theorem Counts.emit_cons (h : Counts (seq fs) k) :
    Counts (seq (emit units :: fs)) (units.length + k) :=
  (counts_emit units).cons h

theorem Counts.when (h : Counts f k) (present : Bool) :
    Counts (when present f) (if present then k else 0) := by
  cases present with
  | true => exact h
  | false => exact counts_nil

theorem Refuses.cons (h : Refuses f) : Refuses (seq (f :: fs)) := by
  intro pos
  obtain ⟨e, he⟩ := h pos
  exact ⟨e, by rw [seq, he]; rfl⟩

theorem Counts.cons_refuses (hf : Counts f k) (hfs : Refuses (seq fs)) :
    Refuses (seq (f :: fs)) := by
  intro pos
  obtain ⟨e, he⟩ := hfs (pos + k)
  exact ⟨e, by rw [seq, hf pos]; exact he⟩

/-! ## What is written -/

/-- The writer comes to its end only with these units behind what was written before. -/
def Writes (f : Writer α ε) (units : List α) : Prop :=
  ∀ buf pos out, pos ≤ buf.length → f (some buf, pos) = .done (.ok out) →
    ∃ buf', out = (some buf', pos + units.length) ∧ buf'.length = buf.length ∧
      pos + units.length ≤ buf.length ∧ buf'.take (pos + units.length) = buf.take pos ++ units

/-- Units that are stored with others behind them, over which the position does not move. -/
theorem writes_poke (units behind : List α) :
    Writes (poke (units ++ behind) units.length : Writer α ε) units := by
  intro buf pos out _ hout
  rw [poke_some] at hout
  cases hstore : Buffer.store buf pos (units ++ behind) with
  | none =>
    rw [hstore] at hout
    cases hout
  | some buf' =>
    rw [hstore] at hout
    cases hout
    have hle := Buffer.le_of_store hstore
    have htake := congrArg (List.take (pos + units.length)) (Buffer.take_store hstore)
    rw [List.length_append] at hle htake
    rw [List.take_take, Nat.min_eq_left (by omega), ← List.append_assoc, List.take_left'] at htake
    · exact ⟨buf', rfl, Buffer.length_store hstore, by omega, htake⟩
    · rw [List.length_append, List.length_take, Nat.min_eq_left (by omega)]

theorem writes_emit (units : List α) : Writes (emit units : Writer α ε) units := by
  have hpoke := @writes_poke α ε units []
  rwa [List.append_nil] at hpoke

theorem writes_nil : Writes (seq [] : Writer α ε) [] := by
  intro buf pos out hpos hout
  cases hout
  exact ⟨buf, rfl, rfl, hpos, (List.append_nil _).symm⟩

theorem Writes.cons {us vs : List α} (hf : Writes f us) (hfs : Writes (seq fs) vs) :
    Writes (seq (f :: fs)) (us ++ vs) := by
  intro buf pos out hpos hout
  rw [seq, Exec.bind_eq_done] at hout
  obtain ⟨r, hr, hout⟩ := hout
  cases r with
  | error e => cases hout
  | ok mid =>
    obtain ⟨buf', rfl, hlen, hle, htake⟩ := hf buf pos mid hpos hr
    obtain ⟨buf'', rfl, hlen', hle', htake'⟩ := hfs buf' _ out (hlen ▸ hle) hout
    rw [htake, List.append_assoc] at htake'
    rw [List.length_append, ← Nat.add_assoc]
    exact ⟨buf'', rfl, hlen'.trans hlen, hlen ▸ hle', htake'⟩

theorem Writes.emit_cons {us : List α} (h : Writes (seq fs) us) :
    Writes (seq (emit units :: fs)) (units ++ us) :=
  (writes_emit units).cons h

theorem Writes.when {us : List α} (h : Writes f us) (present : Bool) :
    Writes (when present f) (if present then us else []) := by
  cases present with
  | true => exact h
  | false => exact writes_nil

theorem Writes.of_eq {us vs : List α} (h : Writes f us) (he : us = vs) : Writes f vs := he ▸ h

end Writer

end EsOdbc

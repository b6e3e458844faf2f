import EsOdbc.Memory

/-!
# Receiving the body of an answer

`write_callback` and the part of `dbc_curl_perform` around it (`connect.c`).  The chunks of
an answer come from libcurl, which stops at the first one that the callback does not take
whole.  Sizes are natural numbers: the buffer and a chunk are in memory together, so their
sum never comes near the end of `size_t`.
-/

namespace EsOdbc

abbrev Chunk := List UInt8

/-- `realloc`: a block of the size asked for that starts like the old one, or none. -/
structure Realloc where
  realloc : Option (List UInt8) → ℕ → Option (List UInt8)
  length {old : Option (List UInt8)} {n : ℕ} {new : List UInt8} :
    realloc old n = some new → new.length = n
  keeps {old : List UInt8} {n : ℕ} {new : List UInt8} :
    realloc (some old) n = some new → old.take n <+: new

/-- The fields of the connection for the body of an answer: the buffer, its used and its
allocated length, and the limit (`0` is none). -/
structure BodyBuff where
  abuff : Option (List UInt8)
  apos : ℕ
  alen : ℕ
  amax : ℕ
deriving DecidableEq, Repr

namespace BodyBuff

/-- The buffer before the first chunk. -/
def empty (amax : ℕ) : BodyBuff := ⟨none, 0, 0, amax⟩

/-- The loop that doubles the size. -/
def doubleTo (target : ℕ) : ℕ → ℕ → Exec ℕ
  | 0, _ => .exhausted
  | fuel + 1, need => if need < target then doubleTo target fuel (need * 2) else .done need

/-- The copying of a chunk behind the used part, and the terminator. -/
def append (d : BodyBuff) (chunk : Chunk) : Exec (ℕ × BodyBuff) :=
  match d.abuff with
  | none => .undefined
  | some b =>
    if b.length ≤ d.apos + chunk.length then .undefined
    else .done (chunk.length, { d with
      abuff := some ((b.take d.apos ++ chunk ++ b.drop (d.apos + chunk.length)).set
        (d.apos + chunk.length) 0)
      apos := d.apos + chunk.length })

/-- The growing of the buffer; out of memory, nothing is taken. -/
def grow (mem : Realloc) (d : BodyBuff) (need : ℕ) (chunk : Chunk) : Exec (ℕ × BodyBuff) :=
  match mem.realloc d.abuff (need + 1) with
  | none => .done (0, d)
  | some b => { d with abuff := some b, alen := need }.append chunk

/-- `write_callback`. -/
def writeCallback (mem : Realloc) (d : BodyBuff) (chunk : Chunk) : Exec (ℕ × BodyBuff) :=
  if d.alen - d.apos < chunk.length then
    let start := if d.alen ≠ 0 then d.alen else esodbcBodyBufStartSize
    (doubleTo (d.apos + chunk.length) (d.apos + chunk.length + 1) start).bind fun need ↦
      if d.amax ≠ 0 ∧ d.amax < need then
        if d.amax ≤ d.alen then .done (0, d)
        else if d.amax - d.apos < chunk.length then .done (0, d)
        else d.grow mem d.amax chunk
      else d.grow mem need chunk
  else d.append chunk

/-- `curl_easy_perform`, as far as the body goes: the chunks that are not taken, from the one
that the callback refused on. -/
def deliver (mem : Realloc) : BodyBuff → List Chunk → Exec (List Chunk × BodyBuff)
  | d, [] => .done ([], d)
  | d, c :: cs => (d.writeCallback mem c).bind fun (n, d) ↦
    if n = c.length then deliver mem d cs else .done (c :: cs, d)

/-- The buffer after `dbc_curl_perform` has handed its contents over. -/
def handedOver (d : BodyBuff) : BodyBuff := { d with abuff := none, apos := 0, alen := 0 }

/-- `dbc_curl_perform` for one answer after the other: for each, the chunks that were not
taken, and the buffer that was handed over. -/
def performAll (mem : Realloc) :
    BodyBuff → List (List Chunk) → Exec (List (List Chunk × BodyBuff) × BodyBuff)
  | d, [] => .done ([], d)
  | d, cs :: answers => (d.deliver mem cs).bind fun out ↦
    (performAll mem out.2.handedOver answers).bind fun (outs, d) ↦ .done (out :: outs, d)

/-! ## One chunk -/

/-- The buffer holds some bytes. -/
structure Holds (d : BodyBuff) (bytes : List UInt8) : Prop where
  apos : d.apos = bytes.length
  apos_le : d.apos ≤ d.alen
  alen_le : d.amax ≠ 0 → d.alen ≤ d.amax
  unallocated : d.abuff = none → d.alen = 0
  buffer : ∀ b, d.abuff = some b → b.length = d.alen + 1 ∧ b.take d.apos = bytes ∧
    b[d.apos]? = some 0

theorem empty_holds (amax : ℕ) : (empty amax).Holds [] :=
  ⟨rfl, le_rfl, fun _ ↦ Nat.zero_le _, fun _ ↦ rfl, nofun⟩

/-- A length that the limit allows. -/
def Fits (amax n : ℕ) : Prop := amax = 0 ∨ n ≤ amax

theorem doubleTo_done (target fuel : ℕ) {need : ℕ} (hneed : 0 < need) (h : 0 < fuel)
    (hfuel : target < need + fuel) :
    ∃ n, doubleTo target fuel need = .done n ∧ target ≤ n ∧ need ≤ n := by
  induction fuel generalizing need with
  | zero => omega
  | succ fuel ih =>
    rw [doubleTo]
    by_cases h : need < target
    · rw [if_pos h]
      obtain ⟨n, hn, ht, hle⟩ := ih (Nat.mul_pos hneed two_pos) (by omega) (by omega)
      exact ⟨n, hn, ht, by omega⟩
    · rw [if_neg h]
      exact ⟨need, rfl, Nat.le_of_not_lt h, le_rfl⟩

/-- With a buffer that has the room, a chunk is appended. -/
theorem append_holds {d : BodyBuff} {b : List UInt8} {bytes : List UInt8} (chunk : Chunk)
    (hb : d.abuff = some b) (hlen : b.length = d.alen + 1) (htake : b.take d.apos = bytes)
    (hapos : d.apos = bytes.length) (hroom : d.apos + chunk.length ≤ d.alen)
    (hmax : d.amax ≠ 0 → d.alen ≤ d.amax) :
    ∃ d', d.append chunk = .done (chunk.length, d') ∧ d'.Holds (bytes ++ chunk) ∧
      d'.amax = d.amax ∧ d'.abuff ≠ none := by
  have hnot : ¬ b.length ≤ d.apos + chunk.length := by omega
  let out := (b.take d.apos ++ chunk ++ b.drop (d.apos + chunk.length)).set
    (d.apos + chunk.length) 0
  let d' : BodyBuff := { d with abuff := some out, apos := d.apos + chunk.length }
  have happ : d.append chunk = .done (chunk.length, d') := by
    rw [append, hb]
    exact if_neg hnot
  refine ⟨d', happ, ?_, rfl, nofun⟩
  have htl : (b.take d.apos).length = d.apos := by rw [List.length_take]; omega
  have hpre : (b.take d.apos ++ chunk).length = d.apos + chunk.length := by
    rw [List.length_append, htl]
  have hall : (b.take d.apos ++ chunk ++ b.drop (d.apos + chunk.length)).length = d.alen + 1 := by
    rw [List.length_append, hpre, List.length_drop]
    omega
  refine ⟨?_, hroom, hmax, nofun, ?_⟩
  · rw [List.length_append, ← hapos]
  · rintro _ ⟨⟩
    refine ⟨by rw [List.length_set, hall], ?_, ?_⟩
    · change out.take (d.apos + chunk.length) = bytes ++ chunk
      rw [List.take_set_of_le le_rfl, ← hpre, List.take_left, htake]
    · rw [List.getElem?_set_self]
      rw [hall]
      omega

/-- What growing and appending comes to. -/
theorem grow_holds (mem : Realloc) {d : BodyBuff} {bytes : List UInt8} {need : ℕ} {chunk : Chunk}
    (h : d.Holds bytes) (hle : d.alen ≤ need) (hroom : d.apos + chunk.length ≤ need)
    (hmax : d.amax ≠ 0 → need ≤ d.amax) :
    (mem.realloc d.abuff (need + 1) = none ∧ d.grow mem need chunk = .done (0, d)) ∨
    ∃ d', d.grow mem need chunk = .done (chunk.length, d') ∧ d'.Holds (bytes ++ chunk) ∧
      d'.amax = d.amax ∧ d'.abuff ≠ none := by
  unfold grow
  cases hmem : mem.realloc d.abuff (need + 1) with
  | none => exact .inl ⟨rfl, rfl⟩
  | some new =>
    refine .inr (append_holds (d := { d with abuff := some new, alen := need }) chunk rfl
      (mem.length hmem) ?_ h.apos hroom hmax)
    change new.take d.apos = bytes
    cases hb : d.abuff with
    | none =>
      have hzero : d.apos = 0 := Nat.le_zero.mp (h.unallocated hb ▸ h.apos_le)
      rw [hzero, List.take_zero]
      exact (List.eq_nil_of_length_eq_zero (by rw [← h.apos, hzero])).symm
    | some old =>
      obtain ⟨hlen, htake, -⟩ := h.buffer old hb
      rw [hb] at hmem
      obtain ⟨tail, rfl⟩ := mem.keeps hmem
      have hapos := h.apos_le
      have hold : old.take (need + 1) = old := List.take_of_length_le (by omega)
      rw [hold, List.take_append_of_le_length (by omega), htake]

/-- A chunk is taken whole, if the limit allows it and there is memory, or leaves the buffer as
it is; with nothing allocated, an empty one has nowhere to put its terminator. -/
theorem writeCallback_holds (mem : Realloc) {d : BodyBuff} {bytes : List UInt8} {chunk : Chunk}
    (h : d.Holds bytes) (hchunk : d.abuff = none → chunk ≠ []) :
    ∃ n d', d.writeCallback mem chunk = .done (n, d') ∧ d'.amax = d.amax ∧
      (n = chunk.length ∧ d'.Holds (bytes ++ chunk) ∧ d'.abuff ≠ none ∧
          Fits d.amax (bytes.length + chunk.length) ∨
        n ≠ chunk.length ∧ d' = d ∧ (¬ Fits d.amax (bytes.length + chunk.length) ∨
          ∃ size, mem.realloc d.abuff size = none)) := by
  have hapos := h.apos
  have hle := h.apos_le
  unfold writeCallback
  by_cases hgrow : d.alen - d.apos < chunk.length
  · rw [if_pos hgrow]
    have hpos : (0 : ℕ) ≠ chunk.length := by omega
    have hstart : 0 < if d.alen ≠ 0 then d.alen else esodbcBodyBufStartSize := by
      split_ifs with h0
      · exact Nat.pos_of_ne_zero h0
      · decide
    obtain ⟨need, hneed, htarget, hge⟩ := doubleTo_done (d.apos + chunk.length)
      (d.apos + chunk.length + 1) hstart (Nat.succ_pos _) (by omega)
    have halen : d.alen ≤ need := by
      split_ifs at hge with h0
      · exact hge
      · omega
    -- growing to a size that the limit allows
    have grown : ∀ size, d.alen ≤ size → d.apos + chunk.length ≤ size →
        (d.amax ≠ 0 → size ≤ d.amax) → ∃ n d', d.grow mem size chunk = .done (n, d') ∧
          d'.amax = d.amax ∧
          (n = chunk.length ∧ d'.Holds (bytes ++ chunk) ∧ d'.abuff ≠ none ∧
              Fits d.amax (bytes.length + chunk.length) ∨
            n ≠ chunk.length ∧ d' = d ∧ (¬ Fits d.amax (bytes.length + chunk.length) ∨
              ∃ size, mem.realloc d.abuff size = none)) := by
      intro size hsize hroom hmax
      have hfits : Fits d.amax (bytes.length + chunk.length) := by
        by_cases h0 : d.amax = 0
        · exact .inl h0
        · exact .inr (by rw [← hapos]; exact hroom.trans (hmax h0))
      rcases grow_holds mem h hsize hroom hmax with ⟨hmem, hg⟩ | ⟨d', hg, hd', hamax, hne⟩
      · exact ⟨0, d, hg, rfl, .inr ⟨hpos, rfl, .inr ⟨_, hmem⟩⟩⟩
      · exact ⟨chunk.length, d', hg, hamax, .inl ⟨rfl, hd', hne, hfits⟩⟩
    dsimp only
    rw [hneed, Exec.bind_done]
    by_cases hcap : d.amax ≠ 0 ∧ d.amax < need
    · rw [if_pos hcap]
      have refused : d.amax < d.apos + chunk.length → ¬ Fits d.amax (bytes.length + chunk.length) := by
        rintro hlt (h0 | hfits)
        · exact hcap.1 h0
        · omega
      by_cases hat : d.amax ≤ d.alen
      · rw [if_pos hat]
        exact ⟨0, d, rfl, rfl, .inr ⟨hpos, rfl, .inl (refused (by omega))⟩⟩
      · rw [if_neg hat]
        by_cases hav : d.amax - d.apos < chunk.length
        · rw [if_pos hav]
          exact ⟨0, d, rfl, rfl, .inr ⟨hpos, rfl, .inl (refused (by omega))⟩⟩
        · rw [if_neg hav]
          exact grown d.amax (by omega) (by omega) fun _ ↦ le_rfl
    · rw [if_neg hcap]
      exact grown need halen htarget fun h0 ↦ Nat.le_of_not_lt fun hlt ↦ hcap ⟨h0, hlt⟩
  · rw [if_neg hgrow]
    cases hb : d.abuff with
    | none =>
      have hzero := h.unallocated hb
      have := List.length_pos_of_ne_nil (hchunk hb)
      omega
    | some b =>
      obtain ⟨hlen, htake, -⟩ := h.buffer b hb
      obtain ⟨d', happ, hd', hamax, hne⟩ :=
        append_holds chunk hb hlen htake hapos (by omega) h.alen_le
      refine ⟨chunk.length, d', happ, hamax, .inl ⟨rfl, hd', hne, ?_⟩⟩
      by_cases h0 : d.amax = 0
      · exact .inl h0
      · have := h.alen_le h0
        exact .inr (by omega)

/-! ## Answers -/

/-- What a transfer leaves of the chunks of an answer: the ones in front of the first refused one
are in the buffer, and that one was refused for the limit or for want of memory. -/
def Received (mem : Realloc) (amax : ℕ) (chunks : List Chunk) (out : List Chunk × BodyBuff) : Prop :=
  ∃ taken, chunks = taken ++ out.1 ∧ out.2.Holds taken.flatten ∧ (taken ≠ [] → out.2.abuff ≠ none) ∧
    Fits amax taken.flatten.length ∧
    ∀ c cs, out.1 = c :: cs → ¬ Fits amax (taken.flatten.length + c.length) ∨
      ∃ size, mem.realloc out.2.abuff size = none

theorem deliver_holds (mem : Realloc) {d : BodyBuff} {bytes : List UInt8} (chunks : List Chunk)
    (h : d.Holds bytes) (hfits : Fits d.amax bytes.length)
    (hhead : d.abuff = none → chunks.head? ≠ some []) :
    ∃ left d' taken, d.deliver mem chunks = .done (left, d') ∧ d'.amax = d.amax ∧
      chunks = taken ++ left ∧ d'.Holds (bytes ++ taken.flatten) ∧
      (d.abuff ≠ none ∨ taken ≠ [] → d'.abuff ≠ none) ∧
      Fits d.amax (bytes.length + taken.flatten.length) ∧
      ∀ c cs, left = c :: cs → ¬ Fits d.amax (bytes.length + taken.flatten.length + c.length) ∨
        ∃ size, mem.realloc d'.abuff size = none := by
  induction chunks generalizing d bytes with
  | nil => exact ⟨[], d, [], rfl, rfl, rfl, by simpa using h, by simp, by simpa using hfits, nofun⟩
  | cons c cs ih =>
    have hc : d.abuff = none → c ≠ [] := fun hb hc ↦ hhead hb (by rw [hc, List.head?_cons])
    obtain ⟨n, d₁, hw, hamax, hcase⟩ := writeCallback_holds mem h hc
    rw [deliver, hw, Exec.bind_done]
    dsimp only
    rcases hcase with ⟨hn, hd₁, hne, hf⟩ | ⟨hn, rfl, hwhy⟩
    · rw [if_pos hn]
      rw [← List.length_append, ← hamax] at hf
      obtain ⟨left, d', taken, hdel, hamax', hcs, hd', hne', hf', hrest⟩ :=
        ih hd₁ hf fun hb ↦ absurd hb hne
      have hflat : bytes ++ (c :: taken).flatten = bytes ++ c ++ taken.flatten := by
        rw [List.flatten_cons, List.append_assoc]
      have hlen : bytes.length + (c :: taken).flatten.length =
          (bytes ++ c).length + taken.flatten.length := by
        rw [← List.length_append, hflat, List.length_append]
      refine ⟨left, d', c :: taken, hdel, hamax'.trans hamax, by rw [hcs]; rfl, ?_,
        fun _ ↦ hne' (.inl hne), ?_, ?_⟩
      · rwa [hflat]
      · rwa [hlen, ← hamax]
      · rwa [hlen, ← hamax]
    · rw [if_neg hn]
      refine ⟨c :: cs, d₁, [], rfl, rfl, rfl, by simpa using h, by simp, by simpa using hfits, ?_⟩
      rintro c' cs' ⟨⟩
      simpa using hwhy

/-- An answer whose first chunk is not empty is received. -/
theorem deliver_received (mem : Realloc) (amax : ℕ) {chunks : List Chunk}
    (hhead : chunks.head? ≠ some []) :
    ∃ out, (empty amax).deliver mem chunks = .done out ∧ Received mem amax chunks out ∧
      out.2.handedOver = empty amax := by
  obtain ⟨left, d', taken, hdel, hamax, hcs, hd', hne, hf, hrest⟩ :=
    deliver_holds mem chunks (empty_holds amax) (.inr (Nat.zero_le _)) fun _ ↦ hhead
  simp only [List.nil_append, List.length_nil, Nat.zero_add] at hd' hf hrest
  refine ⟨(left, d'), hdel, ⟨taken, hcs, hd', fun h ↦ hne (.inr h), hf, hrest⟩, ?_⟩
  rw [handedOver, hamax]
  rfl

theorem deliver_empty_chunk (mem : Realloc) (amax : ℕ) (chunks : List Chunk) :
    (empty amax).deliver mem ([] :: chunks) = .undefined := rfl

/-- Every answer is received, and the next one starts from an empty buffer, if and only if no
answer starts with an empty chunk. -/
theorem write_callback_received (mem : Realloc) (amax : ℕ) (answers : List (List Chunk)) :
    (∃ outs, performAll mem (empty amax) answers = .done (outs, empty amax) ∧
      List.Forall₂ (Received mem amax) answers outs) ↔
    ∀ chunks ∈ answers, chunks.head? ≠ some [] := by
  induction answers with
  | nil => exact ⟨nofun, fun _ ↦ ⟨[], rfl, .nil⟩⟩
  | cons chunks answers ih =>
    rw [List.forall_mem_cons, ← ih]
    constructor
    · rintro ⟨outs, hrun, hall⟩
      have hhead : chunks.head? ≠ some [] := by
        intro hhead
        obtain ⟨cs, rfl⟩ := List.head?_eq_some_iff.mp hhead
        rw [performAll, deliver_empty_chunk] at hrun
        cases hrun
      obtain ⟨out, hdel, -, hnext⟩ := deliver_received mem amax hhead
      rw [performAll, hdel, Exec.bind_done, hnext] at hrun
      obtain ⟨⟨outs', d'⟩, hrun', hdone⟩ := Exec.bind_eq_done.mp hrun
      cases hdone
      cases hall with
      | cons _ hall => exact ⟨hhead, outs', hrun', hall⟩
    · rintro ⟨hhead, outs, hrun, hall⟩
      obtain ⟨out, hdel, hrec, hnext⟩ := deliver_received mem amax hhead
      refine ⟨out :: outs, ?_, .cons hrec hall⟩
      rw [performAll, hdel, Exec.bind_done, hnext, hrun]
      rfl

/-- Memory that is always there, and new memory that is zero. -/
def plenty : Realloc where
  realloc old n := some (((old.getD []).take n) ++ List.replicate (n - (old.getD []).length) 0)
  length := by
    rintro old n new ⟨⟩
    rw [List.length_append, List.length_take, List.length_replicate]
    omega
  keeps := by
    rintro old n new ⟨⟩
    exact List.prefix_append _ _

/-- An answer of one empty chunk. -/
theorem write_callback_empty_chunk :
    ¬ ∃ outs, performAll plenty (empty 0) [[[]]] = .done (outs, empty 0) ∧
      List.Forall₂ (Received plenty 0) [[[]]] outs := by
  rintro ⟨outs, hrun, -⟩
  cases hrun

end BodyBuff

end EsOdbc

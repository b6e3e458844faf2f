import EsOdbc.Lib.Cbor
import EsOdbc.Lib.LittleEndian

/-!
# CBOR on the wire

The bytes of data items whose lengths are known in front, as an encoder writes them that always
takes the shortest head, and a decoder of such items that takes any head.
-/

namespace Cbor

/-! ## Heads -/

/-- The low bytes of a number, the most significant one first. -/
def bigEndian (k n : ℕ) : List UInt8 := (LittleEndian.bytes k n).reverse

/-- The initial byte for a major type with the low bits of it. -/
def initial (major info : ℕ) : UInt8 := .ofNat (major * 32 + info)

/-- How many times the size of an argument is doubled that is not in the initial byte. -/
def doublings (n : ℕ) : ℕ :=
  if n < 2 ^ 8 then 0 else if n < 2 ^ 16 then 1 else if n < 2 ^ 32 then 2 else 3

/-- The shortest head. -/
def head (major n : ℕ) : List UInt8 :=
  if n < 24 then [initial major n]
  else initial major (24 + doublings n) :: bigEndian (2 ^ doublings n) n

/-- What a head says. -/
structure Head where
  major : ℕ
  info : ℕ
  arg : ℕ
deriving DecidableEq, Repr

/-- A head of any size, and what is behind it. -/
def readHead : List UInt8 → Option (Head × List UInt8)
  | [] => none
  | b :: rest =>
    let major := b.toNat / 32
    let info := b.toNat % 32
    if info < 24 then some (⟨major, info, info⟩, rest)
    else if info < 28 then
      let k := 2 ^ (info - 24)
      if rest.length < k then none
      else some (⟨major, info, LittleEndian.value (rest.take k).reverse⟩, rest.drop k)
    else none

@[simp] theorem length_bigEndian (k n : ℕ) : (bigEndian k n).length = k := by
  rw [bigEndian, List.length_reverse, LittleEndian.length_bytes]

theorem doublings_le (n : ℕ) : doublings n ≤ 3 := by
  unfold doublings
  split_ifs <;> omega

/-- The argument fits in the bytes it is given. -/
theorem lt_doublings {n : ℕ} (h : n < 2 ^ 64) : n < 256 ^ 2 ^ doublings n := by
  unfold doublings
  split_ifs <;> omega

theorem initial_toNat {major info : ℕ} (hmajor : major < 8) (hinfo : info < 32) :
    (initial major info).toNat = major * 32 + info := by
  rw [initial, UInt8.toNat_ofNat']
  omega

theorem readHead_small {major info : ℕ} (hmajor : major < 8) (hinfo : info < 24)
    (rest : List UInt8) :
    readHead (initial major info :: rest) = some (⟨major, info, info⟩, rest) := by
  have hmod : (major * 32 + info) % 32 = info := by omega
  have hdiv : (major * 32 + info) / 32 = major := by omega
  rw [readHead, initial_toNat hmajor (by omega)]
  dsimp only
  rw [hmod, hdiv, if_pos hinfo]

theorem readHead_large {major j n : ℕ} (hmajor : major < 8) (hj : j ≤ 3)
    (hn : n < 256 ^ 2 ^ j) (rest : List UInt8) :
    readHead (initial major (24 + j) :: bigEndian (2 ^ j) n ++ rest) =
      some (⟨major, 24 + j, n⟩, rest) := by
  have hmod : (major * 32 + (24 + j)) % 32 = 24 + j := by omega
  have hdiv : (major * 32 + (24 + j)) / 32 = major := by omega
  have hlength : ¬(bigEndian (2 ^ j) n ++ rest).length < 2 ^ j := by
    rw [List.length_append, length_bigEndian]
    omega
  rw [List.cons_append, readHead, initial_toNat hmajor (by omega)]
  dsimp only
  rw [hmod, hdiv, if_neg (by omega), if_pos (by omega), Nat.add_sub_cancel_left, if_neg hlength,
    List.take_left' (length_bigEndian _ _), List.drop_left' (length_bigEndian _ _), bigEndian,
    List.reverse_reverse, LittleEndian.value_bytes, Nat.mod_eq_of_lt hn]

/-- A head is read back, whichever size it has. -/
theorem readHead_head {major n : ℕ} (hmajor : major < 8) (hn : n < 2 ^ 64) (rest : List UInt8) :
    ∃ info, readHead (head major n ++ rest) = some (⟨major, info, n⟩, rest) ∧
      (n < 24 → info = n) ∧ (24 ≤ n → 24 ≤ info) ∧ (n < 2 ^ 8 → info ≤ 24) := by
  unfold head
  split_ifs with hsmall
  · refine ⟨n, readHead_small hmajor hsmall rest, fun _ ↦ rfl, ?_, ?_⟩ <;> intro h <;> omega
  · refine ⟨_, readHead_large hmajor (doublings_le n) (lt_doublings hn) rest, ?_, ?_, ?_⟩
    · intro h
      exact absurd h hsmall
    · intro _
      exact Nat.le_add_right ..
    · intro h
      rw [doublings, if_pos h]

theorem head_ne_nil (major n : ℕ) : head major n ≠ [] := by
  unfold head
  split_ifs <;> exact List.cons_ne_nil _ _

/-! ## Items -/

namespace Item

/-- The number of pairs in a map. -/
def entriesOf (entries : List Item) : ℕ := entries.length / 2

mutual

/-- The bytes of an item of definite length. -/
def encode : Item → List UInt8
  | .uint n => head 0 n.toNat
  | .nint n => head 1 n.toNat
  | .bytes b => head 2 b.length ++ b
  | .text b => head 3 b.length ++ b
  | .array _ xs => head 4 xs.length ++ encodeAll xs
  | .map _ xs => head 5 (entriesOf xs) ++ encodeAll xs
  | .tag n c => head 6 n.toNat ++ c.encode
  | .simple n => head 7 n.toNat
  | .bool b => head 7 (if b then 21 else 20)
  | .null => head 7 22
  | .undefined => head 7 23
  | .half bits => initial 7 25 :: bigEndian 2 bits.toNat
  | .float bits => initial 7 26 :: bigEndian 4 bits.toNat
  | .double bits => initial 7 27 :: bigEndian 8 bits.toNat
  | .bytesChunks _ | .textChunks _ => []

def encodeAll : List Item → List UInt8
  | [] => []
  | x :: xs => x.encode ++ encodeAll xs

end

mutual

/-- An item of which every part has a definite length that a head can say. -/
def Definite : Item → Prop
  | .bytes b | .text b => b.length < 2 ^ 64
  | .array indef xs => indef = false ∧ xs.length < 2 ^ 64 ∧ AllDefinite xs
  | .map indef xs => indef = false ∧ xs.length % 2 = 0 ∧ xs.length < 2 ^ 64 ∧ AllDefinite xs
  | .tag _ c => c.Definite
  | .simple n => n.toNat < 20 ∨ 32 ≤ n.toNat
  | .bytesChunks _ | .textChunks _ => False
  | _ => True

def AllDefinite : List Item → Prop
  | [] => True
  | x :: xs => x.Definite ∧ AllDefinite xs

end

mutual

/-- How deep an item nests, its tags among the rest. -/
def height : Item → ℕ
  | .array _ xs => 1 + heights xs
  | .map _ xs => 1 + heights xs
  | .tag _ c => 1 + c.height
  | _ => 0

def heights : List Item → ℕ
  | [] => 0
  | x :: xs => max x.height (heights xs)

end

end Item

/-! ## The decoder -/

/-- A number of things, read one after the other. -/
def many {α : Type} (read : List UInt8 → Option (α × List UInt8)) :
    ℕ → List UInt8 → Option (List α × List UInt8)
  | 0, bytes => some ([], bytes)
  | n + 1, bytes => do
    let (x, rest) ← read bytes
    let (xs, rest) ← many read n rest
    return (x :: xs, rest)

/-- So many bytes. -/
def chunk (n : ℕ) (bytes : List UInt8) : Option (List UInt8 × List UInt8) :=
  if bytes.length < n then none else some (bytes.take n, bytes.drop n)

/-- What a head of major type 7 is the whole of. -/
def special (info arg : ℕ) : Item :=
  if info = 20 then .bool false
  else if info = 21 then .bool true
  else if info = 22 then .null
  else if info = 23 then .undefined
  else if info = 25 then .half (.ofNat arg)
  else if info = 26 then .float (.ofNat arg)
  else if info = 27 then .double (.ofNat arg)
  else .simple (.ofNat arg)

/-- The item that a head begins, for a reader of what is inside of it. -/
def content (read : List UInt8 → Option (Item × List UInt8)) (h : Head) (rest : List UInt8) :
    Option (Item × List UInt8) :=
  match h.major with
  | 0 => some (.uint (.ofNat h.arg), rest)
  | 1 => some (.nint (.ofNat h.arg), rest)
  | 2 => (chunk h.arg rest).map fun p ↦ (.bytes p.1, p.2)
  | 3 => (chunk h.arg rest).map fun p ↦ (.text p.1, p.2)
  | 4 => (many read h.arg rest).map fun p ↦ (.array false p.1, p.2)
  | 5 => (many read (2 * h.arg) rest).map fun p ↦ (.map false p.1, p.2)
  | 6 => (read rest).map fun p ↦ (.tag (.ofNat h.arg) p.1, p.2)
  | _ => some (special h.info h.arg, rest)

/-- An item that nests less deep than a bound, and what is behind it. -/
def item : ℕ → List UInt8 → Option (Item × List UInt8)
  | 0, _ => none
  | depth + 1, bytes => (readHead bytes).bind fun p ↦ content (item depth) p.1 p.2

/-- The item that bytes are the whole of. -/
def decode (bytes : List UInt8) : Option Item :=
  match item (bytes.length + 1) bytes with
  | some (x, []) => some x
  | _ => none

theorem chunk_append (b rest : List UInt8) : chunk b.length (b ++ rest) = some (b, rest) := by
  have hlength : ¬(b ++ rest).length < b.length := by
    rw [List.length_append]
    omega
  rw [chunk, if_neg hlength, List.take_left, List.drop_left]

/-- The head of an item is read first. -/
theorem item_head {major n : ℕ} (hmajor : major < 8) (hn : n < 2 ^ 64) (depth : ℕ)
    (behind : List UInt8) :
    ∃ info, item (depth + 1) (head major n ++ behind) =
        content (item depth) ⟨major, info, n⟩ behind ∧
      (n < 24 → info = n) ∧ (24 ≤ n → 24 ≤ info) ∧ (n < 2 ^ 8 → info ≤ 24) := by
  obtain ⟨info, hread, hinfo⟩ := readHead_head hmajor hn behind
  refine ⟨info, ?_, hinfo⟩
  rw [item, hread]
  rfl

theorem item_large {j n : ℕ} (hj : j ≤ 3) (hn : n < 256 ^ 2 ^ j) (depth : ℕ)
    (rest : List UInt8) : item (depth + 1) (initial 7 (24 + j) :: bigEndian (2 ^ j) n ++ rest) =
      some (special (24 + j) n, rest) := by
  rw [item, readHead_large (by decide) hj hn]
  rfl

theorem special_simple {info : ℕ} {n : UInt8} (hn : n.toNat < 20 ∨ 32 ≤ n.toNat)
    (hsmall : n.toNat < 24 → info = n.toNat) (hlarge : 24 ≤ n.toNat → info = 24) :
    special info n.toNat = .simple n := by
  have hinfo : info < 20 ∨ info = 24 := by
    rcases hn with hn | hn
    · exact Or.inl (hsmall (by omega) ▸ hn)
    · exact Or.inr (hlarge (by omega))
  unfold special
  rw [if_neg (by omega), if_neg (by omega), if_neg (by omega), if_neg (by omega),
    if_neg (by omega), if_neg (by omega), if_neg (by omega), UInt8.ofNat_toNat]

mutual

/-- What is encoded is decoded, whatever is behind it. -/
theorem item_encode : (x : Item) → (depth : ℕ) → (rest : List UInt8) → x.Definite →
    x.height < depth → item depth (x.encode ++ rest) = some (x, rest)
  | _, 0, _, _, hdepth => by cases hdepth
  | .uint n, depth + 1, rest, _, _ => by
    obtain ⟨info, hitem, -⟩ := @item_head 0 _ (by decide) n.toNat_lt depth rest
    rw [Item.encode, hitem, content, UInt64.ofNat_toNat]
    rfl
  | .nint n, depth + 1, rest, _, _ => by
    obtain ⟨info, hitem, -⟩ := @item_head 1 _ (by decide) n.toNat_lt depth rest
    rw [Item.encode, hitem, content, UInt64.ofNat_toNat]
    rfl
  | .bytes b, depth + 1, rest, hx, _ => by
    obtain ⟨info, hitem, -⟩ := @item_head 2 _ (by decide) hx depth (b ++ rest)
    rw [Item.encode, List.append_assoc, hitem, content, chunk_append]
    rfl
  | .text b, depth + 1, rest, hx, _ => by
    obtain ⟨info, hitem, -⟩ := @item_head 3 _ (by decide) hx depth (b ++ rest)
    rw [Item.encode, List.append_assoc, hitem, content, chunk_append]
    rfl
  | .array indef xs, depth + 1, rest, hx, hdepth => by
    obtain ⟨rfl, hlength, hxs⟩ := hx
    obtain ⟨info, hitem, -⟩ :=
      @item_head 4 _ (by decide) hlength depth (Item.encodeAll xs ++ rest)
    have hmany := many_encode xs depth rest hxs (by rw [Item.height] at hdepth; omega)
    rw [Item.encode, List.append_assoc, hitem, content, hmany]
    rfl
  | .map indef xs, depth + 1, rest, hx, hdepth => by
    obtain ⟨rfl, heven, hlength, hxs⟩ := hx
    have hentries : 2 * Item.entriesOf xs = xs.length := by rw [Item.entriesOf]; omega
    obtain ⟨info, hitem, -⟩ := @item_head 5 _ (by decide)
      (show Item.entriesOf xs < 2 ^ 64 by omega) depth (Item.encodeAll xs ++ rest)
    have hmany := many_encode xs depth rest hxs (by rw [Item.height] at hdepth; omega)
    rw [Item.encode, List.append_assoc, hitem, content, hentries, hmany]
    rfl
  | .tag n c, depth + 1, rest, hx, hdepth => by
    obtain ⟨info, hitem, -⟩ := @item_head 6 _ (by decide) n.toNat_lt depth (c.encode ++ rest)
    have hc := item_encode c depth rest hx (by rw [Item.height] at hdepth; omega)
    rw [Item.encode, List.append_assoc, hitem, content, hc, UInt64.ofNat_toNat]
    rfl
  | .simple n, depth + 1, rest, hx, _ => by
    obtain ⟨info, hitem, hsmall, hlarge, hle⟩ :=
      @item_head 7 _ (by decide) (n.toNat_lt.trans (by decide)) depth rest
    have hinfo (h : 24 ≤ n.toNat) : info = 24 := Nat.le_antisymm (hle n.toNat_lt) (hlarge h)
    rw [Item.encode, hitem]
    exact congrArg (fun x ↦ some (x, rest)) (special_simple hx hsmall hinfo)
  | .bool b, depth + 1, rest, _, _ => by cases b <;> rfl
  | .null, depth + 1, rest, _, _ => rfl
  | .undefined, depth + 1, rest, _, _ => rfl
  | .half bits, depth + 1, rest, _, _ => by
    have hlt : bits.toNat < 256 ^ 2 ^ 1 := bits.toNat_lt
    rw [Item.encode]
    exact (item_large (by decide) hlt depth rest).trans (by rw [special]; simp)
  | .float bits, depth + 1, rest, _, _ => by
    have hlt : bits.toNat < 256 ^ 2 ^ 2 := bits.toNat_lt
    rw [Item.encode]
    exact (item_large (by decide) hlt depth rest).trans (by rw [special]; simp)
  | .double bits, depth + 1, rest, _, _ => by
    have hlt : bits.toNat < 256 ^ 2 ^ 3 := bits.toNat_lt
    rw [Item.encode]
    exact (item_large (by decide) hlt depth rest).trans (by rw [special]; simp)
  | .bytesChunks _, _ + 1, _, hx, _ => hx.elim
  | .textChunks _, _ + 1, _, hx, _ => hx.elim

theorem many_encode : (xs : List Item) → (depth : ℕ) → (rest : List UInt8) →
    Item.AllDefinite xs → Item.heights xs < depth →
      many (item depth) xs.length (Item.encodeAll xs ++ rest) = some (xs, rest)
  | [], _, _, _, _ => rfl
  | x :: xs, depth, rest, hxs, hdepth => by
    rw [Item.heights] at hdepth
    have hx := item_encode x depth (Item.encodeAll xs ++ rest) hxs.1 (by omega)
    have htail := many_encode xs depth rest hxs.2 (by omega)
    rw [Item.encodeAll, List.append_assoc, List.length_cons, many, hx]
    change (many (item depth) xs.length (Item.encodeAll xs ++ rest)).bind _ = _
    rw [htail]
    rfl

end

mutual

/-- An item takes a byte at least for each level it nests. -/
theorem height_le_length : (x : Item) → x.Definite → x.height ≤ x.encode.length
  | .uint _, _ | .nint _, _ | .bool _, _ | .null, _ | .undefined, _ | .simple _, _
  | .half _, _ | .float _, _ | .double _, _ | .bytes _, _ | .text _, _ => Nat.zero_le _
  | .array _ xs, hx => by
    have hhead := List.length_pos_of_ne_nil (head_ne_nil 4 xs.length)
    have hxs := heights_le_length xs hx.2.2
    rw [Item.height, Item.encode, List.length_append]
    omega
  | .map _ xs, hx => by
    have hhead := List.length_pos_of_ne_nil (head_ne_nil 5 (Item.entriesOf xs))
    have hxs := heights_le_length xs hx.2.2.2
    rw [Item.height, Item.encode, List.length_append]
    omega
  | .tag n c, hx => by
    have hhead := List.length_pos_of_ne_nil (head_ne_nil 6 n.toNat)
    have hc := height_le_length c hx
    rw [Item.height, Item.encode, List.length_append]
    omega
  | .bytesChunks _, hx => hx.elim
  | .textChunks _, hx => hx.elim

theorem heights_le_length : (xs : List Item) → Item.AllDefinite xs →
    Item.heights xs ≤ (Item.encodeAll xs).length
  | [], _ => Nat.zero_le _
  | x :: xs, hxs => by
    have hx := height_le_length x hxs.1
    have htail := heights_le_length xs hxs.2
    rw [Item.heights, Item.encodeAll, List.length_append]
    omega

end

/-- Decoding undoes encoding. -/
theorem decode_encode {x : Item} (hx : x.Definite) : decode x.encode = some x := by
  have hitem := item_encode x _ [] hx (Nat.lt_succ_of_le (height_le_length x hx))
  rw [List.append_nil] at hitem
  rw [decode, hitem]

namespace Item

theorem encodeAll_append (xs ys : List Item) :
    encodeAll (xs ++ ys) = encodeAll xs ++ encodeAll ys := by
  induction xs with
  | nil => rfl
  | cons x xs ih => rw [List.cons_append, encodeAll, encodeAll, ih, List.append_assoc]

theorem allDefinite_append {xs ys : List Item} :
    AllDefinite (xs ++ ys) ↔ AllDefinite xs ∧ AllDefinite ys := by
  induction xs with
  | nil => exact (and_iff_right trivial).symm
  | cons x xs ih => rw [List.cons_append, AllDefinite, AllDefinite, ih, and_assoc]

theorem encode_ne_nil {x : Item} (hx : x.Definite) : x.encode ≠ [] := by
  intro hnil
  have hitem := item_encode x (x.height + 1) [] hx (Nat.lt_succ_self _)
  rw [hnil] at hitem
  cases hitem

/-- An item takes a byte at least. -/
theorem length_le_encodeAll {xs : List Item} (hxs : AllDefinite xs) :
    xs.length ≤ (encodeAll xs).length := by
  induction xs with
  | nil => exact le_rfl
  | cons x xs ih =>
    have hx := List.length_pos_of_ne_nil (encode_ne_nil hxs.1)
    have htail := ih hxs.2
    rw [encodeAll, List.length_append, List.length_cons]
    omega

end Item

end Cbor

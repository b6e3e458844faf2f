import EsOdbc.Tinycbor

/-!
# Looking up the keys of a map

`cbor_map_lookup_keys` and `cbor_map_advance_to_key` (`tinycbor.c`) with the iterators they
hand out, over the maps whose keys are texts in one piece or anything that is no text.
`LooksUp` and `AdvancesTo` say that they find what is stored, in whatever order the entries
and the keys come; `lookups_iff` says of which maps that holds.
-/

namespace EsOdbc

open Cbor (Item)

/-! ## Model -/

/-- What remains of a container. -/
abbrev CborIter := List Item

/-- The loop of `cbor_map_lookup_keys`: of each key that is met, the iterator at its value. -/
def lookupIters (keys : List CStr) : (objs : List (Option CborIter)) → (found : ℕ) →
    (key : Option CStr) → CborIter → Option (Except CborError (List (Option CborIter)))
  | objs, _, none, [] => some (.ok objs)
  | _, _, some _, [] => some (.error .advancePastEOF)
  | objs, found, none, k :: rest =>
    if keys.length ≤ found then some ((cborValueExitContainer (k :: rest)).map fun _ ↦ objs)
    else if isTextString k.untag then
      match cborValueGetStringChunk k.untag with
      | none => none
      | some b => lookupIters keys objs found (some b) rest
    -- no name: what comes next is taken for a key
    else if k.depth ≤ cborParserMaxRecursions then lookupIters keys objs found none rest
    else some (.error .nestingTooDeep)
  | objs, found, some b, v :: rest =>
    if v.depth ≤ cborParserMaxRecursions then
      match keys.findIdx? (caseEq · b) with
      | some i => lookupIters keys (objs.set i (some (v :: rest))) (found + 1) none rest
      | none => lookupIters keys objs found none rest
    else some (.error .nestingTooDeep)

/-- `cbor_map_lookup_keys` at a map: the iterators at the values, and the caller's. -/
def cborMapLookupIters (keys : List CStr) (entries after : CborIter) :
    Option (Except CborError (List (Option CborIter) × CborIter)) :=
  (lookupIters keys (keys.map fun _ ↦ none) 0 none entries).map (Except.map fun objs ↦ (objs, after))

/-- The errors of `cbor_map_advance_to_key`. -/
inductive AdvanceError where
  | cbor (e : CborError)
  | tooFewItems
deriving DecidableEq, Repr

/-- `cbor_map_advance_to_key` in an entered map: the iterator it hands out, `none` for
`CborInvalidType`. -/
def cborMapAdvanceToKey (key : CStr) :
    CborIter → Option (Except AdvanceError (Option CborIter))
  | [] => some (.ok none)
  | k :: rest =>
    if isTextString k.untag then
      match cborValueGetStringChunk k.untag, rest with
      | none, _ => none
      | some b, [] =>
        some (.error (if caseEq key b then .tooFewItems else .cbor .advancePastEOF))
      | some b, v :: rest =>
        if caseEq key b then some (.ok (some (v :: rest)))
        else if v.depth ≤ cborParserMaxRecursions then cborMapAdvanceToKey key rest
        else some (.error (.cbor .nestingTooDeep))
    -- no name to compare: it is found
    else some (.ok (some (k.untag :: rest)))

/-- The iterators are at the items that the loop without them hands out. -/
theorem lookupLoop_eq_iters (keys : List CStr) (objs : List (Option CborIter)) (found : ℕ)
    (key : Option CStr) (it : CborIter) :
    lookupLoop keys (objs.map fun o ↦ o.bind List.head?) found key it =
      (lookupIters keys objs found key it).map (Except.map (List.map fun o ↦ o.bind List.head?)) := by
  induction it generalizing objs found key with
  | nil => cases key <;> rfl
  | cons x rest ih =>
    cases key with
    | none =>
      rw [lookupLoop, lookupIters]
      by_cases hfound : keys.length ≤ found
      · rw [if_pos hfound, if_pos hfound]
        cases cborValueExitContainer (x :: rest) <;> rfl
      rw [if_neg hfound, if_neg hfound]
      by_cases htext : isTextString x.untag = true
      · rw [if_pos htext, if_pos htext]
        cases cborValueGetStringChunk x.untag with
        | none => rfl
        | some b => exact ih objs found (some b)
      rw [if_neg htext, if_neg htext]
      by_cases hdepth : x.depth ≤ cborParserMaxRecursions
      · rw [if_pos hdepth, if_pos hdepth]
        exact ih objs found none
      · rw [if_neg hdepth, if_neg hdepth]
        rfl
    | some b =>
      rw [lookupLoop, lookupIters]
      by_cases hdepth : x.depth ≤ cborParserMaxRecursions
      · rw [if_pos hdepth, if_pos hdepth]
        cases keys.findIdx? (caseEq · b) with
        | none => exact ih objs found none
        | some i =>
          have hset : (objs.map fun o ↦ o.bind List.head?).set i (some x) =
              (objs.set i (some (x :: rest))).map fun o ↦ o.bind List.head? := by
            rw [List.map_set]
            rfl
          dsimp only
          rw [hset]
          exact ih _ _ none
      · rw [if_neg hdepth, if_neg hdepth]
        rfl

/-- `cbor_map_lookup_keys` hands out the items at its iterators. -/
theorem cborMapLookupKeys_eq_iters (keys : List CStr) (entries after : CborIter) :
    cborMapLookupKeys entries keys = (cborMapLookupIters keys entries after).map
      (Except.map fun r ↦ r.1.map fun o ↦ o.bind List.head?) := by
  have h := lookupLoop_eq_iters keys (keys.map fun _ ↦ none) 0 none entries
  rw [List.map_map] at h
  rw [cborMapLookupKeys, cborMapLookupIters, Option.map_map]
  refine h.trans ?_
  congr 1
  funext r
  cases r <;> rfl

/-! ## What a map stores -/

/-- The text of a key; the tags in front of it do not count. -/
def keyText (k : Item) : Option CStr :=
  if isTextString k.untag then cborValueGetStringChunk k.untag else none

/-- The items of some entries. -/
def entryItems (pairs : List (Item × Item)) : CborIter := pairs.flatMap fun p ↦ [p.1, p.2]

/-- A map: its texts are keys in one piece, and no two of them are the same but for case. -/
structure LookupMap where
  pairs : List (Item × Item)
  whole : ∀ p ∈ pairs, isTextString p.1.untag = true → (keyText p.1).isSome
  distinct : (pairs.filterMap fun p ↦ keyText p.1).Pairwise fun a b ↦ caseEq a b = false

/-- Whether a key of the map is the one that is asked for. -/
def keyMatches (key : CStr) (p : Item × Item) : Bool := (keyText p.1).any (caseEq key)

/-- The iterator at the value of a key. -/
def storedAt (key : CStr) : List (Item × Item) → Option CborIter
  | [] => none
  | p :: pairs => if keyMatches key p then some (p.2 :: entryItems pairs) else storedAt key pairs

/-- The lookup finds what is stored, in whatever order, and the caller's iterator is left behind
the map. -/
def LooksUp (m : LookupMap) (keys : List CStr) : Prop :=
  ∀ (pairs : List (Item × Item)) (ks : List CStr) (after : CborIter),
    pairs.Perm m.pairs → ks.Perm keys →
    cborMapLookupIters ks (entryItems pairs) after =
      some (.ok (ks.map fun key ↦ storedAt key pairs, after))

/-- The lookup of a single key finds what is stored, in whatever order. -/
def AdvancesTo (m : LookupMap) (key : CStr) : Prop :=
  ∀ pairs : List (Item × Item), pairs.Perm m.pairs →
    cborMapAdvanceToKey key (entryItems pairs) = some (.ok (storedAt key pairs))

/-! ## Keys and entries -/

theorem caseEq_iff {a b : CStr} : caseEq a b = true ↔ a.map toLower = b.map toLower := by
  rw [caseEq, beq_iff_eq]

theorem keyMatches_iff {key : CStr} {p : Item × Item} :
    keyMatches key p = true ↔ ∃ b, keyText p.1 = some b ∧ caseEq key b = true := by
  rw [keyMatches, Option.any_eq_true]

theorem keyMatches_of_none {p : Item × Item} (h : keyText p.1 = none) (key : CStr) :
    keyMatches key p = false := by rw [keyMatches, h, Option.any_none]

theorem keyMatches_of_some {p : Item × Item} {b : CStr} (h : keyText p.1 = some b) (key : CStr) :
    keyMatches key p = caseEq key b := by rw [keyMatches, h, Option.any_some]

/-- A text key is handed out in one piece. -/
theorem chunk_of_keyText {k : Item} {b : CStr} (h : keyText k = some b) :
    isTextString k.untag = true ∧ cborValueGetStringChunk k.untag = some b := by
  rw [keyText] at h
  by_cases htext : isTextString k.untag = true
  · rw [if_pos htext] at h
    exact ⟨htext, h⟩
  · rw [if_neg htext] at h
    cases h

theorem depth_of_text {x : Item} (h : isTextString x.untag = true) : x.depth = 0 := by
  rw [← Item.depth_untag]
  cases hx : x.untag <;> rw [hx] at h <;> first | rfl | simp [isTextString, textBytes] at h

@[simp] theorem entryItems_nil : entryItems [] = [] := rfl

@[simp] theorem entryItems_cons (p : Item × Item) (pairs : List (Item × Item)) :
    entryItems (p :: pairs) = p.1 :: p.2 :: entryItems pairs := rfl

theorem entryItems_append (ps qs : List (Item × Item)) :
    entryItems (ps ++ qs) = entryItems ps ++ entryItems qs := List.flatMap_append

theorem mem_entryItems {x : Item} {pairs : List (Item × Item)} :
    x ∈ entryItems pairs ↔ ∃ p ∈ pairs, x = p.1 ∨ x = p.2 := by
  simp [entryItems]

theorem storedAt_isSome {key : CStr} {pairs : List (Item × Item)} :
    (storedAt key pairs).isSome = true ↔ ∃ p ∈ pairs, keyMatches key p = true := by
  induction pairs with
  | nil => simp [storedAt]
  | cons p pairs ih =>
    rw [storedAt]
    by_cases hp : keyMatches key p = true
    · simp [hp]
    · rw [if_neg hp, ih]
      simp [hp]

/-- The iterators at values get shorter. -/
theorem length_storedAt {key : CStr} {pairs : List (Item × Item)} {it : CborIter}
    (h : storedAt key pairs = some it) : it.length < (entryItems pairs).length := by
  induction pairs with
  | nil => cases h
  | cons p pairs ih =>
    rw [storedAt] at h
    rw [entryItems_cons]
    by_cases hp : keyMatches key p = true
    · rw [if_pos hp] at h
      obtain rfl := Option.some.inj h
      simp
    · rw [if_neg hp] at h
      have := ih h
      simp only [List.length_cons]
      omega

/-- A container can be left if its items can be skipped. -/
theorem exitContainer_eq_ok {it : CborIter} :
    cborValueExitContainer it = .ok () ↔ ∀ x ∈ it, x.depth ≤ cborParserMaxRecursions := by
  induction it with
  | nil => simp [cborValueExitContainer]
  | cons x it ih =>
    have hadvance : cborValueAdvance (x.untag :: it) =
        if x.depth ≤ cborParserMaxRecursions then .ok it else .error .nestingTooDeep := by
      have htag := Item.isTag_untag x
      have hdepth := Item.depth_untag x
      rw [← hdepth]
      cases hx : x.untag <;> rw [hx] at htag <;> first | rfl | simp [Item.isTag] at htag
    rw [cborValueExitContainer, hadvance]
    by_cases hdepth : x.depth ≤ cborParserMaxRecursions
    · rw [if_pos hdepth]
      simp [ih, hdepth]
    · rw [if_neg hdepth]
      simp [hdepth]

/-! ## Steps of the loop -/

theorem lookupIters_found {keys : List CStr} {found : ℕ} (h : keys.length ≤ found)
    (objs : List (Option CborIter)) (it : CborIter) :
    lookupIters keys objs found none it =
      some ((cborValueExitContainer it).map fun _ ↦ objs) := by
  cases it with
  | nil => rfl
  | cons k rest => rw [lookupIters, if_pos h]

theorem lookupIters_text {keys : List CStr} {found : ℕ} (h : ¬keys.length ≤ found) {k : Item}
    {b : CStr} (hk : keyText k = some b) (objs : List (Option CborIter)) (rest : CborIter) :
    lookupIters keys objs found none (k :: rest) = lookupIters keys objs found (some b) rest := by
  obtain ⟨htext, hchunk⟩ := chunk_of_keyText hk
  rw [lookupIters, if_neg h, if_pos htext, hchunk]

theorem lookupIters_other {keys : List CStr} {found : ℕ} (h : ¬keys.length ≤ found) {k : Item}
    (hk : ¬isTextString k.untag = true) (objs : List (Option CborIter)) (rest : CborIter) :
    lookupIters keys objs found none (k :: rest) =
      if k.depth ≤ cborParserMaxRecursions then lookupIters keys objs found none rest
      else some (.error .nestingTooDeep) := by
  rw [lookupIters, if_neg h, if_neg hk]

/-- A run that succeeds, step by step: what every step keeps holds where it ends, and what is left
there can be skipped. -/
theorem lookupIters_invariant {keys : List CStr}
    (inv : List (Option CborIter) → ℕ → Option CStr → CborIter → Prop)
    (text : ∀ objs found k rest b, keyText k = some b → inv objs found none (k :: rest) →
      inv objs found (some b) rest)
    (other : ∀ objs found k rest, ¬isTextString k.untag = true →
      k.depth ≤ cborParserMaxRecursions → inv objs found none (k :: rest) → inv objs found none rest)
    (hit : ∀ objs found b v rest i, keys.findIdx? (caseEq · b) = some i →
      v.depth ≤ cborParserMaxRecursions → inv objs found (some b) (v :: rest) →
      inv (objs.set i (some (v :: rest))) (found + 1) none rest)
    (miss : ∀ objs found b v rest, keys.findIdx? (caseEq · b) = none →
      v.depth ≤ cborParserMaxRecursions → inv objs found (some b) (v :: rest) →
      inv objs found none rest)
    {objs objs' : List (Option CborIter)} {found : ℕ} {key : Option CStr} {it : CborIter}
    (h : inv objs found key it) (hrun : lookupIters keys objs found key it = some (.ok objs')) :
    ∃ found' it', inv objs' found' none it' ∧ (keys.length ≤ found' ∨ it' = []) ∧
      ∀ x ∈ it', x.depth ≤ cborParserMaxRecursions := by
  induction it generalizing objs found key with
  | nil =>
    cases key with
    | none =>
      obtain rfl : objs = objs' := by simpa [lookupIters] using hrun
      exact ⟨found, [], h, .inr rfl, by simp⟩
    | some b => simp [lookupIters] at hrun
  | cons x rest ih =>
    cases key with
    | none =>
      by_cases hfound : keys.length ≤ found
      · rw [lookupIters_found hfound] at hrun
        cases hexit : cborValueExitContainer (x :: rest) with
        | error e => simp [hexit, Except.map] at hrun
        | ok u =>
          obtain rfl : objs = objs' := by simpa [hexit, Except.map] using hrun
          exact ⟨found, _, h, .inl hfound, exitContainer_eq_ok.mp hexit⟩
      by_cases htext : isTextString x.untag = true
      · cases hchunk : cborValueGetStringChunk x.untag with
        | none =>
          rw [lookupIters, if_neg hfound, if_pos htext, hchunk] at hrun
          cases hrun
        | some b =>
          have hkey : keyText x = some b := by rw [keyText, if_pos htext, hchunk]
          rw [lookupIters_text hfound hkey] at hrun
          exact ih (text _ _ _ _ _ hkey h) hrun
      · rw [lookupIters_other hfound htext] at hrun
        by_cases hdepth : x.depth ≤ cborParserMaxRecursions
        · rw [if_pos hdepth] at hrun
          exact ih (other _ _ _ _ htext hdepth h) hrun
        · rw [if_neg hdepth] at hrun
          cases hrun
    | some b =>
      rw [lookupIters] at hrun
      by_cases hdepth : x.depth ≤ cborParserMaxRecursions
      · rw [if_pos hdepth] at hrun
        cases hfind : keys.findIdx? (caseEq · b) with
        | none =>
          rw [hfind] at hrun
          exact ih (miss _ _ _ _ _ hfind hdepth h) hrun
        | some i =>
          rw [hfind] at hrun
          exact ih (hit _ _ _ _ _ _ hfind hdepth h) hrun
      · rw [if_neg hdepth] at hrun
        cases hrun

/-! ## Runs that succeed -/

/-- All items are skipped. -/
theorem depth_of_lookupIters {keys : List CStr} {objs objs' : List (Option CborIter)} {found : ℕ}
    {key : Option CStr} {it : CborIter} (hrun : lookupIters keys objs found key it = some (.ok objs')) :
    ∀ x ∈ it, x.depth ≤ cborParserMaxRecursions := by
  have skip (y : Item) (rest : CborIter) (hy : y.depth ≤ cborParserMaxRecursions)
      (hinv : ∀ x ∈ it, x ∈ y :: rest ∨ x.depth ≤ cborParserMaxRecursions) :
      ∀ x ∈ it, x ∈ rest ∨ x.depth ≤ cborParserMaxRecursions := by
    intro x hx
    rcases hinv x hx with hmem | hdepth
    · rcases List.mem_cons.mp hmem with rfl | hmem
      · exact .inr hy
      · exact .inl hmem
    · exact .inr hdepth
  obtain ⟨-, it', hinv, -, hrest⟩ := lookupIters_invariant
    (fun _ _ _ rest ↦ ∀ x ∈ it, x ∈ rest ∨ x.depth ≤ cborParserMaxRecursions)
    (fun _ _ k rest b hk ↦ skip k rest (by simp [depth_of_text (chunk_of_keyText hk).1]))
    (fun _ _ k rest _ hk ↦ skip k rest hk)
    (fun _ _ _ v rest _ _ hv ↦ skip v rest hv)
    (fun _ _ _ v rest _ hv ↦ skip v rest hv)
    (fun x hx ↦ .inl hx) hrun
  intro x hx
  exact (hinv x hx).elim (hrest x) id

/-- A place in the map that the loop has reached is not handed out any more. -/
theorem lookupIters_passed {keys : List CStr} {objs objs' : List (Option CborIter)} {found : ℕ}
    {it target : CborIter} {j : ℕ} (hlen : it.length ≤ target.length)
    (hobj : objs[j]? ≠ some (some target))
    (hrun : lookupIters keys objs found none it = some (.ok objs')) :
    objs'[j]? ≠ some (some target) := by
  obtain ⟨_, _, hinv, -⟩ := lookupIters_invariant
    (fun objs _ key rest ↦ objs[j]? ≠ some (some target) ∧
      rest.length + key.elim 0 (fun _ ↦ 1) ≤ target.length)
    (fun _ _ _ _ _ _ hinv ↦ hinv)
    (fun _ _ _ _ _ _ hinv ↦ ⟨hinv.1, (Nat.le_succ _).trans hinv.2⟩)
    (by
      rintro objs _ b v rest i - - ⟨hobj, hle⟩
      have hlt : (v :: rest).length < target.length := hle
      refine ⟨fun h ↦ ?_, (Nat.le_succ _).trans hlt.le⟩
      rw [List.getElem?_set] at h
      split_ifs at h with hij hi
      · obtain rfl := Option.some.inj (Option.some.inj h)
        exact lt_irrefl _ hlt
      · exact hobj h)
    (fun _ _ _ _ _ _ _ hinv ↦ ⟨hinv.1, (by simp at hinv ⊢; omega)⟩)
    (by exact ⟨hobj, hlen⟩) hrun
  exact hinv.1

/-- The loop hands out nothing for a key behind an equal one. -/
theorem lookupIters_second {keys : List CStr} {objs objs' : List (Option CborIter)} {found : ℕ}
    {it : CborIter} {j : ℕ} (hj : ∀ b, keys.findIdx? (caseEq · b) ≠ some j)
    (hobj : objs[j]? = some none)
    (hrun : lookupIters keys objs found none it = some (.ok objs')) : objs'[j]? = some none := by
  obtain ⟨_, _, hinv, -⟩ := lookupIters_invariant
    (fun objs _ _ _ ↦ objs[j]? = some none)
    (fun _ _ _ _ _ _ hinv ↦ hinv) (fun _ _ _ _ _ _ hinv ↦ hinv)
    (by
      intro objs _ b _ _ i hfind _ hinv
      have hij : i ≠ j := by
        rintro rfl
        exact hj b hfind
      rwa [List.getElem?_set_ne hij])
    (fun _ _ _ _ _ _ _ hinv ↦ hinv)
    hobj hrun
  exact hinv

/-- A map that ends with a text behind a key that is no text is read to the end only if a key has
been found. -/
theorem lookupIters_last {keys : List CStr} (hkeys : keys ≠ []) {k v : Item}
    (hk : ¬isTextString k.untag = true) (hv : isTextString v.untag = true)
    {objs' : List (Option CborIter)} (it : CborIter)
    (hrun : lookupIters keys (keys.map fun _ ↦ none) 0 none (it ++ [k, v]) = some (.ok objs')) :
    ∃ o ∈ objs', o.isSome = true := by
  have hpos : 0 < keys.length := List.length_pos_iff.mpr hkeys
  obtain ⟨found, rest, ⟨hlen, hsome, hends⟩, hdone, -⟩ := lookupIters_invariant
    (fun objs found key rest ↦ objs.length = keys.length ∧
      (found = 0 ∨ ∃ o ∈ objs, o.isSome = true) ∧
      ((∃ it, rest = it ++ [k, v]) ∨ (rest = [v] ∧ key = none) ∨ (rest = [] ∧ key ≠ none)))
    (by
      rintro objs found x rest b hx ⟨hlen, hsome, ⟨it, hit⟩ | ⟨hit, -⟩ | ⟨hit, -⟩⟩
      · cases it with
        | nil =>
          obtain ⟨rfl, rfl⟩ := List.cons.inj hit
          exact absurd (chunk_of_keyText hx).1 hk
        | cons y it =>
          exact ⟨hlen, hsome, .inl ⟨it, (List.cons.inj hit).2⟩⟩
      · exact ⟨hlen, hsome, .inr (.inr ⟨(List.cons.inj hit).2, nofun⟩)⟩
      · cases hit)
    (by
      rintro objs found x rest hx - ⟨hlen, hsome, ⟨it, hit⟩ | ⟨hit, -⟩ | ⟨hit, -⟩⟩
      · cases it with
        | nil => exact ⟨hlen, hsome, .inr (.inl ⟨(List.cons.inj hit).2, rfl⟩)⟩
        | cons y it => exact ⟨hlen, hsome, .inl ⟨it, (List.cons.inj hit).2⟩⟩
      · obtain ⟨rfl, -⟩ := List.cons.inj hit
        exact absurd hv hx
      · cases hit)
    (by
      rintro objs found b x rest i hfind - ⟨hlen, -, ⟨it, hit⟩ | ⟨-, hnone⟩ | ⟨hit, -⟩⟩
      · have hi : i < objs.length := by
          rw [hlen]
          exact (List.findIdx?_eq_some_iff_getElem.mp hfind).1
        have hset : ∃ o ∈ objs.set i (some (x :: rest)), o.isSome = true :=
          ⟨_, List.mem_set hi _, rfl⟩
        cases it with
        | nil =>
          exact ⟨by rwa [List.length_set], .inr hset, .inr (.inl ⟨(List.cons.inj hit).2, rfl⟩)⟩
        | cons y it =>
          exact ⟨by rwa [List.length_set], .inr hset, .inl ⟨it, (List.cons.inj hit).2⟩⟩
      · cases hnone
      · cases hit)
    (by
      rintro objs found b x rest - - ⟨hlen, hsome, ⟨it, hit⟩ | ⟨-, hnone⟩ | ⟨hit, -⟩⟩
      · cases it with
        | nil => exact ⟨hlen, hsome, .inr (.inl ⟨(List.cons.inj hit).2, rfl⟩)⟩
        | cons y it => exact ⟨hlen, hsome, .inl ⟨it, (List.cons.inj hit).2⟩⟩
      · cases hnone
      · cases hit)
    ⟨List.length_map _, .inl rfl, .inl ⟨it, rfl⟩⟩ hrun
  refine hsome.resolve_left fun hzero ↦ ?_
  rcases hdone with hfound | rfl
  · omega
  · rcases hends with ⟨it, hit⟩ | ⟨hit, -⟩ | ⟨-, hnone⟩
    · simp at hit
    · cases hit
    · exact hnone rfl

/-! ## Maps that are read right -/

/-- Entries that the loop reads as such: everything can be skipped, and a text stands behind texts
only. -/
structure ReadsEntries (pairs : List (Item × Item)) : Prop where
  shallow : ∀ p ∈ pairs, p.1.depth ≤ cborParserMaxRecursions ∧ p.2.depth ≤ cborParserMaxRecursions
  texts : ∀ p ∈ pairs, keyText p.1 = none →
    ¬isTextString p.1.untag = true ∧ ¬isTextString p.2.untag = true

theorem ReadsEntries.tail {p : Item × Item} {pairs : List (Item × Item)}
    (h : ReadsEntries (p :: pairs)) : ReadsEntries pairs :=
  ⟨fun q hq ↦ h.shallow q (List.mem_cons_of_mem _ hq), fun q hq ↦ h.texts q (List.mem_cons_of_mem _ hq)⟩

theorem ReadsEntries.exit {pairs : List (Item × Item)} (h : ReadsEntries pairs) :
    cborValueExitContainer (entryItems pairs) = .ok () := by
  rw [exitContainer_eq_ok]
  intro x hx
  obtain ⟨p, hp, rfl | rfl⟩ := mem_entryItems.mp hx
  · exact (h.shallow p hp).1
  · exact (h.shallow p hp).2

/-- What the loop is to hand out: what it has, and else what is stored in the entries ahead. -/
def completed (keys : List CStr) (objs : List (Option CborIter)) (pairs : List (Item × Item)) :
    List (Option CborIter) := List.zipWith (fun o key ↦ o.or (storedAt key pairs)) objs keys

/-- Where everything is found nothing is missing. -/
theorem completed_of_found {keys : List CStr} {objs : List (Option CborIter)}
    (hlen : objs.length = keys.length) (hsome : ∀ o ∈ objs, o.isSome = true)
    (pairs : List (Item × Item)) : completed keys objs pairs = objs := by
  induction objs generalizing keys with
  | nil => simp [completed]
  | cons o objs ih =>
    cases keys with
    | nil => simp at hlen
    | cons key keys =>
      obtain ⟨it, rfl⟩ := Option.isSome_iff_exists.mp (hsome o (by simp))
      rw [completed, List.zipWith_cons_cons, Option.some_or]
      exact congrArg _ (ih (by simpa using hlen) fun o ho ↦ hsome o (by simp [ho]))

theorem completed_nil {keys : List CStr} {objs : List (Option CborIter)}
    (hlen : objs.length = keys.length) : completed keys objs [] = objs := by
  induction objs generalizing keys with
  | nil => simp [completed]
  | cons o objs ih =>
    cases keys with
    | nil => simp at hlen
    | cons key keys =>
      rw [completed, List.zipWith_cons_cons, storedAt, Option.or_none]
      exact congrArg _ (ih (by simpa using hlen))

/-- An entry that no key asks for. -/
theorem completed_skip {keys : List CStr} {p : Item × Item} (h : ∀ key ∈ keys, keyMatches key p = false)
    (objs : List (Option CborIter)) (pairs : List (Item × Item)) :
    completed keys objs (p :: pairs) = completed keys objs pairs := by
  induction objs generalizing keys with
  | nil => simp [completed]
  | cons o objs ih =>
    cases keys with
    | nil => simp [completed]
    | cons key keys =>
      rw [completed, List.zipWith_cons_cons, storedAt, h key (by simp), if_neg (by simp)]
      exact congrArg _ (ih fun key hkey ↦ h key (by simp [hkey]))

/-- An entry that one key asks for, where nothing is handed out yet. -/
theorem completed_hit {keys : List CStr} {p : Item × Item} {i : ℕ} {objs : List (Option CborIter)}
    (hobj : objs[i]? = some none)
    (hmatch : ∀ j key, keys[j]? = some key → (keyMatches key p = true ↔ j = i))
    (pairs : List (Item × Item)) :
    completed keys objs (p :: pairs) =
      completed keys (objs.set i (some (p.2 :: entryItems pairs))) pairs := by
  refine List.ext_getElem? fun j ↦ ?_
  simp only [completed, List.getElem?_zipWith]
  by_cases hij : i = j
  · subst hij
    have hi : i < objs.length := (List.getElem?_eq_some_iff.mp hobj).1
    rw [hobj, List.getElem?_set_self hi]
    cases hkey : keys[i]? with
    | none => rfl
    | some key => simp [storedAt, (hmatch i key hkey).mpr rfl]
  · rw [List.getElem?_set_ne hij]
    cases hkey : keys[j]? with
    | none => cases objs[j]? <;> rfl
    | some key =>
      have hne : keyMatches key p = false := by
        rw [← Bool.not_eq_true, hmatch j key hkey]
        exact fun h ↦ hij h.symm
      cases objs[j]? with
      | none => rfl
      | some o => simp [storedAt, hne]

/-- Of an item that occurs once there is one place. -/
theorem index_of_countP_le_one {α : Type} {q : α → Bool} {l : List α} (h : l.countP q ≤ 1)
    {i j : ℕ} {a b : α} (hi : l[i]? = some a) (ha : q a = true) (hj : l[j]? = some b)
    (hb : q b = true) : i = j := by
  induction l generalizing i j with
  | nil => simp at hi
  | cons x l ih =>
    have hnone (hx : q x = true) {k : ℕ} {c : α} (hk : l[k]? = some c) (hc : q c = true) : False := by
      rw [List.countP_cons_of_pos hx] at h
      exact List.countP_eq_zero.mp (by omega) c (List.mem_of_getElem? hk) hc
    cases i with
    | zero =>
      obtain rfl : x = a := by simpa using hi
      cases j with
      | zero => rfl
      | succ j => exact (hnone ha hj hb).elim
    | succ i =>
      cases j with
      | zero =>
        obtain rfl : x = b := by simpa using hj
        exact (hnone hb hi ha).elim
      | succ j =>
        have hle : l.countP q ≤ 1 := by
          rw [List.countP_cons] at h
          omega
        rw [ih hle hi hj]

/-- The loop over entries that it reads as such. -/
theorem lookupIters_entries {keys : List CStr} {pairs : List (Item × Item)}
    (hpairs : ReadsEntries pairs)
    (hdistinct : (pairs.filterMap fun p ↦ keyText p.1).Pairwise fun a b ↦ caseEq a b = false)
    (honce : ∀ p ∈ pairs, ∀ b, keyText p.1 = some b → keys.countP (caseEq · b) ≤ 1)
    {objs : List (Option CborIter)} (hlen : objs.length = keys.length) {found : ℕ}
    (hfound : found = objs.countP Option.isSome)
    (hfresh : ∀ (i : ℕ) (key : CStr), keys[i]? = some key → ∀ p ∈ pairs,
      keyMatches key p = true → objs[i]? = some none) :
    lookupIters keys objs found none (entryItems pairs) = some (.ok (completed keys objs pairs)) := by
  induction pairs generalizing objs found with
  | nil => rw [completed_nil hlen]; rfl
  | cons p pairs ih =>
    by_cases hall : keys.length ≤ found
    · have hsome : ∀ o ∈ objs, o.isSome = true := by
        rw [← List.countP_eq_length]
        have := List.countP_le_length (p := Option.isSome) (l := objs)
        omega
      rw [lookupIters_found hall, hpairs.exit, completed_of_found hlen hsome]
      rfl
    have htail := ih hpairs.tail
    rw [entryItems_cons]
    cases hkey : keyText p.1 with
    | none =>
      obtain ⟨hk, hv⟩ := hpairs.texts p (by simp) hkey
      obtain ⟨hkdepth, hvdepth⟩ := hpairs.shallow p (by simp)
      rw [lookupIters_other hall hk, if_pos hkdepth, lookupIters_other hall hv, if_pos hvdepth,
        completed_skip fun key _ ↦ keyMatches_of_none hkey key]
      rw [List.filterMap_cons_none (f := fun p : Item × Item ↦ keyText p.1) hkey] at hdistinct
      refine htail hdistinct ?_ hlen hfound ?_
      · exact fun q hq ↦ honce q (by simp [hq])
      · exact fun i key hi q hq ↦ hfresh i key hi q (by simp [hq])
    | some b =>
      rw [lookupIters_text hall hkey, lookupIters, if_pos (hpairs.shallow p (by simp)).2]
      rw [List.filterMap_cons_some (f := fun p : Item × Item ↦ keyText p.1) hkey,
        List.pairwise_cons] at hdistinct
      obtain ⟨hb, hdistinct⟩ := hdistinct
      have honce' : ∀ q ∈ pairs, ∀ b, keyText q.1 = some b → keys.countP (caseEq · b) ≤ 1 :=
        fun q hq ↦ honce q (by simp [hq])
      cases hfind : keys.findIdx? (caseEq · b) with
      | none =>
        have hskip : ∀ key ∈ keys, keyMatches key p = false := by
          intro key hmem
          rw [keyMatches_of_some hkey]
          exact List.findIdx?_eq_none_iff.mp hfind key hmem
        rw [completed_skip hskip]
        exact htail hdistinct honce' hlen hfound fun i key hi q hq ↦ hfresh i key hi q (by simp [hq])
      | some i =>
        obtain ⟨hi, hcase, -⟩ := List.findIdx?_eq_some_iff_getElem.mp hfind
        have hget : keys[i]? = some keys[i] := List.getElem?_eq_getElem hi
        have hpi : keyMatches keys[i] p = true := by rw [keyMatches_of_some hkey, hcase]
        have hmatch (j : ℕ) (key : CStr) (hj : keys[j]? = some key) :
            keyMatches key p = true ↔ j = i := by
          constructor
          · intro h
            rw [keyMatches_of_some hkey] at h
            exact index_of_countP_le_one (honce p (by simp) b hkey) hj h hget hcase
          · rintro rfl
            obtain rfl := Option.some.inj (hj.symm.trans hget)
            exact hpi
        have hobj := hfresh i _ hget p (by simp) hpi
        have hio : i < objs.length := hlen ▸ hi
        rw [completed_hit hobj hmatch]
        refine htail hdistinct honce' (by rw [List.length_set, hlen]) ?_ ?_
        · have hnone : objs[i] = none := Option.some.inj ((List.getElem?_eq_getElem hio).symm.trans hobj)
          rw [List.countP_set hio, hnone, hfound]
          simp
        · intro j key hj q hq hqkey
          have hij : i ≠ j := by
            rintro rfl
            obtain rfl := Option.some.inj (hj.symm.trans hget)
            obtain ⟨b', hb', hcase'⟩ := keyMatches_iff.mp hqkey
            have hsame : caseEq b b' = true :=
              caseEq_iff.mpr ((caseEq_iff.mp hcase).symm.trans (caseEq_iff.mp hcase'))
            have hdiff := hb b' (List.mem_filterMap.mpr ⟨q, hq, hb'⟩)
            rw [hsame] at hdiff
            cases hdiff
          rw [List.getElem?_set_ne hij]
          exact hfresh j key hj q (by simp [hq]) hqkey

theorem completed_none (keys : List CStr) (pairs : List (Item × Item)) :
    completed keys (keys.map fun _ ↦ none) pairs = keys.map fun key ↦ storedAt key pairs := by
  induction keys with
  | nil => rfl
  | cons key keys ih =>
    rw [completed, List.map_cons, List.zipWith_cons_cons, List.map_cons, Option.none_or]
    exact congrArg _ ih

theorem cborMapLookupIters_eq_ok {keys : List CStr} {entries after it : CborIter}
    {objs : List (Option CborIter)} :
    cborMapLookupIters keys entries after = some (.ok (objs, it)) ↔
      lookupIters keys (keys.map fun _ ↦ none) 0 none entries = some (.ok objs) ∧ it = after := by
  rw [cborMapLookupIters]
  cases lookupIters keys (keys.map fun _ ↦ none) 0 none entries with
  | none => simp
  | some r =>
    cases r with
    | error e => simp [Except.map]
    | ok objs' => simp [Except.map, eq_comm]

theorem LookupMap.distinct_perm (m : LookupMap) {pairs : List (Item × Item)} (h : pairs.Perm m.pairs) :
    (pairs.filterMap fun p ↦ keyText p.1).Pairwise fun a b ↦ caseEq a b = false := by
  have hsymm : ∀ {a b : CStr}, caseEq a b = false → caseEq b a = false := by
    intro a b hab
    rw [← Bool.not_eq_true, caseEq_iff] at hab ⊢
    exact fun hba ↦ hab hba.symm
  exact ((h.filterMap _).pairwise_iff hsymm).mpr m.distinct

theorem LookupMap.not_text (m : LookupMap) {p : Item × Item} (hp : p ∈ m.pairs)
    (hkey : keyText p.1 = none) : ¬isTextString p.1.untag = true := by
  intro htext
  have := m.whole p hp htext
  rw [hkey] at this
  cases this

/-- The maps and keys for which the lookup is right. -/
structure Findable (m : LookupMap) (keys : List CStr) : Prop where
  shallow : ∀ p ∈ m.pairs, p.1.depth ≤ cborParserMaxRecursions ∧ p.2.depth ≤ cborParserMaxRecursions
  texts : keys ≠ [] → ∀ p ∈ m.pairs, keyText p.1 = none → ¬isTextString p.2.untag = true
  once : ∀ p ∈ m.pairs, ∀ b, keyText p.1 = some b → keys.countP (caseEq · b) ≤ 1

theorem Findable.looksUp {m : LookupMap} {keys : List CStr} (h : Findable m keys) :
    LooksUp m keys := by
  intro pairs ks after hpairs hks
  rw [cborMapLookupIters_eq_ok]
  refine ⟨?_, rfl⟩
  by_cases hempty : keys = []
  · subst hempty
    obtain rfl := List.perm_nil.mp hks
    have hexit : cborValueExitContainer (entryItems pairs) = .ok () := by
      rw [exitContainer_eq_ok]
      intro x hx
      obtain ⟨p, hp, rfl | rfl⟩ := mem_entryItems.mp hx
      · exact (h.shallow p (hpairs.subset hp)).1
      · exact (h.shallow p (hpairs.subset hp)).2
    rw [lookupIters_found (Nat.zero_le _), hexit]
    rfl
  · have hreads : ReadsEntries pairs := by
      refine ⟨fun p hp ↦ h.shallow p (hpairs.subset hp), fun p hp hkey ↦ ⟨?_, ?_⟩⟩
      · exact m.not_text (hpairs.subset hp) hkey
      · exact h.texts hempty p (hpairs.subset hp) hkey
    rw [← completed_none]
    refine lookupIters_entries hreads (m.distinct_perm hpairs) ?_ (List.length_map _) ?_ ?_
    · intro p hp b hb
      rw [hks.countP_eq]
      exact h.once p (hpairs.subset hp) b hb
    · rw [eq_comm, List.countP_eq_zero]
      intro o ho
      obtain ⟨-, -, rfl⟩ := List.mem_map.mp ho
      simp
    · intro i key hi p _ _
      rw [List.getElem?_map, hi]
      rfl

theorem LooksUp.run {m : LookupMap} {keys : List CStr} (h : LooksUp m keys)
    {pairs : List (Item × Item)} (hpairs : pairs.Perm m.pairs) :
    lookupIters keys (keys.map fun _ ↦ none) 0 none (entryItems pairs) =
      some (.ok (keys.map fun key ↦ storedAt key pairs)) :=
  (cborMapLookupIters_eq_ok.mp (h pairs keys [] hpairs (List.Perm.refl _))).1

/-- A text behind a key that is no text: in front of an entry it hides its key, at the end of the
map it has no value. -/
theorem LooksUp.texts {m : LookupMap} {keys : List CStr} (h : LooksUp m keys) (hkeys : keys ≠ []) :
    ∀ p ∈ m.pairs, keyText p.1 = none → ¬isTextString p.2.untag = true := by
  intro p hp hkey hv
  have hk := m.not_text hp hkey
  have hpos : ¬keys.length ≤ 0 := by
    rw [not_le]
    exact List.length_pos_iff.mpr hkeys
  obtain ⟨rest, hrest⟩ : ∃ rest, (p :: rest).Perm m.pairs := by
    obtain ⟨s, t, hst⟩ := List.append_of_mem hp
    exact ⟨s ++ t, hst ▸ List.perm_middle.symm⟩
  by_cases hfound : ∃ q ∈ rest, ∃ key ∈ keys, keyMatches key q = true
  · obtain ⟨q, hq, key, hkeymem, hmatch⟩ := hfound
    obtain ⟨s, t, rfl⟩ := List.append_of_mem hq
    have hperm : (p :: q :: (s ++ t)).Perm m.pairs := (List.perm_middle.symm.cons p).trans hrest
    obtain ⟨j, hj⟩ := List.getElem?_of_mem hkeymem
    have hrun := h.run hperm
    have hdepth := depth_of_lookupIters hrun
    rw [entryItems_cons, entryItems_cons] at hrun hdepth
    have hstored : storedAt key (p :: q :: (s ++ t)) = some (q.2 :: entryItems (s ++ t)) := by
      rw [storedAt, keyMatches_of_none hkey, if_neg (by simp), storedAt, if_pos hmatch]
    have hexpected : (keys.map fun key ↦ storedAt key (p :: q :: (s ++ t)))[j]? =
        some (some (q.2 :: entryItems (s ++ t))) := by
      rw [List.getElem?_map, hj, Option.map_some, hstored]
    rw [lookupIters_other hpos hk, if_pos (hdepth _ (by simp))] at hrun
    cases hchunk : cborValueGetStringChunk p.2.untag with
    | none =>
      rw [lookupIters, if_neg hpos, if_pos hv, hchunk] at hrun
      cases hrun
    | some b =>
      have hkeyv : keyText p.2 = some b := by rw [keyText, if_pos hv, hchunk]
      rw [lookupIters_text hpos hkeyv, lookupIters, if_pos (hdepth _ (by simp))] at hrun
      cases hfind : keys.findIdx? (caseEq · b) with
      | none =>
        rw [hfind] at hrun
        refine lookupIters_passed le_rfl ?_ hrun hexpected
        rw [List.getElem?_map, hj]
        simp
      | some i =>
        rw [hfind] at hrun
        refine lookupIters_passed le_rfl ?_ hrun hexpected
        rw [List.getElem?_set, List.getElem?_map, hj]
        split_ifs
        · intro heq
          have := congrArg List.length (Option.some.inj (Option.some.inj heq))
          simp at this
        · simp
        · simp
  · have hperm : (rest ++ [p]).Perm m.pairs := (List.perm_append_singleton p rest).trans hrest
    have hrun := h.run hperm
    rw [entryItems_append] at hrun
    obtain ⟨o, ho, hsome⟩ := lookupIters_last hkeys hk hv _ hrun
    obtain ⟨key, hkeymem, rfl⟩ := List.mem_map.mp ho
    obtain ⟨q, hq, hmatch⟩ := storedAt_isSome.mp hsome
    rcases List.mem_append.mp hq with hq | hq
    · exact hfound ⟨q, hq, key, hkeymem, hmatch⟩
    · obtain rfl := List.mem_singleton.mp hq
      rw [keyMatches_of_none hkey] at hmatch
      cases hmatch

/-- Of an item that occurs more than once there are two places. -/
theorem exists_of_one_lt_countP {α : Type} {q : α → Bool} {l : List α} (h : 1 < l.countP q) :
    ∃ (i j : ℕ) (a b : α), i < j ∧ l[i]? = some a ∧ q a = true ∧ l[j]? = some b ∧ q b = true := by
  induction l with
  | nil => simp at h
  | cons x l ih =>
    by_cases hx : q x = true
    · rw [List.countP_cons_of_pos hx] at h
      obtain ⟨b, hb, hqb⟩ := List.countP_pos_iff.mp (show 0 < l.countP q by omega)
      obtain ⟨j, hj⟩ := List.getElem?_of_mem hb
      exact ⟨0, j + 1, x, b, j.succ_pos, rfl, hx, hj, hqb⟩
    · rw [List.countP_cons_of_neg hx] at h
      obtain ⟨i, j, a, b, hij, hi, ha, hj, hb⟩ := ih h
      exact ⟨i + 1, j + 1, a, b, Nat.succ_lt_succ hij, hi, ha, hj, hb⟩

/-- Of two keys that are the same but for case the second is not found. -/
theorem LooksUp.once {m : LookupMap} {keys : List CStr} (h : LooksUp m keys) :
    ∀ p ∈ m.pairs, ∀ b, keyText p.1 = some b → keys.countP (caseEq · b) ≤ 1 := by
  intro p hp b hb
  refine not_lt.mp fun htwo ↦ ?_
  obtain ⟨i, j, a, c, hij, hi, ha, hj, hc⟩ := exists_of_one_lt_countP htwo
  have hsecond (b' : CStr) : keys.findIdx? (caseEq · b') ≠ some j := by
    intro hfind
    obtain ⟨hlt, hcase, hfirst⟩ := List.findIdx?_eq_some_iff_getElem.mp hfind
    have hgetj : keys[j] = c := Option.some.inj ((List.getElem?_eq_getElem hlt).symm.trans hj)
    have hgeti : keys[i] = a :=
      Option.some.inj ((List.getElem?_eq_getElem (hij.trans hlt)).symm.trans hi)
    refine hfirst i hij ?_
    rw [hgetj] at hcase
    rw [hgeti]
    exact caseEq_iff.mpr ((caseEq_iff.mp ha).trans ((caseEq_iff.mp hc).symm.trans (caseEq_iff.mp hcase)))
  have hrun := h.run (List.Perm.refl _)
  have hnone := lookupIters_second hsecond (by rw [List.getElem?_map, hj]; rfl) hrun
  rw [List.getElem?_map, hj, Option.map_some, Option.some.injEq] at hnone
  have hsome := storedAt_isSome.mpr ⟨p, hp, (keyMatches_of_some hb c).trans hc⟩
  rw [hnone] at hsome
  cases hsome

theorem looksUp_iff (m : LookupMap) (keys : List CStr) : LooksUp m keys ↔ Findable m keys := by
  constructor
  · intro h
    refine ⟨fun p hp ↦ ?_, h.texts, h.once⟩
    have hdepth := depth_of_lookupIters (h.run (List.Perm.refl _))
    exact ⟨hdepth _ (mem_entryItems.mpr ⟨p, hp, .inl rfl⟩),
      hdepth _ (mem_entryItems.mpr ⟨p, hp, .inr rfl⟩)⟩
  · exact Findable.looksUp

/-! ## A single key -/

theorem cborMapAdvanceToKey_text {key b : CStr} {p : Item × Item} (hb : keyText p.1 = some b)
    (rest : CborIter) :
    cborMapAdvanceToKey key (p.1 :: p.2 :: rest) =
      if keyMatches key p = true then some (.ok (some (p.2 :: rest)))
      else if p.2.depth ≤ cborParserMaxRecursions then cborMapAdvanceToKey key rest
      else some (.error (.cbor .nestingTooDeep)) := by
  obtain ⟨htext, hchunk⟩ := chunk_of_keyText hb
  conv_lhs => unfold cborMapAdvanceToKey
  rw [if_pos htext, hchunk, keyMatches_of_some hb]

/-- A single key is found if all keys are texts and the values of the others can be skipped. -/
theorem advancesTo_iff (m : LookupMap) (key : CStr) :
    AdvancesTo m key ↔ ∀ p ∈ m.pairs, (keyText p.1).isSome = true ∧
      (keyMatches key p = false → p.2.depth ≤ cborParserMaxRecursions) := by
  constructor
  · intro h p hp
    obtain ⟨rest, hrest⟩ : ∃ rest, (p :: rest).Perm m.pairs := by
      obtain ⟨s, t, hst⟩ := List.append_of_mem hp
      exact ⟨s ++ t, hst ▸ List.perm_middle.symm⟩
    have hrun := h (p :: rest) hrest
    rw [entryItems_cons] at hrun
    cases hkey : keyText p.1 with
    | none =>
      have hk := m.not_text hp hkey
      unfold cborMapAdvanceToKey at hrun
      rw [if_neg hk, storedAt, keyMatches_of_none hkey, if_neg (by simp),
        Option.some.injEq, Except.ok.injEq] at hrun
      have hlen := length_storedAt hrun.symm
      simp only [List.length_cons] at hlen
      omega
    | some b =>
      refine ⟨rfl, fun hmiss ↦ ?_⟩
      rw [cborMapAdvanceToKey_text hkey, hmiss, if_neg (by simp)] at hrun
      by_cases hdepth : p.2.depth ≤ cborParserMaxRecursions
      · exact hdepth
      · rw [if_neg hdepth] at hrun
        cases hrun
  · intro h pairs hpairs
    have hall : ∀ p ∈ pairs, (keyText p.1).isSome = true ∧
        (keyMatches key p = false → p.2.depth ≤ cborParserMaxRecursions) :=
      fun p hp ↦ h p (hpairs.subset hp)
    clear h hpairs
    induction pairs with
    | nil => rfl
    | cons p pairs ih =>
      obtain ⟨hsome, hdepth⟩ := hall p (by simp)
      obtain ⟨b, hb⟩ := Option.isSome_iff_exists.mp hsome
      rw [entryItems_cons, cborMapAdvanceToKey_text hb, storedAt]
      by_cases hmatch : keyMatches key p = true
      · rw [if_pos hmatch, if_pos hmatch]
      · rw [if_neg hmatch, if_neg hmatch, if_pos (hdepth (by simpa using hmatch))]
        exact ih fun q hq ↦ hall q (by simp [hq])

/-! ## Both -/

/-- The lookup of some keys is right if all items can be skipped, no text stands behind a key that
is no text, and no two of the keys are the same key of the map; that of a single key if all keys
are texts and the values of the others can be skipped. -/
theorem lookups_iff (m : LookupMap) (keys : List CStr) (key : CStr) :
    (LooksUp m keys ↔ Findable m keys) ∧
    (AdvancesTo m key ↔ ∀ p ∈ m.pairs, (keyText p.1).isSome = true ∧
      (keyMatches key p = false → p.2.depth ≤ cborParserMaxRecursions)) :=
  ⟨looksUp_iff m keys, advancesTo_iff m key⟩

/-- A map with a number for a key and a text for its value, in front of the key that is asked for. -/
theorem not_looksUp_number : ¬∀ (m : LookupMap) (keys : List CStr), LooksUp m keys := by
  intro h
  let m : LookupMap :=
    { pairs := [(.uint 1, .text (cstr "x")), (.text (cstr "a"), .uint 5)]
      whole := by simp [keyText, isTextString, textBytes, Item.untag, cborValueGetStringChunk]
      distinct := by simp [keyText, isTextString, textBytes, Item.untag, cborValueGetStringChunk] }
  have hm := ((looksUp_iff m [cstr "a"]).mp (h m _)).texts (by simp) _ (List.mem_cons_self ..) rfl
  exact hm rfl

end EsOdbc

import EsOdbc.Error
import EsOdbc.Lib.Buffer

/-!
# Writing into memory

A buffer of the C program is the list of its units: a write outside it has no defined behaviour.
A writer keeps a position that moves behind what it wrote.
-/

namespace EsOdbc

/-- No units to load or store: the C program has no defined behaviour. -/
def Exec.ofOption {α : Type} : Option α → Exec α
  | some a => .done a
  | none => .undefined

@[simp] theorem Exec.ofOption_some {α : Type} (a : α) : Exec.ofOption (some a) = .done a := rfl

theorem Exec.ofOption_eq_done {α : Type} {x : Option α} {a : α} (h : Exec.ofOption x = .done a) :
    x = some a := by
  cases x with
  | none => cases h
  | some b => exact congrArg some (Exec.done.inj h)

/-- `SHRT_MAX`. -/
def shrtMax : ℕ := 32767

/-- `ESODBC_BODY_BUF_START_SIZE`. -/
def esodbcBodyBufStartSize : ℕ := 4 * 1024

variable {α : Type}

/-- Units stored at the position, which moves behind them. -/
def put (out : List α × ℕ) (units : List α) : Exec (List α × ℕ) :=
  (Exec.ofOption (Buffer.store out.1 out.2 units)).bind fun buf ↦
    .done (buf, out.2 + units.length)

/-- Units are stored at once or one part behind the other. -/
theorem put_append (out : List α × ℕ) (xs ys : List α) :
    put out (xs ++ ys) = (put out xs).bind fun out ↦ put out ys := by
  rw [put, put]
  cases hstore : Buffer.store out.1 out.2 xs with
  | none =>
    have hnone : Buffer.store out.1 out.2 (xs ++ ys) = none := by
      rw [Buffer.store_eq_none] at hstore ⊢
      rw [List.length_append, ← Nat.add_assoc]
      exact hstore.trans_le (Nat.le_add_right _ _)
    rw [hnone]
    rfl
  | some buf =>
    rw [← Buffer.store_store hstore ys]
    simp only [Exec.ofOption_some, Exec.bind_done, put, List.length_append, Nat.add_assoc]

theorem put_nil {out : List α × ℕ} (h : out.2 ≤ out.1.length) : put out [] = .done out := by
  have hstore : Buffer.store out.1 out.2 [] = some out.1 := by
    rw [Buffer.store_eq_some (by simpa using h)]
    simp
  rw [put, hstore]
  rfl

/-- Units that are put at the end of what is written. -/
theorem put_done {dst : List α × ℕ} {units : List α} (h : dst.2 + units.length ≤ dst.1.length) :
    ∃ buf, put dst units = .done (buf, dst.2 + units.length) ∧ buf.length = dst.1.length ∧
      buf.take (dst.2 + units.length) = dst.1.take dst.2 ++ units := by
  obtain ⟨buf, hstore⟩ := Buffer.exists_store dst.1 dst.2 units h
  refine ⟨buf, ?_, Buffer.length_store hstore, Buffer.take_store hstore⟩
  rw [put, hstore]
  rfl

/-- A buffer of a length, with so much of it written. -/
structure Written (n : ℕ) (pre : List α) (out : List α × ℕ) : Prop where
  length : out.1.length = n
  start : pre <+: out.1
  pos : out.2 = pre.length

variable {n : ℕ} {pre xs : List α} {out : List α × ℕ}

theorem Written.le (h : Written n pre out) : pre.length ≤ n := h.length ▸ h.start.length_le

theorem Written.put (h : Written n pre out) (xs : List α) (hle : (pre ++ xs).length ≤ n) :
    ∃ out', put out xs = .done out' ∧ Written n (pre ++ xs) out' := by
  have hroom : out.2 + xs.length ≤ out.1.length := by
    rw [h.pos, h.length, ← List.length_append]
    exact hle
  have hstore := Buffer.store_eq_some hroom
  refine ⟨_, by rw [EsOdbc.put, hstore]; rfl, ?_, ?_, ?_⟩
  · rw [Buffer.length_store hstore, h.length]
  · rw [h.pos] at hstore ⊢
    exact Buffer.prefix_store h.start hstore
  · rw [h.pos, List.length_append]

theorem Written.put_undefined (h : Written n pre out) (hlt : n < (pre ++ xs).length) :
    EsOdbc.put out xs = .undefined := by
  have hnone : Buffer.store out.1 out.2 xs = none := by
    rw [Buffer.store_eq_none, h.length, h.pos, ← List.length_append]
    exact hlt
  rw [EsOdbc.put, hnone]
  rfl

/-- A piece that may be left out. -/
theorem Written.put_if (h : Written n pre out) (xs : List α) (present : Bool)
    (hle : (pre ++ if present then xs else []).length ≤ n) :
    ∃ out', (if present then EsOdbc.put out xs else .done out) = .done out' ∧
      Written n (pre ++ if present then xs else []) out' := by
  cases present with
  | true => exact h.put xs hle
  | false => exact ⟨out, rfl, by rwa [if_neg (by simp), List.append_nil]⟩

/-- What is in front of the end has the room too. -/
theorem le_of_append_le {ys zs : List α} (h : (ys ++ zs).length ≤ n) : ys.length ≤ n := by
  rw [List.length_append] at h
  exact (Nat.le_add_right _ _).trans h

end EsOdbc

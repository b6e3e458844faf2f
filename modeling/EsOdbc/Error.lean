import Mathlib

/-!
# Return codes, states and diagnostics

`error.h` and `error.c`: the SQL states the modelled functions post, the return code the
table `esodbc_errors` gives each of them, and the diagnostic a handle keeps.
-/

namespace EsOdbc

/-- The return codes of the modelled functions. -/
inductive SqlReturn where
  | success
  | successWithInfo
  | noData
  | error
deriving DecidableEq, Repr

/-- `SQL_SUCCEEDED`. -/
def SqlReturn.succeeded : SqlReturn → Bool
  | .success | .successWithInfo => true
  | .noData | .error => false

/-- The states posted by the modelled functions. -/
inductive SqlState where
  | s00000
  | s01000 | s01004 | s01S02 | s01S07
  | s07002 | s07006 | s07009
  | s08S01
  | s22001 | s22002 | s22003 | s22007 | s22008 | s22015 | s22018 | s22019
  | s24000
  | sHY000 | sHY001 | sHY003 | sHY004 | sHY009 | sHY010 | sHY017 | sHY021 | sHY024 | sHY090 | sHY091
  | sHY092 | sHY104 | sHY105 | sHYC00
deriving DecidableEq, Repr

/-- The `retcode` column of `esodbc_errors`: class 01 is a warning. -/
def SqlState.retcode : SqlState → SqlReturn
  | .s00000 => .success
  | .s01000 | .s01004 | .s01S02 | .s01S07 => .successWithInfo
  | _ => .error

/-- The diagnostic of a handle; without a text of its own it has the state's. -/
structure Diag where
  state : SqlState
  text : Option String
  rowNumber : Int
  columnNumber : Int
deriving DecidableEq, Repr

/-- `SQL_NO_COLUMN_NUMBER`. -/
def noColumnNumber : Int := -1

/-- `SQL_NO_ROW_NUMBER`. -/
def noRowNumber : Int := -1

/-- `init_diagnostic`. -/
def Diag.init : Diag := ⟨.s00000, none, noRowNumber, noColumnNumber⟩

/-- `post_diagnostic`: the row and column of an earlier diagnostic stay. -/
def Diag.post (d : Diag) (state : SqlState) (text : Option String) : Diag :=
  { d with state, text }

/-- `MSG_INV_SRV_ANS`. -/
def msgInvSrvAns : String := "Invalid server answer"

/-- What a call comes to: a result, no defined behaviour of the C program, or a loop cut
off before its end. -/
inductive Exec (α : Type) where
  | done (a : α)
  | undefined
  | exhausted
deriving DecidableEq, Repr

namespace Exec

variable {α β : Type}

def bind (x : Exec α) (f : α → Exec β) : Exec β :=
  match x with
  | .done a => f a
  | .undefined => .undefined
  | .exhausted => .exhausted

@[simp] theorem bind_done (a : α) (f : α → Exec β) : (done a).bind f = f a := rfl
@[simp] theorem bind_undefined (f : α → Exec β) : undefined.bind f = .undefined := rfl
@[simp] theorem bind_exhausted (f : α → Exec β) : exhausted.bind f = .exhausted := rfl

@[simp] theorem done_ne_exhausted (a : α) : done a ≠ .exhausted := nofun

theorem bind_eq_done {x : Exec α} {f : α → Exec β} {b : β} :
    x.bind f = .done b ↔ ∃ a, x = .done a ∧ f a = .done b := by
  cases x <;> simp [bind]

theorem bind_ne_exhausted {x : Exec α} {f : α → Exec β} (hx : x ≠ .exhausted)
    (hf : ∀ a, f a ≠ .exhausted) : x.bind f ≠ .exhausted := by
  cases x with
  | done a => exact hf a
  | undefined => nofun
  | exhausted => exact absurd rfl hx

/-- Two results that are related, or neither is one. -/
inductive Rel (R : α → β → Prop) : Exec α → Exec β → Prop where
  | done {a : α} {b : β} : R a b → Rel R (.done a) (.done b)
  | undefined : Rel R .undefined .undefined
  | exhausted : Rel R .exhausted .exhausted

theorem Rel.bind {α' β' : Type} {R : α → β → Prop} {Q : α' → β' → Prop} {x : Exec α} {y : Exec β}
    {f : α → Exec α'} {g : β → Exec β'} (h : Rel R x y)
    (hfg : ∀ a b, R a b → Rel Q (f a) (g b)) : Rel Q (x.bind f) (y.bind g) := by
  cases h with
  | done hab => exact hfg _ _ hab
  | undefined => exact .undefined
  | exhausted => exact .exhausted

/-- The results themselves. -/
theorem Rel.results {R : α → β → Prop} {x : Exec α} {y : Exec β} (h : Rel R x y) :
    Rel (fun a b ↦ R a b ∧ x = .done a ∧ y = .done b) x y := by
  cases h with
  | done hab => exact .done ⟨hab, rfl, rfl⟩
  | undefined => exact .undefined
  | exhausted => exact .exhausted

theorem Rel.imp {R Q : α → β → Prop} {x : Exec α} {y : Exec β} (h : Rel R x y)
    (hRQ : ∀ a b, R a b → Q a b) : Rel Q x y := by
  cases h with
  | done hab => exact .done (hRQ _ _ hab)
  | undefined => exact .undefined
  | exhausted => exact .exhausted

end Exec

@[simp] theorem SqlReturn.succeeded_success : SqlReturn.success.succeeded = true := rfl
@[simp] theorem SqlReturn.succeeded_error : SqlReturn.error.succeeded = false := rfl

end EsOdbc

import EsOdbc.Lib.Binary
import EsOdbc.Lib.Numeral
import EsOdbc.Error
import EsOdbc.Numbers

/-!
# Floating-point numbers in texts

`str2double` of `util.c`, and what it relies on: `strtod` and `sscanf` of the C library, which
read decimal and hexadecimal numbers, infinities and NaNs, and round to the nearest `double`.
A text that is read has no blanks before it.
-/

namespace EsOdbc

open Decimal Binary

/-! ## `double` and `float` -/

/-- `double`. -/
def binary64 : Format := ⟨53, -1074, by norm_num⟩

/-- `float`. -/
def binary32 : Format := ⟨24, -149, by norm_num⟩

/-- `DBL_MIN`, `DBL_MAX`. -/
def dblMin : ℚ := 1 / 2 ^ 1022
def dblMax : ℚ := (2 ^ 53 - 1) * 2 ^ 971

theorem holds_dblMax : binary64.Holds dblMax := by
  refine ⟨2 ^ 53 - 1, 971, by decide, by decide, ?_⟩
  rw [dblMax, Int.cast_sub, Int.cast_pow, Int.cast_ofNat, Int.cast_one]
  rfl

/-- `FLT_MIN`, `FLT_MAX`. -/
def fltMin : ℚ := 1 / 2 ^ 126
def fltMax : ℚ := (2 ^ 24 - 1) * 2 ^ 104

/-- The `double` of a number: an infinity, where rounding leaves the range. -/
def toDouble (q : ℚ) : Double :=
  if dblMax < |binary64.round q| then .inf (q < 0) else .fin (binary64.round q)

/-! ## The C library -/

/-- The value of a hexadecimal digit. -/
def hexDigitOf (c : UInt16) : Option ℕ :=
  if 0x30 ≤ c ∧ c ≤ 0x39 then some (c.toNat - 0x30)
  else if 0x41 ≤ c ∧ c ≤ 0x46 then some (c.toNat - 0x37)
  else if 0x61 ≤ c ∧ c ≤ 0x66 then some (c.toNat - 0x57)
  else none

/-- The hexadecimal digits at the start of a text, and what follows. -/
def takeHex : WStr → List ℕ × WStr
  | [] => ([], [])
  | c :: w =>
    match hexDigitOf c with
    | none => ([], c :: w)
    | some d => (d :: (takeHex w).1, (takeHex w).2)

/-- `p` or `P`. -/
def isBinaryLetter (c : UInt16) : Bool := c = 0x70 || c = 0x50

/-- The power of two behind a hexadecimal number, when digits stand behind its letter. -/
def takeBinaryExp : WStr → Option ℤ × WStr
  | [] => (none, [])
  | c :: w =>
    let digits := takeDigits (takeSign w).2
    if isBinaryLetter c ∧ digits.1 ≠ [] then
      (some (if (takeSign w).1 = some true then -(ofDigits digits.1 : ℤ) else ofDigits digits.1),
        digits.2)
    else (none, c :: w)

/-- A word at the start of a text, in letters of either case. -/
def takeWord : WStr → WStr → Option WStr
  | [], w => some w
  | _ :: _, [] => none
  | l :: word, c :: w => if c ||| 0x20 = l then takeWord word w else none

def infWord : WStr := [0x69, 0x6E, 0x66]
def inityWord : WStr := [0x69, 0x6E, 0x69, 0x74, 0x79]
def nanWord : WStr := [0x6E, 0x61, 0x6E]

/-- What may stand between the parentheses after `nan`. -/
def isNanUnit (c : UInt16) : Bool :=
  c = 0x5F || (0x30 ≤ c && c ≤ 0x39) || (0x61 ≤ c ||| 0x20 && c ||| 0x20 ≤ 0x7A)

/-- What a text spells. -/
inductive Subject where
  | number (q : ℚ)
  | inf (neg : Bool)
  | nan

/-- The hexadecimal number at the start of a text, what follows, and whether a power is begun
there without its digits. -/
def scanHex (w : WStr) : Option (ℚ × WStr × Bool) :=
  let sign := takeSign w
  let whole := takeHex (sign.2.drop 2)
  let point := whole.2.head? = some 0x2E
  let frac := if point then takeHex whole.2.tail else ([], whole.2)
  let exp := takeBinaryExp frac.2
  if sign.2.head? = some 0x30 ∧ sign.2.tail.head?.any (· ||| 0x20 = 0x78) = true ∧
      (whole.1 ≠ [] ∨ frac.1 ≠ []) then
    let magnitude := (Nat.ofDigits 16 (whole.1 ++ frac.1).reverse : ℚ) *
      (2 : ℚ) ^ (exp.1.getD 0 - 4 * frac.1.length)
    some (if sign.1 = some true then -magnitude else magnitude, exp.2,
      exp.1 = none && exp.2.head?.any isBinaryLetter)
  else none

/-- What is spelled at the start of a text, what follows, and whether something longer is begun
there. -/
def subject (w : WStr) : Option (Subject × WStr × Bool) :=
  match scanHex w with
  | some (q, rest, begun) => some (.number q, rest, begun)
  | none =>
    match scan w with
    | some (n, rest) =>
      some (.number n.value, rest, (n.exp = none && rest.head?.any isExpLetter) ||
        (n.text = signText n.sign ++ [0x30] && rest.head?.any (· ||| 0x20 = 0x78)))
    | none =>
      let sign := takeSign w
      match takeWord infWord sign.2 with
      | some rest =>
        some (.inf (sign.1 = some true), (takeWord inityWord rest).getD rest,
          takeWord inityWord rest = none && rest.head?.any (· ||| 0x20 = 0x69))
      | none =>
        match takeWord nanWord sign.2 with
        | some rest =>
          let tail := rest.tail.dropWhile isNanUnit
          if rest.head? = some 0x28 ∧ tail.head? = some 0x29 then some (.nan, tail.tail, false)
          else some (.nan, rest, rest.head? = some 0x28)
        | none => none

/-- The `double` that what is spelled is rounded to. -/
def Subject.double : Subject → Double
  | .number q => toDouble q
  | .inf neg => .inf neg
  | .nan => .nan

/-- Whether `errno` becomes `ERANGE`: rounding leaves the range, or nothing is left. -/
def Subject.erange : Subject → Bool
  | .number q => dblMax < |binary64.round q| || (q ≠ 0 && binary64.round q = 0)
  | _ => false

/-- `strtod` and `wcstod`: the value, what follows the text read, and whether `errno` is
set. -/
def strtod (w : WStr) : Double × WStr × Bool :=
  match subject w with
  | some (s, rest, _) => (s.double, rest, s.erange)
  | none => (.fin 0, w, false)

/-- `_snscanf` and `_snwscanf` with a count of units and `%le`.  What follows the number is not
looked at, and a number that something longer is begun after is none. -/
def snscanf (w : WStr) : Option Double :=
  match subject w with
  | some (s, _, false) => some s.double
  | _ => none

/-! ## `str2double` -/

/-- `str2double` on the text of `cnt` units at the start of `mem`, the memory up to the end of
the application's buffer: the number and the count of units it takes.  Whether the text has a
terminator is found out by reading the unit behind it. -/
def str2double (mem : WStr) (cnt : ℕ) (strict : Bool) : Exec (Option (Double × ℕ)) :=
  match mem[cnt]? with
  | none => .undefined
  | some c =>
    .done <|
      if c ≠ 0 then
        (snscanf (mem.take cnt)).map (·, cnt)
      else
        let read := strtod (mem.take cnt)
        let digits := (mem.take cnt).length - read.2.1.length
        if read.2.2 = true ∨ (strict = true ∧ cnt ≠ digits) then none else some (read.1, digits)

end EsOdbc

import Mathlib.Data.Rat.Defs
import Mathlib.Data.Rat.Floor
import Mathlib.Algebra.Order.Field.Rat
import KalshiMm.Lib.Rounding

/-!
# JSON payloads

The API answers with `serde_json` values.  A payload is `Value`; numbers are read exactly, as
rationals.  `parseF64` accepts the decimal syntax of Rust's `f64::from_str`; the spellings of
the non-finite values have no rational and are refused.  Where it matters that such a value was
read, `parseFloat` reads it as an `F64`.
-/

namespace KalshiMm.Model

open KalshiMm.Lib

/-- A parsed JSON document. -/
inductive Value where
  | null
  | bool (b : Bool)
  | number (n : ℚ)
  | string (s : String)
  | array (items : List Value)
  | object (fields : List (String × Value))

instance : Inhabited Value := ⟨.null⟩

namespace Value

def get (v : Value) (key : String) : Option Value :=
  match v with
  | .object fields => fields.lookup key
  | _ => none

def asStr : Value → Option String
  | .string s => some s
  | _ => none

def asBool : Value → Option Bool
  | .bool b => some b
  | _ => none

def asArray : Value → Option (List Value)
  | .array items => some items
  | _ => none

def getStr (v : Value) (key : String) : Option String := (v.get key).bind asStr

def getRows (v : Value) (key : String) : List Value := ((v.get key).bind asArray).getD []

/-- The pagination cursor; a blank or absent one marks the last page. -/
def cursor (v : Value) : Option String := (v.getStr "cursor").filter (· ≠ "")

end Value

/-! ## Numbers in strings -/

def digitValue (c : Char) : Option ℕ :=
  if '0' ≤ c ∧ c ≤ '9' then some (c.toNat - '0'.toNat) else none

def takeDigits : List Char → List ℕ × List Char
  | [] => ([], [])
  | c :: rest =>
    match digitValue c with
    | some d => ((takeDigits rest).1.cons d, (takeDigits rest).2)
    | none => ([], c :: rest)

def digitsToNat (digits : List ℕ) : ℕ := digits.foldl (fun n d => 10 * n + d) 0

def takeSign : List Char → Bool × List Char
  | '-' :: rest => (true, rest)
  | '+' :: rest => (false, rest)
  | rest => (false, rest)

def parseExponent : List Char → Option ℤ
  | [] => some 0
  | e :: rest =>
    if e = 'e' ∨ e = 'E' then
      let (negative, rest) := takeSign rest
      match takeDigits rest with
      | (d :: digits, []) =>
        let magnitude : ℤ := digitsToNat (d :: digits)
        some (if negative then -magnitude else magnitude)
      | _ => none
    else none

/-- `str::parse::<f64>` on decimal input. -/
def parseF64 (s : String) : Option ℚ :=
  let (negative, rest) := takeSign s.toList
  let (whole, rest) := takeDigits rest
  let (fraction, rest) :=
    match rest with
    | '.' :: rest => takeDigits rest
    | rest => ([], rest)
  if whole = [] ∧ fraction = [] then none
  else
    (parseExponent rest).map fun (exponent : ℤ) =>
      let mantissa : ℚ := digitsToNat (whole ++ fraction)
      let magnitude := mantissa * (10 : ℚ) ^ (exponent - fraction.length)
      if negative then -magnitude else magnitude

def jsonF64 : Option Value → Option ℚ
  | some (.number n) => some n
  | some (.string s) => parseF64 s
  | _ => none

/-! ## Casts -/

/-- `f64 as i64` of a rounded value: saturates at the ends of the type. -/
def toI64 (n : ℤ) : ℤ := max (-2 ^ 63) (min (2 ^ 63 - 1) n)

/-- An `f64` that a payload spells. -/
inductive F64 where
  | finite (q : ℚ)
  | infinite (negative : Bool)
  | nan
deriving DecidableEq

namespace F64

def toRat : F64 → Option ℚ
  | .finite q => some q
  | _ => none

/-- `round_ties_even() as i64`: what is not a number casts to zero. -/
def roundToI64 : F64 → ℤ
  | .finite q => toI64 (roundTiesEven q)
  | .infinite negative => if negative then -2 ^ 63 else 2 ^ 63 - 1
  | .nan => 0

@[simp] theorem toRat_finite (q : ℚ) : (finite q).toRat = some q := rfl

@[simp] theorem roundToI64_finite (q : ℚ) : (finite q).roundToI64 = toI64 (roundTiesEven q) := rfl

end F64

/-- `str::parse::<f64>`, with the spellings of what is not finite. -/
def parseFloat (s : String) : Option F64 :=
  let (negative, rest) := takeSign s.toList
  let word := rest.map Char.toLower
  if word = "nan".toList then some .nan
  else if word = "inf".toList ∨ word = "infinity".toList then some (.infinite negative)
  else (parseF64 s).map .finite

/-- `f64 as i64` of a value that need not be whole: truncates, then saturates. -/
def truncI64 (q : ℚ) : ℤ := toI64 (if 0 ≤ q then ⌊q⌋ else ⌈q⌉)

/-- `f64 as u32` of a rounded value. -/
def toU32 (n : ℤ) : ℕ := (max 0 (min (2 ^ 32 - 1) n)).toNat

/-! ## Numbers as text -/

/-- Decimal places needed to write a number with denominator `den`, at most `fuel`. -/
def decimalPlaces (den : ℕ) : ℕ → ℕ → ℕ
  | 0, places => places
  | fuel + 1, places => if 10 ^ places % den = 0 then places else decimalPlaces den fuel (places + 1)

/-- `f64`'s `Display`: the shortest decimal form, no exponent. -/
def displayF64 (q : ℚ) : String :=
  let places := decimalPlaces q.den q.den 0
  let scaled := (q.num.natAbs * 10 ^ places) / q.den
  let whole := toString (scaled / 10 ^ places)
  let fraction := toString (scaled % 10 ^ places)
  let padded := String.ofList (List.replicate (places - fraction.length) '0') ++ fraction
  (if q.num < 0 then "-" else "") ++ whole ++ (if places = 0 then "" else "." ++ padded)

def F64.display : F64 → String
  | .finite q => displayF64 q
  | .infinite negative => if negative then "-inf" else "inf"
  | .nan => "NaN"

end KalshiMm.Model

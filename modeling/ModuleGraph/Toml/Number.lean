import ModuleGraph.Toml.Char

/-! # Numbers

Digits may be grouped by single underscores. An integer fits 64 bits; a floating-point number
must not be so large that it rounds to infinity, negative ones apart.
-/

namespace ModuleGraph.Toml

/-- Whether a text is digits of some base, grouped by single underscores. -/
def isDigits (isDigit : Char → Bool) (cs : List Char) : Bool :=
  (cs.splitOn '_').all fun group => !group.isEmpty && group.all isDigit

/-- The number that digits write in a base, group marks apart. -/
def digitsValue (base : Nat) (cs : List Char) : Nat :=
  cs.foldl (fun n c => match hexValue? c with
    | some d => n * base + d
    | none => n) 0

/-- Whether a text is a decimal integer without sign: no zero stands in front. -/
def isDecimal (cs : List Char) : Bool :=
  isDigits Char.isDigit cs && (cs.length = 1 || cs.head? != some '0')

def splitSign : List Char → Bool × List Char
  | '-' :: cs => (true, cs)
  | '+' :: cs => (false, cs)
  | cs => (false, cs)

def integerLimit : Nat := 0x8000000000000000

def isBased (base : Nat) (isDigit : Char → Bool) (cs : List Char) : Bool :=
  isDigits isDigit cs && digitsValue base cs < integerLimit

def isInteger : List Char → Bool
  | '0' :: 'x' :: cs => isBased 16 (fun c => (hexValue? c).isSome) cs
  | '0' :: 'o' :: cs => isBased 8 (fun c => '0' ≤ c && c ≤ '7') cs
  | '0' :: 'b' :: cs => isBased 2 (fun c => c = '0' || c = '1') cs
  | cs =>
    let (negative, digits) := splitSign cs
    isDecimal digits && digitsValue 10 digits < integerLimit + (if negative then 1 else 0)

/-- The least number that rounds to infinity: halfway from the greatest floating-point number to
`2 ^ 1024`. -/
def infinityThreshold : Nat := Nat.pow 2 1024 - Nat.pow 2 970

/-- Whether `digits · 10 ^ exponent` rounds to infinity. Far from the threshold the number of
digits tells. -/
def roundsToInfinity (digits : Nat) (exponent : Int) : Bool :=
  let magnitude := (Nat.toDigits 10 digits).length + exponent
  if digits = 0 ∨ magnitude < 300 then false
  else if magnitude > 400 then true
  else
    digits * Nat.pow 10 exponent.toNat ≥ infinityThreshold * Nat.pow 10 (-exponent).toNat

/-- The parts of a text before and after the first character of some kind. -/
def cutAt (p : Char → Bool) (cs : List Char) : List Char × Option (List Char) :=
  match cs.dropWhile (fun c => !p c) with
  | [] => (cs, none)
  | _ :: after => (cs.takeWhile (fun c => !p c), some after)

def isDecimalFloat (cs : List Char) : Bool :=
  let (negative, unsigned) := splitSign cs
  let (mantissa, exponent) := cutAt (fun c => c = 'e' || c = 'E') unsigned
  let (whole, fraction) := cutAt (· = '.') mantissa
  let (negativeExponent, exponentDigits) := splitSign (exponent.getD ['0'])
  let power : Int := digitsValue 10 exponentDigits
  isDecimal whole && fraction.all (isDigits Char.isDigit) &&
  isDigits Char.isDigit exponentDigits && (fraction.isSome || exponent.isSome) &&
  (negative ||
    !roundsToInfinity (digitsValue 10 (whole ++ fraction.getD []))
      ((if negativeExponent then -power else power) -
        ((fraction.getD []).filter Char.isDigit).length))

def isSpecialFloat (cs : List Char) : Bool :=
  (splitSign cs).2 = ['i', 'n', 'f'] || (splitSign cs).2 = ['n', 'a', 'n']

def isNumber (cs : List Char) : Bool := isInteger cs || isDecimalFloat cs || isSpecialFloat cs

end ModuleGraph.Toml

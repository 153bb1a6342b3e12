/-! # Date-times

A date-time is a date, a time, or both with an optional offset. A date exists in the calendar;
a minute may have a leap second.
-/

namespace ModuleGraph.Toml

/-- The number two digits write, if it is at most `limit`. -/
def twoDigits? (limit : Nat) (a b : Char) : Option Nat :=
  let n := (a.toNat - '0'.toNat) * 10 + (b.toNat - '0'.toNat)
  if a.isDigit && b.isDigit && n ≤ limit then some n else none

def daysOf (year month : Nat) : Nat :=
  if month = 2 then
    if year % 4 = 0 ∧ (year % 100 ≠ 0 ∨ year % 400 = 0) then 29 else 28
  else if month = 4 ∨ month = 6 ∨ month = 9 ∨ month = 11 then 30
  else 31

/-- What follows a date such as `1979-05-27`. -/
def afterDate? : List Char → Option (List Char)
  | y₁ :: y₂ :: y₃ :: y₄ :: '-' :: m₁ :: m₂ :: '-' :: d₁ :: d₂ :: rest => do
    let century ← twoDigits? 99 y₁ y₂
    let year ← twoDigits? 99 y₃ y₄
    let month ← twoDigits? 12 m₁ m₂
    let day ← twoDigits? (daysOf (century * 100 + year) month) d₁ d₂
    if month = 0 ∨ day = 0 then none else some rest
  | _ => none

def afterFraction? : List Char → Option (List Char)
  | '.' :: rest =>
    if (rest.takeWhile Char.isDigit).isEmpty then none else some (rest.dropWhile Char.isDigit)
  | rest => some rest

/-- What follows a time such as `07:32:00.5`. -/
def afterTime? : List Char → Option (List Char)
  | h₁ :: h₂ :: ':' :: m₁ :: m₂ :: ':' :: s₁ :: s₂ :: rest => do
    let _ ← twoDigits? 23 h₁ h₂
    let _ ← twoDigits? 59 m₁ m₂
    let _ ← twoDigits? 60 s₁ s₂
    afterFraction? rest
  | _ => none

def isOffset : List Char → Bool
  | [] => true
  | [z] => z = 'Z' || z = 'z'
  | [sign, h₁, h₂, ':', m₁, m₂] =>
    (sign = '+' || sign = '-') && (twoDigits? 23 h₁ h₂).isSome && (twoDigits? 59 m₁ m₂).isSome
  | _ => false

def isZonedTime (cs : List Char) : Bool := (afterTime? cs).any isOffset

def isDate (cs : List Char) : Bool := (afterDate? cs).any List.isEmpty

def isDateTime (cs : List Char) : Bool :=
  (afterTime? cs).any List.isEmpty ||
  (afterDate? cs).any fun
    | [] => true
    | t :: rest => (t = 'T' || t = 't') && isZonedTime rest

end ModuleGraph.Toml

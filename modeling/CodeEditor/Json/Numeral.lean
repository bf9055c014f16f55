import CodeEditor.Json.Value

/-!
# The values of numerals

A numeral without fraction and exponent can be read as an integer. Read as a single precision
number, an integer of at most 64 bits is rounded at once. Any other numeral is first made a double:
as many of its leading digits as fit 64 bits, scaled by one power of ten. A numeral whose
double would be infinite has no value.
-/

namespace CodeEditor.Numeral

/-- Integers take at most 64 bits. -/
def wordBound : Nat := UInt64.size

/-- The numeral of a natural number. -/
def ofNat (n : Nat) : Numeral :=
  { whole := (Nat.toDigits 10 n).map fun c ↦ c.toNat - '0'.toNat }

/-- Appends digits to a number as long as it fits a word; gives it with the digits left over. -/
def appendDigits (value : Nat) : List Nat → Nat × List Nat
  | [] => (value, [])
  | digit :: rest =>
    if value * 10 + digit < wordBound then appendDigits (value * 10 + digit) rest
    else (value, digit :: rest)

def isInteger (numeral : Numeral) : Bool := numeral.fraction.isNone && numeral.exponent.isNone

/-- The integer without its sign, if the numeral is an integer that fits a word. -/
def magnitude? (numeral : Numeral) : Option Nat :=
  match numeral.isInteger, appendDigits 0 numeral.whole with
  | true, (value, []) => some value
  | _, _ => none

/-- The natural number below a bound that the numeral writes, without a sign. -/
def natBelow? (bound : Nat) (numeral : Numeral) : Option Nat :=
  if numeral.negative then none else numeral.magnitude?.filter (· < bound)

/-- The greatest power of ten that is scaled by at once. -/
def maxPower : Nat := 308

def powerOfTen (exponent : Nat) : Float := Float.ofScientific 1 false exponent

/-- Divides by a power of ten, in several steps if it is too large for one. Nothing is left of a
word after three of them. -/
def divide : (steps : Nat) → Float → Nat → Float
  | 0, _, _ => 0
  | steps + 1, x, exponent =>
    if exponent ≤ maxPower then x / powerOfTen exponent
    else if x == 0 then x
    else divide steps (x / powerOfTen maxPower) (exponent - maxPower)

/-- The word times a power of ten, as far as it is finite. -/
def scale? (value : Nat) (exponent : Int) : Option Float :=
  let x := Float.ofNat value
  if exponent < 0 then some (divide 4 x exponent.natAbs)
  else if exponent.natAbs ≤ maxPower then
    let scaled := x * powerOfTen exponent.natAbs
    if scaled.isInf then none else some scaled
  else if value = 0 then some x
  else none

/-- The double of a numeral, without its sign. -/
def double? (numeral : Numeral) : Option Float :=
  let (value, dropped) := appendDigits 0 numeral.whole
  let fraction := numeral.fraction.getD []
  let (value, unread) := appendDigits value fraction
  let places := fraction.length - unread.length
  let (negative, digits) := numeral.exponent.getD (false, [])
  let power : Nat := digits.foldl (fun n digit ↦ n * 10 + digit) 0
  let exponent : Int := if negative then -power else power
  scale? value (dropped.length - places + exponent)

/-- The single precision number that the numeral writes. -/
def single? (numeral : Numeral) : Option Float32 :=
  let signed (x : Float32) : Float32 := if numeral.negative then -x else x
  match numeral.magnitude? with
  | some value =>
    if numeral.negative && wordBound / 2 < value then some (signed (Float.ofNat value).toFloat32)
    else some (signed (.ofNat value))
  | none => numeral.double?.map fun x ↦ signed x.toFloat32

end CodeEditor.Numeral

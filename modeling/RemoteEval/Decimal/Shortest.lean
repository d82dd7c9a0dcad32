/-!
The shortest decimal that reads back as a given binary floating-point number, and the nearest
one where several are equally short. A finite number is `m · 2 ^ q`. The reals that round to it
form an interval, and a decimal reads back exactly if it lies in that interval. For one digit,
two digits and so on, the two neighbours of the number on that decimal grid are tried.
-/
namespace RemoteEval

structure Decimal where
  digits : Nat
  exponent : Int
  deriving DecidableEq, Repr

namespace Decimal

def width (n : Nat) : Nat := (Nat.toDigits 10 n).length

structure Binary where
  mantissa : Nat
  power : Int
  /-- Whether the next smaller number lies only half as far away as the next greater one. -/
  narrowBelow : Bool

def Binary.ofBits (bits : UInt64) : Binary :=
  let field := (bits >>> 52 &&& 0x7ff).toNat
  let fraction := (bits &&& 0xfffffffffffff).toNat
  if field = 0 then ⟨fraction, -1074, false⟩
  else ⟨fraction + 0x10000000000000, (field : Int) - 1075, decide (fraction = 0) && decide (1 < field)⟩

structure Fraction where
  num : Nat
  den : Nat

/-- The quarter of a number's last place, `num / den`. -/
def Binary.quarter (b : Binary) : Fraction :=
  let power := b.power - 2
  if 0 ≤ power then ⟨Nat.pow 2 power.toNat, 1⟩ else ⟨1, Nat.pow 2 (-power).toNat⟩

def Fraction.magnitude (f : Fraction) : Int :=
  if f.den ≤ f.num then (width (f.num / f.den) : Int) - 1
  else
    let shift := width f.den - width f.num
    if f.den ≤ f.num * Nat.pow 10 shift then -(shift : Int) else -(shift : Int) - 1

def Fraction.overPower (f : Fraction) (exponent : Int) : Fraction :=
  if 0 ≤ exponent then ⟨f.num, f.den * Nat.pow 10 exponent.toNat⟩
  else ⟨f.num * Nat.pow 10 (-exponent).toNat, f.den⟩

def strip : Nat → Nat → Int → Decimal
  | 0, digits, exponent => ⟨digits, exponent⟩
  | n + 1, digits, exponent =>
    if digits % 10 = 0 && digits ≠ 0 then strip n (digits / 10) (exponent + 1)
    else ⟨digits, exponent⟩

/-- The nearest point to a number, among the two next to it on the grid of `count` digits, that
reads back as the number. -/
def candidate? (b : Binary) (count : Nat) : Option Decimal :=
  let q := b.quarter
  let value : Fraction := ⟨4 * b.mantissa * q.num, q.den⟩
  let exponent := value.magnitude - ((count : Int) - 1)
  let scaled := value.overPower exponent
  let unit := q.overPower exponent
  let low := (4 * b.mantissa - (if b.narrowBelow then 1 else 2)) * unit.num
  let high := (4 * b.mantissa + 2) * unit.num
  let reads (d : Nat) : Bool :=
    if b.mantissa % 2 = 0 then low ≤ d * unit.den && d * unit.den ≤ high
    else low < d * unit.den && d * unit.den < high
  let below := scaled.num / scaled.den
  let rest := scaled.num % scaled.den
  let chosen? : Option Nat :=
    if reads below && reads (below + 1) then
      if 2 * rest < scaled.den || (2 * rest = scaled.den && below % 2 = 0) then some below
      else some (below + 1)
    else if reads below then some below
    else if reads (below + 1) then some (below + 1)
    else none
  chosen?.map fun digits => strip 20 digits exponent

/-- The shortest decimal for a positive finite number; seventeen digits always suffice. -/
def shortest (b : Binary) : Decimal :=
  ((List.range 17).findSome? fun n => candidate? b (n + 1)).getD ⟨0, 0⟩

end Decimal

end RemoteEval

import RemoteEval.Decimal.Shortest

/-!
Numbers of JSON texts. A number is kept as it is written, because the kind of a number hangs on
its spelling: one with a fraction or an exponent is never an integer, and neither is `-0`.
-/
namespace RemoteEval.Json

structure Number where
  negative : Bool
  whole : List Nat
  fraction : List Nat
  exponent : Option Int
  deriving DecidableEq, Repr

inductive Quantity where
  | natural (n : Nat)
  | negative (magnitude : Nat)
  | real (x : Float)

namespace Number

/-- The number of digits taken into account, and the power of ten they are scaled by. Digits
are taken as long as they fit 64 bits; later whole ones count as zero, later others not at all. -/
structure Significand where
  value : Nat
  scale : Int
  full : Bool

def Significand.fits (s : Significand) (digit : Nat) : Bool :=
  !s.full && decide (s.value * 10 + digit < UInt64.size)

def Significand.whole (s : Significand) (digit : Nat) : Significand :=
  if s.fits digit then { s with value := s.value * 10 + digit }
  else { s with scale := s.scale + 1, full := true }

def Significand.fraction (s : Significand) (digit : Nat) : Significand :=
  if s.fits digit then { s with value := s.value * 10 + digit, scale := s.scale - 1 }
  else { s with full := true }

def tenTo (n : Nat) : Float := Float.ofScientific 1 false n

def scaled? : Nat → Float → Int → Option Float
  | 0, x, _ => some x
  | n + 1, x, scale =>
    if scale.natAbs ≤ 308 then
      let y := if 0 ≤ scale then x * tenTo scale.toNat else x / tenTo (-scale).toNat
      if y.isInf then none else some y
    else if x == 0 then some x
    else if 0 ≤ scale then none
    else scaled? n (x / tenTo 308) (scale + 308)

def toFloat? (n : Number) : Option Float :=
  let whole := n.whole.foldl Significand.whole ⟨0, 0, false⟩
  let all := n.fraction.foldl Significand.fraction { whole with full := false }
  let scale := all.scale + n.exponent.getD 0
  let magnitude? := scaled? 400 (UInt64.ofNat all.value).toFloat (max scale (-100000))
  magnitude?.map fun x => if n.negative then -x else x

def wholeValue (n : Number) : Nat := n.whole.foldl (fun value digit => value * 10 + digit) 0

def isPlain (n : Number) : Bool := n.fraction.isEmpty && n.exponent.isNone

def quantity? (n : Number) : Option Quantity :=
  let value := n.wholeValue
  if n.isPlain && !n.negative && decide (value < UInt64.size) then some (.natural value)
  else if n.isPlain && n.negative && decide (0 < value) && decide (value ≤ UInt64.size / 2) then
    some (.negative value)
  else n.toFloat?.map .real

def natural? (n : Number) (bound : Nat) : Option Nat :=
  if n.isPlain && !n.negative && decide (n.wholeValue < bound) then some n.wholeValue else none

def ofNat (n : Nat) : Number :=
  ⟨false, (Nat.toDigits 10 n).map fun c => c.toNat - '0'.toNat, [], none⟩

end Number

/-- How floating-point numbers are written: positional from `10 ^ -5` to below `10 ^ 16`, always
with a fraction; otherwise with a signed exponent. -/
def decimalText (d : Decimal) : String :=
  let digits := Nat.toDigits 10 d.digits
  let lead : Int := d.exponent + digits.length - 1
  if -5 ≤ lead && lead ≤ 15 then
    if 0 ≤ d.exponent then
      String.ofList (digits ++ List.replicate d.exponent.toNat '0') ++ ".0"
    else if 0 ≤ lead then
      String.ofList (digits.take (lead.toNat + 1) ++ '.' :: digits.drop (lead.toNat + 1))
    else String.ofList (['0', '.'] ++ List.replicate (-lead - 1).toNat '0' ++ digits)
  else
    let fraction := if digits.length ≤ 1 then [] else '.' :: digits.drop 1
    let sign := if lead < 0 then '-' else '+'
    String.ofList (digits.take 1 ++ fraction ++ ['e', sign] ++ Nat.toDigits 10 lead.natAbs)

def realText (x : Float) : String :=
  let bits := x.toBits
  let sign := if bits >>> 63 = 1 then "-" else ""
  let binary := Decimal.Binary.ofBits bits
  if binary.mantissa = 0 then sign ++ "0.0"
  else sign ++ decimalText (Decimal.shortest binary)

def Quantity.text : Quantity → String
  | .natural n => toString n
  | .negative n => "-" ++ toString n
  | .real x => realText x

end RemoteEval.Json

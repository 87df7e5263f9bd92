import CallStrip.Number.Binary64
import CallStrip.Text.Basic

/-!
The shortest decimal that reads back as a given binary number, and its layout as text.
-/

namespace CallStrip

structure Decimal where
  digits : Text
  exponent : Int
  deriving DecidableEq, Repr

namespace Binary64

def decimalExponent (num den : Nat) : Int :=
  let guess : Int := (((num.log2 : Int) - den.log2) * 1233) / 4096
  let fits (e : Int) : Bool :=
    if 0 ≤ e then tenTo e.toNat * den ≤ num else den ≤ num * tenTo (-e).toNat
  ([guess + 2, guess + 1, guess, guess - 1].find? fits).getD (guess - 2)

/-- Whether a quotient lies where every real rounds to `x`: half a step below `x` to half a step
above, a power of two having the smaller step below, and the ends included for an even mantissa. -/
def roundsTo (x : Binary64) (num den : Nat) : Bool :=
  let below := if x.mantissa = twoTo 52 && leastExponent < x.exponent then 1 else 2
  let unit := ({ x with mantissa := 1 } : Binary64).quotient
  let low := (4 * x.mantissa - below) * unit.1 * den
  let high := (4 * x.mantissa + 2) * unit.1 * den
  let here := 4 * num * unit.2
  if x.mantissa % 2 = 0 then low ≤ here && here ≤ high else low < here && here < high

def onGrid? (x : Binary64) (e : Int) : Option Nat :=
  let q := x.quotient
  let step : Nat × Nat := if 0 ≤ e then (tenTo e.toNat, 1) else (1, tenTo (-e).toNat)
  let num := q.1 * step.2
  let den := q.2 * step.1
  let near := roundQuotient num den
  let far := if num / den = near then near + 1 else num / den
  [near, far].find? fun n => x.roundsTo (n * step.1) step.2

/-- The digits of a nonzero number: on the coarsest grid of decimals that has one which reads back,
the nearest such decimal. -/
def shortest (x : Binary64) : Decimal :=
  let top := decimalExponent x.quotient.1 x.quotient.2
  let hit := (List.range 17).findSome? fun (k : Nat) =>
    (x.onGrid? (top - k)).map fun n => (n, top - (k : Int))
  match hit with
  | none => ⟨['0'], 0⟩
  | some (n, e) =>
    let ds := Text.ofNat n
    ⟨(ds.reverse.dropWhile (· = '0')).reverse, e + (ds.length - 1 : Nat)⟩

end Binary64

/-- How a number is laid out: which exponents of the first digit are written without a power of
ten. -/
structure RealLayout where
  positional : Int → Bool

namespace Decimal

def point (d : Decimal) : Text :=
  if d.exponent < 0 then
    "0.".toList ++ List.replicate (-d.exponent - 1).toNat '0' ++ d.digits
  else
    let whole := d.exponent.toNat + 1
    let fraction := d.digits.drop whole
    d.digits.take whole ++ List.replicate (whole - d.digits.length) '0' ++ ['.'] ++
      (if fraction.isEmpty then ['0'] else fraction)

def power (d : Decimal) : Text :=
  d.digits.take 1 ++ (if d.digits.length ≤ 1 then [] else '.' :: d.digits.drop 1) ++
    ['e', if d.exponent < 0 then '-' else '+'] ++ Text.ofNat d.exponent.natAbs

end Decimal

def RealLayout.render (layout : RealLayout) (x : Binary64) : Text :=
  (if x.negative then ['-'] else []) ++
    (if x.isZero then "0.0".toList
     else
      let d := x.shortest
      if layout.positional d.exponent then d.point else d.power)

end CallStrip

/-!
Binary floating point with 53 digits, in exact arithmetic: every operation rounds the exact quotient
of two naturals to the nearest number, and to the even one of two that are equally near.
-/

namespace CallStrip

def twoTo (n : Nat) : Nat := Nat.pow 2 n

def tenTo (n : Nat) : Nat := Nat.pow 10 n

/-- A magnitude `mantissa * 2 ^ exponent` with a sign, which zero has too. -/
structure Binary64 where
  negative : Bool
  mantissa : Nat
  exponent : Int
  deriving DecidableEq, Repr

namespace Binary64

def leastExponent : Int := -1074

def greatestExponent : Int := 971

def zero : Binary64 := ⟨false, 0, leastExponent⟩

def isZero (x : Binary64) : Bool := x.mantissa == 0

/-- Rounding may pass the greatest number; what it yields then stands for infinity. -/
def isInfinite (x : Binary64) : Bool := greatestExponent < x.exponent

def neg (x : Binary64) : Binary64 := { x with negative := !x.negative }

def scaled (num den : Nat) (e : Int) : Nat × Nat :=
  if 0 ≤ e then (num, den * twoTo e.toNat) else (num * twoTo (-e).toNat, den)

def roundQuotient (num den : Nat) : Nat :=
  let q := num / den
  let r := num % den
  if 2 * r < den then q
  else if den < 2 * r then q + 1
  else q + q % 2

def lastPlace (num den : Nat) : Int :=
  let e : Int := (num.log2 : Int) - den.log2 - 52
  let s := scaled num den e
  max leastExponent (if s.1 < twoTo 52 * s.2 then e - 1 else e)

def ofQuotient (num den : Nat) : Binary64 :=
  if num = 0 then zero
  else
    let e := lastPlace num den
    let s := scaled num den e
    let m := roundQuotient s.1 s.2
    if m = twoTo 53 then ⟨false, twoTo 52, e + 1⟩ else ⟨false, m, e⟩

def ofNat (n : Nat) : Binary64 := ofQuotient n 1

def quotient (x : Binary64) : Nat × Nat :=
  if 0 ≤ x.exponent then (x.mantissa * twoTo x.exponent.toNat, 1)
  else (x.mantissa, twoTo (-x.exponent).toNat)

def mul (x y : Binary64) : Binary64 :=
  let a := x.quotient
  let b := y.quotient
  { ofQuotient (a.1 * b.1) (a.2 * b.2) with negative := x.negative != y.negative }

def div (x y : Binary64) : Binary64 :=
  let a := x.quotient
  let b := y.quotient
  { ofQuotient (a.1 * b.2) (a.2 * b.1) with negative := x.negative != y.negative }

instance : Neg Binary64 := ⟨neg⟩

instance : Mul Binary64 := ⟨mul⟩

instance : Div Binary64 := ⟨div⟩

end Binary64

end CallStrip

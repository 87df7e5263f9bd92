import CallStrip.Number.Binary64
import CallStrip.Toml.Item
import CallStrip.Toml.Quoted

/-!
Values of a TOML document that are written without marks: truth values, numbers, dates and times.
Each is told by its whole text.
-/

namespace CallStrip.Toml

def isDigit (c : Char) : Bool := '0' ≤ c && c ≤ '9'

def digitsValue (t : Text) : Nat := t.foldl (fun n c => n * 10 + (c.toNat - '0'.toNat)) 0

def bounded (low high : Nat) (t : Text) : Option Nat :=
  if t.all isDigit && low ≤ digitsValue t && digitsValue t ≤ high then some (digitsValue t)
  else none

def daysIn (year month : Nat) : Nat :=
  if month = 2 then
    if year % 4 = 0 && (year % 100 != 0 || year % 400 = 0) then 29 else 28
  else if month = 4 || month = 6 || month = 9 || month = 11 then 30
  else 31

def isDate : Text → Bool
  | [a, b, c, d, '-', e, f, '-', g, h] =>
    (do
      let year ← bounded 0 9999 [a, b, c, d]
      let month ← bounded 1 12 [e, f]
      bounded 1 (daysIn year month) [g, h]).isSome
  | _ => false

def isHourMinute (a b c d : Char) : Bool :=
  (bounded 0 23 [a, b]).isSome && (bounded 0 59 [c, d]).isSome

def isOffset : Text → Bool
  | [] => true
  | ['Z'] => true
  | ['z'] => true
  | [s, a, b, ':', c, d] => (s == '+' || s == '-') && isHourMinute a b c d
  | _ => false

/-- What follows the time that a text starts with. A second may be the sixtieth. -/
def behindTime? : Text → Option Text
  | a :: b :: ':' :: c :: d :: ':' :: e :: f :: rest =>
    if isHourMinute a b c d && (bounded 0 60 [e, f]).isSome then
      match rest with
      | '.' :: fraction =>
        let tail := fraction.dropWhile isDigit
        if tail.length < fraction.length then some tail else none
      | _ => some rest
    else none
  | _ => none

def isTime (t : Text) : Bool := behindTime? t == some []

def isTimeWithOffset (t : Text) : Bool := (behindTime? t).any isOffset

def isMoment (t : Text) : Bool :=
  isDate t || isTime t ||
    match t.drop 10 with
    | s :: time => (s == 'T' || s == 't') && isDate (t.take 10) && isTimeWithOffset time
    | [] => false

def spaced (p : Char → Bool) (t : Text) : Option Text :=
  let parts := Text.pieces '_' t
  if parts.all fun s => !s.isEmpty && s.all p then some parts.flatten else none

def unsign (t : Text) : Bool × Text :=
  match t with
  | '+' :: s => (false, s)
  | '-' :: s => (true, s)
  | _ => (false, t)

def decimalDigits (t : Text) : Option Text := do
  let ds ← spaced isDigit t
  if t = ['0'] || t.head? ≠ some '0' then some ds else none

def radixDigits (base : Nat) (t : Text) : Option Nat := do
  let ds ← spaced (fun c => (hexDigit? c).any (· < base)) t
  return ds.foldl (fun n c => n * base + (hexDigit? c).getD 0) 0

def isInteger (t : Text) : Bool :=
  match t with
  | '0' :: 'x' :: s => (radixDigits 16 s).any (· < twoTo 63)
  | '0' :: 'o' :: s => (radixDigits 8 s).any (· < twoTo 63)
  | '0' :: 'b' :: s => (radixDigits 2 s).any (· < twoTo 63)
  | _ =>
    let (negative, s) := unsign t
    match decimalDigits s with
    | none => false
    | some ds => if negative then digitsValue ds ≤ twoTo 63 else digitsValue ds < twoTo 63

def isFinite (ds : Text) (e : Int) : Bool :=
  let n := digitsValue ds
  let top : Int := (Nat.toDigits 10 n).length + e
  if n = 0 || top < 300 then true
  else if 310 < top then false
  else
    !(if 0 ≤ e then Binary64.ofQuotient (n * tenTo e.toNat) 1
      else Binary64.ofQuotient n (tenTo (-e).toNat)).isInfinite

def exponent? (t : Text) : Option Int := do
  let (negative, s) := unsign t
  let n := digitsValue (← spaced isDigit s)
  return if negative then -(n : Int) else n

/-- A number with a point or an exponent. A positive one must not be too great to be finite. -/
def isReal (t : Text) : Bool :=
  let (negative, s) := unsign t
  if s = "inf".toList || s = "nan".toList then true
  else
    let isPower (c : Char) : Bool := c == 'e' || c == 'E'
    let mantissa := s.takeWhile (!isPower ·)
    let power := s.drop mantissa.length
    let whole := mantissa.takeWhile (· ≠ '.')
    let fraction := mantissa.drop whole.length
    (do
      let ds ← decimalDigits whole
      let fs ← if fraction = [] then some [] else spaced isDigit (fraction.drop 1)
      let e ← if power = [] then some 0 else exponent? (power.drop 1)
      if fraction = [] && power = [] then none
      else if negative || isFinite (ds ++ fs) (e - fs.length) then some () else none).isSome

def bare? (t : Text) : Option Item :=
  if t = "true".toList || t = "false".toList then some .flag
  else if isMoment t then some .date
  else if isInteger t || isReal t then some .number
  else none

def isBare (c : Char) : Bool :=
  c.isAlphanum || c == '+' || c == '-' || c == '_' || c == '.' || c == ':'

open Reader

def bare : Reader Item := fun s =>
  let t := s.takeWhile isBare
  let r := s.drop t.length
  let spacedTime : Option Text :=
    match r with
    | ' ' :: c :: _ => if isDate t && isDigit c then some (r.drop 1) else none
    | _ => none
  match spacedTime with
  | some r =>
    let time := r.takeWhile isBare
    if isTimeWithOffset time then .ok (.date, r.drop time.length) else .error ()
  | none =>
    match bare? t with
    | some x => .ok (x, r)
    | none => .error ()

theorem bare?_nil : bare? [] = none := by decide

theorem shrinks_bare : Shrinks bare := by
  intro s v r h
  have drop {t : Text} (ht : t ≠ []) (hs : t <+: s) : (s.drop t.length).length < s.length := by
    have := List.length_pos_iff.mpr ht
    have := hs.length_le
    simp
    omega
  have taken : s.takeWhile isBare <+: s := List.takeWhile_prefix _
  simp only [bare] at h
  split at h
  · next r' hr =>
    split at h
    · cases h
      split at hr
      · next c t hs =>
        split at hr
        · cases hr
          have := congrArg List.length hs
          simp at this
          simp
          omega
        · cases hr
      · cases hr
    · cases h
  · split at h
    · next x hx =>
      cases h
      refine drop (fun ht => ?_) taken
      rw [ht, bare?_nil] at hx
      cases hx
    · cases h

end CallStrip.Toml

import CallStrip.Json.Reader

/-!
Numbers of a document. Digits are gathered into a significand of 64 bits; those that no longer fit
only count for the exponent. A number with a point, an exponent or too many digits is the
significand rounded and then scaled by one power of ten.
-/

namespace CallStrip

/-- A significand times a power of ten: one rounding for the significand and one for the power. A
power below `10 ^ (-308)` goes in steps. None when the result is infinite. -/
def Binary64.scaledTen? (x : Binary64) (e : Int) : Option Binary64 :=
  if h : e < -308 then
    if x.isZero then some x else (x / ofNat (tenTo 308)).scaledTen? (e + 308)
  else if e < 0 then some (x / ofNat (tenTo (-e).toNat))
  else if 308 < e then (if x.isZero then some x else none)
  else
    let y := x * ofNat (tenTo e.toNat)
    if y.isInfinite then none else some y
termination_by (-e).toNat
decreasing_by omega

namespace Json

open Reader

def digit? (b : UInt8) : Option Nat :=
  if 0x30 ≤ b && b ≤ 0x39 then some (b.toNat - 0x30) else none

def isDigit (b : UInt8) : Bool := (digit? b).isSome

def isPower (b : UInt8) : Bool := b == 0x65 || b == 0x45

/-- Digits behind the significand `n`, as long as it keeps to 64 bits: the significand with them,
how many they are, and what follows. -/
def gather (n : Nat) : Bytes → Nat × Nat × Bytes
  | [] => (n, 0, [])
  | b :: s =>
    match digit? b with
    | none => (n, 0, b :: s)
    | some d =>
      if n * 10 + d < twoTo 64 then
        let g := gather (n * 10 + d) s
        (g.1, g.2.1 + 1, g.2.2)
      else (n, 0, b :: s)

/-- Digits of an exponent behind `n`; none when it passes 31 bits, then with what follows the digit
at which it does. -/
def gatherPower (n : Nat) : Bytes → Option Nat × Bytes
  | [] => (some n, [])
  | b :: s =>
    match digit? b with
    | none => (some n, b :: s)
    | some d => if n * 10 + d < twoTo 31 then gatherPower (n * 10 + d) s else (none, s)

def powerDigits (n : Nat) : Reader (Option Nat) := fun s => .ok (gatherPower n s)

def dropDigits : Reader Unit := fun s => .ok ((), s.dropWhile isDigit)

def signed (negative : Bool) (x : Binary64) : Number := .real (if negative then -x else x)

def scaled (negative : Bool) (n : Nat) (e : Int) : Reader Number :=
  match (Binary64.ofNat n).scaledTen? e with
  | none => failAhead .numberOutOfRange
  | some x => pure (signed negative x)

def powerSign : Reader Bool
  | [] => .ok (false, [])
  | b :: s =>
    if b = 0x2D then .ok (true, s)
    else if b = 0x2B then .ok (false, s)
    else .ok (false, b :: s)

def power (negative : Bool) (n : Nat) (e : Int) : Reader Number := do
  let minus ← powerSign
  let b ← next .endInValue
  match digit? b with
  | none => fail .badNumber
  | some d =>
    match ← powerDigits d with
    | some k => scaled negative n (if minus then e - k else e + k)
    | none =>
      if n != 0 && !minus then fail .numberOutOfRange
      else do
        dropDigits
        pure (signed negative .zero)

def powered (negative : Bool) (n : Nat) (e : Int) : Reader Number
  | [] => scaled negative n e []
  | b :: s => if isPower b then power negative n e s else scaled negative n e (b :: s)

def fraction (negative : Bool) (n : Nat) (e : Int) : Reader Number := fun s =>
  let g := gather n s
  match g.2.2 with
  | [] => if g.2.1 = 0 then .error ⟨.endInValue, []⟩ else scaled negative g.1 (e - g.2.1) []
  | b :: r =>
    if g.2.1 = 0 && !isDigit b then .error ⟨.badNumber, r⟩
    else powered negative g.1 (e - g.2.1) ((b :: r).dropWhile isDigit)

/-- Behind the whole part, of which `dropped` digits did not fit. A whole number keeps its value if
it has one in 64 bits and is no negative zero. -/
def behindWhole (negative : Bool) (n dropped : Nat) : Reader Number := fun s =>
  let plain : Except Fault (Number × Bytes) :=
    if dropped != 0 then scaled negative n dropped s
    else if !negative then .ok (.whole n, s)
    else if n = 0 || twoTo 63 < n then .ok (signed true (.ofNat n), s)
    else .ok (.whole (-n), s)
  match s with
  | [] => plain
  | b :: r =>
    if b = 0x2E then fraction negative n dropped r
    else if isPower b then power negative n dropped r
    else plain

def unsigned (negative : Bool) (first : UInt8) : Reader Number :=
  match digit? first with
  | none => fail .badNumber
  | some 0 => fun s =>
    match s with
    | [] => behindWhole negative 0 0 []
    | b :: r => if isDigit b then .error ⟨.badNumber, r⟩ else behindWhole negative 0 0 (b :: r)
  | some d => fun s =>
    let g := gather d s
    behindWhole negative g.1 (g.2.2.takeWhile isDigit).length (g.2.2.dropWhile isDigit)

def number (first : UInt8) : Reader Number :=
  if first = 0x2D then do unsigned true (← next .endInValue) else unsigned false first

theorem length_gather (n : Nat) (s : Bytes) : (gather n s).2.2.length ≤ s.length := by
  induction s generalizing n with
  | nil => simp [gather]
  | cons b s ih =>
    simp only [gather]
    split
    · simp
    · next d _ =>
      split
      · exact Nat.le_succ_of_le (ih _)
      · simp

theorem length_gatherPower (n : Nat) (s : Bytes) : (gatherPower n s).2.length ≤ s.length := by
  induction s generalizing n with
  | nil => simp [gatherPower]
  | cons b s ih =>
    simp only [gatherPower]
    split
    · simp
    · split
      · exact Nat.le_succ_of_le (ih _)
      · simp

theorem stays_powerDigits (n : Nat) : Stays (powerDigits n) := by
  intro s v r h
  have hl := length_gatherPower n s
  rw [powerDigits, Except.ok.injEq] at h
  rwa [h] at hl

theorem stays_dropDigits : Stays dropDigits := by
  intro s v r h
  cases h
  exact (List.dropWhile_suffix _).length_le

theorem stays_scaled (negative : Bool) (n : Nat) (e : Int) : Stays (scaled negative n e) := by
  unfold scaled
  split
  · exact stays_failAhead _
  · exact stays_pure _

theorem stays_powerSign : Stays powerSign := by
  intro s v r h
  cases s with
  | nil => cases h; simp
  | cons b s =>
    simp only [powerSign] at h
    split at h
    · cases h; simp
    · split at h <;> cases h <;> simp

theorem stays_power (negative : Bool) (n : Nat) (e : Int) : Stays (power negative n e) := by
  refine stays_powerSign.bind fun minus => (shrinks_next _).stays.bind fun b => ?_
  split
  · exact stays_fail _
  · next d _ =>
    refine (stays_powerDigits d).bind fun k => ?_
    split
    · exact stays_scaled _ _ _
    · split
      · exact stays_fail _
      · exact stays_dropDigits.bind fun _ => stays_pure _

theorem stays_powered (negative : Bool) (n : Nat) (e : Int) : Stays (powered negative n e) := by
  intro s v r h
  cases s with
  | nil => exact stays_scaled _ _ _ h
  | cons b s =>
    simp only [powered] at h
    split at h
    · exact Nat.le_succ_of_le (stays_power _ _ _ h)
    · exact stays_scaled _ _ _ h

theorem stays_fraction (negative : Bool) (n : Nat) (e : Int) : Stays (fraction negative n e) := by
  intro s v r h
  have hg := length_gather n s
  simp only [fraction] at h
  split at h
  · split at h
    · cases h
    · exact Nat.le_trans (stays_scaled _ _ _ h) (Nat.zero_le _)
  · next b t ht =>
    rw [ht] at hg
    split at h
    · cases h
    · exact Nat.le_trans (stays_powered _ _ _ h)
        (Nat.le_trans (List.dropWhile_suffix _).length_le hg)

theorem stays_behindWhole (negative : Bool) (n dropped : Nat) :
    Stays (behindWhole negative n dropped) := by
  intro s v r h
  have plain : ∀ {v r}, (if dropped != 0 then scaled negative n dropped s
      else if !negative then .ok (.whole n, s)
      else if n = 0 || twoTo 63 < n then .ok (signed true (.ofNat n), s)
      else .ok (.whole (-n), s)) = Except.ok (v, r) → r.length ≤ s.length := by
    intro v r h
    split at h
    · exact stays_scaled _ _ _ h
    · split at h
      · cases h; simp
      · split at h <;> cases h <;> simp
  simp only [behindWhole] at h
  split at h
  · exact plain h
  · split at h
    · exact Nat.le_succ_of_le (stays_fraction _ _ _ h)
    · split at h
      · exact Nat.le_succ_of_le (stays_power _ _ _ h)
      · exact plain h

theorem stays_unsigned (negative : Bool) (first : UInt8) : Stays (unsigned negative first) := by
  unfold unsigned
  split
  · exact stays_fail _
  · intro s v r h
    cases s with
    | nil => exact stays_behindWhole _ _ _ h
    | cons b s =>
      simp only at h
      split at h
      · cases h
      · exact stays_behindWhole _ _ _ h
  · next d _ _ =>
    intro s v r h
    exact Nat.le_trans (stays_behindWhole _ _ _ h)
      (Nat.le_trans (List.dropWhile_suffix _).length_le (length_gather d s))

theorem stays_number (first : UInt8) : Stays (number first) := by
  unfold number
  split
  · exact (shrinks_next _).stays.bind fun b => stays_unsigned true b
  · exact stays_unsigned false first

end Json

end CallStrip

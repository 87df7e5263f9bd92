import CallStrip.Json.Container

/-!
Values that nobody asked for. Their form is checked to the end, at any depth, but neither the size
of numbers nor the characters of texts.
-/

namespace CallStrip.Json

open Reader

def skipPower : Reader Unit := do
  let _ ← powerSign
  let b ← next .badNumber
  if isDigit b then dropDigits else fail .badNumber

def skipFraction : Reader Unit
  | [] => .error ⟨.badNumber, []⟩
  | b :: s =>
    if !isDigit b then .error ⟨.badNumber, s⟩
    else match s.dropWhile isDigit with
      | [] => .ok ((), [])
      | c :: r => if isPower c then skipPower r else .ok ((), c :: r)

def skipBehindWhole : Reader Unit
  | [] => .ok ((), [])
  | b :: s =>
    if b = 0x2E then skipFraction s
    else if isPower b then skipPower s
    else .ok ((), b :: s)

def skipUnsigned (first : UInt8) : Reader Unit :=
  if first = 0x30 then fun s =>
    match s with
    | [] => .ok ((), [])
    | b :: r => if isDigit b then .error ⟨.badNumber, r⟩ else skipBehindWhole (b :: r)
  else if isDigit first then do
    dropDigits
    skipBehindWhole
  else fail .badNumber

def skipScalar (first : UInt8) : Reader Unit :=
  if first = 0x6E then word [0x75, 0x6C, 0x6C]
  else if first = 0x74 then word [0x72, 0x75, 0x65]
  else if first = 0x66 then word [0x61, 0x6C, 0x73, 0x65]
  else if first = 0x22 then skipQuoted
  else if first = 0x2D then do skipUnsigned (← next .badNumber)
  else if isDigit first then skipUnsigned first
  else fail .noValue

inductive Bracket where
  | list
  | object
  deriving DecidableEq, Repr

namespace Bracket

def opened? (b : UInt8) : Option Bracket :=
  if b = 0x5B then some .list else if b = 0x7B then some .object else none

def close : Bracket → UInt8
  | .list => 0x5D
  | .object => 0x7D

def ended : Bracket → Cause
  | .list => .endInList
  | .object => .endInObject

def notContinued : Bracket → Cause
  | .list => .listNotContinued
  | .object => .objectNotContinued

def lead : Bracket → Reader Unit
  | .list => pure ()
  | .object => do
    let b ← nextInk .endInObject
    if b = 0x22 then do
      skipQuoted
      colon
    else fail .keyNotText

end Bracket

theorem stays_skipPower : Stays skipPower := by
  refine stays_powerSign.bind fun _ => (shrinks_next _).stays.bind fun b => ?_
  split
  · exact stays_dropDigits
  · exact stays_fail _

theorem stays_skipFraction : Stays skipFraction := by
  intro s v r h
  cases s with
  | nil => cases h
  | cons b s =>
    have hs := (List.dropWhile_suffix (l := s) isDigit).length_le
    simp only [skipFraction] at h
    split at h
    · cases h
    · split at h
      · cases h; simp
      · next c t ht =>
        rw [ht] at hs
        split at h
        · exact Nat.le_trans (stays_skipPower h) (Nat.le_succ_of_le (Nat.le_of_succ_le hs))
        · cases h
          exact Nat.le_succ_of_le hs

theorem stays_skipBehindWhole : Stays skipBehindWhole := by
  intro s v r h
  cases s with
  | nil => cases h; simp
  | cons b s =>
    simp only [skipBehindWhole] at h
    split at h
    · exact Nat.le_succ_of_le (stays_skipFraction h)
    · split at h
      · exact Nat.le_succ_of_le (stays_skipPower h)
      · cases h; simp

theorem stays_skipUnsigned (first : UInt8) : Stays (skipUnsigned first) := by
  unfold skipUnsigned
  split
  · intro s v r h
    cases s with
    | nil => cases h; simp
    | cons b s =>
      simp only at h
      split at h
      · cases h
      · exact stays_skipBehindWhole h
  · split
    · exact stays_dropDigits.bind fun _ => stays_skipBehindWhole
    · exact stays_fail _

theorem stays_skipScalar (first : UInt8) : Stays (skipScalar first) := by
  unfold skipScalar
  repeat' split
  · exact stays_word _
  · exact stays_word _
  · exact stays_word _
  · exact (shrinks_skipQuotedFrom .plain).stays
  · exact (shrinks_next _).stays.bind fun b => stays_skipUnsigned b
  · exact stays_skipUnsigned first
  · exact stays_fail _

theorem Bracket.stays_lead (k : Bracket) : Stays k.lead := by
  cases k with
  | list => exact stays_pure _
  | object =>
    refine (shrinks_nextInk _).stays.bind fun b => ?_
    split
    · exact (shrinks_skipQuotedFrom .plain).stays.bind fun _ => shrinks_colon.stays
    · exact stays_fail _

/-- Where a skip stands: before a value, or inside the innermost open bracket, with or without a
value before it. -/
inductive SkipMode where
  | value
  | inside (behindValue : Bool)
  deriving DecidableEq, Repr

def SkipMode.rank : SkipMode → Nat
  | .value => 0
  | .inside _ => 1

/-- Skips up to the end of the outermost value; `ks` lists the open brackets, the innermost
first. -/
def skipFrom (mode : SkipMode) (ks : List Bracket) (s : Bytes) : Except Fault (Unit × Bytes) :=
  match mode, ks with
  | .value, ks =>
    match _hn : nextInk .endInValue s with
    | .error e => .error e
    | .ok (b, r) =>
      match Bracket.opened? b with
      | some k => skipFrom (.inside false) (k :: ks) r
      | none =>
        match _hs : skipScalar b r with
        | .error e => .error e
        | .ok (_, t) => skipFrom (.inside true) ks t
  | .inside _, [] => .ok ((), s)
  | .inside behindValue, k :: ks =>
    match _hn : nextInk k.ended s with
    | .error e => .error e
    | .ok (b, r) =>
      if b = k.close then skipFrom (.inside true) ks r
      else if behindValue then
        if b = 0x2C then
          match _hl : k.lead r with
          | .error e => .error e
          | .ok (_, t) => skipFrom .value (k :: ks) t
        else .error ⟨k.notContinued, r⟩
      else
        match _hl : k.lead s with
        | .error e => .error e
        | .ok (_, t) => skipFrom .value (k :: ks) t
termination_by (s.length, mode.rank)
decreasing_by
  · exact Prod.Lex.left _ _ (shrinks_nextInk _ _hn)
  · exact Prod.Lex.left _ _
      (Nat.lt_of_le_of_lt (stays_skipScalar b _hs) (shrinks_nextInk _ _hn))
  · exact Prod.Lex.left _ _ (shrinks_nextInk _ _hn)
  · exact Prod.Lex.left _ _ (Nat.lt_of_le_of_lt (k.stays_lead _hl) (shrinks_nextInk _ _hn))
  · rcases Nat.lt_or_eq_of_le (k.stays_lead _hl) with h | h
    · exact Prod.Lex.left _ _ h
    · rw [h]
      exact Prod.Lex.right _ Nat.zero_lt_one

def skipValue : Reader Unit := skipFrom .value []

theorem stays_skipFrom (mode : SkipMode) (ks : List Bracket) : Stays (skipFrom mode ks) := by
  intro s v r h
  fun_induction skipFrom mode ks s generalizing v r <;>
    grind [Stays, Shrinks, shrinks_nextInk, stays_skipScalar, Bracket.stays_lead]

end CallStrip.Json

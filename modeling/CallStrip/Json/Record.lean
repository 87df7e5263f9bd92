import CallStrip.Json.Skip
import CallStrip.Json.Value

/-!
Records: values of a fixed shape. A record is written as an object with the names of its fields,
where other keys may stand too, or as a list of its fields in order.
-/

namespace CallStrip.Json

open Reader

variable {α σ : Type}

/-- A field of a record that is read into a draft `σ`, with room for some depth. -/
structure Field (σ : Type) where
  key : Text
  required : Bool
  given : σ → Bool
  read : Nat → σ → Reader σ
  stays : ∀ d a, Stays (read d a)

structure Record (σ α : Type) where
  name : Text
  empty : σ
  fields : List (Field σ)
  finish : σ → Except Cause α

def mismatched (wanted : Wanted) (first : UInt8) : Reader α :=
  if first = 0x5B then fail (.mismatch .list wanted)
  else if first = 0x7B then fail (.mismatch .object wanted)
  else do
    match ← scalar first with
    | .number n => failAhead (.mismatch (.scalar (.number n)) wanted)
    | x => fail (.mismatch (.scalar x) wanted)

def closeList : Reader Unit := do
  let b ← nextInk .endInList
  if b = 0x5D then pure ()
  else if b = 0x2C then do
    let c ← nextInk .trailingBytes
    fail (if c = 0x5D then .trailingComma else .trailingBytes)
  else fail .trailingBytes

def typedList (item : Reader α) (h : Shrinks item) (depth : Nat) : Reader (List α) := do
  let b ← nextInk .endInValue
  if b = 0x5B then
    if depth = 0 then fail .tooDeep else items item h true
  else mismatched .list b

namespace Record

/-- The value behind a key: that of a field, which must not be given twice, or one to skip. -/
def member (l : Record σ α) (depth : Nat) (k : Text) (a : σ) : Reader σ :=
  match l.fields.find? (·.key = k) with
  | none => do
    colon
    skipValue
    pure a
  | some f =>
    if f.given a then do
      blanks
      failAhead (.duplicate k)
    else do
      colon
      f.read depth a

theorem stays_member (l : Record σ α) (depth : Nat) (k : Text) (a : σ) :
    Stays (l.member depth k a) := by
  unfold member
  split
  · exact shrinks_colon.stays.bind fun _ =>
      (stays_skipFrom .value []).bind fun _ => stays_pure _
  · next f _ =>
    split
    · exact stays_blanks.bind fun _ => stays_failAhead _
    · exact shrinks_colon.stays.bind fun _ => f.stays depth a

def listed (l : Record σ α) (depth : Nat) (count : Nat) (a : σ) : List (Field σ) → Reader σ
  | [] => do
    closeList
    pure a
  | f :: fs => do
    if ← moreItems (count = 0) then l.listed depth (count + 1) (← f.read depth a) fs
    else if f.required then fail (.tooShort count l.name l.fields.length)
    else pure a

theorem stays_closeList : Stays closeList := by
  refine (shrinks_nextInk _).stays.bind fun b => ?_
  split
  · exact stays_pure _
  · split
    · exact (shrinks_nextInk _).stays.bind fun _ => stays_fail _
    · exact stays_fail _

theorem stays_listed (l : Record σ α) (depth count : Nat) (a : σ) (fs : List (Field σ)) :
    Stays (l.listed depth count a fs) := by
  induction fs generalizing count a with
  | nil => exact stays_closeList.bind fun _ => stays_pure _
  | cons f fs ih =>
    refine (stays_moreItems _).bind fun more => ?_
    split
    · exact (f.stays depth a).bind fun b => ih _ b
    · split
      · exact stays_fail _
      · exact stays_pure _

def finished (l : Record σ α) (a : σ) : Reader α :=
  match l.finish a with
  | .ok v => pure v
  | .error c => fail c

theorem stays_finished (l : Record σ α) (a : σ) : Stays (l.finished a) := by
  unfold finished
  split
  · exact stays_pure _
  · exact stays_fail _

def read (l : Record σ α) (depth : Nat) : Reader α := do
  let b ← nextInk .endInValue
  if b = 0x5B then
    if depth = 0 then fail .tooDeep
    else do l.finished (← l.listed (depth - 1) 0 l.empty l.fields)
  else if b = 0x7B then
    if depth = 0 then fail .tooDeep
    else do
      l.finished (← members (l.member (depth - 1)) (l.stays_member (depth - 1)) true l.empty)
  else mismatched (.record l.name) b

end Record

theorem stays_mismatched (wanted : Wanted) (first : UInt8) :
    Stays (mismatched wanted first : Reader α) := by
  unfold mismatched
  split
  · exact stays_fail _
  · split
    · exact stays_fail _
    · refine (stays_scalar first).bind fun x => ?_
      split
      · exact stays_failAhead _
      · exact stays_fail _

theorem shrinks_typedList (item : Reader α) (h : Shrinks item) (depth : Nat) :
    Shrinks (typedList item h depth) := by
  refine (shrinks_nextInk _).bind fun b => ?_
  split
  · split
    · exact stays_fail _
    · exact stays_items item h true
  · exact stays_mismatched _ _

theorem Record.shrinks_read (l : Record σ α) (depth : Nat) : Shrinks (l.read depth) := by
  refine (shrinks_nextInk _).bind fun b => ?_
  split
  · split
    · exact stays_fail _
    · exact (l.stays_listed _ _ _ _).bind fun a => l.stays_finished a
  · split
    · split
      · exact stays_fail _
      · exact (stays_members _ _ _ _).bind fun a => l.stays_finished a
    · exact stays_mismatched _ _

end CallStrip.Json

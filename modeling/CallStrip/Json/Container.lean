import CallStrip.Json.Number
import CallStrip.Json.Quoted

/-!
The parts shared by all readers of values: scalars, and the loops over the items of a list and the
members of an object, from behind the opening bracket to behind the closing one.
-/

namespace CallStrip.Json

open Reader

variable {α σ : Type}

def word : List UInt8 → Reader Unit
  | [] => pure ()
  | expected :: rest => do
    let b ← next .endInValue
    if b = expected then word rest else fail .badWord

def scalar (first : UInt8) : Reader Scalar :=
  if first = 0x6E then do word [0x75, 0x6C, 0x6C]; pure .null
  else if first = 0x74 then do word [0x72, 0x75, 0x65]; pure (.flag true)
  else if first = 0x66 then do word [0x61, 0x6C, 0x73, 0x65]; pure (.flag false)
  else if first = 0x22 then .text <$> quoted
  else if first = 0x2D || isDigit first then .number <$> number first
  else fail .noValue

/-- Whether a list goes on with an item, which stays. At its end the closing bracket is taken. -/
def moreItems (first : Bool) : Reader Bool := do
  blanks
  fun s => match s with
    | [] => .error ⟨.endInList, []⟩
    | b :: r =>
      if b = 0x5D then .ok (false, r)
      else if first then .ok (true, b :: r)
      else if b = 0x2C then
        match r.dropWhile isBlank with
        | [] => .error ⟨.endInValue, []⟩
        | c :: t => if c = 0x5D then .error ⟨.trailingComma, t⟩ else .ok (true, c :: t)
      else .error ⟨.listNotContinued, r⟩

def nextKey? (first : Bool) : Reader (Option Text) := do
  let b ← nextInk .endInObject
  if b = 0x7D then pure none
  else if first then
    if b = 0x22 then some <$> quoted else fail .keyNotText
  else if b = 0x2C then do
    let c ← nextInk .endInValue
    if c = 0x22 then some <$> quoted
    else if c = 0x7D then fail .trailingComma
    else fail .keyNotText
  else fail .objectNotContinued

def colon : Reader Unit := do
  let b ← nextInk .endInObject
  if b = 0x3A then pure () else fail .noColon

theorem stays_word (w : List UInt8) : Stays (word w) := by
  induction w with
  | nil => exact stays_pure _
  | cons b w ih =>
    refine (shrinks_next _).stays.bind fun c => ?_
    split
    · exact ih
    · exact stays_fail _

theorem stays_scalar (first : UInt8) : Stays (scalar first) := by
  unfold scalar
  repeat' split
  · exact (stays_word _).bind fun _ => stays_pure _
  · exact (stays_word _).bind fun _ => stays_pure _
  · exact (stays_word _).bind fun _ => stays_pure _
  · exact shrinks_quoted.stays.map _
  · exact (stays_number _).map _
  · exact stays_fail _

theorem stays_moreItems (first : Bool) : Stays (moreItems first) := by
  refine stays_blanks.bind fun _ => ?_
  intro s v r h
  cases s with
  | nil => cases h
  | cons b s =>
    simp only at h
    split at h
    · cases h; simp
    · split at h
      · cases h; simp
      · split at h
        · have hs := (List.dropWhile_suffix (l := s) isBlank).length_le
          split at h
          · cases h
          · next c t ht =>
            rw [ht] at hs
            split at h
            · cases h
            · cases h
              exact Nat.le_succ_of_le hs
        · cases h

theorem shrinks_nextKey? (first : Bool) : Shrinks (nextKey? first) := by
  refine (shrinks_nextInk _).bind fun b => ?_
  have hq : Stays (some <$> quoted) := shrinks_quoted.stays.map _
  split
  · exact stays_pure _
  · split
    · split
      · exact hq
      · exact stays_fail _
    · split
      · refine (shrinks_nextInk _).stays.bind fun c => ?_
        split
        · exact hq
        · split <;> exact stays_fail _
      · exact stays_fail _

theorem shrinks_colon : Shrinks colon := by
  refine (shrinks_nextInk _).bind fun b => ?_
  split
  · exact stays_pure _
  · exact stays_fail _

def items (item : Reader α) (h : Shrinks item) (first : Bool) (s : Bytes) :
    Except Fault (List α × Bytes) :=
  match _hm : moreItems first s with
  | .error e => .error e
  | .ok (false, r) => .ok ([], r)
  | .ok (true, r) =>
    match _hi : item r with
    | .error e => .error e
    | .ok (v, t) =>
      match items item h false t with
      | .error e => .error e
      | .ok (vs, u) => .ok (v :: vs, u)
termination_by s.length
decreasing_by exact Nat.lt_of_lt_of_le (h _hi) (stays_moreItems first _hm)

def members (member : Text → σ → Reader σ) (h : ∀ k a, Stays (member k a)) (first : Bool) (a : σ)
    (s : Bytes) : Except Fault (σ × Bytes) :=
  match _hk : nextKey? first s with
  | .error e => .error e
  | .ok (none, r) => .ok (a, r)
  | .ok (some k, r) =>
    match _hv : member k a r with
    | .error e => .error e
    | .ok (b, t) => members member h false b t
termination_by s.length
decreasing_by exact Nat.lt_of_le_of_lt (h k a _hv) (shrinks_nextKey? first _hk)

theorem stays_items (item : Reader α) (h : Shrinks item) (first : Bool) :
    Stays (items item h first) := by
  intro s v r hr
  fun_induction items item h first s generalizing v r with
  | case1 => cases hr
  | case2 first s t ht => cases hr; exact stays_moreItems _ ht
  | case3 => cases hr
  | case4 => cases hr
  | case5 first s t ht v' u hu vs w hw ih =>
    cases hr
    exact Nat.le_trans (ih hw) (Nat.le_of_lt (Nat.lt_of_lt_of_le (h hu) (stays_moreItems _ ht)))

theorem stays_members (member : Text → σ → Reader σ) (h : ∀ k a, Stays (member k a)) (first : Bool)
    (a : σ) : Stays (members member h first a) := by
  intro s v r hr
  fun_induction members member h first a s generalizing v r with
  | case1 => cases hr
  | case2 first a s t ht => cases hr; exact Nat.le_of_lt (shrinks_nextKey? _ ht)
  | case3 => cases hr
  | case4 first a s k t ht b u hu ih =>
    have hm := Nat.lt_of_le_of_lt (h _ _ hu) (shrinks_nextKey? _ ht)
    exact Nat.le_trans (ih hr) (Nat.le_of_lt hm)

end CallStrip.Json

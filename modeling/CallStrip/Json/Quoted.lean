import CallStrip.Json.Reader

/-!
Quoted texts of a document, byte by byte, from behind the opening quote.

`quoted` yields the text: escapes are resolved, a pair of surrogates makes one character, and the
bytes together must be UTF-8. `skipQuoted` only finds the end: an escape needs its hex digits, but
neither surrogates nor bytes are looked at.
-/

namespace CallStrip.Json

open Reader

def hexDigit? (b : UInt8) : Option Nat :=
  if 0x30 ≤ b && b ≤ 0x39 then some (b.toNat - 0x30)
  else if 0x61 ≤ b && b ≤ 0x66 then some (b.toNat - 0x61 + 10)
  else if 0x41 ≤ b && b ≤ 0x46 then some (b.toNat - 0x41 + 10)
  else none

def hexValue? : List UInt8 → Option Nat
  | [] => some 0
  | b :: s => do return (← hexValue? s) * 16 + (← hexDigit? b)

def shortEscape? (b : UInt8) : Option UInt8 :=
  if b = 0x22 || b = 0x5C || b = 0x2F then some b
  else if b = 0x62 then some 0x08
  else if b = 0x66 then some 0x0C
  else if b = 0x6E then some 0x0A
  else if b = 0x72 then some 0x0D
  else if b = 0x74 then some 0x09
  else none

/-- Where the reader stands in a quoted text. `lead` is the first half of a pair of surrogates;
`seen` holds the hex digits so far, the last one first. -/
inductive QuoteState where
  | plain
  | escape
  | hex (lead : Option Nat) (seen : List UInt8)
  | betweenPair (lead : Nat)
  | betweenPairEscape (lead : Nat)
  deriving DecidableEq, Repr

def resolveHex (lead : Option Nat) (n : Nat) : Except Cause (Option Nat × Bytes) :=
  let low := 0xDC00 ≤ n && n ≤ 0xDFFF
  match lead with
  | some l =>
    if low then
      .ok (none, String.utf8EncodeChar (Char.ofNat ((l - 0xD800) * 0x400 + (n - 0xDC00) + 0x10000)))
    else .error .loneSurrogate
  | none =>
    if low then .error .loneSurrogate
    else if 0xD800 ≤ n && n ≤ 0xDBFF then .ok (some n, [])
    else .ok (none, String.utf8EncodeChar (Char.ofNat n))

def QuoteState.step (q : QuoteState) (b : UInt8) : Except Cause (Option QuoteState × Bytes) :=
  match q with
  | .plain =>
    if b = 0x22 then .ok (none, [])
    else if b = 0x5C then .ok (some .escape, [])
    else if b < 0x20 then .error .controlByte
    else .ok (some .plain, [b])
  | .escape =>
    if b = 0x75 then .ok (some (.hex none []), [])
    else match shortEscape? b with
      | some e => .ok (some .plain, [e])
      | none => .error .badEscape
  | .hex lead seen =>
    if seen.length < 3 then .ok (some (.hex lead (b :: seen)), [])
    else match hexValue? (b :: seen) with
      | none => .error .badEscape
      | some n => do
        match ← resolveHex lead n with
        | (some l, out) => return (some (.betweenPair l), out)
        | (none, out) => return (some .plain, out)
  | .betweenPair lead =>
    if b = 0x5C then .ok (some (.betweenPairEscape lead), []) else .error .surrogateCutShort
  | .betweenPairEscape lead =>
    if b = 0x75 then .ok (some (.hex (some lead) []), []) else .error .surrogateCutShort

def quotedBytes (q : QuoteState) : Reader Bytes
  | [] => .error ⟨.endInText, []⟩
  | b :: s =>
    match q.step b with
    | .error c => .error ⟨c, s⟩
    | .ok (none, out) => .ok (out, s)
    | .ok (some q, out) => do
      let (rest, s) ← quotedBytes q s
      return (out ++ rest, s)

/-- A quoted text. Bytes that are no UTF-8 are found out at its end; the fault lies as far before
the end as bytes are left from the first bad one on. -/
def quoted : Reader Text := fun s =>
  match quotedBytes .plain s with
  | .error f => .error f
  | .ok (out, r) =>
    match Utf8.split out with
    | (t, []) => .ok (t, r)
    | (_, bad) => .error ⟨.notUnicode, s.drop (s.length - r.length - bad.length)⟩

inductive SkipState where
  | plain
  | escape
  | hex (seen : List UInt8)
  deriving DecidableEq, Repr

def SkipState.step (q : SkipState) (b : UInt8) : Except Cause (Option SkipState) :=
  match q with
  | .plain =>
    if b = 0x22 then .ok none
    else if b = 0x5C then .ok (some .escape)
    else if b < 0x20 then .error .controlByte
    else .ok (some .plain)
  | .escape =>
    if b = 0x75 then .ok (some (.hex []))
    else if (shortEscape? b).isSome then .ok (some .plain)
    else .error .badEscape
  | .hex seen =>
    if seen.length < 3 then .ok (some (.hex (b :: seen)))
    else if (hexValue? (b :: seen)).isSome then .ok (some .plain)
    else .error .badEscape

def skipQuotedFrom (q : SkipState) : Reader Unit
  | [] => .error ⟨.endInText, []⟩
  | b :: s =>
    match q.step b with
    | .error c => .error ⟨c, s⟩
    | .ok none => .ok ((), s)
    | .ok (some q) => skipQuotedFrom q s

def skipQuoted : Reader Unit := skipQuotedFrom .plain

theorem shrinks_quotedBytes (q : QuoteState) : Shrinks (quotedBytes q) := by
  intro s v r h
  induction s generalizing q v with
  | nil => cases h
  | cons b s ih =>
    simp only [quotedBytes] at h
    split at h
    · cases h
    · cases h; simp
    · next q' out _ =>
      cases hq : quotedBytes q' s with
      | error e => rw [hq] at h; cases h
      | ok w =>
        rw [hq] at h
        cases h
        exact Nat.lt_succ_of_lt (ih q' hq)

theorem shrinks_quoted : Shrinks quoted := by
  intro s v r h
  simp only [quoted] at h
  split at h
  · cases h
  · next hq =>
    split at h
    · cases h
      exact shrinks_quotedBytes .plain hq
    · cases h

theorem shrinks_skipQuotedFrom (q : SkipState) : Shrinks (skipQuotedFrom q) := by
  intro s v r h
  induction s generalizing q with
  | nil => cases h
  | cons b s ih =>
    simp only [skipQuotedFrom] at h
    split at h
    · cases h
    · cases h; simp
    · next q' _ => exact Nat.lt_succ_of_lt (ih q' h)

end CallStrip.Json

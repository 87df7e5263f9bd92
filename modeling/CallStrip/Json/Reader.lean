import CallStrip.Json.Fault
import CallStrip.Reading

/-!
Readers of a document.

A fault remembers which bytes were pulled. Numbers end by a look at the byte behind them, which then
counts as pulled: a fault found there is one of `failAhead`, all others are found in what was taken.
-/

namespace CallStrip.Json

abbrev Reader := Reading UInt8 Fault

namespace Reader

export Reading (Stays Shrinks stays_pure)

variable {α : Type}

def fail (c : Cause) : Reader α := fun s => .error ⟨c, s⟩

def failAhead (c : Cause) : Reader α := fun s => .error ⟨c, s.tail⟩

def next (c : Cause) : Reader UInt8
  | [] => .error ⟨c, []⟩
  | b :: s => .ok (b, s)

def isBlank (b : UInt8) : Bool := b == 0x20 || b == 0x0A || b == 0x09 || b == 0x0D

def blanks : Reader Unit := fun s => .ok ((), s.dropWhile isBlank)

def nextInk (c : Cause) : Reader UInt8 := do
  blanks
  next c

theorem stays_fail (c : Cause) : Stays (fail c : Reader α) := by
  intro s v r h
  cases h

theorem stays_failAhead (c : Cause) : Stays (failAhead c : Reader α) := by
  intro s v r h
  cases h

theorem shrinks_next (c : Cause) : Shrinks (next c) := by
  intro s v r h
  cases s with
  | nil => cases h
  | cons b s => cases h; simp

theorem stays_blanks : Stays blanks := by
  intro s v r h
  cases h
  exact (List.dropWhile_suffix _).length_le

theorem shrinks_nextInk (c : Cause) : Shrinks (nextInk c) :=
  stays_blanks.bind_shrinks fun _ => shrinks_next c

end Reader

end CallStrip.Json

import CallStrip.Scan
import CallStrip.Text.Line

/-!
Stripping a text: the lines that stay, and the spans of lines that go.
-/

namespace CallStrip

/-- Consecutive removed lines, counted from one, both ends included. -/
structure Span where
  first : Nat
  last : Nat
  unterminated : Bool := false
  deriving DecidableEq, Repr

def Span.lineCount (s : Span) : Nat := s.last - s.first + 1

structure Stripped where
  content : Text
  removed : Nat
  spans : List Span
  deriving DecidableEq, Repr

namespace Stripped

def unchanged (t : Text) : Stripped := ⟨t, 0, []⟩

def changed (s : Stripped) : Bool := 0 < s.removed

def keep (line : Text) (s : Stripped) : Stripped := { s with content := line ++ s.content }

def drop (s : Stripped) : Stripped := { s with removed := s.removed + 1 }

def cut (first last : Nat) (unterminated : Bool) (s : Stripped) : Stripped :=
  { s with spans := ⟨first, last, unterminated⟩ :: s.spans }

end Stripped

structure Stripper where
  markers : Markers
  rule : ClosingRule
  deriving DecidableEq

namespace Stripper

/-- The lines from number `n` on, scanned from state `s`; `start` is the line that opened the call
that is still open. -/
def scan (p : Stripper) (s : ScanState) (start n : Nat) : List Text → Stripped
  | [] => if s.active then (Stripped.unchanged []).cut start (n - 1) true else .unchanged []
  | l :: ls =>
    let next := s.step p.markers p.rule l
    let start := if s.active then start else n
    match next.2 with
    | .keep => (p.scan next.1 start (n + 1) ls).keep l
    | .drop =>
      if next.1.active then (p.scan next.1 start (n + 1) ls).drop
      else ((p.scan next.1 start (n + 1) ls).cut start n false).drop

/-- A text that nowhere has the target comes back as it is, without a scan. -/
def strip (p : Stripper) (t : Text) : Stripped :=
  if p.markers.appearsIn t then p.scan .idle 1 1 t.lines else .unchanged t

end Stripper

end CallStrip

import CallStrip.Text.Basic

/-!
Coloured text for terminals. A style stays in force over styled text that stands inside it.
-/

namespace CallStrip

inductive Hue where
  | grey
  | red
  | green
  | yellow
  | blue
  | cyan
  deriving DecidableEq, Repr

def Hue.code : Hue → Nat
  | .grey => 90
  | .red => 91
  | .green => 92
  | .yellow => 93
  | .blue => 94
  | .cyan => 96

structure Style where
  hue : Option Hue
  bold : Bool
  deriving DecidableEq, Repr

namespace Style

def strong : Style := ⟨none, true⟩

def ofHue (h : Hue) : Style := ⟨some h, false⟩

def heading (h : Hue) : Style := ⟨some h, true⟩

def codes (s : Style) : List Nat := (if s.bold then [1] else []) ++ (s.hue.map Hue.code).toList

def opening (s : Style) : Text :=
  "\x1b[".toList ++ Text.join [';'] (s.codes.map Text.ofNat) ++ ['m']

def closing : Text := "\x1b[0m".toList

/-- A text that takes up `start` again wherever a style in it ends. -/
def resumed (start : Text) : Text → Text
  | '\x1b' :: '[' :: '0' :: 'm' :: t => closing ++ start ++ resumed start t
  | c :: t => c :: resumed start t
  | [] => []

def apply (s : Style) (t : Text) : Text := s.opening ++ resumed s.opening t ++ closing

end Style

structure Ink where
  colored : Bool
  deriving DecidableEq, Repr

namespace Ink

/-- Of what the surroundings say, a demand for colours counts most, a refusal of them next, and the
kind of output last. -/
def choose (forced refused wanted : Option Text) (terminal : Bool) : Ink :=
  let isOn (t : Text) : Bool := t ≠ ['0']
  if forced.any isOn then ⟨true⟩
  else if refused.isSome then ⟨false⟩
  else ⟨wanted.all isOn && terminal⟩

def paint (i : Ink) (s : Style) (t : Text) : Text := if i.colored then s.apply t else t

def hue (i : Ink) (h : Hue) (t : Text) : Text := i.paint (.ofHue h) t

end Ink

end CallStrip

import CallStrip.Failure
import CallStrip.Style

/-!
Complaints: a failure as it is told to the one who ran the program, with everything it came from and
a piece of advice.
-/

namespace CallStrip

inductive Origin where
  | remark (t : Text)
  | io (c : IoCause)
  | failure (f : Failure)
  deriving DecidableEq, Repr

def Origin.chain : Origin → List Text
  | .remark t => [t]
  | .io c => c.text :: c.sources
  | .failure f => f.chain

/-- Where a failure came from, and what was being done, the outermost first. -/
structure Complaint where
  notes : List Text
  origin : Origin
  deriving DecidableEq, Repr

inductive Advice where
  | hint (t : Text)
  | elevate
  | verbose
  deriving DecidableEq, Repr

namespace Complaint

def ofFailure (f : Failure) : Complaint := ⟨[], .failure f⟩

def remark (t : Text) : Complaint := ⟨[], .remark t⟩

def within (what : Text) (c : Complaint) : Complaint := { c with notes := what :: c.notes }

def chain (c : Complaint) : List Text := c.notes ++ c.origin.chain

def headline (c : Complaint) : Text := c.chain.headD []

def hint? (c : Complaint) : Option Text :=
  match c.origin with
  | .failure f => f.hint?
  | _ => none

def advice (c : Complaint) : Advice :=
  match c.hint? with
  | some t => .hint t
  | none =>
    if Text.occurs "Permission denied".toList c.headline then .elevate else .verbose

def adviceLine (i : Ink) : Advice → Text
  | .hint t => Text.lineOf ["  ", i.hue .cyan "└", " ", t]
  | .elevate => Text.lineOf ["  ", i.hue .cyan "└", " Try running with elevated permissions"]
  | .verbose =>
    Text.lineOf ["  ", i.hue .grey "└", " Run with ", i.hue .cyan "--verbose", " for more details"]

def causeLine (i : Ink) (t : Text) : Text := Text.lineOf ["  ", i.hue .grey "├", " ", t]

def display (i : Ink) (c : Complaint) : Text :=
  let heading (t : Text) : Text := i.paint (.heading .red) t
  Text.lineOf ["\n", heading "✗", " ", heading "Operation failed"] ++
    c.chain.flatMap (causeLine i) ++ adviceLine i c.advice

end Complaint

end CallStrip

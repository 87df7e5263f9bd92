import CallStrip.Marker

/-!
The line scanner: which lines go, and when a call that spans several lines is closed.
-/

namespace CallStrip

inductive ClosingRule where
  | paren
  | brace
  | line
  deriving DecidableEq, Repr

namespace ClosingRule

def all : List ClosingRule := [.paren, .brace, .line]

def name : ClosingRule → Text
  | .paren => "paren".toList
  | .brace => "brace".toList
  | .line => "line".toList

def ofName? (t : Text) : Option ClosingRule := all.find? (·.name = t)

theorem ofName?_name (r : ClosingRule) : ofName? r.name = some r := by
  cases r <;> decide

end ClosingRule

@[ext] structure Balance where
  braces : Int := 0
  parens : Int := 0
  deriving DecidableEq, Repr

namespace Balance

instance : Add Balance := ⟨fun a b => ⟨a.braces + b.braces, a.parens + b.parens⟩⟩

def ofChar : Char → Balance
  | '\x7b' => ⟨1, 0⟩
  | '\x7d' => ⟨-1, 0⟩
  | '(' => ⟨0, 1⟩
  | ')' => ⟨0, -1⟩
  | _ => ⟨0, 0⟩

/-- Every bracket counts, those in strings and comments too. -/
def of : Text → Balance
  | [] => ⟨0, 0⟩
  | c :: t => ofChar c + of t

@[simp] theorem braces_add (a b : Balance) : (a + b).braces = a.braces + b.braces := rfl

@[simp] theorem parens_add (a b : Balance) : (a + b).parens = a.parens + b.parens := rfl

theorem of_append (s t : Text) : of (s ++ t) = of s + of t := by
  induction s with
  | nil => ext <;> simp [of]
  | cons c s ih => ext <;> simp [of, ih, Int.add_assoc]

end Balance

inductive Verdict where
  | keep
  | drop
  deriving DecidableEq, Repr

/-- What one line hands to the next: whether a call is open, and the balance since it was opened. -/
structure ScanState where
  active : Bool := false
  balance : Balance := ⟨0, 0⟩
  deriving DecidableEq, Repr

def endsStatement (t : Text) : Bool := ")".toList.isSuffixOf t

def endsCall (t : Text) : Bool := ");".toList.isSuffixOf t

namespace ScanState

def idle : ScanState := ⟨false, ⟨0, 0⟩⟩

def openedBy (line : Text) : ScanState := ⟨true, Balance.of line⟩

def closes (rule : ClosingRule) (b : Balance) (line : Text) : Bool :=
  match rule with
  | .paren => b.parens ≤ 0 && (endsCall line.trim || endsStatement line.trim)
  | .brace => b.braces ≤ 0 && endsCall line.trim
  | .line => true

def enter (m : Markers) (rule : ClosingRule) (s : ScanState) (line : Text) : ScanState × Verdict :=
  match rule with
  | .paren =>
    if endsCall line.trim || m.wholeCall line.trim then (s, .drop)
    else if m.containsCall line then (openedBy line, .drop)
    else (s, .keep)
  | .brace => if endsCall line.trim then (s, .drop) else (openedBy line, .drop)
  | .line => if m.statementCall line then (s, .drop) else (s, .keep)

def step (m : Markers) (rule : ClosingRule) (s : ScanState) (line : Text) : ScanState × Verdict :=
  if s.active then
    let b := s.balance + Balance.of line
    (if closes rule b line then idle else ⟨true, b⟩, .drop)
  else match m.classify line with
    | .bare => enter m rule s line
    | _ => (s, .keep)

def trace (m : Markers) (rule : ClosingRule) (s : ScanState) :
    List Text → List (ScanState × Verdict)
  | [] => []
  | l :: ls => s.step m rule l :: trace m rule (s.step m rule l).1 ls

end ScanState

end CallStrip

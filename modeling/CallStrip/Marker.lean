import CallStrip.Text.Blank

/-!
Markers: the call that is to be removed, the target, and the calls that guard a line from removal.
-/

namespace CallStrip

structure Markers where
  target : Text
  guards : List Text
  target_ne_nil : target ≠ []
  guards_ne_nil : ∀ g ∈ guards, g ≠ []
  deriving DecidableEq

inductive MarkerFault where
  | emptyTarget
  | emptyGuard
  deriving DecidableEq, Repr

inductive Mention where
  | absent
  | bare
  | guarded
  deriving DecidableEq, Repr

namespace Markers

def make (target : Text) (guards : List Text) : Except MarkerFault Markers :=
  if ht : target = [] then .error .emptyTarget
  else if hg : ∀ g ∈ guards, g ≠ [] then .ok ⟨target, guards, ht, hg⟩
  else .error .emptyGuard

def defaultTarget : Text := "console.log".toList

def defaultGuards : List Text := ["console.error".toList, "console.warn".toList]

def call (m : Markers) : Text := m.target ++ ['(']

def appearsIn (m : Markers) (t : Text) : Bool := Text.occurs m.target t

def opensCall (m : Markers) (t : Text) : Bool := m.call.isPrefixOf t

def containsCall (m : Markers) (t : Text) : Bool := Text.occurs m.call t

/-- The call opens the line, or two blanks stand before it. -/
def statementCall (m : Markers) (line : Text) : Bool :=
  m.opensCall line.trim || Text.occurs (' ' :: ' ' :: m.call) line

/-- One call and nothing else: no closing parenthesis before the last one, which at most a
semicolon follows. -/
def wholeCall (m : Markers) (t : Text) : Bool :=
  match Text.after? m.call t with
  | none => false
  | some rest =>
    match Text.before? [')'] ((Text.before? [';'] rest).getD rest) with
    | none => false
    | some args => !args.contains ')'

def classify (m : Markers) (line : Text) : Mention :=
  if !m.appearsIn line then .absent
  else if m.guards.any (Text.occurs · line) then .guarded
  else .bare

end Markers

end CallStrip

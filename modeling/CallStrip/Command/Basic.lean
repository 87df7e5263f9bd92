import CallStrip.Target

/-!
Commands, and an invocation of one of them on a project.
-/

namespace CallStrip

structure Scope where
  selection : Selection
  rule : Option ClosingRule
  deriving DecidableEq, Repr

inductive Command where
  | strip (scope : Scope) (dry : Bool)
  | preview (file : Path) (listing : Bool) (rule : Option ClosingRule)
  | check (scope : Scope)
  | summarize
  | init
  | assign (key value : Text)
  | lookup (key : Text)
  | list
  deriving DecidableEq, Repr

structure Invocation where
  root : Path
  verbose : Bool
  command : Command
  deriving DecidableEq, Repr

end CallStrip

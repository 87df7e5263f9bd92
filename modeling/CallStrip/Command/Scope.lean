import CallStrip.Command.Basic
import CallStrip.Complaint
import CallStrip.Survey

/-!
Work on the targets of a scope: the project is opened, its targets are resolved, and then the work
is done on them. Each of the first two steps may fail.
-/

namespace CallStrip

inductive Outcome (α : Type) where
  | unopened (c : Complaint)
  | unresolved (p : Project) (c : Complaint)
  | finished (p : Project) (result : α)

variable {m : Type → Type} [Monad m] [Disk m]

def Project.openAt (root : Path) (rule : Option ClosingRule) : m (Except Complaint Project) := do
  match ← (Project.load root : Action m Project).run with
  | .error f =>
    return .error ((Complaint.ofFailure f).within "Failed to load logscrub configuration")
  | .ok p => return .ok ((rule.map p.withRule).getD p)

namespace Scope

def perform {α : Type} (s : Scope) (root : Path) (work : Project → List Path → m α) :
    m (Outcome α) := do
  match ← Project.openAt root s.rule with
  | .error c => return .unopened c
  | .ok p =>
    match ← (p.targets s.selection : Action m (List Path)).run with
    | .error f =>
      return .unresolved p ((Complaint.ofFailure f).within "Failed to resolve target files")
    | .ok paths => return .finished p (← work p paths)

def strip (s : Scope) (root : Path) (dry : Bool) : m (Outcome Run) :=
  s.perform root fun p paths => p.run dry paths

def survey (s : Scope) (root : Path) : m (Outcome Survey) :=
  s.perform root fun p paths => p.survey paths

end Scope

end CallStrip

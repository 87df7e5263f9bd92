import CallStrip.Settings.File
import CallStrip.Target

/-!
A project: its settings, the stripper they make, and runs over its files. A run goes on from file to
file until one fails; a file that is missing is no failure.
-/

namespace CallStrip

structure Project where
  file : SettingsFile
  stripper : Stripper
  root : Path
  deriving DecidableEq

inductive Visit where
  | missing
  | unchanged
  | modified (removed : Nat) (written : Bool)
  deriving DecidableEq, Repr

def Visit.removed : Visit → Nat
  | .modified n _ => n
  | _ => 0

structure Tally where
  seen : Nat := 0
  modified : Nat := 0
  missing : Nat := 0
  removed : Nat := 0
  deriving DecidableEq, Repr

namespace Tally

def zero : Tally := ⟨0, 0, 0, 0⟩

def record (t : Tally) (v : Visit) : Tally :=
  let t := { t with seen := t.seen + 1 }
  match v with
  | .missing => { t with missing := t.missing + 1 }
  | .unchanged => t
  | .modified n _ => { t with modified := t.modified + 1, removed := t.removed + n }

def ofVisits (vs : List Visit) : Tally := vs.foldl record zero

def after (t : Tally) : List Visit → List Tally
  | [] => []
  | v :: vs => t.record v :: after (t.record v) vs

end Tally

structure Run where
  visits : List (Path × Visit)
  failure : Option Failure
  deriving DecidableEq, Repr

def Run.tally (r : Run) : Tally := .ofVisits (r.visits.map (·.2))

variable {m : Type → Type} [Monad m] [Disk m]

def Stripper.stripFile (p : Stripper) (dry : Bool) (path : Path) : Action m Visit :=
  ExceptT.mk do
    match ← Disk.readText path with
    | .error c =>
      if c.kind = .notFound then return .ok .missing
      else return .error (.io ((IoError.ofCause c).within ("Failed to read ".toList ++ path.text)))
    | .ok t =>
      let s := p.strip t
      if !s.changed then return .ok .unchanged
      else if dry then return .ok (.modified s.removed false)
      else match ← Disk.write path (Utf8.encode s.content) with
        | .ok () => return .ok (.modified s.removed true)
        | .error c =>
          return .error (.io ((IoError.ofCause c).within ("Failed to write ".toList ++ path.text)))

namespace Project

def ofFile (root : Path) (f : SettingsFile) : Except MarkerFault Project := do
  return ⟨f, ← f.settings.stripper, root⟩

def load (root : Path) : Action m Project := do
  let f ← SettingsFile.loadOrInitial root
  Action.ofExcept .markers (ofFile root f)

def init (root : Path) : Action m Project := do
  let _ ← SettingsFile.init root
  load root

def withRule (p : Project) (r : ClosingRule) : Project :=
  { p with stripper := { p.stripper with rule := r } }

def locate (p : Project) (path : Path) : Path := Path.anchor p.root path

def targets (p : Project) (s : Selection) : Action m (List Path) :=
  Target.resolve p.file.settings p.root s

def run (p : Project) (dry : Bool) : List Path → m Run
  | [] => return ⟨[], none⟩
  | path :: paths => do
    match ← (p.stripper.stripFile dry path).run with
    | .error f => return ⟨[], some f⟩
    | .ok v =>
      let r ← p.run dry paths
      return { r with visits := (path, v) :: r.visits }

end Project

end CallStrip

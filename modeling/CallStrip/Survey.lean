import CallStrip.Project

/-!
Surveys: the calls that are still in the files of a project. A survey changes no file.
-/

namespace CallStrip

structure Finding where
  path : Path
  span : Span
  first : Text
  deriving DecidableEq, Repr

structure Survey where
  findings : List Finding
  failure : Option (Path × IoCause)
  deriving DecidableEq, Repr

def Stripper.findings (p : Stripper) (path : Path) (t : Text) : List Finding :=
  let lines := t.shownLines
  (p.strip t).spans.map fun s => ⟨path, s, ((lines[s.first - 1]?).map Text.trim).getD []⟩

variable {m : Type → Type} [Monad m] [Disk m]

def Project.survey (p : Project) : List Path → m Survey
  | [] => return ⟨[], none⟩
  | path :: paths => do
    match ← Disk.readText path with
    | .error c => if c.kind = .notFound then p.survey paths else return ⟨[], some (path, c)⟩
    | .ok t =>
      let s ← p.survey paths
      return { s with findings := p.stripper.findings path t ++ s.findings }

end CallStrip

import CallStrip.Json.Value

/-!
A workspace: who looks at it and how, and its mission groups with their divisions and departments.
Its summary counts them, and the report is the summary as text.
-/

namespace CallStrip

structure Division where
  departments : List Json.Value
  deriving Repr

structure MissionGroup where
  name : Json.Value
  divisions : List Division
  deriving Repr

structure Workspace where
  viewType : Json.Value
  userRole : Json.Value
  groups : List MissionGroup
  deriving Repr

structure Summary where
  viewType : Text
  userRole : Text
  groupCount : Nat
  departmentCount : Nat
  leading : List (Text × Nat)
  deriving DecidableEq, Repr

/-- A value in a report: a text stands as it is, words have their own spelling, and everything else
is written as in a document. -/
def Json.Value.plain : Json.Value → Text
  | .scalar (.text t) => t
  | .scalar .null => "None".toList
  | .scalar (.flag true) => "True".toList
  | .scalar (.flag false) => "False".toList
  | v => v.render

def total {α : Type} (count : α → Nat) : List α → Nat
  | [] => 0
  | x :: xs => count x + total count xs

namespace MissionGroup

def departmentCount (g : MissionGroup) : Nat := total (·.departments.length) g.divisions

end MissionGroup

namespace Workspace

def listedGroups : Nat := 3

def summary (w : Workspace) : Summary where
  viewType := w.viewType.plain
  userRole := w.userRole.plain
  groupCount := w.groups.length
  departmentCount := total (·.departmentCount) w.groups
  leading := (w.groups.take listedGroups).map fun g => (g.name.plain, g.divisions.length)

end Workspace

namespace Summary

def groupLine (g : Text × Nat) : Text :=
  "  - ".toList ++ g.1 ++ " (".toList ++ Text.ofNat g.2 ++ " divisions)\n".toList

def report (s : Summary) : Text :=
  "View Type: ".toList ++ s.viewType ++ ['\n'] ++
  "User Role: ".toList ++ s.userRole ++ ['\n'] ++
  "Mission Groups: ".toList ++ Text.ofNat s.groupCount ++ ['\n'] ++
  "Total Departments: ".toList ++ Text.ofNat s.departmentCount ++ ['\n', '\n'] ++
  "First ".toList ++ Text.ofNat Workspace.listedGroups ++ " Mission Groups:\n".toList ++
  s.leading.flatMap groupLine

end Summary

end CallStrip

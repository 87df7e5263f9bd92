import CallStrip.Path
import CallStrip.Strip
import CallStrip.Text.Blank

/-!
The settings of a project, and the six of them that have a key.
-/

namespace CallStrip

structure Settings where
  version : Text
  target : Text
  guards : List Text
  rule : ClosingRule
  files : List Text
  discoverRoot : Text
  discoverExtension : Text
  deriving DecidableEq, Repr

inductive SettingsFault where
  | notFound (path : Path)
  | malformed
  | unknownKey (key : Text)
  | badValue (field value : Text)
  deriving DecidableEq, Repr

inductive Key where
  | target
  | guards
  | rule
  | files
  | discoverRoot
  | discoverExtension
  deriving DecidableEq, Repr

namespace Key

def all : List Key := [.target, .guards, .rule, .files, .discoverRoot, .discoverExtension]

def name : Key → Text
  | .target => "markers.target".toList
  | .guards => "markers.protected".toList
  | .rule => "strip.strategy".toList
  | .files => "strip.files".toList
  | .discoverRoot => "strip.discover_root".toList
  | .discoverExtension => "strip.discover_extension".toList

def ofName? (t : Text) : Option Key := all.find? (·.name = t)

theorem ofName?_name (k : Key) : ofName? k.name = some k := by
  cases k <;> decide

end Key

def ClosingRule.parse (t : Text) : Except SettingsFault ClosingRule :=
  let name := t.trim.lowered
  match ofName? name with
  | some r => .ok r
  | none => .error (.badValue Key.rule.name name)

namespace Settings

def currentVersion : Text := "0.1.0".toList

def defaultFiles : List Text :=
  ["src/app/(auth)/login/page.tsx".toList,
   "src/app/(dashboard)/department/tasks/page.tsx".toList,
   "src/app/(dashboard)/projects/[projectId]/list/page.tsx".toList,
   "src/app/api/dashboard/route.ts".toList,
   "src/app/api/projects/[projectId]/tasks/route.ts".toList,
   "src/components/common/create-task-button.tsx".toList,
   "src/components/layout/department-toolbar.tsx".toList,
   "src/components/modals/create-task-modal.tsx".toList,
   "src/lib/calculate-progress.ts".toList,
   "src/lib/email.ts".toList]

def initial : Settings where
  version := currentVersion
  target := Markers.defaultTarget
  guards := Markers.defaultGuards
  rule := .paren
  files := defaultFiles
  discoverRoot := "src/app/api".toList
  discoverExtension := "ts".toList

def splitList (t : Text) : List Text := ((Text.pieces ',' t).map Text.trim).filter (· ≠ [])

def get (s : Settings) : Key → Text
  | .target => s.target
  | .guards => Text.join [','] s.guards
  | .rule => s.rule.name
  | .files => Text.join [','] s.files
  | .discoverRoot => s.discoverRoot
  | .discoverExtension => s.discoverExtension

def set (s : Settings) (k : Key) (value : Text) : Except SettingsFault Settings :=
  match k with
  | .target =>
    if value = [] then .error (.badValue k.name value) else .ok { s with target := value }
  | .guards => .ok { s with guards := splitList value }
  | .rule => do return { s with rule := ← ClosingRule.parse value }
  | .files => .ok { s with files := splitList value }
  | .discoverRoot => .ok { s with discoverRoot := value }
  | .discoverExtension => .ok { s with discoverExtension := value.dropWhile (· = '.') }

def key (name : Text) : Except SettingsFault Key :=
  match Key.ofName? name with
  | some k => .ok k
  | none => .error (.unknownKey name)

def getNamed (s : Settings) (name : Text) : Except SettingsFault Text := do
  return s.get (← key name)

def setNamed (s : Settings) (name value : Text) : Except SettingsFault Settings := do
  s.set (← key name) value

def entries (s : Settings) : List (Text × Text) := Key.all.map fun k => (k.name, s.get k)

def stripper (s : Settings) : Except MarkerFault Stripper := do
  return ⟨← Markers.make s.target s.guards, s.rule⟩

end Settings

end CallStrip

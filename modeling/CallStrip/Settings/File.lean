import CallStrip.Action
import CallStrip.Settings.Document

/-!
The file that keeps the settings of a project: how it is made, loaded and saved.
-/

namespace CallStrip

structure SettingsFile where
  settings : Settings
  path : Path
  deriving DecidableEq, Repr

namespace SettingsFile

def folderName : Path := .ofString ".logscrub"

def fileName : Path := .ofString "config.toml"

def pathFor (root : Path) : Path := (root.join folderName).join fileName

def initial : SettingsFile := ⟨.initial, folderName.join fileName⟩

variable {m : Type → Type} [Monad m] [Disk m]

def ofText (path : Path) (t : Text) : Except SettingsFault SettingsFile :=
  match Settings.parse? t with
  | some s => .ok ⟨s, path⟩
  | none => .error .malformed

def load (root : Path) : Action m SettingsFile := do
  let path := pathFor root
  if ← (Disk.present path : m Bool) then
    let t ← Action.attempt ("Failed to read ".toList ++ path.text) (Disk.readText path)
    Action.ofExcept .settings (ofText path t)
  else throw (.settings (.notFound path))

def loadOrInitial (root : Path) : Action m SettingsFile := do
  if ← (Disk.present (pathFor root) : m Bool) then load root else return ⟨.initial, pathFor root⟩

def save (f : SettingsFile) : Action m Unit := do
  if let some folder := f.path.parent? then
    Action.attempt "Failed to create config directory".toList (Disk.makeFolders folder)
  Action.attempt "Failed to write config file".toList
    (Disk.write f.path (Utf8.encode f.settings.render))

def init (root : Path) : Action m Path := do
  if ← (Disk.present (pathFor root) : m Bool) then return pathFor root
  save ⟨.initial, pathFor root⟩
  return pathFor root

/-- Sets one key and saves. A value that is not taken changes nothing; settings that cannot be saved
are changed all the same. -/
def assign (f : SettingsFile) (key value : Text) : m (SettingsFile × Except Failure Unit) := do
  match f.settings.setNamed key value with
  | .error e => return (f, .error (.settings e))
  | .ok s => return (⟨s, f.path⟩, ← (save ⟨s, f.path⟩).run)

end SettingsFile

end CallStrip

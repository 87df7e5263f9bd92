import CallStrip.Settings.Basic
import CallStrip.Toml.Printer
import CallStrip.Toml.Reader

/-!
Settings as a TOML document. Every key has its line in one of two sections. A document may leave out
any of them, and whole sections, but not the version.
-/

namespace CallStrip

open Toml (Item Entries)

inductive Section where
  | markers
  | strip
  deriving DecidableEq, Repr

namespace Section

def all : List Section := [.markers, .strip]

def name : Section → Text
  | .markers => "markers".toList
  | .strip => "strip".toList

def keys : Section → List Key
  | .markers => [.target, .guards]
  | .strip => [.rule, .files, .discoverRoot, .discoverExtension]

end Section

def Key.field : Key → Text
  | .target => "target".toList
  | .guards => "protected".toList
  | .rule => "strategy".toList
  | .files => "files".toList
  | .discoverRoot => "discover_root".toList
  | .discoverExtension => "discover_extension".toList

def versionField : Text := "version".toList

namespace Settings

def writeKey (s : Settings) : Key → Text
  | .guards => Toml.writeList s.guards
  | .files => Toml.writeList s.files
  | k => Toml.quote (s.get k)

def writeLine (field value : Text) : Text := field ++ " = ".toList ++ value ++ ['\n']

def writeSection (s : Settings) (t : Section) : Text :=
  "\n[".toList ++ t.name ++ "]\n".toList ++ t.keys.flatMap fun k => writeLine k.field (s.writeKey k)

def render (s : Settings) : Text :=
  writeLine versionField (Toml.quote s.version) ++ Section.all.flatMap s.writeSection

end Settings

namespace Toml.Item

def text? : Item → Option Text
  | .text t => some t
  | _ => none

def texts? : Item → Option (List Text)
  | .list items => items.mapM text?
  | _ => none

def rule? : Item → Option ClosingRule
  | .text t => ClosingRule.ofName? t
  | .table _ [(t, .table _ [])] => ClosingRule.ofName? t
  | .table _ [(t, .list [])] => ClosingRule.ofName? t
  | _ => none

end Toml.Item

namespace Section

/-- The entries of a section. It may be missing, or be a list of its values in the order of its
keys. A date is a section without entries. -/
def entries? (t : Section) (doc : Entries) : Option Entries :=
  let inOrder (items : List Item) : Entries := (t.keys.map Key.field).zip items
  match doc.lookup t.name with
  | none => some []
  | some .date => some []
  | some (.table _ es) => some es
  | some (.list items) => some (inOrder items)
  | some (.tables rows) => some (inOrder (rows.map (.table .headed)))
  | some _ => none

end Section

namespace Settings

def take? (s : Settings) (k : Key) (x : Item) : Option Settings :=
  match k with
  | .target => do return { s with target := ← x.text? }
  | .guards => do return { s with guards := ← x.texts? }
  | .rule => do return { s with rule := ← x.rule? }
  | .files => do return { s with files := ← x.texts? }
  | .discoverRoot => do return { s with discoverRoot := ← x.text? }
  | .discoverExtension => do return { s with discoverExtension := ← x.text? }

def overlay (s : Settings) (doc : Entries) (t : Section) : Option Settings := do
  let es ← t.entries? doc
  t.keys.foldlM (fun s k =>
    match es.lookup k.field with
    | none => some s
    | some x => s.take? k x) s

def ofEntries? (doc : Entries) : Option Settings := do
  let version ← (← doc.lookup versionField).text?
  Section.all.foldlM (·.overlay doc ·) { initial with version := version }

def parse? (t : Text) : Option Settings := do ofEntries? (← Toml.parse t)

end Settings

end CallStrip

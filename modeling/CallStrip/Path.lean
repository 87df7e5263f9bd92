import CallStrip.Text.Visible
import CallStrip.Text.Utf8

/-!
Paths as they are written, and the components they stand for. Repeated and final separators do not
count, nor does a `.` other than one at the start. Names and paths are bytes, which need be no text:
0x2F parts the names and 0x2E is the point.
-/

namespace CallStrip

abbrev Name := Bytes

instance : Coe String Name := ⟨fun s => Utf8.encode s.toList⟩

structure Path where
  bytes : Bytes
  deriving DecidableEq, Repr

namespace Path

inductive Component where
  | root
  | here
  | up
  | name (n : Name)
  deriving DecidableEq, Repr

def ofText (t : Text) : Path := ⟨Utf8.encode t⟩

def ofString (s : String) : Path := ofText s.toList

def text (p : Path) : Text := Utf8.lossy p.bytes

def quoted (p : Path) : Text :=
  let byte (b : UInt8) : Text := ['\\', 'x'] ++ (Text.hex b.toNat).map Char.toUpper
  '"' :: Utf8.retell Text.visibleChar (·.flatMap byte) 0 p.bytes ++ ['"']

def isAbsolute (p : Path) : Bool := [0x2F].isPrefixOf p.bytes

def component? (n : Name) : Option Component :=
  if n = [] || n = [0x2E] then none
  else if n = [0x2E, 0x2E] then some .up
  else some (.name n)

def components (p : Path) : List Component :=
  let parts := Text.pieces 0x2F p.bytes
  let start : List Component :=
    if p.isAbsolute then [.root] else if parts.head? = some [0x2E] then [.here] else []
  start ++ parts.filterMap component?

def join (p q : Path) : Path :=
  if q.isAbsolute then q
  else if p.bytes = [] || [0x2F].isSuffixOf p.bytes then ⟨p.bytes ++ q.bytes⟩
  else ⟨p.bytes ++ 0x2F :: q.bytes⟩

def Component.bytes : Component → Bytes
  | .root => []
  | .here => [0x2E]
  | .up => [0x2E, 0x2E]
  | .name n => n

def ofComponents (cs : List Component) : Path :=
  if cs = [.root] then ⟨[0x2F]⟩ else ⟨Text.join [0x2F] (cs.map Component.bytes)⟩

/-- All but the last component. The root has no parent, and neither has the empty path. -/
def parent? (p : Path) : Option Path :=
  match p.components with
  | [] | [.root] => none
  | cs => some (ofComponents cs.dropLast)

/-- `path` as it is opened from a project at `base`: an absolute path stays, and so does any path
when the base is the working directory itself. -/
def anchor (base path : Path) : Path :=
  if path.isAbsolute || base.components = [.here] then path else base.join path

/-- What follows the last point of a file name that does not start with its only point. -/
def extension? (n : Name) : Option Name :=
  if n = [0x2E, 0x2E] then none
  else
    match (Text.pieces 0x2E n).reverse with
    | [] | [_] => none
    | [ext, first] => if first = [] then none else some ext
    | ext :: _ => some ext

end Path

end CallStrip

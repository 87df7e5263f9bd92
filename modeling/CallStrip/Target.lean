import CallStrip.Action

/-!
Targets: the files that a run works on, as a selection names them.
-/

namespace CallStrip

inductive Selection where
  | configured
  | listed (paths : List Path)
  | discovered
  deriving DecidableEq, Repr

/-- A name that is no text is not hidden, whatever byte it starts with. -/
def Name.isHidden (n : Name) : Bool :=
  match Utf8.decode n with
  | some t => t.head? = some '.'
  | none => false

namespace Child

def isVisible (i : Child) : Bool := !Name.isHidden i.name

def insert (i : Child) : List Child → List Child
  | [] => [i]
  | j :: children => if j.name < i.name then j :: insert i children else i :: j :: children

def inOrder (children : List Child) : List Child := children.foldr insert []

end Child

namespace Target

variable {m : Type → Type} [Monad m] [Disk m]

def listing (folder : Path) : ExceptT IoCause m (List Child) :=
  ExceptT.mk do
    match ← Disk.readFolder folder with
    | .ok children => return .ok (Child.inOrder children)
    | .error c => return .error (.unlisted folder c)

/-- The files of an extension in a folder and below it, those in a folder at the folder's place. A
path has no more names than it may have bytes, so that the room of `discover` is enough. -/
def filesBelow (extension : Name) : Nat → Path → ExceptT IoCause m (List Path)
  | 0, folder => throw (.unlisted folder .nameTooLong)
  | room + 1, folder => do
    let children ← listing folder
    let found ← (children.filter Child.isVisible).mapM fun i =>
      match i.kind with
      | .folder => filesBelow extension room (folder.join ⟨i.name⟩)
      | .file =>
        return if Path.extension? i.name = some extension then [folder.join ⟨i.name⟩] else []
      | .other => return []
    return found.flatten

def discover (root : Path) (extension : Text) : m (Except IoCause (List Path)) := do
  if ← Disk.isFolder root then
    (filesBelow (Utf8.encode extension) (FileTree.pathLimit + 1) root).run
  else return .ok []

def resolve (s : Settings) (root : Path) : Selection → Action m (List Path)
  | .configured => return s.files.map fun f => Path.anchor root (.ofText f)
  | .listed paths => return paths.map (Path.anchor root)
  | .discovered =>
    ExceptT.mk do
      match ← discover (Path.anchor root (.ofText s.discoverRoot)) s.discoverExtension with
      | .ok paths => return .ok paths
      | .error c => return .error (.io (.ofCause c))

end Target

end CallStrip

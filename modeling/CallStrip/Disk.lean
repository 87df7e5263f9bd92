import CallStrip.FileTree.Files

/-!
What the library asks of a disk, and the disk that is a tree in memory.
-/

namespace CallStrip

class Disk (m : Type → Type) where
  read : Path → m (Except IoCause Bytes)
  write : Path → Bytes → m (Except IoCause Unit)
  makeFolder : Path → m (Except IoCause Unit)
  isFolder : Path → m Bool
  present : Path → m Bool
  readFolder : Path → m (Except IoCause (List Child))

def FileTree.change (f : FileTree → Except IoCause FileTree) :
    StateM FileTree (Except IoCause Unit) :=
  fun t =>
    match f t with
    | .ok t => (.ok (), t)
    | .error c => (.error c, t)

instance : Disk (StateM FileTree) where
  read p := fun t => (t.read p, t)
  write p content := FileTree.change (·.write p content)
  makeFolder p := FileTree.change (·.makeFolder p)
  isFolder p := fun t => (t.isFolder p, t)
  present p := fun t => (t.present p, t)
  readFolder p := fun t => (t.readFolder p, t)

namespace Disk

variable {m : Type → Type} [Monad m] [Disk m]

def readText (p : Path) : m (Except IoCause Text) := do
  match ← read p with
  | .error c => return .error c
  | .ok content =>
    match Utf8.decode content with
    | some t => return .ok t
    | none => return .error .notUtf8

/-- A path and the folders above it, the innermost first. -/
def ancestors (p : Path) : List Path :=
  let rec above : List Path.Component → List Path
    | [] => []
    | [.root] => []
    | _ :: cs => Path.ofComponents cs.reverse :: above cs
  p :: above p.components.reverse

/-- Makes the first folder of a list, after those behind it where they are missing. -/
def makeFoldersFrom : List Path → m (Except IoCause Unit)
  | [] => return .error (.reported .other "failed to create whole tree".toList)
  | p :: outer => do
    if p.bytes = [] then return .ok ()
    match ← makeFolder p with
    | .ok () => return .ok ()
    | .error c =>
      if c.kind = .notFound then
        match ← makeFoldersFrom outer with
        | .error c => return .error c
        | .ok () =>
          match ← makeFolder p with
          | .ok () => return .ok ()
          | .error c => return if ← isFolder p then .ok () else .error c
      else return if ← isFolder p then .ok () else .error c

def makeFolders (p : Path) : m (Except IoCause Unit) := makeFoldersFrom (ancestors p)

end Disk

end CallStrip

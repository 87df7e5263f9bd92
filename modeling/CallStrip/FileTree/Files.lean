import CallStrip.FileTree.Walk
import CallStrip.IoError

/-!
Reading and changing a tree by paths.
-/

namespace CallStrip.FileTree

def read (t : FileTree) (p : Path) : Except IoCause Bytes := do
  let l ← t.find p
  match t.get? l with
  | some (.file content) => .ok content
  | _ => .error .isFolder

def write (t : FileTree) (p : Path) (content : Bytes) : Except IoCause FileTree := do
  match ← t.spot true p with
  | .entry l =>
    match t.get? l with
    | some (.file _) => .ok (t.put l (.file content))
    | _ => .error .isFolder
  | .noFolder _ => .error .isFolder
  | .free folder n slash =>
    if slash then .error .isFolder else .ok (t.put (folder ++ [n]) (.file content))

/-- A new folder where the name at the end of a path is free; a link there is not followed. -/
def makeFolder (t : FileTree) (p : Path) : Except IoCause FileTree := do
  match ← t.spot false p with
  | .free folder n _ => .ok (t.put (folder ++ [n]) .folder)
  | _ => .error .entryExists

def makeLink (t : FileTree) (p target : Path) : Except IoCause FileTree := do
  match ← t.spot false p with
  | .free folder n false => .ok (t.put (folder ++ [n]) (.link target))
  | .free _ _ true => .error .noEntry
  | _ => .error .entryExists

def remove (t : FileTree) (p : Path) : Except IoCause FileTree := do
  match ← t.spot false p with
  | .entry l => if t.get? l = some .folder then .error .isFolder else .ok (t.erase l)
  | .noFolder _ => .error .notFolder
  | .free _ _ _ => .error .noEntry

def childIn? (l : Location) (e : Location × Entry) : Option Child :=
  match e.1.getLast? with
  | some n => if e.1.dropLast = l then some ⟨n, e.2.kind⟩ else none
  | none => none

def children (t : FileTree) (l : Location) : List Child := t.entries.filterMap (childIn? l)

def readFolder (t : FileTree) (p : Path) : Except IoCause (List Child) := do
  let l ← t.find p
  if t.get? l = some .folder then .ok (t.children l) else .error .notFolder

end CallStrip.FileTree

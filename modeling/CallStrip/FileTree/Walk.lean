import CallStrip.FileTree.Basic
import CallStrip.IoError

/-!
How paths lead through a tree. A path is walked name by name; links on the way are followed, at most
`linkLimit` of them.
-/

namespace CallStrip

/-- One step of a walk. The last step of a path with a final separator is `slash`. -/
inductive Step where
  | stay
  | up
  | name (n : Name)
  | slash
  deriving DecidableEq, Repr

/-- Where a walk ends: at an entry, at one that is no folder though a separator follows its name,
or at a name that is free in its folder. -/
inductive Spot where
  | entry (l : Location)
  | noFolder (l : Location)
  | free (folder : Location) (name : Name) (slash : Bool)
  deriving DecidableEq, Repr

def Path.steps (p : Path) : List Step :=
  let step (n : Name) : Step :=
    if n = [0x2E] then .stay else if n = [0x2E, 0x2E] then .up else .name n
  let steps := ((Text.pieces 0x2F p.bytes).filter (· ≠ [])).map step
  match steps.getLast? with
  | some (.name _) => if [0x2F].isSuffixOf p.bytes then steps ++ [.slash] else steps
  | _ => steps

namespace FileTree

def linkLimit : Nat := 40

def nameLimit : Nat := 255

def pathLimit : Nat := 4095

/-- Walks on from a location up to the next link that is followed; `onward` takes the walk on from
there, with the folder of the link, its target and the steps behind it. -/
def stretch (t : FileTree) (follow : Bool)
    (onward : Location → Path → List Step → Except IoCause Spot) (l : Location) :
    List Step → Except IoCause Spot
  | [] => .ok (.entry l)
  | s :: rest =>
    if t.get? l ≠ some .folder then
      if s = .slash then .ok (.noFolder l) else .error .notFolder
    else match s with
      | .stay => t.stretch follow onward l rest
      | .slash => t.stretch follow onward l rest
      | .up => t.stretch follow onward l.dropLast rest
      | .name n =>
        if nameLimit < n.length then .error .nameTooLong
        else match t.get? (l ++ [n]) with
          | none =>
            if rest = [] then .ok (.free l n false)
            else if rest = [.slash] then .ok (.free l n true)
            else .error .noEntry
          | some (.link target) =>
            if rest = [] && !follow then .ok (.entry (l ++ [n]))
            else onward l target rest
          | some _ => t.stretch follow onward (l ++ [n]) rest

def walk (t : FileTree) (follow : Bool) : Nat → Location → List Step → Except IoCause Spot
  | 0 => t.stretch follow fun _ _ _ => .error .linkLoop
  | links + 1 => t.stretch follow fun l target rest =>
    if target.bytes = [] then .error .noEntry
    else t.walk follow links (if target.isAbsolute then [] else l) (target.steps ++ rest)

def refused? (p : Path) : Option IoCause :=
  if p.bytes.contains 0 then some .zeroInPath
  else if p.bytes = [] then some .noEntry
  else if pathLimit < p.bytes.length then some .nameTooLong
  else none

def spot (t : FileTree) (follow : Bool) (p : Path) : Except IoCause Spot :=
  match refused? p with
  | some c => .error c
  | none => t.walk follow linkLimit (if p.isAbsolute then [] else t.here) p.steps

def find (t : FileTree) (p : Path) : Except IoCause Location := do
  match ← t.spot true p with
  | .entry l => .ok l
  | .noFolder _ => .error .notFolder
  | .free _ _ _ => .error .noEntry

def present (t : FileTree) (p : Path) : Bool := (t.find p).toBool

def isFolder (t : FileTree) (p : Path) : Bool :=
  match t.find p with
  | .ok l => t.get? l = some .folder
  | .error _ => false

end FileTree

end CallStrip

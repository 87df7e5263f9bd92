import CallStrip.Program

/-!
The program: its words, its surroundings and the disk of the machine it runs on.
-/

namespace CallStrip.Machine

def spelled (t : Text) : String := String.ofList t

def reported (kind : IoKind) (code : UInt32) (details : String) : IoCause :=
  .reported kind (Text.concat [details.toList, " (os error ", Text.ofNat code.toNat, ")"])

def causeOf : IO.Error → IoCause
  | .noFileOrDirectory _ _ _ => .noEntry
  | .alreadyExists _ _ _ => .entryExists
  | .permissionDenied _ code details => reported .permissionDenied code details
  | .inappropriateType _ code details =>
    if code = 20 then .notFolder else if code = 21 then .isFolder else reported .other code details
  | .otherError code details => reported .other code details
  | e => .reported .other (toString e).toList

/-- Uses the disk at a path, unless the path is one that no disk takes. -/
def onDisk {α : Type} (p : Path) (f : String → IO α) : IO (Except IoCause α) :=
  match FileTree.refused? p with
  | some c => return .error c
  | none => do
    match ← (f (spelled p.text)).toBaseIO with
    | .ok a => return .ok a
    | .error e => return .error (causeOf e)

def holds (p : Path) (f : String → IO Bool) : IO Bool := do
  match ← onDisk p f with
  | .ok b => return b
  | .error _ => return false

def folderAt (p : String) : IO Bool := do (← IO.FS.realPath p).isDir

def kindOf : IO.FS.FileType → EntryKind
  | .dir => .folder
  | .file => .file
  | _ => .other

def childrenIn (folder : String) : IO (List Child) := do
  (← (← IO.FS.realPath folder).readDir).toList.mapM fun e => do
    return ⟨e.fileName, kindOf (← e.path.symlinkMetadata).type⟩

instance : Disk IO where
  read p := onDisk p fun s => return (← IO.FS.readBinFile s).toList
  write p content := onDisk p fun s => IO.FS.writeBinFile s ⟨content.toArray⟩
  makeFolder p := onDisk p fun s => IO.FS.createDir s
  isFolder p := holds p folderAt
  present p := holds p fun s => do
    let _ ← IO.FS.realPath s
    return true
  readFolder p := onDisk p childrenIn

partial def readAll (input : IO.FS.Stream) (done : ByteArray) : IO Bytes := do
  let more ← input.read 65536
  if more.isEmpty then return done.toList else readAll input (done ++ more)

def setting (name : String) : IO (Option Text) := return (← IO.getEnv name).map String.toList

end CallStrip.Machine

open CallStrip Machine in
def main (words : List String) : IO UInt32 := do
  let output ← IO.getStdout
  let ink := Ink.choose (← setting "CLICOLOR_FORCE") (← setting "NO_COLOR") (← setting "CLICOLOR")
    (← output.isTty)
  let r ← Program.answer ink (← setting "LOGSCRUB_ROOT") (words.map String.toList)
    (do readAll (← IO.getStdin) .empty)
  output.putStr (spelled r.out)
  (← IO.getStderr).putStr (spelled r.errors)
  return UInt32.ofNat r.code

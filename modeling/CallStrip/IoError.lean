import CallStrip.Path

/-!
Failures of the file system, with what was being done when they happened.
-/

namespace CallStrip

inductive IoKind where
  | notFound
  | permissionDenied
  | invalidData
  | other
  deriving DecidableEq, Repr

inductive IoCause where
  | noEntry
  | entryExists
  | notFolder
  | isFolder
  | nameTooLong
  | linkLoop
  | notUtf8
  | zeroInPath
  | reported (kind : IoKind) (text : Text)
  | unlisted (folder : Path) (cause : IoCause)
  deriving DecidableEq, Repr

/-- A cause and the descriptions put before it, the outermost first. -/
structure IoError where
  context : List Text
  cause : IoCause
  deriving DecidableEq, Repr

namespace IoCause

def kind : IoCause → IoKind
  | .noEntry => .notFound
  | .notUtf8 => .invalidData
  | .reported k _ => k
  | .unlisted _ c => c.kind
  | _ => .other

def text : IoCause → Text
  | .noEntry => "No such file or directory (os error 2)".toList
  | .entryExists => "File exists (os error 17)".toList
  | .notFolder => "Not a directory (os error 20)".toList
  | .isFolder => "Is a directory (os error 21)".toList
  | .nameTooLong => "File name too long (os error 36)".toList
  | .linkLoop => "Too many levels of symbolic links (os error 40)".toList
  | .notUtf8 => "stream did not contain valid UTF-8".toList
  | .zeroInPath => "file name contained an unexpected NUL byte".toList
  | .reported _ t => t
  | .unlisted folder c => "IO error for operation on ".toList ++ folder.text ++ ": ".toList ++ c.text

def sources : IoCause → List Text
  | .unlisted _ c => c.text :: c.sources
  | _ => []

end IoCause

namespace IoError

def ofCause (c : IoCause) : IoError := ⟨[], c⟩

def within (what : Text) (e : IoError) : IoError := { e with context := what :: e.context }

def kind (e : IoError) : IoKind := e.cause.kind

/-- What was being done hides where the cause came from. -/
def sources (e : IoError) : List Text := if e.context = [] then e.cause.sources else []

def text (e : IoError) : Text := Text.join ": ".toList (e.context ++ [e.cause.text])

theorem text_within (what : Text) (e : IoError) :
    (e.within what).text = what ++ ": ".toList ++ e.text := by
  unfold text within
  cases h : e.context ++ [e.cause.text] with
  | nil => simp at h
  | cons t ts => simp [h, Text.join]

end IoError

end CallStrip

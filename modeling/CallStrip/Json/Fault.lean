import CallStrip.Number.Binary64
import CallStrip.Text.Utf8

/-!
What can be wrong with a JSON document, and where.
-/

namespace CallStrip.Json

/-- A number of a document: a whole one of 64 bits, or a rounded one. -/
inductive Number where
  | whole (i : Int)
  | real (x : Binary64)
  deriving DecidableEq, Repr

inductive Scalar where
  | null
  | flag (b : Bool)
  | number (n : Number)
  | text (t : Text)
  deriving DecidableEq, Repr

inductive Met where
  | scalar (x : Scalar)
  | list
  | object
  deriving DecidableEq, Repr

inductive Wanted where
  | list
  | record (name : Text)
  deriving DecidableEq, Repr

inductive Cause where
  | endInValue
  | endInList
  | endInObject
  | endInText
  | noValue
  | badWord
  | noColon
  | listNotContinued
  | objectNotContinued
  | keyNotText
  | trailingComma
  | trailingBytes
  | badNumber
  | numberOutOfRange
  | badEscape
  | loneSurrogate
  | surrogateCutShort
  | controlByte
  | notUnicode
  | tooDeep
  | mismatch (met : Met) (wanted : Wanted)
  | missing (key : Text)
  | duplicate (key : Text)
  | tooShort (count : Nat) (record : Text) (width : Nat)
  deriving DecidableEq, Repr

/-- A cause with the bytes of the document that were not yet pulled when it was found. -/
structure Fault where
  cause : Cause
  unpulled : Bytes
  deriving DecidableEq, Repr

structure Place where
  line : Nat
  column : Nat
  deriving DecidableEq, Repr

namespace Place

def next (p : Place) (b : UInt8) : Place :=
  if b = 0x0A then ⟨p.line + 1, 0⟩ else ⟨p.line, p.column + 1⟩

def behind (s : Bytes) : Place := s.foldl next ⟨1, 0⟩

end Place

structure Located where
  cause : Cause
  place : Place
  deriving DecidableEq, Repr

def Fault.locate (document : Bytes) (f : Fault) : Located :=
  ⟨f.cause, .behind (document.take (document.length - f.unpulled.length))⟩

end CallStrip.Json

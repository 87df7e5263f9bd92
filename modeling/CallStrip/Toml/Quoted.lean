import CallStrip.Reading
import CallStrip.Text.Basic

/-!
Quoted texts of a TOML document: four kinds, with one mark or three, with escapes or without.
-/

namespace CallStrip.Toml

abbrev Reader := Reading Char Unit

namespace Reader

export Reading (Stays Shrinks stays_pure)

def fail {α : Type} : Reader α := fun _ => .error ()

theorem stays_fail {α : Type} : Stays (fail : Reader α) := by
  intro s v r h
  cases h

def isBlank (c : Char) : Bool := c == ' ' || c == '\t'

def isPlain (c : Char) : Bool := c == '\t' || (0x20 ≤ c.toNat && c.toNat != 0x7F)

end Reader

open Reader

structure Quoting where
  mark : Char
  block : Bool
  deriving DecidableEq, Repr

def Quoting.escapes (k : Quoting) : Bool := k.mark == '"'

/-- Where the reader stands: behind some marks that may end the text, in an escape, in the blanks
and line ends that a backslash at the end of a line takes away, or behind a carriage return. -/
inductive QuoteState where
  | plain (marks : Nat)
  | escape
  | hex (left value : Nat)
  | fold (broken : Bool)
  | carriage (folding : Bool)
  deriving DecidableEq, Repr

def shortEscape? (c : Char) : Option Char :=
  if c = '"' || c = '\\' then some c
  else if c = 'b' then some '\x08'
  else if c = 't' then some '\t'
  else if c = 'n' then some '\n'
  else if c = 'f' then some '\x0c'
  else if c = 'r' then some '\r'
  else none

def hexDigit? (c : Char) : Option Nat :=
  if '0' ≤ c && c ≤ '9' then some (c.toNat - '0'.toNat)
  else if 'a' ≤ c && c ≤ 'f' then some (c.toNat - 'a'.toNat + 10)
  else if 'A' ≤ c && c ≤ 'F' then some (c.toNat - 'A'.toNat + 10)
  else none

def char? (n : Nat) : Option Char := if h : n.isValidChar then some (Char.ofNatAux n h) else none

def Quoting.stepPlain (k : Quoting) (marks : Nat) (c : Char) : Option (QuoteState × Text) :=
  let before := List.replicate marks k.mark
  if c = k.mark then some (.plain (marks + 1), [])
  else if c = '\\' && k.escapes then some (.escape, before)
  else if c = '\n' && k.block then some (.plain 0, before ++ [c])
  else if c = '\r' && k.block then some (.carriage false, before)
  else if isPlain c then some (.plain 0, before ++ [c])
  else none

def Quoting.step (k : Quoting) (q : QuoteState) (c : Char) : Option (QuoteState × Text) :=
  match q with
  | .plain marks => k.stepPlain marks c
  | .escape =>
    match shortEscape? c with
    | some e => some (.plain 0, [e])
    | none =>
      if c = 'u' then some (.hex 4 0, [])
      else if c = 'U' then some (.hex 8 0, [])
      else if k.block && isBlank c then some (.fold false, [])
      else if k.block && c = '\n' then some (.fold true, [])
      else if k.block && c = '\r' then some (.carriage true, [])
      else none
  | .hex left value => do
    let v := value * 16 + (← hexDigit? c)
    if left = 1 then return (.plain 0, [← char? v]) else return (.hex (left - 1) v, [])
  | .fold broken =>
    if isBlank c then some (.fold broken, [])
    else if c = '\n' then some (.fold true, [])
    else if c = '\r' then some (.carriage true, [])
    else if broken then k.stepPlain 0 c
    else none
  | .carriage folding =>
    if c = '\n' then (if folding then some (.fold true, []) else some (.plain 0, [c])) else none

/-- Whether the text ends before `c`. Three marks end a block, and up to two more before them belong
to it. -/
def Quoting.ends (k : Quoting) (q : QuoteState) (c : Option Char) : Bool :=
  match q with
  | .plain marks =>
    if k.block then marks = 5 || (3 ≤ marks && c ≠ some k.mark) else marks = 1
  | _ => false

def Quoting.left (k : Quoting) : QuoteState → Text
  | .plain marks => if k.block then List.replicate (marks - 3) k.mark else []
  | _ => []

def Quoting.readFrom (k : Quoting) (q : QuoteState) : Reader Text
  | [] => if k.ends q none then .ok (k.left q, []) else .error ()
  | c :: s =>
    if k.ends q (some c) then .ok (k.left q, c :: s)
    else match k.step q c with
      | none => .error ()
      | some (q, out) => do
        let (t, r) ← k.readFrom q s
        return (out ++ t, r)

def dropLineEnd : Text → Text
  | '\n' :: s => s
  | '\r' :: '\n' :: s => s
  | s => s

def quoted (mark : Char) (blocks : Bool) : Reader Text := fun s =>
  match s with
  | a :: b :: r =>
    if blocks && a = mark && b = mark then
      Quoting.readFrom ⟨mark, true⟩ (.plain 0) (dropLineEnd r)
    else Quoting.readFrom ⟨mark, false⟩ (.plain 0) s
  | _ => Quoting.readFrom ⟨mark, false⟩ (.plain 0) s

theorem stays_readFrom (k : Quoting) (q : QuoteState) : Stays (k.readFrom q) := by
  intro s v r h
  induction s generalizing q v with
  | nil =>
    simp only [Quoting.readFrom] at h
    split at h
    · cases h; simp
    · cases h
  | cons c s ih =>
    simp only [Quoting.readFrom] at h
    split at h
    · cases h; simp
    · split at h
      · cases h
      · next q' out _ =>
        cases hr : k.readFrom q' s with
        | error e => rw [hr] at h; cases h
        | ok w =>
          rw [hr] at h
          cases h
          exact Nat.le_succ_of_le (ih q' hr)

theorem length_dropLineEnd (s : Text) : (dropLineEnd s).length ≤ s.length := by
  unfold dropLineEnd
  split <;> simp
  omega

theorem stays_quoted (mark : Char) (blocks : Bool) : Stays (quoted mark blocks) := by
  intro s v r h
  simp only [quoted] at h
  split at h
  · next a b t =>
    split at h
    · exact Nat.le_trans (stays_readFrom _ _ h)
        (Nat.le_trans (length_dropLineEnd t) (by simp; omega))
    · exact stays_readFrom _ _ h
  · exact stays_readFrom _ _ h

end CallStrip.Toml

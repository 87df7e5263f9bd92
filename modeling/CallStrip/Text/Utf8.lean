import CallStrip.Text.Basic

/-!
Texts as bytes in UTF-8. `decode` takes the shortest form of each character only, and no surrogates.
-/

namespace CallStrip

abbrev Bytes := List UInt8

namespace Utf8

def encode (t : Text) : Bytes := t.flatMap String.utf8EncodeChar

def tail? (b : UInt8) : Option Nat :=
  if 0x80 ≤ b && b ≤ 0xBF then some (b.toNat - 0x80) else none

def char? (least n : Nat) : Option Char :=
  if h : n.isValidChar then if least ≤ n then some (Char.ofNatAux n h) else none else none

def two? (a b : UInt8) : Option Char := do
  char? 0x80 ((a.toNat - 0xC0) * 0x40 + (← tail? b))

def three? (a b c : UInt8) : Option Char := do
  char? 0x800 (((a.toNat - 0xE0) * 0x40 + (← tail? b)) * 0x40 + (← tail? c))

def four? (a b c d : UInt8) : Option Char := do
  let top := (a.toNat - 0xF0) * 0x40 + (← tail? b)
  char? 0x10000 ((top * 0x40 + (← tail? c)) * 0x40 + (← tail? d))

/-- The characters that bytes start with, up to the first byte that starts none, and what
follows. -/
def split : Bytes → Text × Bytes
  | [] => ([], [])
  | a :: s =>
    if a < 0x80 then ((Char.ofNat a.toNat) :: (split s).1, (split s).2)
    else if a < 0xC0 then ([], a :: s)
    else match s with
      | [] => ([], [a])
      | b :: s =>
        if a < 0xE0 then
          match two? a b with
          | none => ([], a :: b :: s)
          | some x => (x :: (split s).1, (split s).2)
        else match s with
          | [] => ([], [a, b])
          | c :: s =>
            if a < 0xF0 then
              match three? a b c with
              | none => ([], a :: b :: c :: s)
              | some x => (x :: (split s).1, (split s).2)
            else match s with
              | [] => ([], [a, b, c])
              | d :: s =>
                if 0xF8 ≤ a then ([], a :: b :: c :: d :: s)
                else match four? a b c d with
                  | none => ([], a :: b :: c :: d :: s)
                  | some x => (x :: (split s).1, (split s).2)

def decode (s : Bytes) : Option Text :=
  match split s with
  | (t, []) => some t
  | _ => none

def first? (s : Bytes) : Option Char := (split (s.take 4)).1.head?

/-- How many bytes belong together where no character starts: the first one, and what follows it as
it would in a character. -/
def strayLength : Bytes → Nat
  | a :: b :: s =>
    let lower : UInt8 := if a = 0xE0 then 0xA0 else if a = 0xF0 then 0x90 else 0x80
    let upper : UInt8 := if a = 0xED then 0x9F else if a = 0xF4 then 0x8F else 0xBF
    if a < 0xE0 || 0xF4 < a || b < lower || upper < b then 1
    else if a < 0xF0 then 2
    else match s with
      | c :: _ => if (tail? c).isSome then 3 else 2
      | [] => 2
  | _ => 1

/-- A text made from bytes by their characters and the runs of other bytes between them. So many
bytes at the front are told already. -/
def retell (char : Char → Text) (stray : Bytes → Text) : Nat → Bytes → Text
  | _, [] => []
  | told + 1, _ :: s => retell char stray told s
  | 0, a :: s =>
    match first? (a :: s) with
    | some c => char c ++ retell char stray (c.utf8Size - 1) s
    | none =>
      stray ((a :: s).take (strayLength (a :: s))) ++
        retell char stray (strayLength (a :: s) - 1) s

def lossy (s : Bytes) : Text := retell (fun c => [c]) (fun _ => ['�']) 0 s

end Utf8

end CallStrip

import CallStrip.Text.Hidden

/-!
Texts in quotes for messages, with every character that cannot be seen written by its number.
-/

namespace CallStrip.Text

def isHidden (c : Char) : Bool :=
  c.toNat < 0x20 || hiddenRanges.any fun r => r.1 ≤ c.toNat && c.toNat ≤ r.2

def hex (n : Nat) : Text := Nat.toDigits 16 n

def visibleChar (c : Char) : Text :=
  if c = '\x00' then ['\\', '0']
  else if c = '\t' then ['\\', 't']
  else if c = '\r' then ['\\', 'r']
  else if c = '\n' then ['\\', 'n']
  else if c = '"' || c = '\\' then ['\\', c]
  else if isHidden c then ['\\', 'u', '\x7b'] ++ hex c.toNat ++ ['\x7d']
  else [c]

def visible (t : Text) : Text := '"' :: t.flatMap visibleChar ++ ['"']

end CallStrip.Text

import CallStrip.Toml.Quoted

/-!
Writing the texts and lists of a TOML document, each in the plainest form that holds it.
-/

namespace CallStrip.Toml

def isControl (c : Char) : Bool := c.toNat < 0x20 || c.toNat == 0x7F

def needsEscape (c : Char) : Bool := isControl c && c != '\t' && c != '\n'

/-- The first of five forms that holds a text: the forms without escapes come before those that
would need them. -/
def quotingFor (t : Text) : Quoting :=
  let plain := !t.any needsEscape
  let broken := t.contains '\n'
  let slash := t.contains '\\'
  if plain && !broken && !slash && !t.contains '"' then ⟨'"', false⟩
  else if plain && !broken && !t.contains '\'' then ⟨'\'', false⟩
  else if plain && !slash && !Text.occurs (List.replicate 3 '"') t then ⟨'"', true⟩
  else if plain && !Text.occurs (List.replicate 3 '\'') t then ⟨'\'', true⟩
  else ⟨'"', broken⟩

def hexPair (n : Nat) : Text := [Nat.digitChar (n / 16), Nat.digitChar (n % 16)].map Char.toUpper

def escapeChar (c : Char) : Text :=
  if c = '"' || c = '\\' then ['\\', c]
  else if c = '\x08' then ['\\', 'b']
  else if c = '\t' then ['\\', 't']
  else if c = '\n' then ['\\', 'n']
  else if c = '\x0c' then ['\\', 'f']
  else if c = '\r' then ['\\', 'r']
  else if isControl c then "\\u00".toList ++ hexPair c.toNat
  else [c]

/-- A text with escapes, behind some marks in a row. In a block line ends stay, and so do marks as
long as no three of them stand together. -/
def escapeFrom (block : Bool) (marks : Nat) : Text → Text
  | [] => []
  | c :: t =>
    if block && c = '"' && marks < 2 then c :: escapeFrom block (marks + 1) t
    else if block && c = '\n' then c :: escapeFrom block 0 t
    else escapeChar c ++ escapeFrom block 0 t

def Quoting.marks (k : Quoting) : Text := List.replicate (if k.block then 3 else 1) k.mark

def Quoting.write (k : Quoting) (t : Text) : Text :=
  k.marks ++ (if k.block && t.contains '\n' then ['\n'] else []) ++
    (if k.escapes then escapeFrom k.block 0 t else t) ++ k.marks

def quote (t : Text) : Text := (quotingFor t).write t

def writeList : List Text → Text
  | [] => "[]".toList
  | [t] => '[' :: quote t ++ [']']
  | ts => "[\n".toList ++ ts.flatMap (fun t => "    ".toList ++ quote t ++ ",\n".toList) ++ [']']

end CallStrip.Toml

import CallStrip.Json.Container
import CallStrip.Number.Shortest

/-!
Values of any kind: how they are read, and their compact text.

An object keeps its members in the order of their keys, one for each key: of several with one key
the last is kept. Lists and objects may stand in each other to a given depth.
-/

namespace CallStrip.Json

open Reader

inductive Value where
  | scalar (x : Scalar)
  | list (items : List Value)
  | object (members : List (Text × Value))
  deriving Repr

def put {α : Type} (k : Text) (v : α) : List (Text × α) → List (Text × α)
  | [] => [(k, v)]
  | m :: ms =>
    if k = m.1 then (k, v) :: ms
    else if k < m.1 then (k, v) :: m :: ms
    else m :: put k v ms

def valueReader (depth : Nat) : { p : Reader Value // Shrinks p } :=
  match depth with
  | 0 =>
    ⟨do
      let b ← nextInk .endInValue
      if b = 0x5B || b = 0x7B then fail .tooDeep else Value.scalar <$> Json.scalar b,
    (shrinks_nextInk _).bind fun b => by
      split
      · exact stays_fail _
      · exact (stays_scalar b).map _⟩
  | depth + 1 =>
    let inner := valueReader depth
    let member (k : Text) (ms : List (Text × Value)) : Reader (List (Text × Value)) := do
      colon
      return put k (← inner.1) ms
    have hm (k : Text) (ms : List (Text × Value)) : Stays (member k ms) :=
      shrinks_colon.stays.bind fun _ => inner.2.stays.bind fun _ => stays_pure _
    ⟨do
      let b ← nextInk .endInValue
      if b = 0x5B then Value.list <$> (items inner.1 inner.2 true : Reader (List Value))
      else if b = 0x7B then
        Value.object <$> (members member hm true [] : Reader (List (Text × Value)))
      else Value.scalar <$> Json.scalar b,
    (shrinks_nextInk _).bind fun b => by
      split
      · exact (stays_items inner.1 inner.2 true).map _
      · split
        · exact (stays_members member hm true []).map _
        · exact (stays_scalar b).map _⟩

def value (depth : Nat) : Reader Value := (valueReader depth).1

theorem shrinks_value (depth : Nat) : Shrinks (value depth) := (valueReader depth).2

def depthLimit : Nat := 127

def finish : Reader Unit := do
  blanks
  fun s => match s with
    | [] => .ok ((), [])
    | _ :: r => .error ⟨.trailingBytes, r⟩

def whole {α : Type} (p : Reader α) (document : Bytes) : Except Located α :=
  match (do let v ← p; finish; pure v : Reader α) document with
  | .ok (v, _) => .ok v
  | .error f => .error (f.locate document)

def parse (document : Bytes) : Except Located Value := whole (value depthLimit) document

/-- Numbers from `0.00001` to below `10 ^ 16` are written with a point. -/
def layout : RealLayout := ⟨fun e => -5 ≤ e && e ≤ 15⟩

def Number.render : Number → Text
  | .whole i => Text.ofInt i
  | .real x => layout.render x

def hexDigit (n : Nat) : Char := if n < 10 then Char.ofNat (0x30 + n) else Char.ofNat (0x57 + n)

def escape (c : Char) : Text :=
  if c = '"' then ['\\', '"']
  else if c = '\\' then ['\\', '\\']
  else if c = '\x08' then ['\\', 'b']
  else if c = '\t' then ['\\', 't']
  else if c = '\n' then ['\\', 'n']
  else if c = '\x0c' then ['\\', 'f']
  else if c = '\r' then ['\\', 'r']
  else if c.toNat < 0x20 then "\\u00".toList ++ [hexDigit (c.toNat / 16), hexDigit (c.toNat % 16)]
  else [c]

def quote (t : Text) : Text := '"' :: t.flatMap escape ++ ['"']

def Scalar.render : Scalar → Text
  | .null => "null".toList
  | .flag true => "true".toList
  | .flag false => "false".toList
  | .number n => n.render
  | .text t => quote t

mutual

def Value.render : Value → Text
  | .scalar x => x.render
  | .list vs => ['['] ++ Text.join [','] (renderItems vs) ++ [']']
  | .object ms => ['\x7b'] ++ Text.join [','] (renderMembers ms) ++ ['\x7d']

def renderItems : List Value → List Text
  | [] => []
  | v :: vs => v.render :: renderItems vs

def renderMembers : List (Text × Value) → List Text
  | [] => []
  | (k, v) :: ms => (quote k ++ ':' :: v.render) :: renderMembers ms

end

end CallStrip.Json

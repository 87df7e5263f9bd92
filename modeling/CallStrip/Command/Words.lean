import CallStrip.Command.Basic

/-!
Reading a command from the words it is given by.

Words are read level by level: the program itself, a command, and a command inside that. Every level
takes switches, options with a value and operands of its own; the switch `verbose` and the option
`root` are taken at every level.
-/

namespace CallStrip.Command

inductive Level where
  | program
  | strip
  | preview
  | check
  | summarize
  | init
  | config
  | assign
  | lookup
  | list
  deriving DecidableEq, Repr

inductive Switch where
  | verbose
  | dryRun
  | discover
  | listing
  | help
  | version
  deriving DecidableEq, Repr

inductive Valued where
  | root
  | rule
  deriving DecidableEq, Repr

inductive Stop where
  | help
  | version
  | misuse
  deriving DecidableEq, Repr

namespace Switch

def letter : Switch → Char
  | .verbose => 'v'
  | .dryRun => 'n'
  | .discover => 'd'
  | .listing => 'd'
  | .help => 'h'
  | .version => 'V'

def name : Switch → Text
  | .verbose => "verbose"
  | .dryRun => "dry-run"
  | .discover => "discover"
  | .listing => "diff"
  | .help => "help"
  | .version => "version"

end Switch

namespace Valued

def letter? : Valued → Option Char
  | .root => none
  | .rule => some 's'

def name : Valued → Text
  | .root => "root"
  | .rule => "strategy"

def accepts : Valued → Text → Bool
  | .root, t => t ≠ []
  | .rule, t => (ClosingRule.ofName? t).isSome

end Valued

namespace Level

def word : Level → Text
  | .program => "logscrub"
  | .strip => "strip"
  | .preview => "preview"
  | .check => "check"
  | .summarize => "summarize"
  | .init => "init"
  | .config => "config"
  | .assign => "set"
  | .lookup => "get"
  | .list => "list"

def inner : Level → List Level
  | .program => [.strip, .preview, .check, .summarize, .init, .config]
  | .config => [.assign, .lookup, .list]
  | _ => []

def inner? (l : Level) (w : Text) : Option Level := l.inner.find? (·.word = w)

def switches : Level → List Switch
  | .program => [.verbose, .help, .version]
  | .strip => [.verbose, .help, .discover, .dryRun]
  | .preview => [.verbose, .help, .listing]
  | .check => [.verbose, .help, .discover]
  | _ => [.verbose, .help]

def valued : Level → List Valued
  | .strip => [.root, .rule]
  | .preview => [.root, .rule]
  | .check => [.root, .rule]
  | _ => [.root]

def limit? : Level → Option Nat
  | .strip => none
  | .check => none
  | .preview => some 1
  | .lookup => some 1
  | .assign => some 2
  | _ => some 0

def takesPaths : Level → Bool
  | .strip => true
  | .check => true
  | .preview => true
  | _ => false

def helpWord : Text := "help"

def hasHelp (l : Level) : List Text → Bool
  | [] => true
  | w :: ws =>
    match l.inner? w with
    | some l => l.hasHelp ws
    | none => l.inner ≠ [] && w = helpWord && ws = []

end Level

/-- What one level was given. The value of an option that is a word of its own is only taken in when
the next thing is met. -/
structure Given where
  switches : List Switch
  values : List (Valued × Text)
  pending : Option (Valued × Option Text)
  operands : List Text
  deriving DecidableEq, Repr

namespace Given

def nothing : Given := ⟨[], [], none, []⟩

def enter (g : Given) (o : Valued) (value : Text) : Except Stop Given :=
  if (g.values.lookup o).isSome || !o.accepts value then .error .misuse
  else .ok { g with values := g.values ++ [(o, value)] }

def settle (g : Given) : Except Stop Given :=
  match g.pending with
  | none => .ok g
  | some (_, none) => .error .misuse
  | some (o, some value) => { g with pending := none }.enter o value

def awaited? (g : Given) : Option Valued :=
  match g.pending with
  | some (o, none) => some o
  | _ => none

def switch (g : Given) (s : Switch) : Except Stop Given := do
  let g ← g.settle
  match s with
  | .help => .error .help
  | .version => .error .version
  | _ => if s ∈ g.switches then .error .misuse else .ok { g with switches := g.switches ++ [s] }

def option (g : Given) (o : Valued) (attached : Option Text) : Except Stop Given := do
  let g ← g.settle
  match attached with
  | some value => g.enter o value
  | none => .ok { g with pending := some (o, none) }

def operand (g : Given) (l : Level) (w : Text) : Except Stop Given := do
  let g ← g.settle
  if l.limit?.any (· ≤ g.operands.length) || (l.takesPaths && w = []) then .error .misuse
  else .ok { g with operands := g.operands ++ [w] }

def long (g : Given) (l : Level) (w : Text) : Except Stop Given :=
  let name := w.takeWhile (· ≠ '=')
  let attached := Text.after? ['='] (w.dropWhile (· ≠ '='))
  match l.switches.find? (·.name = name) with
  | some s => if attached.isSome then .error .misuse else g.switch s
  | none =>
    match l.valued.find? (·.name = name) with
    | some o => g.option o attached
    | none => .error .misuse

def letters (g : Given) (l : Level) : Text → Except Stop Given
  | [] => .ok g
  | c :: cs =>
    match l.switches.find? (·.letter = c) with
    | some s => do (← g.switch s).letters l cs
    | none =>
      match l.valued.find? (·.letter? = some c) with
      | some o =>
        g.option o (if cs = [] then none else some ((Text.after? ['='] cs).getD cs))
      | none => .error .misuse

def finish (g : Given) (surroundings : Option Text) : Except Stop Given := do
  let g ← g.settle
  if (g.values.lookup .root).isNone && surroundings = some [] then .error .misuse else .ok g

end Given

inductive Word where
  | dashes
  | long (t : Text)
  | letters (t : Text)
  | plain
  deriving DecidableEq, Repr

def Word.of : Text → Word
  | ['-', '-'] => .dashes
  | '-' :: '-' :: t => .long t
  | '-' :: c :: t => .letters (c :: t)
  | _ => .plain

/-- The levels that some words lead through, each with what it was given. Behind two dashes all
words are operands. -/
def levels (surroundings : Option Text) (l : Level) (g : Given) (operandsOnly : Bool) :
    List Text → Except Stop (List (Level × Given))
  | [] => do return [(l, ← g.finish surroundings)]
  | w :: ws =>
    if operandsOnly then do levels surroundings l (← g.operand l w) true ws
    else match Word.of w with
      | .dashes => levels surroundings l g true ws
      | .long t => do levels surroundings l (← g.long l t) false ws
      | .letters t => do levels surroundings l (← g.letters l t) false ws
      | .plain =>
        match g.awaited? with
        | some o => levels surroundings l { g with pending := some (o, some w) } false ws
        | none =>
          if l.inner ≠ [] && w = Level.helpWord then
            .error (if l.hasHelp ws then .help else .misuse)
          else match l.inner? w with
            | some below => do
              let rest ← levels surroundings below .nothing false ws
              return (l, ← g.finish surroundings) :: rest
            | none => do levels surroundings l (← g.operand l w) false ws

def ruleOf (g : Given) : Option ClosingRule := (g.values.lookup .rule).bind ClosingRule.ofName?

def scopeOf (g : Given) : Except Stop Scope :=
  let paths := g.operands.map Path.ofText
  if .discover ∈ g.switches then
    if paths = [] then .ok ⟨.discovered, ruleOf g⟩ else .error .misuse
  else .ok ⟨if paths = [] then .configured else .listed paths, ruleOf g⟩

def ofGiven (l : Level) (g : Given) : Except Stop Command :=
  match l, g.operands with
  | .strip, _ => do return .strip (← scopeOf g) (.dryRun ∈ g.switches)
  | .check, _ => do return .check (← scopeOf g)
  | .preview, [file] => .ok (.preview (.ofText file) (.listing ∈ g.switches) (ruleOf g))
  | .summarize, [] => .ok .summarize
  | .init, [] => .ok .init
  | .assign, [key, value] => .ok (.assign key value)
  | .lookup, [key] => .ok (.lookup key)
  | .list, [] => .ok .list
  | _, _ => .error .misuse

def defaultRoot : Text := "."

def rootOf (surroundings : Option Text) (gs : List Given) : Path :=
  .ofText (((gs.filterMap (·.values.lookup .root)).getLast?.or surroundings).getD defaultRoot)

end Command

def Invocation.ofWords (surroundings : Option Text) (words : List Text) :
    Except Command.Stop Invocation := do
  let levels ← Command.levels surroundings .program .nothing false words
  let gs := levels.map (·.2)
  match levels.getLast? with
  | none => .error .misuse
  | some (l, g) =>
    return ⟨Command.rootOf surroundings gs, gs.any (.verbose ∈ ·.switches), ← Command.ofGiven l g⟩

end CallStrip

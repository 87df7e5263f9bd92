import CallStrip.Text.Basic

/-!
What a TOML document holds, and how its statements add to it.

A table may be given by a header, by a dotted key, in one piece between braces, or only be implied
by the header of a table in it. The form decides what may be added to it later.
-/

namespace CallStrip.Toml

inductive TableForm where
  | headed
  | implied
  | dotted
  | closed
  deriving DecidableEq, Repr

inductive Item where
  | text (t : Text)
  | number
  | flag
  | date
  | list (items : List Item)
  | table (form : TableForm) (entries : List (Text × Item))
  | tables (rows : List (List (Text × Item)))
  deriving Repr

abbrev Entries := List (Text × Item)

structure Assignment where
  path : List Text
  key : Text
  item : Item
  deriving Repr

structure Header where
  path : List Text
  key : Text
  row : Bool
  deriving Repr

inductive Statement where
  | assign (a : Assignment)
  | header (h : Header)
  deriving Repr

def assoc (k : Text) (x : Item) : Entries → Entries
  | [] => [(k, x)]
  | e :: es => if e.1 = k then (k, x) :: es else e :: assoc k x es

def onLast (f : Entries → Option Entries) : List Entries → Option (List Entries)
  | [] => none
  | [es] => do return [← f es]
  | es :: rows => do return es :: (← onLast f rows)

/-- Adds an entry under a dotted key. Tables on the way are made; those that are there must come
from dotted keys too, at least the one that takes the entry. -/
def enter (k : Text) (x : Item) : List Text → Entries → Option Entries
  | [], es => if (es.lookup k).isSome then none else some (es ++ [(k, x)])
  | p :: ps, es =>
    match es.lookup p with
    | none => do return es ++ [(p, .table .dotted (← enter k x ps []))]
    | some (.table .dotted sub) => do return assoc p (.table .dotted (← enter k x ps sub)) es
    | some (.table .implied sub) =>
      if ps = [] then none else do return assoc p (.table .implied (← enter k x ps sub)) es
    | some (.tables rows) =>
      if ps = [] then none else do return assoc p (.tables (← onLast (enter k x ps) rows)) es
    | _ => none

def enterAll (es : Entries) (as : List Assignment) : Option Entries :=
  as.foldlM (fun es a => enter a.key a.item a.path es) es

/-- Opens the table of a header and fills it. It may be implied already, but not be given. -/
def fill (h : Header) (as : List Assignment) (old : Option Item) : Option Item :=
  match h.row, old with
  | false, none => do return .table .headed (← enterAll [] as)
  | false, some (.table .implied es) => do return .table .headed (← enterAll es as)
  | true, none => do return .tables [← enterAll [] as]
  | true, some (.tables rows) => do return .tables (rows ++ [← enterAll [] as])
  | _, _ => none

def place (k : Text) (f : Option Item → Option Item) : List Text → Entries → Option Entries
  | [], es => do return assoc k (← f (es.lookup k)) es
  | p :: ps, es =>
    match es.lookup p with
    | none => do return es ++ [(p, .table .implied (← place k f ps []))]
    | some (.table form sub) =>
      if form = .closed then none else do return assoc p (.table form (← place k f ps sub)) es
    | some (.tables rows) => do return assoc p (.tables (← onLast (place k f ps) rows)) es
    | _ => none

def sections : List Statement → List Assignment × List (Header × List Assignment)
  | [] => ([], [])
  | .assign a :: ss => (a :: (sections ss).1, (sections ss).2)
  | .header h :: ss => ([], (h, (sections ss).1) :: (sections ss).2)

def build (ss : List Statement) : Option Entries := do
  let root ← enterAll [] (sections ss).1
  (sections ss).2.foldlM (fun es s => place s.1.key (fill s.1 s.2) s.1.path es) root

end CallStrip.Toml

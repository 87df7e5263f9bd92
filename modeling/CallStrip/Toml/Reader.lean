import CallStrip.Toml.Bare

/-!
Reading a TOML document: keys, values inside each other to some depth, and statements line by line.
-/

namespace CallStrip.Toml

open Reader

variable {α : Type}

namespace Reader

def blanks : Reader Unit := fun s => .ok ((), s.dropWhile isBlank)

def next : Reader Char
  | [] => .error ()
  | c :: s => .ok (c, s)

def takes (c : Char) : Reader Bool
  | [] => .ok (false, [])
  | d :: s => if d = c then .ok (true, s) else .ok (false, d :: s)

def expect (c : Char) : Reader Unit := do
  if (← next) = c then pure () else fail

def dropGap (comment : Bool) : Text → Option Text
  | [] => some []
  | '\n' :: s => dropGap false s
  | '\r' :: '\n' :: s => dropGap false s
  | c :: s =>
    if comment then (if isPlain c then dropGap true s else none)
    else if isBlank c then dropGap false s
    else if c = '#' then dropGap true s
    else some (c :: s)

def gap : Reader Unit := fun s =>
  match dropGap false s with
  | some r => .ok ((), r)
  | none => .error ()

def lineEnd : Reader Unit := do
  blanks
  fun s =>
    let r := if s.head? = some '#' then (s.drop 1).dropWhile isPlain else s
    match r with
    | [] => .ok ((), [])
    | '\n' :: t => .ok ((), t)
    | '\r' :: '\n' :: t => .ok ((), t)
    | _ => .error ()

theorem stays_blanks : Stays blanks := by
  intro s v r h
  cases h
  exact (List.dropWhile_suffix _).length_le

theorem shrinks_next : Shrinks next := by
  intro s v r h
  cases s with
  | nil => cases h
  | cons c s => cases h; simp

theorem stays_takes (c : Char) : Stays (takes c) := by
  intro s v r h
  cases s with
  | nil => cases h; simp
  | cons d s =>
    simp only [takes] at h
    split at h <;> cases h <;> simp

theorem shrinks_expect (c : Char) : Shrinks (expect c) := by
  refine shrinks_next.bind fun d => ?_
  split
  · exact stays_pure _
  · exact stays_fail

theorem length_dropGap {comment : Bool} {s r : Text} (h : dropGap comment s = some r) :
    r.length ≤ s.length := by
  fun_induction dropGap comment s with
  | case1 => cases h; simp
  | case2 => next ih => exact Nat.le_succ_of_le (ih h)
  | case3 => next ih => exact Nat.le_succ_of_le (Nat.le_succ_of_le (ih h))
  | case4 => next ih => exact Nat.le_succ_of_le (ih h)
  | case5 => cases h
  | case6 => next ih => exact Nat.le_succ_of_le (ih h)
  | case7 => next ih => exact Nat.le_succ_of_le (ih h)
  | case8 => cases h; simp

theorem stays_gap : Stays gap := by
  intro s v r h
  simp only [gap] at h
  split at h
  · next hr => cases h; exact length_dropGap hr
  · cases h

theorem stays_lineEnd : Stays lineEnd := by
  refine stays_blanks.bind fun _ => ?_
  intro s v r h
  have hs :
      (if s.head? = some '#' then (s.drop 1).dropWhile isPlain else s).length ≤ s.length := by
    split
    · exact Nat.le_trans (List.dropWhile_suffix _).length_le (by simp)
    · exact Nat.le_refl _
  simp only at h
  split at h
  · cases h; simp
  · next t ht => rw [ht] at hs; cases h; exact Nat.le_of_succ_le hs
  · next t ht => rw [ht] at hs; cases h; exact Nat.le_of_succ_le (Nat.le_of_succ_le hs)
  · cases h

end Reader

def isKeyChar (c : Char) : Bool := c.isAlphanum || c == '_' || c == '-'

def keyPart : Reader Text := do
  let c ← next
  if c = '"' || c = '\'' then quoted c false
  else if isKeyChar c then fun s => .ok (c :: s.takeWhile isKeyChar, s.dropWhile isKeyChar)
  else fail

theorem shrinks_keyPart : Shrinks keyPart := by
  refine shrinks_next.bind fun c => ?_
  split
  · exact stays_quoted _ _
  · split
    · intro s v r h
      cases h
      exact (List.dropWhile_suffix _).length_le
    · exact stays_fail

def keyStep : Reader (Text × Bool) := do
  blanks
  let part ← keyPart
  blanks
  return (part, ← takes '.')

theorem shrinks_keyStep : Shrinks keyStep :=
  stays_blanks.bind_shrinks fun _ => shrinks_keyPart.bind fun _ =>
    stays_blanks.bind fun _ => (stays_takes '.').bind fun _ => stays_pure _

def keyParts (s : Text) : Except Unit (List Text × Text) :=
  match _h : keyStep s with
  | .error e => .error e
  | .ok ((part, false), r) => .ok ([part], r)
  | .ok ((part, true), r) =>
    match keyParts r with
    | .error e => .error e
    | .ok (parts, t) => .ok (part :: parts, t)
termination_by s.length
decreasing_by exact shrinks_keyStep _h

theorem shrinks_keyParts : Shrinks (keyParts : Reader (List Text)) := by
  intro s v r h
  fun_induction keyParts s generalizing v r with
  | case1 => cases h
  | case2 s part t ht => cases h; exact shrinks_keyStep ht
  | case3 => cases h
  | case4 s part t ht parts u hu ih =>
    cases h
    exact Nat.lt_trans (ih hu) (shrinks_keyStep ht)

/-- How many parts a key may have, and how deep values may stand in each other. -/
def depthLimit : Nat := 79

def key : Reader (List Text × Text) := do
  let parts ← (keyParts : Reader (List Text))
  match parts.getLast? with
  | none => fail
  | some k => if depthLimit < parts.length then fail else pure (parts.dropLast, k)

theorem shrinks_key : Shrinks key := by
  refine shrinks_keyParts.bind fun parts => ?_
  split
  · exact stays_fail
  · split
    · exact stays_fail
    · exact stays_pure _

def listEnds : Reader Bool := do
  gap
  takes ']'

def itemStep (item : Reader Item) : Reader (Item × Char) := do
  let v ← item
  gap
  return (v, ← next)

theorem stays_listEnds : Stays listEnds := stays_gap.bind fun _ => stays_takes _

theorem shrinks_itemStep {item : Reader Item} (h : Shrinks item) : Shrinks (itemStep item) :=
  h.bind fun _ => stays_gap.bind fun _ => shrinks_next.stays.bind fun _ => stays_pure _

def listItems (item : Reader Item) (h : Shrinks item) (s : Text) :
    Except Unit (List Item × Text) :=
  match _hg : listEnds s with
  | .error e => .error e
  | .ok (true, r) => .ok ([], r)
  | .ok (false, r) =>
    match _hi : itemStep item r with
    | .error e => .error e
    | .ok ((v, c), t) =>
      if c = ']' then .ok ([v], t)
      else if c = ',' then
        match listItems item h t with
        | .error e => .error e
        | .ok (vs, u) => .ok (v :: vs, u)
      else .error ()
termination_by s.length
decreasing_by exact Nat.lt_of_lt_of_le (shrinks_itemStep h _hi) (stays_listEnds _hg)

theorem stays_listItems (item : Reader Item) (h : Shrinks item) :
    Stays (listItems item h : Reader (List Item)) := by
  have hi := shrinks_itemStep h
  intro s v r hr
  fun_induction listItems item h s generalizing v r with
  | case1 => cases hr
  | case2 s t ht => cases hr; exact stays_listEnds ht
  | case3 => cases hr
  | case4 =>
    next ht _ _ hu =>
    cases hr
    exact Nat.le_of_lt (Nat.lt_of_lt_of_le (hi hu) (stays_listEnds ht))
  | case5 => cases hr
  | case6 =>
    next ht _ _ _ _ hx hu _ ih =>
    cases hr
    exact Nat.le_trans (ih hx) (Nat.le_of_lt (Nat.lt_of_lt_of_le (hi hu) (stays_listEnds ht)))
  | case7 => cases hr

def assignment (item : Reader Item) : Reader Assignment := do
  let (path, k) ← key
  expect '='
  blanks
  return ⟨path, k, ← item⟩

theorem shrinks_assignment (item : Reader Item) (h : Shrinks item) : Shrinks (assignment item) :=
  shrinks_key.bind fun _ => (shrinks_expect _).stays.bind fun _ => stays_blanks.bind fun _ =>
    h.stays.bind fun _ => stays_pure _

def assignmentStep (item : Reader Item) : Reader (Assignment × Char) := do
  let a ← assignment item
  blanks
  return (a, ← next)

theorem shrinks_assignmentStep {item : Reader Item} (h : Shrinks item) :
    Shrinks (assignmentStep item) :=
  (shrinks_assignment item h).bind fun _ => stays_blanks.bind fun _ =>
    shrinks_next.stays.bind fun _ => stays_pure _

def inlineEntries (item : Reader Item) (h : Shrinks item) (s : Text) :
    Except Unit (List Assignment × Text) :=
  match _hi : assignmentStep item s with
  | .error e => .error e
  | .ok ((a, c), r) =>
    if c = '\x7d' then .ok ([a], r)
    else if c = ',' then
      match inlineEntries item h r with
      | .error e => .error e
      | .ok (as, t) => .ok (a :: as, t)
    else .error ()
termination_by s.length
decreasing_by exact shrinks_assignmentStep h _hi

theorem stays_inlineEntries (item : Reader Item) (h : Shrinks item) :
    Stays (inlineEntries item h : Reader (List Assignment)) := by
  have hi := shrinks_assignmentStep h
  intro s v r hr
  fun_induction inlineEntries item h s generalizing v r with
  | case1 => cases hr
  | case2 s a t ht => cases hr; exact Nat.le_of_lt (hi ht)
  | case3 => cases hr
  | case4 =>
    next hx ht _ ih =>
    cases hr
    exact Nat.le_trans (ih hx) (Nat.le_of_lt (hi ht))
  | case5 => cases hr

def inlineTable (item : Reader Item) (h : Shrinks item) : Reader Item := do
  blanks
  if ← takes '\x7d' then pure (.table .closed [])
  else
    match enterAll [] (← (inlineEntries item h : Reader (List Assignment))) with
    | some es => pure (.table .closed es)
    | none => fail

theorem stays_inlineTable (item : Reader Item) (h : Shrinks item) : Stays (inlineTable item h) := by
  refine stays_blanks.bind fun _ => (stays_takes _).bind fun b => ?_
  split
  · exact stays_pure _
  · refine (stays_inlineEntries item h).bind fun as => ?_
    split
    · exact stays_pure _
    · exact stays_fail

def simple : Reader Item := fun s =>
  match s with
  | [] => .error ()
  | c :: r =>
    if c = '"' || c = '\'' then (Item.text <$> quoted c true) r else bare (c :: r)

theorem shrinks_simple : Shrinks simple := by
  intro s v r h
  cases s with
  | nil => cases h
  | cons c s =>
    simp only [simple] at h
    split at h
    · exact Nat.lt_succ_of_le ((stays_quoted c true).map _ h)
    · exact shrinks_bare h

def valueReader (depth : Nat) : { p : Reader Item // Shrinks p } :=
  match depth with
  | 0 => ⟨simple, shrinks_simple⟩
  | depth + 1 =>
    let inner := valueReader depth
    ⟨fun s =>
      match s with
      | '[' :: r => (Item.list <$> (listItems inner.1 inner.2 : Reader (List Item)) : Reader Item) r
      | '\x7b' :: r => inlineTable inner.1 inner.2 r
      | _ => simple s, by
      intro s v r h
      simp only at h
      split at h
      · exact Nat.lt_succ_of_le ((stays_listItems inner.1 inner.2).map _ h)
      · exact Nat.lt_succ_of_le (stays_inlineTable inner.1 inner.2 h)
      · exact shrinks_simple h⟩

def value : Reader Item := (valueReader depthLimit).1

theorem shrinks_value : Shrinks value := (valueReader depthLimit).2

def header : Reader Header := do
  let row ← takes '['
  let (path, k) ← key
  expect ']'
  if row then expect ']'
  return ⟨path, k, row⟩

def statement : Reader Statement := do
  if ← takes '[' then
    let h ← header
    lineEnd
    return .header h
  else
    let a ← assignment value
    lineEnd
    return .assign a

theorem shrinks_header : Shrinks header := by
  refine (stays_takes '[').bind_shrinks fun row => shrinks_key.bind fun k => ?_
  refine (shrinks_expect ']').stays.bind fun _ => ?_
  split
  · exact (shrinks_expect ']').stays.bind fun _ => stays_pure _
  · exact stays_pure _

theorem shrinks_statement : Shrinks statement := by
  refine (stays_takes '[').bind_shrinks fun b => ?_
  split
  · exact shrinks_header.bind fun _ => stays_lineEnd.bind fun _ => stays_pure _
  · exact (shrinks_assignment value shrinks_value).bind fun _ =>
      stays_lineEnd.bind fun _ => stays_pure _

def statements (s : Text) : Except Unit (List Statement) :=
  match _hg : gap s with
  | .error e => .error e
  | .ok (_, []) => .ok []
  | .ok (_, r) =>
    match _hs : statement r with
    | .error e => .error e
    | .ok (x, t) =>
      match statements t with
      | .error e => .error e
      | .ok xs => .ok (x :: xs)
termination_by s.length
decreasing_by exact Nat.lt_of_lt_of_le (shrinks_statement _hs) (stays_gap _hg)

/-- The entries of a document, which may start with a mark of its byte order. -/
def parse (t : Text) : Option Entries := do
  let t := if t.head? = some '\uFEFF' then t.drop 1 else t
  build (← (statements t).toOption)

end CallStrip.Toml

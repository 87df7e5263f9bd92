/-!
Texts as lists of characters, with the few searches and cuts the library needs.
-/

namespace CallStrip

abbrev Text := List Char

instance : Coe String Text := ⟨String.toList⟩

namespace Text

def occurs (needle : Text) : Text → Bool
  | [] => needle.isEmpty
  | c :: t => needle.isPrefixOf (c :: t) || occurs needle t

theorem occurs_iff {needle t : Text} : occurs needle t = true ↔ needle <:+: t := by
  induction t with
  | nil => simp [occurs]
  | cons c t ih => simp [occurs, ih, List.infix_cons_iff]

def after? (head t : Text) : Option Text :=
  if head.isPrefixOf t then some (t.drop head.length) else none

def before? (tail t : Text) : Option Text :=
  if tail.isSuffixOf t then some (t.take (t.length - tail.length)) else none

theorem after?_eq_some_iff {head t rest : Text} : after? head t = some rest ↔ t = head ++ rest := by
  simp only [after?, List.isPrefixOf_iff_prefix, Option.ite_none_right_eq_some, Option.some.injEq]
  constructor
  · rintro ⟨⟨s, rfl⟩, rfl⟩
    simp
  · rintro rfl
    simp

theorem before?_eq_some_iff {tail t rest : Text} :
    before? tail t = some rest ↔ t = rest ++ tail := by
  simp only [before?, List.isSuffixOf_iff_suffix, Option.ite_none_right_eq_some, Option.some.injEq]
  constructor
  · rintro ⟨⟨s, rfl⟩, rfl⟩
    simp
  · rintro rfl
    simp

section Pieces

variable {α : Type}

def join (sep : List α) : List (List α) → List α
  | [] => []
  | [t] => t
  | t :: ts => t ++ sep ++ join sep ts

variable [DecidableEq α]

def pieces (sep : α) : List α → List (List α)
  | [] => [[]]
  | c :: t =>
    if c = sep then [] :: pieces sep t
    else match pieces sep t with
      | [] => [[c]]
      | p :: ps => (c :: p) :: ps

theorem pieces_ne_nil (sep : α) (t : List α) : pieces sep t ≠ [] := by
  cases t with
  | nil => simp [pieces]
  | cons c t =>
    simp only [pieces]
    split
    · simp
    · split <;> simp

theorem join_pieces (sep : α) (t : List α) : join [sep] (pieces sep t) = t := by
  induction t with
  | nil => rfl
  | cons c t ih =>
    simp only [pieces]
    split
    · next h =>
      cases hp : pieces sep t with
      | nil => exact absurd hp (pieces_ne_nil sep t)
      | cons p ps => rw [hp] at ih; simp [join, ih, h]
    · cases hp : pieces sep t with
      | nil => exact absurd hp (pieces_ne_nil sep t)
      | cons p ps =>
        rw [hp] at ih
        cases ps with
        | nil => simpa [join] using ih
        | cons q qs => simpa [join] using ih

end Pieces

def concat (ts : List Text) : Text := ts.flatten

theorem concat_pair (a b : Text) : concat [a, b] = a ++ b := by simp [concat]

def lineOf (ts : List Text) : Text := concat ts ++ ['\n']

def ofNat (n : Nat) : Text := Nat.toDigits 10 n

def ofInt (i : Int) : Text := if i < 0 then '-' :: ofNat i.natAbs else ofNat i.natAbs

def padLeft (width : Nat) (t : Text) : Text := List.replicate (width - t.length) ' ' ++ t

/-- Capital letters of the basic alphabet made small; all other characters stay. -/
def lowered (t : Text) : Text := t.map Char.toLower

end Text

end CallStrip

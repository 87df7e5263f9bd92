import CallStrip.Text.Basic

/-!
Lines of a text. `lines` cuts behind each line feed and loses nothing; `shown` is a line as it is
printed, without its line feed and a carriage return before that.
-/

namespace CallStrip.Text

def lines : Text → List Text
  | [] => []
  | c :: t =>
    if c = '\n' then [c] :: lines t
    else match lines t with
      | [] => [[c]]
      | l :: ls => (c :: l) :: ls

theorem flatten_lines (t : Text) : (lines t).flatten = t := by
  induction t with
  | nil => rfl
  | cons c t ih =>
    simp only [lines]
    split
    · simp [ih]
    · split
      · next h => simpa [h] using ih
      · next h => simpa [h] using ih

def shown (l : Text) : Text :=
  match before? ['\n'] l with
  | none => l
  | some body => (before? ['\r'] body).getD body

def shownLines (t : Text) : List Text := (lines t).map shown

theorem length_shownLines (t : Text) : (shownLines t).length = (lines t).length := by
  simp [shownLines]

end CallStrip.Text

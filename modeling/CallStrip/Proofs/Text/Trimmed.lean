import CallStrip.Text.Blank
import Mathlib.Data.List.Infix

/-!
What trimming leaves. A text is its trimmed part between blanks, and a search for something that
neither starts nor ends with a blank does not see those.
-/

namespace CallStrip.Text

def Blank (t : Text) : Prop := ∀ c ∈ t, isBlank c = true

def Flush (t : Text) : Prop := ∀ c ∈ t.head?, isBlank c = false

def Trimmed (t : Text) : Prop := Flush t ∧ Flush t.reverse

instance (t : Text) : Decidable (Blank t) := List.decidableBAll (isBlank · = true) t

instance (t : Text) : Decidable (Flush t) := Option.decidableForallMem t.head?

instance (t : Text) : Decidable (Trimmed t) := inferInstanceAs (Decidable (_ ∧ _))

variable {t u n front behind : Text}

theorem Blank.reverse (h : Blank t) : Blank t.reverse := fun c hc => h c (List.mem_reverse.mp hc)

theorem flush_dropWhile (t : Text) : Flush (t.dropWhile isBlank) := by
  intro c hc
  have hnot := List.head?_dropWhile_not isBlank t
  rw [Option.mem_def.mp hc] at hnot
  exact hnot

theorem blank_takeWhile (t : Text) : Blank (t.takeWhile isBlank) :=
  List.all_eq_true.mp List.all_takeWhile

theorem Flush.dropWhile_eq (h : Flush t) : t.dropWhile isBlank = t := by
  cases t with
  | nil => rfl
  | cons c t => rw [List.dropWhile_cons_of_neg (by simp [h c rfl])]

theorem Flush.of_isPrefix (h : Flush t) (hp : u <+: t) : Flush u := by
  obtain ⟨rest, rfl⟩ := hp
  cases u with
  | nil => exact fun c hc => absurd hc (by simp)
  | cons c u => exact h

theorem trim_isPrefix (t : Text) : trim t <+: t.dropWhile isBlank := by
  rw [trim, trimEnd, trimStart, ← List.reverse_suffix, List.reverse_reverse]
  exact List.dropWhile_suffix isBlank

theorem trimmed_trim (t : Text) : Trimmed (trim t) := by
  constructor
  · exact (flush_dropWhile t).of_isPrefix (trim_isPrefix t)
  · rw [trim, trimEnd, List.reverse_reverse]
    exact flush_dropWhile _

theorem Trimmed.trim_eq (h : Trimmed t) : trim t = t := by
  rw [trim, trimStart, h.1.dropWhile_eq, trimEnd, h.2.dropWhile_eq, List.reverse_reverse]

@[simp] theorem trim_trim (t : Text) : trim (trim t) = trim t := (trimmed_trim t).trim_eq

theorem exists_trim (t : Text) :
    ∃ front behind, Blank front ∧ Blank behind ∧ t = front ++ trim t ++ behind := by
  refine ⟨t.takeWhile isBlank, ((trimStart t).reverse.takeWhile isBlank).reverse,
    blank_takeWhile t, (blank_takeWhile _).reverse, ?_⟩
  have hend : trim t ++ ((trimStart t).reverse.takeWhile isBlank).reverse = trimStart t := by
    rw [trim, trimEnd, ← List.reverse_append, List.takeWhile_append_dropWhile,
      List.reverse_reverse]
  rw [List.append_assoc, hend, trimStart, List.takeWhile_append_dropWhile]

theorem trim_append_blank (h : Blank behind) (t : Text) : trim (t ++ behind) = trim t := by
  have hstart : trimStart (t ++ behind) =
      if (trimStart t).isEmpty then trimStart behind else trimStart t ++ behind :=
    List.dropWhile_append
  have hbehind : trimStart (behind ++ []) = [] := List.dropWhile_append_of_pos h
  rw [List.append_nil] at hbehind
  rw [trim, hstart, trim]
  split
  · next he => rw [hbehind, List.isEmpty_iff.mp he]
  · rw [trimEnd, List.reverse_append, List.dropWhile_append_of_pos h.reverse]
    rfl

theorem Flush.not_prefix_blank_cons {c : Char} (hn : Flush n) (hne : n ≠ [])
    (hc : isBlank c = true) : ¬ n <+: c :: t := by
  intro hp
  cases n with
  | nil => exact hne rfl
  | cons d n =>
    obtain ⟨rfl, -⟩ := List.cons_prefix_cons.mp hp
    have hd := hn d rfl
    rw [hc] at hd
    cases hd

theorem infix_of_infix_blank_append (hn : Flush n) (hne : n ≠ []) (h : Blank front)
    (hi : n <:+: front ++ t) : n <:+: t := by
  induction front with
  | nil => exact hi
  | cons c front ih =>
    obtain ⟨hc, hfront⟩ := List.forall_mem_cons.mp h
    rcases List.infix_cons_iff.mp hi with hp | hi
    · exact absurd hp (hn.not_prefix_blank_cons hne hc)
    · exact ih hfront hi

theorem infix_of_infix_append_blank (hn : Flush n.reverse) (hne : n ≠ []) (h : Blank behind)
    (hi : n <:+: t ++ behind) : n <:+: t := by
  rw [← List.reverse_infix, List.reverse_append] at hi
  rw [← List.reverse_infix]
  exact infix_of_infix_blank_append hn (by simpa using hne) h.reverse hi

theorem infix_trim_iff (hn : Trimmed n) (hne : n ≠ []) : n <:+: trim t ↔ n <:+: t := by
  obtain ⟨front, behind, hfront, hbehind, ht⟩ := exists_trim t
  constructor
  · intro hi
    rw [ht, List.append_assoc]
    exact hi.trans ((List.prefix_append _ _).isInfix.trans (List.suffix_append _ _).isInfix)
  · intro hi
    rw [ht] at hi
    exact infix_of_infix_blank_append hn.1 hne hfront (infix_of_infix_append_blank hn.2 hne hbehind hi)

theorem indented_infix_blank_append (hn : Flush n) (hne : n ≠ []) (ht : Flush t) (h : Blank front)
    (hi : ' ' :: ' ' :: n <:+: front ++ t) : ' ' :: ' ' :: n <:+: t ∨ n <+: t := by
  induction front with
  | nil => exact .inl hi
  | cons c front ih =>
    obtain ⟨-, hfront⟩ := List.forall_mem_cons.mp h
    rcases List.infix_cons_iff.mp hi with hp | hi
    · -- Both blanks are in front, and the next character is none.
      obtain ⟨-, hp⟩ := List.cons_prefix_cons.mp hp
      cases front with
      | nil => exact absurd (ht.of_isPrefix hp ' ' rfl) (by decide)
      | cons d front =>
        obtain ⟨-, hp⟩ := List.cons_prefix_cons.mp hp
        cases front with
        | nil => exact .inr hp
        | cons e front =>
          exact absurd hp (hn.not_prefix_blank_cons hne (hfront e (by simp)))
    · exact ih hfront hi

theorem indented_infix_trim (hn : Trimmed n) (hne : n ≠ []) (hi : ' ' :: ' ' :: n <:+: t) :
    ' ' :: ' ' :: n <:+: trim t ∨ n <+: trim t := by
  obtain ⟨front, behind, hfront, hbehind, ht⟩ := exists_trim t
  have hlast : Flush (' ' :: ' ' :: n).reverse := by
    intro c hc
    refine hn.2 c ?_
    rw [List.head?_reverse] at hc ⊢
    cases n with
    | nil => exact absurd rfl hne
    | cons d n => simpa using hc
  rw [ht] at hi
  exact indented_infix_blank_append hn.1 hne (trimmed_trim t).1 hfront
    (infix_of_infix_append_blank hlast (List.cons_ne_nil _ _) hbehind hi)

end CallStrip.Text

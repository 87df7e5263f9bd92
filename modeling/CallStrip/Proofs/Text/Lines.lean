import CallStrip.Text.Blank
import CallStrip.Text.Line

/-!
What the lines of a text look like, and which lists of lines are cut again at the same places once
they are written one after the other.
-/

namespace CallStrip.Text

def Terminated (l : Text) : Prop := ∃ body, '\n' ∉ body ∧ l = body ++ ['\n']

inductive Cut : List Text → Prop
  | nil : Cut []
  | last {l : Text} : l ≠ [] → '\n' ∉ l → Cut [l]
  | cons {l : Text} {ls : List Text} : Terminated l → Cut ls → Cut (l :: ls)

theorem lines_terminated_append {l : Text} (h : Terminated l) (t : Text) :
    lines (l ++ t) = l :: lines t := by
  obtain ⟨body, hb, rfl⟩ := h
  induction body with
  | nil => simp [lines]
  | cons c body ih =>
    obtain ⟨hc, hbody⟩ : '\n' ≠ c ∧ '\n' ∉ body := by simpa using hb
    have htail := ih hbody
    simp only [List.cons_append, lines, if_neg (Ne.symm hc), htail]

theorem lines_eq_singleton {l : Text} (hne : l ≠ []) (h : '\n' ∉ l) : lines l = [l] := by
  induction l with
  | nil => exact absurd rfl hne
  | cons c l ih =>
    obtain ⟨hc, hl⟩ : '\n' ≠ c ∧ '\n' ∉ l := by simpa using h
    cases l with
    | nil => simp [lines, Ne.symm hc]
    | cons d l => simp only [lines, if_neg (Ne.symm hc)] at ih ⊢; rw [ih (by simp) hl]

theorem lines_append {a : Text} (h : a = [] ∨ ['\n'] <:+ a) (b : Text) :
    lines (a ++ b) = lines a ++ lines b := by
  induction a with
  | nil => rfl
  | cons c a ih =>
    rcases List.suffix_cons_iff.mp (h.resolve_left (List.cons_ne_nil c a)) with hlast | hsuffix
    · obtain ⟨rfl, rfl⟩ := List.cons.inj hlast
      rfl
    · have hrest := ih (.inr hsuffix)
      simp only [List.cons_append, lines, hrest]
      split
      · rfl
      · cases hl : lines a with
        | nil =>
          have ha : a = [] := by rw [← flatten_lines a, hl, List.flatten_nil]
          rw [ha] at hsuffix
          exact absurd (List.suffix_nil.mp hsuffix) (List.cons_ne_nil _ _)
        | cons l ls => rfl

theorem cut_lines (t : Text) : Cut (lines t) := by
  induction t with
  | nil => exact .nil
  | cons c t ih =>
    simp only [lines]
    split
    · next hc => exact .cons ⟨[], by simp, by simp [hc]⟩ ih
    · next hc =>
      cases hl : lines t with
      | nil => exact .last (by simp) (by simpa using Ne.symm hc)
      | cons l ls =>
        rw [hl] at ih
        cases ih with
        | last _ h => exact .last (by simp) (by simp [Ne.symm hc, h])
        | cons h hls =>
          obtain ⟨body, hb, rfl⟩ := h
          exact .cons ⟨c :: body, by simp [Ne.symm hc, hb], rfl⟩ hls

theorem lines_flatten {ls : List Text} (h : Cut ls) : lines ls.flatten = ls := by
  induction h with
  | nil => rfl
  | last hne hl => simpa using lines_eq_singleton hne hl
  | cons hl _ ih => rw [List.flatten_cons, lines_terminated_append hl, ih]

theorem Cut.tail {l : Text} {ls : List Text} (h : Cut (l :: ls)) : Cut ls := by
  cases h with
  | last => exact .nil
  | cons _ hls => exact hls

theorem Cut.terminated_or {l : Text} {ls : List Text} (h : Cut ls) (hl : l ∈ ls) :
    Terminated l ∨ '\n' ∉ l := by
  induction h with
  | nil => exact absurd hl List.not_mem_nil
  | last _ h => exact .inr (List.mem_singleton.mp hl ▸ h)
  | cons h _ ih =>
    rcases List.mem_cons.mp hl with rfl | hl
    · exact .inl h
    · exact ih hl

theorem Cut.sublist {ls ks : List Text} (h : Cut ls) (hs : ks.Sublist ls) : Cut ks := by
  induction hs with
  | slnil => exact h
  | cons l _ ih => exact ih h.tail
  | cons_cons l hs ih =>
    cases h with
    | last hne hl =>
      rw [List.sublist_nil.mp hs]
      exact .last hne hl
    | cons hl hls => exact .cons hl (ih hls)

theorem infix_of_mem_lines {t l : Text} (h : l ∈ lines t) : l <:+: t := by
  have hi := List.infix_of_mem_flatten h
  rwa [flatten_lines] at hi

theorem trim_infix (t : Text) : trim t <:+: t := by
  have hend : trim t <+: trimStart t := by
    have h := List.dropWhile_suffix (l := (trimStart t).reverse) isBlank
    rw [← List.reverse_prefix, List.reverse_reverse] at h
    exact h
  exact hend.isInfix.trans (List.dropWhile_suffix isBlank).isInfix

end CallStrip.Text

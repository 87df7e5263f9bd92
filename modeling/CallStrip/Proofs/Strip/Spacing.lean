import CallStrip.Proofs.Strip.Accounting
import CallStrip.Proofs.Text.Trimmed

/-!
Blanks around lines. Which lines go depends on the lines without the blanks at their ends alone, so
neither indentation nor line endings matter, as long as the markers have no blanks at their ends.
-/

namespace CallStrip

namespace Text

def returned (t : Text) : Text := t.flatMap fun c => if c = '\n' then ['\r', '\n'] else [c]

variable {t l : Text}

theorem returned_of_not_mem (h : '\n' ∉ l) : returned l = l := by
  induction l with
  | nil => rfl
  | cons c l ih =>
    obtain ⟨hc, hl⟩ : '\n' ≠ c ∧ '\n' ∉ l := by simpa using h
    rw [returned, List.flatMap_cons, if_neg (Ne.symm hc)]
    exact congrArg (c :: ·) (ih hl)

theorem lines_returned (t : Text) : lines (returned t) = (lines t).map returned := by
  induction t with
  | nil => rfl
  | cons c t ih =>
    by_cases hc : c = '\n'
    · subst hc
      have hstart : lines (returned ('\n' :: t)) = ['\r', '\n'] :: lines (returned t) := rfl
      rw [hstart, ih]
      rfl
    · have hstart : returned (c :: t) = c :: returned t := by
        rw [returned, List.flatMap_cons, if_neg hc]
        rfl
      rw [hstart, lines, lines, if_neg hc, if_neg hc, ih]
      cases lines t with
      | nil => exact congrArg (fun l => [l]) (by rw [returned, List.flatMap_cons, if_neg hc]; rfl)
      | cons l ls =>
        refine congrArg (fun k => k :: ls.map returned) ?_
        rw [returned, returned, List.flatMap_cons, if_neg hc]
        rfl

theorem trim_returned (h : Terminated l ∨ '\n' ∉ l) : trim (returned l) = trim l := by
  rcases h with ⟨body, hbody, rfl⟩ | h
  · have hend : returned (body ++ ['\n']) = body ++ ['\r', '\n'] := by
      rw [returned, List.flatMap_append]
      exact congrArg (· ++ ['\r', '\n']) (returned_of_not_mem hbody)
    rw [hend, trim_append_blank (by decide), trim_append_blank (by decide)]
  · rw [returned_of_not_mem h]

theorem map_trim_lines_returned (t : Text) :
    (lines (returned t)).map trim = (lines t).map trim := by
  rw [lines_returned, List.map_map]
  exact List.map_congr_left fun l hl => trim_returned ((cut_lines t).terminated_or hl)

theorem exists_last_line (hne : t ≠ []) (h : ¬ ['\n'] <:+ t) :
    ∃ ls l, lines t = ls ++ [l] ∧ lines (t ++ ['\n']) = ls ++ [l ++ ['\n']] := by
  induction t with
  | nil => exact absurd rfl hne
  | cons c t ih =>
    by_cases ht : t = []
    · subst ht
      have hc : c ≠ '\n' := by
        rintro rfl
        exact h (List.suffix_refl _)
      exact ⟨[], [c], by simp [lines, hc], by simp [lines, hc]⟩
    · obtain ⟨ls, l, hl, hend⟩ := ih ht fun hs => h (hs.trans (List.suffix_cons c t))
      by_cases hc : c = '\n'
      · exact ⟨[c] :: ls, l, by simp [lines, hc, hl], by simp [lines, hc, hend]⟩
      · cases ls with
        | nil => exact ⟨[], c :: l, by simp [lines, hc, hl], by simp [lines, hc, hend]⟩
        | cons k ks => exact ⟨(c :: k) :: ks, l, by simp [lines, hc, hl], by simp [lines, hc, hend]⟩

theorem map_trim_lines_ended (hne : t ≠ []) (h : ¬ ['\n'] <:+ t) :
    (lines (t ++ ['\n'])).map trim = (lines t).map trim := by
  obtain ⟨ls, l, hl, hend⟩ := exists_last_line hne h
  rw [hl, hend, List.map_append, List.map_append, List.map_singleton, List.map_singleton,
    trim_append_blank (by decide)]

end Text

open Text (trim trim_trim)

namespace Balance

theorem ofChar_of_isBlank {c : Char} (h : Text.isBlank c = true) : ofChar c = ⟨0, 0⟩ := by
  unfold ofChar
  split
  all_goals first | rfl | exact absurd h (by decide)

theorem of_blank {t : Text} (h : Text.Blank t) : of t = ⟨0, 0⟩ := by
  induction t with
  | nil => rfl
  | cons c t ih =>
    obtain ⟨hc, ht⟩ := List.forall_mem_cons.mp h
    rw [of, ofChar_of_isBlank hc, ih ht]
    rfl

theorem of_trim (t : Text) : of (trim t) = of t := by
  obtain ⟨front, behind, hfront, hbehind, ht⟩ := t.exists_trim
  have hof := congrArg of ht
  rw [of_append, of_append, of_blank hfront, of_blank hbehind] at hof
  rw [hof]
  ext <;> simp

theorem total_map_trim (ls : List Text) : total (ls.map trim) = total ls := by
  induction ls with
  | nil => rfl
  | cons l ls ih => rw [List.map_cons, total, total, of_trim, ih]

end Balance

def Markers.Trimmed (m : Markers) : Prop :=
  Text.Trimmed m.target ∧ ∀ g ∈ m.guards, Text.Trimmed g

instance (m : Markers) : Decidable m.Trimmed := inferInstanceAs (Decidable (_ ∧ _))

namespace Markers.Trimmed

variable {m : Markers} {rule : ClosingRule} {l : Text}

theorem call (h : m.Trimmed) : Text.Trimmed m.call := by
  constructor
  · intro c hc
    refine h.1.1 c ?_
    rw [Markers.call, List.head?_append] at hc
    cases ht : m.target with
    | nil => exact absurd ht m.target_ne_nil
    | cons d target => rwa [ht] at hc
  · rw [Markers.call, List.reverse_append]
    rintro c hc
    obtain rfl : '(' = c := Option.some.inj hc
    decide

theorem call_ne_nil (m : Markers) : m.call ≠ [] := by simp [Markers.call]

theorem bare_trim (h : m.Trimmed) : m.Bare (trim l) ↔ m.Bare l := by
  refine and_congr (Text.infix_trim_iff h.1 m.target_ne_nil) ?_
  exact forall₂_congr fun g hg =>
    not_congr (Text.infix_trim_iff (h.2 g hg) (m.guards_ne_nil g hg))

theorem statementCall_trim (h : m.Trimmed) :
    m.statementCall (trim l) = true ↔ m.statementCall l = true := by
  rw [statementCall_iff, statementCall_iff, trim_trim]
  constructor
  · rintro (hopens | hindented)
    · exact .inl hopens
    · exact .inr (hindented.trans l.trim_infix)
  · rintro (hopens | hindented)
    · exact .inl hopens
    · exact (Text.indented_infix_trim h.call (call_ne_nil m) hindented).symm

theorem starts_trim (h : m.Trimmed) : m.Starts rule (trim l) ↔ m.Starts rule l := by
  cases rule with
  | paren =>
    simp only [Starts, trim_trim, h.bare_trim, Text.infix_trim_iff h.call (call_ne_nil m)]
  | brace => exact h.bare_trim
  | line => simp only [Starts, h.bare_trim, h.statementCall_trim]

end Markers.Trimmed

theorem Markers.alone_trim {m : Markers} {rule : ClosingRule} {l : Text} :
    m.Alone rule (trim l) ↔ m.Alone rule l := by
  cases rule <;> simp only [Alone, trim_trim]

namespace ClosingRule

variable {rule : ClosingRule} {n e : Nat} {ls : List Text}

theorem shuts_trim {b : Balance} {l : Text} : rule.Shuts b (trim l) ↔ rule.Shuts b l := by
  cases rule <;> simp only [Shuts, trim_trim]

theorem closesAt_map_trim : rule.ClosesAt n (ls.map trim) e ↔ rule.ClosesAt n ls e := by
  simp only [ClosesAt, List.getElem?_map, Option.map_eq_some_iff, ← List.map_take,
    Balance.total_map_trim]
  refine and_congr_right fun _ => ?_
  constructor
  · rintro ⟨_, ⟨l, hl, rfl⟩, hshut⟩
    exact ⟨l, hl, shuts_trim.mp hshut⟩
  · rintro ⟨l, hl, hshut⟩
    exact ⟨trim l, ⟨l, hl, rfl⟩, shuts_trim.mpr hshut⟩

end ClosingRule

theorem Segmented.map_trim {m : Markers} {rule : ClosingRule} {n : Nat} {ls : List Text}
    {spans : List Span} (hm : m.Trimmed) (h : Segmented m rule n ls spans) :
    Segmented m rule n (ls.map trim) spans := by
  induction h with
  | done => exact .done
  | keep hs _ ih => exact .keep (mt hm.starts_trim.mp hs) ih
  | alone hs ha _ ih => exact .alone (hm.starts_trim.mpr hs) (Markers.alone_trim.mpr ha) ih
  | closed hs ha he _ ih =>
    rw [List.map_drop, List.map_cons] at ih
    refine .closed (hm.starts_trim.mpr hs) (mt Markers.alone_trim.mp ha) ?_ ih
    simpa only [← List.map_cons, ClosingRule.closesAt_map_trim] using he
  | @unclosed n l ls hs ha he =>
    have hu := Segmented.unclosed (hm.starts_trim.mpr hs) (mt Markers.alone_trim.mp ha)
      fun e hc => he e (ClosingRule.closesAt_map_trim.mp hc)
    rwa [List.length_map] at hu

/-- Of two texts the lines with the same numbers go, and the others stay, in each as they are. -/
structure Stripper.StripsAlike (p : Stripper) (t u : Text) : Prop where
  spans : (p.strip u).spans = (p.strip t).spans
  removed : (p.strip u).removed = (p.strip t).removed
  kept_left : (p.strip t).content.lines = spared (p.strip t).spans 1 t.lines
  kept_right : (p.strip u).content.lines = spared (p.strip t).spans 1 u.lines

namespace Stripper

variable {p : Stripper} {t u : Text}

theorem stripsAlike_of_trim (hp : p.markers.Trimmed) (h : t.lines.map trim = u.lines.map trim) :
    p.StripsAlike t u := by
  obtain ⟨spans, ht, hst⟩ := p.exists_segmented t
  obtain ⟨spans', hu, hsu⟩ := p.exists_segmented u
  obtain rfl := (h ▸ ht.map_trim hp).unique (hu.map_trim hp)
  constructor
  · rw [hst, hsu]
    rfl
  · rw [hst, hsu]
    rfl
  · rw [hst]
    exact t.lines_flatten_spared spans
  · rw [hst, hsu]
    exact u.lines_flatten_spared spans

/-- Lines that differ in nothing but blanks at their ends are treated alike: whether they are
indented, how they end, and whether the last of them ends at all. -/
theorem strip_respaced (p : Stripper) (hp : p.markers.Trimmed) :
    (∀ t u, t.lines.map trim = u.lines.map trim → p.StripsAlike t u) ∧
    (∀ t, p.StripsAlike t t.returned) ∧
    ∀ t, t ≠ [] → ¬ ['\n'] <:+ t → p.StripsAlike t (t ++ ['\n']) := by
  refine ⟨fun t u h => stripsAlike_of_trim hp h, fun t => ?_, fun t hne hend => ?_⟩
  · exact stripsAlike_of_trim hp t.map_trim_lines_returned.symm
  · exact stripsAlike_of_trim hp (Text.map_trim_lines_ended hne hend).symm

theorem strip_respaced_indented :
    Markers.usual.Trimmed ∧
      StripsAlike ⟨.usual, .line⟩ "a = 1;  console.log(a)\n  console.log(2);\nb();".toList
        "\ta = 1;  console.log(a) \r\nconsole.log(2);\t\n b();\n".toList ∧
      (strip ⟨.usual, .line⟩ "\ta = 1;  console.log(a) \r\nconsole.log(2);\t\n b();\n".toList).spans =
        [⟨1, 1, false⟩, ⟨2, 2, false⟩] :=
  have hm : Markers.usual.Trimmed := by decide
  have halike := (strip_respaced ⟨.usual, .line⟩ hm).1
    "a = 1;  console.log(a)\n  console.log(2);\nb();".toList
    "\ta = 1;  console.log(a) \r\nconsole.log(2);\t\n b();\n".toList (by decide)
  ⟨hm, halike, halike.spans.trans (by decide)⟩

end Stripper

end CallStrip

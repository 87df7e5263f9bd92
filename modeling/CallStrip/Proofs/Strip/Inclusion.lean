import CallStrip.Proofs.Strip.Idempotence
import CallStrip.Proofs.Strip.Mention

/-!
What goes under one rule and under another. A line that can begin a removal goes wherever it stands,
inside the removal of another call or as the start of its own. Under `line` only such lines go, and
they can begin a removal under the other rules, too.
-/

namespace CallStrip

def Stripped.Removes (r : Stripped) (i : Nat) : Prop := ∃ s ∈ r.spans, s.Covers i

instance (r : Stripped) (i : Nat) : Decidable (r.Removes i) :=
  inferInstanceAs (Decidable (∃ s ∈ r.spans, s.Covers i))

variable {m : Markers} {rule : ClosingRule} {n : Nat} {ls : List Text} {spans : List Span}

theorem spared_sublist_spared {spans' : List Span}
    (h : ∀ i, (∃ s ∈ spans, s.Covers i) → ∃ s ∈ spans', s.Covers i) :
    (spared spans' n ls).Sublist (spared spans n ls) := by
  induction ls generalizing n with
  | nil => exact .slnil
  | cons l ls ih =>
    rw [spared, spared]
    by_cases hn : ∃ s ∈ spans, s.Covers n
    · rw [if_pos hn, if_pos (h n hn)]
      exact ih
    · rw [if_neg hn]
      split
      · exact ih.cons l
      · exact ih.cons_cons l

namespace Segmented

theorem exists_covers_of_starts (h : Segmented m rule n ls spans) :
    ∀ k l, ls[k]? = some l → m.Starts rule l → ∃ s ∈ spans, s.Covers (n + k) := by
  induction h using walk with
  | done => simp
  | keep n l ls spans hs _ ih =>
    intro k l' hl' hstarts
    cases k with
    | zero =>
      obtain rfl : l = l' := by simpa using hl'
      exact absurd hstarts hs
    | succ k =>
      obtain ⟨s, hs, hc⟩ := ih k l' hl' hstarts
      rw [Nat.add_right_comm, Nat.add_assoc] at hc
      exact ⟨s, hs, hc⟩
  | remove n e u l ls spans _ hle _ _ _ ih =>
    intro k l' hl' hstarts
    rcases Nat.lt_or_ge e (n + k) with hlt | hge
    · obtain ⟨j, rfl⟩ : ∃ j, k = e + 1 - n + j := ⟨k - (e + 1 - n), by omega⟩
      have hn : e + 1 + j = n + (e + 1 - n + j) := by omega
      obtain ⟨s, hs, hc⟩ := ih j l' (by rwa [List.getElem?_drop]) hstarts
      exact ⟨s, List.mem_cons_of_mem _ hs, hn ▸ hc⟩
    · exact ⟨_, List.mem_cons_self, Nat.le_add_right n k, hge⟩

theorem first_eq_last (h : Segmented m .line n ls spans) : ∀ s ∈ spans, s.first = s.last := by
  induction h with
  | done => simp
  | keep _ _ ih => exact ih
  | alone _ _ _ ih => exact List.forall_mem_cons.mpr ⟨rfl, ih⟩
  | closed _ ha | unclosed _ ha => exact absurd trivial ha

end Segmented

theorem Markers.Starts.of_line {l : Text} (h : m.Starts .line l) (rule : ClosingRule) :
    m.Starts rule l := by
  cases rule with
  | paren => exact h.paren_of_line
  | brace => exact h.bare
  | line => exact h

namespace Stripper

variable {p : Stripper} {t : Text} {i k : Nat} {l : Text}

theorem removes_of_starts (hl : t.lines[k]? = some l) (hs : p.markers.Starts p.rule l) :
    (p.strip t).Removes (k + 1) := by
  obtain ⟨spans, h, hr⟩ := p.exists_segmented t
  rw [hr, Nat.add_comm]
  exact h.exists_covers_of_starts k l hl hs

theorem removes_line_iff :
    (strip ⟨m, .line⟩ t).Removes i ↔ ∃ k l, i = k + 1 ∧ t.lines[k]? = some l ∧ m.Starts .line l := by
  constructor
  · rintro ⟨s, hs, hc⟩
    obtain ⟨l, hl, hstarts⟩ := exists_starts_of_mem_spans hs
    obtain ⟨spans, h, hr⟩ := (Stripper.mk m .line).exists_segmented t
    rw [hr] at hs
    have hone := h.first_eq_last s hs
    have hfirst := h.le_first s hs
    obtain ⟨hle, hge⟩ := hc
    exact ⟨s.first - 1, l, by omega, hl, hstarts⟩
  · rintro ⟨k, l, rfl, hl, hstarts⟩
    exact removes_of_starts hl hstarts

/-- The lines that go under `line` go under every rule, and what another rule leaves is part of what
`line` leaves. -/
theorem strip_line_least (m : Markers) (rule : ClosingRule) (t : Text) :
    (∀ i, (strip ⟨m, .line⟩ t).Removes i → (strip ⟨m, rule⟩ t).Removes i) ∧
      (strip ⟨m, rule⟩ t).content.lines.Sublist (strip ⟨m, .line⟩ t).content.lines := by
  have hremoves : ∀ i, (strip ⟨m, .line⟩ t).Removes i → (strip ⟨m, rule⟩ t).Removes i := by
    intro i hi
    obtain ⟨k, l, rfl, hl, hstarts⟩ := removes_line_iff.mp hi
    exact removes_of_starts hl (hstarts.of_line rule)
  refine ⟨hremoves, ?_⟩
  obtain ⟨spans, -, hr⟩ := (Stripper.mk m rule).exists_segmented t
  obtain ⟨spans', -, hr'⟩ := (Stripper.mk m .line).exists_segmented t
  rw [hr, hr'] at hremoves ⊢
  simp only [Stripped.ofSpans, t.lines_flatten_spared]
  exact spared_sublist_spared hremoves

theorem strip_line_least_inner :
    (strip ⟨.usual, .line⟩ "console.log(\n  console.log(1);\n)\n".toList).Removes 2 ∧
      (strip ⟨.usual, .paren⟩ "console.log(\n  console.log(1);\n)\n".toList).Removes 2 ∧
      (strip ⟨.usual, .brace⟩ "console.log(\n  console.log(1);\n)\n".toList).Removes 2 := by
  have h : (strip ⟨.usual, .line⟩ "console.log(\n  console.log(1);\n)\n".toList).Removes 2 := by
    decide
  exact ⟨h, (strip_line_least .usual .paren _).1 2 h, (strip_line_least .usual .brace _).1 2 h⟩

example :
    ((strip ⟨.usual, .brace⟩ "// console.log\n".toList).Removes 1 ∧
        ¬ (strip ⟨.usual, .paren⟩ "// console.log\n".toList).Removes 1) ∧
      (strip ⟨.usual, .paren⟩ "console.log((\n1);\n2)\n".toList).Removes 3 ∧
        ¬ (strip ⟨.usual, .brace⟩ "console.log((\n1);\n2)\n".toList).Removes 3 := by
  decide

end Stripper

end CallStrip

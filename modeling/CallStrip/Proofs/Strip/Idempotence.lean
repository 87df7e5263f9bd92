import CallStrip.Proofs.Strip.Accounting

/-!
Stripping twice. What one rule leaves is clean under that rule, and under every rule that starts no
removal at a line where the first starts none.
-/

namespace CallStrip

variable {m : Markers} {rule rule' : ClosingRule}

theorem Segmented.not_starts_of_mem_spared {n : Nat} {ls : List Text} {spans : List Span}
    (h : Segmented m rule n ls spans) : ∀ l ∈ spared spans n ls, ¬ m.Starts rule l := by
  induction h using walk with
  | done => simp [spared]
  | keep n l ls spans hs h ih =>
    rw [h.spared_keep]
    intro l' hl'
    rcases List.mem_cons.mp hl' with rfl | hl'
    · exact hs
    · exact ih l' hl'
  | remove n e u l ls spans _ hle _ _ _ ih => rwa [spared_removal hle]

theorem Markers.Starts.paren_of_line {l : Text} (h : m.Starts .line l) : m.Starts .paren l :=
  ⟨h.bare, .inr (.inr (call_infix_of_statementCall h.2))⟩

namespace Stripper

theorem strip_eq_unchanged {p : Stripper} {t : Text}
    (h : ∀ l ∈ t.lines, ¬ p.markers.Starts p.rule l) : p.strip t = .unchanged t := by
  rw [strip_of_segmented (.nil_of_not_starts h), Stripped.ofSpans, spared_nil, Text.flatten_lines]
  rfl

theorem strip_strip_of_starts (t : Text) (h : ∀ l, m.Starts rule' l → m.Starts rule l) :
    strip ⟨m, rule'⟩ (strip ⟨m, rule⟩ t).content = .unchanged (strip ⟨m, rule⟩ t).content := by
  obtain ⟨spans, hspans, hs⟩ := (Stripper.mk m rule).exists_segmented t
  have hlines : (strip ⟨m, rule⟩ t).content.lines = spared spans 1 t.lines := by
    rw [hs, Stripped.ofSpans, t.lines_flatten_spared spans]
  apply strip_eq_unchanged
  intro l hl hstarts
  rw [hlines] at hl
  exact hspans.not_starts_of_mem_spared l hl (h l hstarts)

theorem strip_content (p : Stripper) (t : Text) :
    p.strip (p.strip t).content = .unchanged (p.strip t).content :=
  strip_strip_of_starts t fun _ hl => hl

theorem strip_strip_iff (rule rule' : ClosingRule) :
    (∀ (m : Markers) (t : Text), strip ⟨m, rule'⟩ (strip ⟨m, rule⟩ t).content =
      .unchanged (strip ⟨m, rule⟩ t).content) ↔
    rule' = rule ∨ (rule = .paren ∧ rule' = .line) ∨ rule = .brace := by
  constructor
  · intro h
    have mention := h .usual "console.log".toList
    have inner := h .usual "f(console.log(1));".toList
    cases rule with
    | brace => exact .inr (.inr rfl)
    | paren =>
      cases rule' with
      | paren => exact .inl rfl
      | brace => exact absurd mention (by decide)
      | line => exact .inr (.inl ⟨rfl, rfl⟩)
    | line =>
      cases rule' with
      | paren => exact absurd inner (by decide)
      | brace => exact absurd mention (by decide)
      | line => exact .inl rfl
  · rintro (rfl | ⟨rfl, rfl⟩ | rfl) m t
    · exact strip_strip_of_starts t fun _ hl => hl
    · exact strip_strip_of_starts t fun _ hl => hl.paren_of_line
    · exact strip_strip_of_starts t fun _ hl => hl.bare

end Stripper

end CallStrip

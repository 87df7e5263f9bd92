import CallStrip.Proofs.Strip.Locality
import Mathlib.Data.List.Infix

/-!
Lines that mention the target without calling it. Under `paren` and `line` a removal begins with a
call, but for one kind of line that `paren` takes for a call by its end.
-/

namespace CallStrip

theorem Segmented.starts_of_mem {m : Markers} {rule : ClosingRule} {n : Nat} {ls : List Text}
    {spans : List Span} (h : Segmented m rule n ls spans) :
    ∀ s ∈ spans, ∃ l, ls[s.first - n]? = some l ∧ m.Starts rule l := by
  induction h using walk with
  | done => simp
  | keep n l ls spans _ h ih =>
    intro s hs
    obtain ⟨l', hl', hstarts⟩ := ih s hs
    have hfirst := h.le_first s hs
    have hn : s.first - n = s.first - (n + 1) + 1 := by omega
    exact ⟨l', by rwa [hn, List.getElem?_cons_succ], hstarts⟩
  | remove n e u l ls spans hstarts hle _ _ h ih =>
    intro s hs
    rcases List.mem_cons.mp hs with rfl | hs
    · exact ⟨l, by simp, hstarts⟩
    · obtain ⟨l', hl', hstarts⟩ := ih s hs
      have hfirst := h.le_first s hs
      have hn : e + 1 - n + (s.first - (e + 1)) = s.first - n := by omega
      rw [List.getElem?_drop, hn] at hl'
      exact ⟨l', hl', hstarts⟩

namespace Markers

variable {m : Markers} {rule : ClosingRule} {l : Text}

theorem opens_of_wholeCall (h : m.wholeCall l = true) : m.call <+: l := by
  unfold wholeCall at h
  split at h
  · exact absurd h Bool.false_ne_true
  · next rest hrest => exact ⟨rest, (Text.after?_eq_some_iff.mp hrest).symm⟩

theorem Starts.calls (h : m.Starts rule l) (hb : rule ≠ .brace) :
    m.call <:+: l ∨ (rule = .paren ∧ [')', ';'] <:+ l.trim) := by
  cases rule with
  | paren =>
    rcases h.2 with hend | hwhole | hcall
    · exact .inr ⟨rfl, hend⟩
    · exact .inl ((opens_of_wholeCall hwhole).isInfix.trans l.trim_infix)
    · exact .inl hcall
  | brace => exact absurd rfl hb
  | line => exact .inl (call_infix_of_statementCall h.2)

end Markers

namespace Stripper

variable {p : Stripper} {t : Text}

theorem exists_starts_of_mem_spans {s : Span} (hs : s ∈ (p.strip t).spans) :
    ∃ l, t.lines[s.first - 1]? = some l ∧ p.markers.Starts p.rule l := by
  obtain ⟨spans, h, hr⟩ := p.exists_segmented t
  rw [hr] at hs
  exact h.starts_of_mem s hs

theorem first_eq_of_covers {i : Nat} {s : Span} (hr : (p.strip t).Reaches i)
    (hs : s ∈ (p.strip t).spans) (hc : s.Covers i) : s.first = i := by
  rcases Nat.lt_or_eq_of_le hc.1 with hlt | heq
  · have hlast := hr s hs hlt
    exact absurd hc.2 (Nat.not_le.mpr hlast)
  · exact heq

theorem strip_spares_mention (hp : p.rule = .paren ∨ p.rule = .line) :
    (∀ s ∈ (p.strip t).spans, ∃ l, t.lines[s.first - 1]? = some l ∧
      (p.markers.call <:+: l ∨ (p.rule = .paren ∧ [')', ';'] <:+ l.trim))) ∧
    ∀ (a b : List Text) (l : Text), t.lines = a ++ l :: b → (p.strip t).Reaches (a.length + 1) →
      p.markers.target <:+: l → ¬ p.markers.call <:+: l →
      ((∃ s ∈ (p.strip t).spans, s.Covers (a.length + 1)) ↔
        p.rule = .paren ∧ [')', ';'] <:+ l.trim ∧ ∀ g ∈ p.markers.guards, ¬ g <:+: l) := by
  have hb : p.rule ≠ .brace := by
    rintro h
    rw [h] at hp
    simp at hp
  constructor
  · intro s hs
    obtain ⟨l, hl, hstarts⟩ := exists_starts_of_mem_spans hs
    exact ⟨l, hl, hstarts.calls hb⟩
  · intro a b l ht hr htarget hcall
    constructor
    · rintro ⟨s, hs, hc⟩
      obtain ⟨l', hl', hstarts⟩ := exists_starts_of_mem_spans hs
      have hl : t.lines[s.first - 1]? = some l := by simp [first_eq_of_covers hr hs hc, ht]
      obtain rfl : l = l' := Option.some.inj (hl.symm.trans hl')
      obtain ⟨hparen, hend⟩ := (hstarts.calls hb).resolve_left hcall
      exact ⟨hparen, hend, hstarts.bare.2⟩
    · rintro ⟨hparen, hend, hguards⟩
      have hstarts : p.markers.Starts p.rule l := by
        rw [hparen]
        exact ⟨⟨htarget, hguards⟩, .inl hend⟩
      have halone : p.markers.Alone p.rule l := by
        rw [hparen]
        exact .inl hend
      refine ⟨⟨a.length + 1, a.length + 1, false⟩, ?_, Nat.le_refl _, Nat.le_refl _⟩
      rw [strip_of_alone ht hr hstarts halone]
      exact List.mem_append_right _ List.mem_cons_self

theorem strip_spares_mention_comment :
    strip ⟨.usual, .paren⟩ "// console.log (1)\nf();\n".toList =
        .unchanged "// console.log (1)\nf();\n".toList ∧
      ¬ ∃ s ∈ (strip ⟨.usual, .paren⟩ "// console.log (1)\nf();\n".toList).spans, s.Covers 1 :=
  ⟨by decide, fun h => absurd (((strip_spares_mention (p := ⟨.usual, .paren⟩) (.inl rfl)).2 []
    ["f();\n".toList] "// console.log (1)\n".toList (by decide) (by decide) (by decide)
    (by decide)).mp h).2.1 (by decide)⟩

theorem not_forall_mention_spared :
    ¬ ∀ (p : Stripper) (t : Text), p.rule = .paren ∨ p.rule = .line →
      ∀ s ∈ (p.strip t).spans, ∃ l, t.lines[s.first - 1]? = some l ∧ p.markers.call <:+: l := by
  intro h
  have hspan : ⟨1, 1, false⟩ ∈
      (strip ⟨.usual, .paren⟩ "setLogger(console.log);\nstart();\n".toList).spans := by decide
  obtain ⟨l, hl, hcall⟩ := h ⟨.usual, .paren⟩ _ (.inl rfl) _ hspan
  obtain rfl : l = "setLogger(console.log);\n".toList := Option.some.inj (hl.symm.trans (by decide))
  exact absurd hcall (by decide)

end Stripper

end CallStrip

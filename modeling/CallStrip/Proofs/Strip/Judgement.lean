import CallStrip.Proofs.Text.Lines
import CallStrip.Scan

/-!
What the scanner makes of one line. Met outside a call a line stays, goes alone or opens a call;
inside a call it goes, and either closes the call or leaves it open.
-/

namespace CallStrip

def Markers.usual : Markers where
  target := Markers.defaultTarget
  guards := Markers.defaultGuards
  target_ne_nil := by decide
  guards_ne_nil := by decide

def Markers.Bare (m : Markers) (l : Text) : Prop := m.target <:+: l ∧ ∀ g ∈ m.guards, ¬ g <:+: l

def Markers.Starts (m : Markers) : ClosingRule → Text → Prop
  | .paren, l => m.Bare l ∧ ([')', ';'] <:+ l.trim ∨ m.wholeCall l.trim ∨ m.call <:+: l)
  | .brace, l => m.Bare l
  | .line, l => m.Bare l ∧ m.statementCall l

def Markers.Alone (m : Markers) : ClosingRule → Text → Prop
  | .paren, l => [')', ';'] <:+ l.trim ∨ m.wholeCall l.trim
  | .brace, l => [')', ';'] <:+ l.trim
  | .line, _ => True

def ClosingRule.Shuts : ClosingRule → Balance → Text → Prop
  | .paren, b, l => b.parens ≤ 0 ∧ ([')'] <:+ l.trim ∨ [')', ';'] <:+ l.trim)
  | .brace, b, l => b.braces ≤ 0 ∧ [')', ';'] <:+ l.trim
  | .line, _, _ => True

theorem endsCall_iff {t : Text} : endsCall t = true ↔ [')', ';'] <:+ t := by simp [endsCall]

theorem endsStatement_iff {t : Text} : endsStatement t = true ↔ [')'] <:+ t := by
  simp [endsStatement]

namespace Markers

variable {m : Markers} {rule : ClosingRule} {l : Text}

theorem classify_eq_bare_iff : m.classify l = .bare ↔ m.Bare l := by
  have hguards : m.guards.any (Text.occurs · l) = true ↔ ∃ g ∈ m.guards, g <:+: l := by
    simp [Text.occurs_iff]
  by_cases ht : m.target <:+: l
  · have ha : m.appearsIn l = true := Text.occurs_iff.mpr ht
    by_cases hg : ∃ g ∈ m.guards, g <:+: l
    · simpa [classify, ha, hguards.mpr hg, Bare, ht] using hg
    · have hn : m.guards.any (Text.occurs · l) = false := by
        simpa only [Bool.not_eq_true] using mt hguards.mp hg
      simpa [classify, ha, hn, Bare, ht] using hg
  · have ha : m.appearsIn l = false := Bool.not_eq_true _ ▸ mt Text.occurs_iff.mp ht
    simp [classify, ha, Bare, ht]

theorem containsCall_iff : m.containsCall l = true ↔ m.call <:+: l := Text.occurs_iff

theorem Starts.bare (h : m.Starts rule l) : m.Bare l := by
  cases rule with
  | paren => exact h.1
  | brace => exact h
  | line => exact h.1

theorem opensCall_iff : m.opensCall l = true ↔ m.call <+: l := List.isPrefixOf_iff_prefix

theorem statementCall_iff :
    m.statementCall l = true ↔ m.call <+: l.trim ∨ ' ' :: ' ' :: m.call <:+: l := by
  simp [statementCall, opensCall_iff, Text.occurs_iff]

theorem call_infix_of_statementCall (h : m.statementCall l = true) : m.call <:+: l := by
  rcases statementCall_iff.mp h with h | h
  · exact h.isInfix.trans l.trim_infix
  · exact (List.suffix_append [' ', ' '] m.call).isInfix.trans h

end Markers

theorem ScanState.closes_iff {rule : ClosingRule} {b : Balance} {l : Text} :
    closes rule b l = true ↔ rule.Shuts b l := by
  cases rule with
  | paren => simp [closes, ClosingRule.Shuts, endsCall_iff, endsStatement_iff, or_comm]
  | brace => simp [closes, ClosingRule.Shuts, endsCall_iff]
  | line => simp [closes, ClosingRule.Shuts]

namespace ScanState

variable {m : Markers} {rule : ClosingRule} {s : ScanState} {l : Text}

@[simp] theorem active_idle : idle.active = false := rfl

theorem step_of_not_bare (hs : s.active = false) (h : ¬ m.Bare l) : s.step m rule l = (s, .keep) := by
  have hc : m.classify l ≠ .bare := mt Markers.classify_eq_bare_iff.mp h
  simp only [step, hs, Bool.false_eq_true, if_false]

theorem step_of_bare (hs : s.active = false) (h : m.Bare l) : s.step m rule l = enter m rule s l := by
  simp [step, hs, Markers.classify_eq_bare_iff.mpr h]

theorem step_of_not_starts (hs : s.active = false) (h : ¬ m.Starts rule l) :
    s.step m rule l = (s, .keep) := by
  by_cases hb : m.Bare l
  · rw [step_of_bare hs hb]
    cases rule with
    | paren =>
      simp only [Markers.Starts, hb, true_and, not_or] at h
      simp [enter, endsCall_iff, Markers.containsCall_iff, h]
    | brace => exact absurd hb h
    | line => simp_all [enter, Markers.Starts]
  · exact step_of_not_bare hs hb

theorem step_of_alone (hs : s.active = false) (h : m.Starts rule l) (ha : m.Alone rule l) :
    s.step m rule l = (s, .drop) := by
  rw [step_of_bare hs h.bare]
  cases rule with
  | paren => simp only [Markers.Alone] at ha; simp [enter, endsCall_iff, ha]
  | brace => simp only [Markers.Alone] at ha; simp [enter, endsCall_iff, ha]
  | line => simp [enter, h.2]

theorem step_of_opens (hs : s.active = false) (h : m.Starts rule l) (ha : ¬ m.Alone rule l) :
    s.step m rule l = (openedBy l, .drop) := by
  rw [step_of_bare hs h.bare]
  cases rule with
  | paren =>
    simp only [Markers.Alone, not_or] at ha
    have hc : m.call <:+: l := by simpa [ha] using h.2
    simp [enter, endsCall_iff, Markers.containsCall_iff, ha, hc]
  | brace => simp only [Markers.Alone] at ha; simp [enter, endsCall_iff, ha]
  | line => exact absurd trivial ha

theorem step_of_shuts {b : Balance} (h : rule.Shuts (b + Balance.of l) l) :
    step m rule ⟨true, b⟩ l = (idle, .drop) := by
  simp [step, closes_iff.mpr h]

theorem step_of_not_shuts {b : Balance} (h : ¬ rule.Shuts (b + Balance.of l) l) :
    step m rule ⟨true, b⟩ l = (⟨true, b + Balance.of l⟩, .drop) := by
  simp [step, mt closes_iff.mp h]

end ScanState

end CallStrip

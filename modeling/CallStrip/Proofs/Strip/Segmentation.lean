import CallStrip.Proofs.Strip.Judgement
import CallStrip.Proofs.Strip.Spared
import Mathlib.Data.Nat.Find
import Mathlib.Order.Bounds.Basic

/-!
Stripping said by looking ahead: a removal that does not end at once ends at the least later line
that closes it, and the search goes on behind that line. The scanner finds exactly these spans.
-/

namespace CallStrip

namespace Balance

def total : List Text → Balance
  | [] => ⟨0, 0⟩
  | l :: ls => of l + total ls

theorem add_assoc (a b c : Balance) : a + b + c = a + (b + c) := by
  ext <;> simp [Int.add_assoc]

theorem add_zero (a : Balance) : a + ⟨0, 0⟩ = a := by
  ext <;> simp

end Balance

/-- Whether line `e` closes the call that the first of `ls` opens, the lines from number `n` on. -/
def ClosingRule.ClosesAt (rule : ClosingRule) (n : Nat) (ls : List Text) (e : Nat) : Prop :=
  n < e ∧ ∃ l, ls[e - n]? = some l ∧ rule.Shuts (Balance.total (ls.take (e - n + 1))) l

/-- The spans of the lines from number `n` on. -/
inductive Segmented (m : Markers) (rule : ClosingRule) : Nat → List Text → List Span → Prop
  | done {n : Nat} : Segmented m rule n [] []
  | keep {n : Nat} {l : Text} {ls : List Text} {spans : List Span} :
      ¬ m.Starts rule l → Segmented m rule (n + 1) ls spans → Segmented m rule n (l :: ls) spans
  | alone {n : Nat} {l : Text} {ls : List Text} {spans : List Span} :
      m.Starts rule l → m.Alone rule l → Segmented m rule (n + 1) ls spans →
      Segmented m rule n (l :: ls) (⟨n, n, false⟩ :: spans)
  | closed {n e : Nat} {l : Text} {ls : List Text} {spans : List Span} :
      m.Starts rule l → ¬ m.Alone rule l → IsLeast {e | rule.ClosesAt n (l :: ls) e} e →
      Segmented m rule (e + 1) ((l :: ls).drop (e + 1 - n)) spans →
      Segmented m rule n (l :: ls) (⟨n, e, false⟩ :: spans)
  | unclosed {n : Nat} {l : Text} {ls : List Text} :
      m.Starts rule l → ¬ m.Alone rule l → (∀ e, ¬ rule.ClosesAt n (l :: ls) e) →
      Segmented m rule n (l :: ls) [⟨n, n + ls.length, true⟩]

variable {m : Markers} {rule : ClosingRule}

def ClosingRule.ShutsAfter (rule : ClosingRule) (b : Balance) (ls : List Text) (k : Nat) : Prop :=
  ∃ l, ls[k]? = some l ∧ rule.Shuts (b + Balance.total (ls.take (k + 1))) l

theorem ClosingRule.closesAt_iff {n e : Nat} {l : Text} {ls : List Text} :
    rule.ClosesAt n (l :: ls) e ↔ ∃ k, e = n + 1 + k ∧ rule.ShutsAfter (Balance.of l) ls k := by
  constructor
  · rintro ⟨hlt, l', hl', hshut⟩
    obtain ⟨k, rfl⟩ : ∃ k, e = n + 1 + k := ⟨e - (n + 1), by omega⟩
    have he : n + 1 + k - n = k + 1 := by omega
    rw [he] at hl' hshut
    exact ⟨k, rfl, l', by simpa using hl', by simpa [Balance.total] using hshut⟩
  · rintro ⟨k, rfl, l', hl', hshut⟩
    have he : n + 1 + k - n = k + 1 := by omega
    exact ⟨by omega, l', by simpa [he] using hl', by simpa [he, Balance.total] using hshut⟩

theorem ClosingRule.shutsAfter_zero {b : Balance} {l : Text} {ls : List Text} :
    rule.ShutsAfter b (l :: ls) 0 ↔ rule.Shuts (b + Balance.of l) l := by
  simp [ShutsAfter, Balance.total, Balance.add_zero]

theorem ClosingRule.shutsAfter_succ {b : Balance} {l : Text} {ls : List Text} {k : Nat} :
    rule.ShutsAfter b (l :: ls) (k + 1) ↔ rule.ShutsAfter (b + Balance.of l) ls k := by
  simp [ShutsAfter, Balance.total, Balance.add_assoc]

namespace Stripper

variable {p : Stripper} {b : Balance} {start n k : Nat} {l : Text} {ls : List Text}

theorem scan_of_not_starts (h : ¬ p.markers.Starts p.rule l) :
    p.scan .idle start n (l :: ls) = (p.scan .idle n (n + 1) ls).keep l := by
  have hstep := ScanState.step_of_not_starts ScanState.active_idle h
  simp [scan, hstep]

theorem scan_of_alone (h : p.markers.Starts p.rule l) (ha : p.markers.Alone p.rule l) :
    p.scan .idle start n (l :: ls) = (p.scan .idle n (n + 1) ls).remove ⟨n, n, false⟩ := by
  have hstep := ScanState.step_of_alone ScanState.active_idle h ha
  simp [scan, hstep, Stripped.cut, Stripped.drop, Stripped.remove, Span.lineCount]

theorem scan_of_opens (h : p.markers.Starts p.rule l) (ha : ¬ p.markers.Alone p.rule l) :
    p.scan .idle start n (l :: ls) = (p.scan (.openedBy l) n (n + 1) ls).drop := by
  have hstep := ScanState.step_of_opens ScanState.active_idle h ha
  simp [scan, hstep, ScanState.openedBy]

theorem scan_of_shuts (h : p.rule.Shuts (b + Balance.of l) l) :
    p.scan ⟨true, b⟩ start n (l :: ls) =
      ((p.scan .idle start (n + 1) ls).cut start n false).drop := by
  simp [scan, ScanState.step_of_shuts h]

theorem scan_of_not_shuts (h : ¬ p.rule.Shuts (b + Balance.of l) l) :
    p.scan ⟨true, b⟩ start n (l :: ls) =
      (p.scan ⟨true, b + Balance.of l⟩ start (n + 1) ls).drop := by
  simp [scan, ScanState.step_of_not_shuts h]

theorem scan_of_shutsAfter (h : p.rule.ShutsAfter b ls k)
    (hleast : ∀ j < k, ¬ p.rule.ShutsAfter b ls j) :
    p.scan ⟨true, b⟩ start n ls =
      { p.scan .idle start (n + k + 1) (ls.drop (k + 1)) with
        removed := (p.scan .idle start (n + k + 1) (ls.drop (k + 1))).removed + (k + 1)
        spans := ⟨start, n + k, false⟩ ::
          (p.scan .idle start (n + k + 1) (ls.drop (k + 1))).spans } := by
  induction k generalizing b n ls with
  | zero =>
    cases ls with
    | nil => obtain ⟨_, hl, _⟩ := h; simp at hl
    | cons l ls =>
      rw [scan_of_shuts (ClosingRule.shutsAfter_zero.mp h)]
      simp [Stripped.drop, Stripped.cut]
  | succ k ih =>
    cases ls with
    | nil => obtain ⟨_, hl, _⟩ := h; simp at hl
    | cons l ls =>
      have hfirst : ¬ p.rule.Shuts (b + Balance.of l) l := fun hs =>
        hleast 0 (by omega) (ClosingRule.shutsAfter_zero.mpr hs)
      have hrest := ih (n := n + 1) (ClosingRule.shutsAfter_succ.mp h) fun j hj hs =>
        hleast (j + 1) (by omega) (ClosingRule.shutsAfter_succ.mpr hs)
      have hn : n + 1 + k = n + (k + 1) := by omega
      rw [scan_of_not_shuts hfirst, hrest, hn]
      simp [Stripped.drop, Nat.add_assoc]

theorem scan_of_not_shutsAfter (h : ∀ k, ¬ p.rule.ShutsAfter b ls k) :
    p.scan ⟨true, b⟩ start n ls = ⟨[], ls.length, [⟨start, n + ls.length - 1, true⟩]⟩ := by
  induction ls generalizing b n with
  | nil => simp [scan, Stripped.cut, Stripped.unchanged]
  | cons l ls ih =>
    have hfirst : ¬ p.rule.Shuts (b + Balance.of l) l := fun hs =>
      h 0 (ClosingRule.shutsAfter_zero.mpr hs)
    have hrest := ih (n := n + 1) fun k hs => h (k + 1) (ClosingRule.shutsAfter_succ.mpr hs)
    have hn : n + 1 + ls.length - 1 = n + (ls.length + 1) - 1 := by omega
    rw [scan_of_not_shuts hfirst, hrest, hn]
    rfl

end Stripper

theorem ClosingRule.ClosesAt.lt_end {n e : Nat} {ls : List Text} (h : rule.ClosesAt n ls e) :
    e < n + ls.length := by
  obtain ⟨hlt, l, hl, -⟩ := h
  have := (List.getElem?_eq_some_iff.mp hl).1
  omega

namespace Segmented

variable {n : Nat} {l : Text} {ls : List Text} {spans : List Span}

theorem walk {motive : ∀ n ls spans, Segmented m rule n ls spans → Prop}
    (done : ∀ n, motive n [] [] .done)
    (keep : ∀ n l ls spans (hs : ¬ m.Starts rule l) (h : Segmented m rule (n + 1) ls spans),
      motive (n + 1) ls spans h → motive n (l :: ls) spans (.keep hs h))
    (remove : ∀ n e u l ls spans, m.Starts rule l → n ≤ e → e ≤ n + ls.length →
      (u = true → e = n + ls.length) →
      ∀ h : Segmented m rule (e + 1) ((l :: ls).drop (e + 1 - n)) spans,
      motive (e + 1) ((l :: ls).drop (e + 1 - n)) spans h →
      ∀ h', motive n (l :: ls) (⟨n, e, u⟩ :: spans) h')
    (h : Segmented m rule n ls spans) : motive n ls spans h := by
  induction h with
  | done => exact done _
  | keep hs h ih => exact keep _ _ _ _ hs h ih
  | @alone n l ls spans hs ha h ih =>
    have hd : ls = (l :: ls).drop (n + 1 - n) := by simp
    exact remove n n false l ls spans hs (le_refl n) (Nat.le_add_right n _) (by simp)
      (hd ▸ h) (by simpa only [← hd] using ih) _
  | closed hs ha he h ih =>
    have hend := he.1.lt_end
    rw [List.length_cons] at hend
    exact remove _ _ _ _ _ _ hs (Nat.le_of_lt he.1.1) (by omega) (by simp) h ih _
  | @unclosed n l ls hs ha he =>
    have hd : [] = (l :: ls).drop (n + ls.length + 1 - n) :=
      (List.drop_eq_nil_of_le (by rw [List.length_cons]; omega)).symm
    exact remove n (n + ls.length) true l ls [] hs (Nat.le_add_right n _) (le_refl _) (by simp)
      (hd ▸ .done) (by simpa only [← hd] using done _) _

theorem eq_of_opens (h : Segmented m rule n (l :: ls) spans)
    (hs : m.Starts rule l) (ha : ¬ m.Alone rule l) :
    (∃ e rest, spans = ⟨n, e, false⟩ :: rest ∧ IsLeast {e | rule.ClosesAt n (l :: ls) e} e) ∨
      (spans = [⟨n, n + ls.length, true⟩] ∧ ∀ e, ¬ rule.ClosesAt n (l :: ls) e) := by
  cases h with
  | keep hn => exact absurd hs hn
  | alone _ hal => exact absurd hal ha
  | closed _ _ he _ => exact .inl ⟨_, _, rfl, he⟩
  | unclosed _ _ he => exact .inr ⟨rfl, he⟩

theorem le_first (h : Segmented m rule n ls spans) : ∀ s ∈ spans, n ≤ s.first := by
  induction h using walk with
  | done => simp
  | keep n l ls spans _ _ ih => exact fun s hs => Nat.le_of_succ_le (ih s hs)
  | remove n e u l ls spans _ hle _ _ _ ih =>
    intro s hs
    rcases List.mem_cons.mp hs with rfl | hs
    · exact le_refl n
    · have := ih s hs
      omega

theorem spared_keep (h : Segmented m rule (n + 1) ls spans) (l : Text) :
    spared spans n (l :: ls) = l :: spared spans (n + 1) ls :=
  spared_of_lt (fun s hs => h.le_first s hs) l

theorem exists_spans (m : Markers) (rule : ClosingRule) (n : Nat) (ls : List Text) :
    ∃ spans, Segmented m rule n ls spans := by
  classical
  induction hlen : ls.length using Nat.strong_induction_on generalizing n ls with
  | _ len ih =>
    cases ls with
    | nil => exact ⟨[], .done⟩
    | cons l ls =>
      simp only [List.length_cons] at hlen
      by_cases hs : m.Starts rule l
      · by_cases ha : m.Alone rule l
        · obtain ⟨spans, h⟩ := ih ls.length (by omega) (n + 1) ls rfl
          exact ⟨_, .alone hs ha h⟩
        · by_cases hc : ∃ e, rule.ClosesAt n (l :: ls) e
          · have hlt := (Nat.find_spec hc).1
            obtain ⟨spans, h⟩ := ih ((l :: ls).drop (Nat.find hc + 1 - n)).length
              (by simp only [List.length_drop, List.length_cons]; omega) (Nat.find hc + 1) _ rfl
            exact ⟨_, .closed hs ha ⟨Nat.find_spec hc, fun e he => Nat.find_min' hc he⟩ h⟩
          · exact ⟨_, .unclosed hs ha fun e he => hc ⟨e, he⟩⟩
      · obtain ⟨spans, h⟩ := ih ls.length (by omega) (n + 1) ls rfl
        exact ⟨spans, .keep hs h⟩

end Segmented

namespace Stripper

variable {p : Stripper} {start n e : Nat} {l : Text} {ls : List Text} {spans : List Span}

theorem scan_of_closes (hs : p.markers.Starts p.rule l) (ha : ¬ p.markers.Alone p.rule l)
    (he : IsLeast {e | p.rule.ClosesAt n (l :: ls) e} e) :
    p.scan .idle start n (l :: ls) =
      (p.scan .idle n (e + 1) ((l :: ls).drop (e + 1 - n))).remove ⟨n, e, false⟩ := by
  obtain ⟨k, rfl, hk⟩ := ClosingRule.closesAt_iff.mp he.1
  have hleast : ∀ j < k, ¬ p.rule.ShutsAfter (Balance.of l) ls j := by
    intro j hj hj'
    have hle : n + 1 + k ≤ n + 1 + j := he.2 (ClosingRule.closesAt_iff.mpr ⟨j, rfl, hj'⟩)
    omega
  have hdrop : n + 1 + k + 1 - n = k + 1 + 1 := by omega
  have hcount : (⟨n, n + 1 + k, false⟩ : Span).lineCount = k + 1 + 1 := by
    simp only [Span.lineCount]; omega
  rw [scan_of_opens hs ha, ScanState.openedBy, scan_of_shutsAfter hk hleast, hdrop]
  simp only [Stripped.drop, Stripped.remove, hcount, List.drop_succ_cons]
  rfl

theorem scan_of_not_closes (hs : p.markers.Starts p.rule l) (ha : ¬ p.markers.Alone p.rule l)
    (h : ∀ e, ¬ p.rule.ClosesAt n (l :: ls) e) :
    p.scan .idle start n (l :: ls) =
      (Stripped.unchanged []).remove ⟨n, n + ls.length, true⟩ := by
  have hnone : ∀ k, ¬ p.rule.ShutsAfter (Balance.of l) ls k := fun k hk =>
    h (n + 1 + k) (ClosingRule.closesAt_iff.mpr ⟨k, rfl, hk⟩)
  have hlast : n + 1 + ls.length - 1 = n + ls.length := by omega
  rw [scan_of_opens hs ha, ScanState.openedBy, scan_of_not_shutsAfter hnone, hlast]
  simp [Stripped.drop, Stripped.remove, Stripped.unchanged, Span.lineCount]

theorem scan_of_segmented (h : Segmented p.markers p.rule n ls spans) :
    p.scan .idle start n ls = .ofSpans n ls spans := by
  induction h generalizing start with
  | done => rfl
  | keep hs h ih =>
    rw [scan_of_not_starts hs, ih]
    simp [Stripped.ofSpans, Stripped.keep, h.spared_keep]
  | @alone n l ls spans hs ha _ ih =>
    have hd : (l :: ls).drop (n + 1 - n) = ls := by simp
    rw [scan_of_alone hs ha, ih, ofSpans_cons (le_refl n), hd]
  | closed hs ha he _ ih =>
    rw [scan_of_closes hs ha he, ih, ofSpans_cons (Nat.le_of_lt he.1.1)]
  | @unclosed n l ls hs ha he =>
    have hd : (l :: ls).drop (n + ls.length + 1 - n) = [] :=
      List.drop_eq_nil_of_le (by simp only [List.length_cons]; omega)
    rw [scan_of_not_closes hs ha he, ofSpans_cons (Nat.le_add_right n _), hd]
    rfl

end Stripper

theorem Segmented.unique {n : Nat} {ls : List Text} {spans spans' : List Span}
    (h : Segmented m rule n ls spans) (h' : Segmented m rule n ls spans') : spans = spans' := by
  have hs : Stripper.scan ⟨m, rule⟩ .idle n n ls = .ofSpans n ls spans :=
    Stripper.scan_of_segmented h
  have hs' : Stripper.scan ⟨m, rule⟩ .idle n n ls = .ofSpans n ls spans' :=
    Stripper.scan_of_segmented h'
  exact congrArg Stripped.spans (hs.symm.trans hs')

theorem Segmented.nil_of_not_starts {n : Nat} {ls : List Text}
    (h : ∀ l ∈ ls, ¬ m.Starts rule l) : Segmented m rule n ls [] := by
  induction ls generalizing n with
  | nil => exact .done
  | cons l ls ih =>
    exact .keep (h l List.mem_cons_self) (ih fun l' hl' => h l' (List.mem_cons_of_mem l hl'))

namespace Stripper

variable {p : Stripper} {t : Text} {spans : List Span}

theorem strip_of_segmented (h : Segmented p.markers p.rule 1 t.lines spans) :
    p.strip t = .ofSpans 1 t.lines spans := by
  by_cases ha : p.markers.appearsIn t
  · rw [strip, if_pos ha, scan_of_segmented h]
  · have hnone : ∀ l ∈ t.lines, ¬ p.markers.Starts p.rule l := by
      intro l hl hs
      exact ha (Text.occurs_iff.mpr (hs.bare.1.trans (Text.infix_of_mem_lines hl)))
    have hnil := h.unique (Segmented.nil_of_not_starts hnone)
    subst hnil
    simp [strip, ha, Stripped.unchanged, Stripped.ofSpans, spared_nil, Text.flatten_lines]

theorem exists_segmented (p : Stripper) (t : Text) :
    ∃ spans, Segmented p.markers p.rule 1 t.lines spans ∧ p.strip t = .ofSpans 1 t.lines spans := by
  obtain ⟨spans, h⟩ := Segmented.exists_spans p.markers p.rule 1 t.lines
  exact ⟨spans, h, strip_of_segmented h⟩

/-- Stripping finds the spans that looking ahead finds, and leaves the lines outside them. -/
theorem strip_eq_iff_segmented (p : Stripper) (t : Text) (r : Stripped) :
    p.strip t = r ↔
      Segmented p.markers p.rule 1 t.lines r.spans ∧
      r.content = (spared r.spans 1 t.lines).flatten ∧
      r.removed = (r.spans.map Span.lineCount).sum := by
  constructor
  · rintro rfl
    obtain ⟨spans, h, hr⟩ := p.exists_segmented t
    rw [hr]
    exact ⟨h, rfl, rfl⟩
  · rintro ⟨h, hcontent, hremoved⟩
    rw [strip_of_segmented h]
    cases r
    simp_all [Stripped.ofSpans]

example : strip ⟨.usual, .paren⟩
    "console.log('x');\nlet a = 1;\nconsole.log('y', \x7b\n  z: 1,\n\x7d);\nlet b = 2;\n".toList =
    ⟨"let a = 1;\nlet b = 2;\n".toList, 4, [⟨1, 1, false⟩, ⟨3, 5, false⟩]⟩ := by decide

end Stripper

end CallStrip

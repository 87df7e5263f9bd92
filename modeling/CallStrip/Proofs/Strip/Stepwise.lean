import CallStrip.Proofs.Strip.Inclusion
import Mathlib.Data.List.ModifyLast

/-!
Stripping line by line, with no look at the whole text first. What stays and what goes is put
together behind each line from the verdict on it and the state before it, and it comes out as if the
text had been searched for the target first.
-/

namespace CallStrip

namespace ScanState

variable {m : Markers} {rule : ClosingRule} {s : ScanState} {l : Text}

def after (m : Markers) (rule : ClosingRule) (s : ScanState) (ls : List Text) : ScanState :=
  ls.foldl (fun s l => (s.step m rule l).1) s

def Drops (m : Markers) (rule : ClosingRule) (s : ScanState) (ls : List Text) (k : Nat) : Prop :=
  ∃ s', (s.trace m rule ls)[k]? = some (s', .drop)

theorem step_cases (m : Markers) (rule : ClosingRule) (s : ScanState) (l : Text) :
    (s.active = false ∧ (s.step m rule l).1 = s) ∨
      (s.active = false ∧ s.step m rule l = (openedBy l, .drop) ∧ rule ≠ .line) ∨
      (s.active = true ∧ s.step m rule l = (idle, .drop)) ∨
      (s.active = true ∧ s.step m rule l = (⟨true, s.balance + Balance.of l⟩, .drop)) := by
  obtain ⟨active, b⟩ := s
  cases active with
  | false =>
    by_cases hs : m.Starts rule l
    · by_cases ha : m.Alone rule l
      · exact .inl ⟨rfl, by rw [step_of_alone rfl hs ha]⟩
      · refine .inr (.inl ⟨rfl, step_of_opens rfl hs ha, ?_⟩)
        rintro rfl
        exact ha trivial
    · exact .inl ⟨rfl, by rw [step_of_not_starts rfl hs]⟩
  | true =>
    by_cases hshut : rule.Shuts (b + Balance.of l) l
    · exact .inr (.inr (.inl ⟨rfl, step_of_shuts hshut⟩))
    · exact .inr (.inr (.inr ⟨rfl, step_of_not_shuts hshut⟩))

theorem step_of_keep (h : (s.step m rule l).2 = .keep) :
    s.active = false ∧ (s.step m rule l).1 = s := by
  rcases step_cases m rule s l with hsame | ⟨-, hstep, -⟩ | ⟨-, hstep⟩ | ⟨-, hstep⟩
  · exact hsame
  all_goals rw [hstep] at h; cases h

theorem not_drops_nil (k : Nat) : ¬ s.Drops m rule [] k := by simp [Drops, trace]

theorem exists_drops_cons {ls : List Text} {i n : Nat} :
    (∃ k, i = n + k ∧ s.Drops m rule (l :: ls) k) ↔
      (i = n ∧ (s.step m rule l).2 = .drop) ∨
        ∃ k, i = n + 1 + k ∧ (s.step m rule l).1.Drops m rule ls k := by
  constructor
  · rintro ⟨k, rfl, s', hk⟩
    cases k with
    | zero => exact .inl ⟨rfl, congrArg Prod.snd (Option.some.inj hk)⟩
    | succ k => exact .inr ⟨k, by omega, s', hk⟩
  · rintro (⟨rfl, hv⟩ | ⟨k, rfl, s', hk⟩)
    · exact ⟨0, rfl, _, congrArg some (Prod.ext rfl hv)⟩
    · exact ⟨k + 1, by omega, s', hk⟩

end ScanState

namespace Stripped

def withKept (l : Text) (r : Stripped) : Stripped := { r with content := r.content ++ l }

/-- One more line, which goes: as part of the last span if a call is open, or else as a span. -/
def withDropped (inCall : Bool) (n : Nat) (r : Stripped) : Stripped :=
  { r with
    removed := r.removed + 1
    spans :=
      if inCall && !r.spans.isEmpty then r.spans.modifyLast ({ · with last := n })
      else r.spans ++ [⟨n, n, false⟩] }

end Stripped

namespace Stripper

def advance (p : Stripper) (a : ScanState × Stripped) (line : Text × Nat) : ScanState × Stripped :=
  let next := a.1.step p.markers p.rule line.1
  match next.2 with
  | .keep => (next.1, a.2.withKept line.1)
  | .drop => (next.1, a.2.withDropped a.1.active line.2)

def progress (p : Stripper) (ls : List Text) : ScanState × Stripped :=
  (ls.zipIdx 1).foldl p.advance (.idle, .unchanged [])

def finish (a : ScanState × Stripped) : Stripped :=
  if a.1.active then { a.2 with spans := a.2.spans.modifyLast ({ · with unterminated := true }) }
  else a.2

def sweep (p : Stripper) (ls : List Text) : Stripped := finish (p.progress ls)

variable {p : Stripper} {s : ScanState} {r : Stripped} {start n i : Nat} {l : Text}
  {ls : List Text} {front : List Span}

def openSpan (s : ScanState) (start n : Nat) : List Span :=
  if s.active then [⟨start, n - 1, false⟩] else []

theorem spans_withDropped (h : r.spans = front ++ openSpan s start n) :
    (r.withDropped s.active n).spans = front ++ [⟨if s.active then start else n, n, false⟩] := by
  rw [Stripped.withDropped, h, openSpan]
  cases s.active with
  | true => simp [List.modifyLast_concat]
  | false => simp

theorem finish_foldl_advance (h : r.spans = front ++ openSpan s start n) :
    finish ((ls.zipIdx n).foldl p.advance (s, r)) =
      ⟨r.content ++ (p.scan s start n ls).content, r.removed + (p.scan s start n ls).removed,
        front ++ (p.scan s start n ls).spans⟩ := by
  induction ls generalizing s r start n front with
  | nil =>
    obtain ⟨content, removed, spans⟩ := r
    obtain rfl : spans = _ := h
    cases hs : s.active with
    | true =>
      simp [finish, hs, scan, openSpan, List.modifyLast_concat, Stripped.cut, Stripped.unchanged]
    | false => simp [finish, hs, scan, openSpan, Stripped.unchanged]
  | cons l ls ih =>
    rw [List.zipIdx_cons, List.foldl_cons, advance, scan]
    cases hv : (s.step p.markers p.rule l).2 with
    | keep =>
      obtain ⟨hs, hnext⟩ := ScanState.step_of_keep hv
      have hspans : (r.withKept l).spans = front ++ openSpan s n (n + 1) := by
        simpa [Stripped.withKept, openSpan, hs] using h
      simp only [hnext, hs, Bool.false_eq_true, if_false]
      rw [ih hspans]
      simp [Stripped.keep, Stripped.withKept]
    | drop =>
      have hspans := spans_withDropped h
      generalize (if s.active then start else n) = first at hspans ⊢
      dsimp only
      split
      · next hnext =>
        have hopen : (r.withDropped s.active n).spans =
            front ++ openSpan (s.step p.markers p.rule l).1 first (n + 1) := by
          rw [hspans, openSpan, if_pos hnext, Nat.add_sub_cancel]
        rw [ih hopen]
        simp [Stripped.drop, Stripped.withDropped, Nat.add_assoc, Nat.add_comm]
      · next hnext =>
        have hclosed : (r.withDropped s.active n).spans = front ++ [⟨first, n, false⟩] ++
            openSpan (s.step p.markers p.rule l).1 first (n + 1) := by
          rw [hspans, openSpan, if_neg hnext, List.append_nil]
        rw [ih hclosed]
        simp [Stripped.drop, Stripped.cut, Stripped.withDropped, Nat.add_assoc, Nat.add_comm]

theorem strip_eq_scan (p : Stripper) (t : Text) : p.strip t = p.scan .idle 1 1 t.lines := by
  obtain ⟨spans, h, hs⟩ := p.exists_segmented t
  rw [hs, scan_of_segmented h]

theorem sweep_eq_scan (p : Stripper) (ls : List Text) : p.sweep ls = p.scan .idle 1 1 ls := by
  have hnone : (Stripped.unchanged []).spans = [] ++ openSpan .idle 1 1 := rfl
  rw [sweep, progress, finish_foldl_advance hnone]
  simp [Stripped.unchanged]

theorem covers_scan_iff (hstart : s.active = true → start < n) :
    (∃ x ∈ (p.scan s start n ls).spans, x.Covers i) ↔
      (s.active = true ∧ start ≤ i ∧ i < n) ∨ ∃ k, i = n + k ∧ s.Drops p.markers p.rule ls k := by
  induction ls generalizing s start n with
  | nil =>
    cases hs : s.active with
    | true =>
      have := hstart hs
      simp only [scan, hs, if_true, Stripped.cut, Stripped.unchanged, List.mem_singleton,
        exists_eq_left, Span.Covers, ScanState.not_drops_nil, and_false, exists_false, or_false,
        true_and]
      omega
    | false => simp [scan, hs, Stripped.unchanged, ScanState.not_drops_nil]
  | cons l ls ih =>
    rw [ScanState.exists_drops_cons, scan]
    cases hv : (s.step p.markers p.rule l).2 with
    | keep =>
      obtain ⟨hs, hnext⟩ := ScanState.step_of_keep hv
      have hrest := ih fun (_ : s.active = true) => show n < n + 1 from Nat.lt_succ_self n
      simpa [hs, hnext, Stripped.keep] using hrest
    | drop =>
      have hfirst : (if s.active then start else n) < n + 1 := by
        split
        · next hs => exact Nat.lt_succ_of_lt (hstart hs)
        · exact Nat.lt_succ_self n
      have hopen : (s.active = true ∧ start ≤ i ∧ i < n) ∨ i = n ↔
          (if s.active then start else n) ≤ i ∧ i < n + 1 := by
        cases hs : s.active with
        | true =>
          have := hstart hs
          simp only [if_true, true_and]
          omega
        | false =>
          simp only [Bool.false_eq_true, if_false, false_and, false_or]
          omega
      have hrest := ih fun (_ : (s.step p.markers p.rule l).1.active = true) => hfirst
      simp only [and_true, ← or_assoc, hopen]
      split
      · next hnext => simpa only [Stripped.drop, hnext, true_and] using hrest
      · next hnext =>
        simp only [hnext, Bool.false_eq_true, false_and, false_or] at hrest
        rw [← hrest]
        simp only [Stripped.drop, Stripped.cut, List.exists_mem_cons_iff, Span.Covers,
          Nat.lt_succ_iff]

theorem unterminated_cons_iff {spans : List Span} {first last : Nat} :
    (∃ x ∈ (⟨first, last, false⟩ :: spans : List Span).getLast?, x.unterminated = true) ↔
      ∃ x ∈ spans.getLast?, x.unterminated = true := by
  cases spans with
  | nil => simp
  | cons => rw [List.getLast?_cons_cons]

theorem unterminated_scan_iff :
    (∃ x ∈ (p.scan s start n ls).spans.getLast?, x.unterminated = true) ↔
      (s.after p.markers p.rule ls).active = true := by
  induction ls generalizing s start n with
  | nil =>
    cases hs : s.active <;>
      simp [scan, hs, ScanState.after, Stripped.cut, Stripped.unchanged]
  | cons l ls ih =>
    have hafter : s.after p.markers p.rule (l :: ls) =
        (s.step p.markers p.rule l).1.after p.markers p.rule ls := rfl
    rw [scan, hafter]
    cases (s.step p.markers p.rule l).2 with
    | keep => exact ih
    | drop =>
      dsimp only
      split
      · exact ih
      · rw [← ih]
        exact unterminated_cons_iff

/-- Whether the target is looked for in the whole text first makes no difference. The lines that go
are those with the verdict that they go, and a call that is open behind the last line has no end. -/
theorem strip_eq_sweep (p : Stripper) (t : Text) :
    p.strip t = p.sweep t.lines ∧
      (∀ i, (p.strip t).Removes i ↔
        ∃ k, i = k + 1 ∧ ScanState.idle.Drops p.markers p.rule t.lines k) ∧
      ((∃ x ∈ (p.strip t).spans.getLast?, x.unterminated = true) ↔
        (ScanState.idle.after p.markers p.rule t.lines).active = true) := by
  have hscan := p.strip_eq_scan t
  refine ⟨hscan.trans (p.sweep_eq_scan t.lines).symm, fun i => ?_, ?_⟩
  · rw [hscan, Stripped.Removes, covers_scan_iff (by simp)]
    simp [Nat.add_comm 1]
  · rw [hscan, unterminated_scan_iff]

example : strip ⟨⟨"a\nb".toList, [], by decide, by decide⟩, .brace⟩ "a\nb();".toList =
    .unchanged "a\nb();".toList := by decide

end Stripper

end CallStrip

import CallStrip.Proofs.Strip.Stepwise
import CallStrip.Proofs.Text.Utf8

/-!
The counters of the scanner. Behind each line they say how many brackets the call that is open has
opened and not closed, from its first line on, and no text is long enough to carry them out of 64
bits.
-/

namespace CallStrip

namespace Balance

variable {t s : Text} {n : Nat}

def counted (t : Text) : Balance :=
  ⟨t.count '\x7b' - t.count '\x7d', t.count '(' - t.count ')'⟩

theorem counted_cons (c : Char) (t : Text) : counted (c :: t) = ofChar c + counted t := by
  unfold ofChar
  split <;> ext <;> simp only [counted, braces_add, parens_add, List.count_cons] <;> grind

theorem of_eq_counted (t : Text) : of t = counted t := by
  induction t with
  | nil => rfl
  | cons c t ih => rw [of, ih, counted_cons]

def Within (b : Balance) (n : Nat) : Prop := b.braces.natAbs ≤ n ∧ b.parens.natAbs ≤ n

theorem within_of (t : Text) : (of t).Within t.length := by
  induction t with
  | nil => exact ⟨Nat.le_refl 0, Nat.le_refl 0⟩
  | cons c t ih =>
    obtain ⟨hbraces, hparens⟩ := ih
    have hc : (ofChar c).braces.natAbs ≤ 1 ∧ (ofChar c).parens.natAbs ≤ 1 := by
      unfold ofChar
      split <;> decide
    rw [Within, of, braces_add, parens_add, List.length_cons]
    omega

/-- Whether the counters have room in signed words of 64 bits. -/
def Fits (b : Balance) : Prop :=
  (-0x8000000000000000 ≤ b.braces ∧ b.braces < 0x8000000000000000) ∧
    -0x8000000000000000 ≤ b.parens ∧ b.parens < 0x8000000000000000

instance (b : Balance) : Decidable b.Fits := inferInstanceAs (Decidable (_ ∧ _))

def add? (a b : Balance) : Option Balance := if (a + b).Fits then some (a + b) else none

def of? (t : Text) : Option Balance := t.foldlM (fun b c => b.add? (ofChar c)) ⟨0, 0⟩

theorem fits_of (h : t.length < 2 ^ 63) : (of t).Fits := by
  obtain ⟨hbraces, hparens⟩ := within_of t
  unfold Fits
  omega

theorem add?_of (h : (s ++ t).length < 2 ^ 63) : (of s).add? (of t) = some (of (s ++ t)) := by
  rw [add?, ← of_append, if_pos (fits_of h)]

theorem foldlM_add? (s : Text) (h : (s ++ t).length < 2 ^ 63) :
    t.foldlM (fun b c => b.add? (ofChar c)) (of s) = some (of (s ++ t)) := by
  induction t generalizing s with
  | nil => simp
  | cons c t ih =>
    have hsplit : s ++ c :: t = s ++ [c] ++ t := by simp
    have hc : of [c] = ofChar c := by ext <;> simp [of]
    rw [hsplit] at h ⊢
    have hadd : (of s).add? (ofChar c) = some (of (s ++ [c])) := by
      rw [← hc]
      refine add?_of ?_
      rw [List.length_append] at h
      omega
    rw [List.foldlM_cons, hadd]
    exact ih _ h

theorem of?_eq_some (h : t.length < 2 ^ 63) : of? t = some (of t) := foldlM_add? [] h

end Balance

namespace ScanState

variable {m : Markers} {rule : ClosingRule} {s : ScanState} {l : Text} {ls : List Text} {v : Verdict}
  {i : Nat}

def step? (m : Markers) (rule : ClosingRule) (s : ScanState) (l : Text) :
    Option (ScanState × Verdict) :=
  if s.active then do
    let b ← s.balance.add? (← Balance.of? l)
    return (if closes rule b l then idle else ⟨true, b⟩, .drop)
  else
    let next := s.step m rule l
    if next.1.active then do return (⟨true, ← Balance.of? l⟩, next.2) else return next

def trace? (m : Markers) (rule : ClosingRule) (s : ScanState) :
    List Text → Option (List (ScanState × Verdict))
  | [] => return []
  | l :: ls => do
    let next ← s.step? m rule l
    return next :: (← next.1.trace? m rule ls)

theorem after_concat (m : Markers) (rule : ClosingRule) (s : ScanState) (ls : List Text) (l : Text) :
    s.after m rule (ls ++ [l]) = ((s.after m rule ls).step m rule l).1 := by
  rw [after, after, List.foldl_concat]

theorem eq_after_of_trace {s' : ScanState} (h : (s.trace m rule ls)[i]? = some (s', v)) :
    s' = s.after m rule (ls.take (i + 1)) := by
  induction ls generalizing s i with
  | nil => cases h
  | cons l ls ih =>
    cases i with
    | zero => exact (congrArg Prod.fst (Option.some.inj h)).symm
    | succ i => exact ih h

end ScanState

namespace Stripper

variable {p : Stripper} {s : ScanState} {front call ls : List Text} {l : Text}

/-- The lines of the call that is open: before the first of them none was, and behind each it is. -/
structure OpenSince (p : Stripper) (front call : List Text) : Prop where
  ne_nil : call ≠ []
  before : (ScanState.idle.after p.markers p.rule front).active = false
  since : ∀ part, part <+: call → part ≠ [] →
    (ScanState.idle.after p.markers p.rule (front ++ part)).active = true

theorem OpenSince.first (h : (ScanState.idle.after p.markers p.rule front).active = false)
    (hl : (ScanState.idle.after p.markers p.rule (front ++ [l])).active = true) :
    p.OpenSince front [l] := by
  refine ⟨List.cons_ne_nil l [], h, fun part hpart hne => ?_⟩
  rcases List.prefix_concat_iff.mp (show part <+: [] ++ [l] from hpart) with rfl | hnil
  · exact hl
  · exact absurd (List.prefix_nil.mp hnil) hne

theorem OpenSince.next (h : p.OpenSince front call)
    (hl : (ScanState.idle.after p.markers p.rule (front ++ (call ++ [l]))).active = true) :
    p.OpenSince front (call ++ [l]) := by
  refine ⟨List.concat_ne_nil l call, h.before, fun part hpart hne => ?_⟩
  rcases List.prefix_concat_iff.mp hpart with rfl | hpart
  · exact hl
  · exact h.since part hpart hne

theorem progress_concat (p : Stripper) (ls : List Text) (l : Text) :
    p.progress (ls ++ [l]) = p.advance (p.progress ls) (l, ls.length + 1) := by
  rw [progress, List.zipIdx_append, List.foldl_append, Nat.add_comm]
  rfl

theorem fst_progress (p : Stripper) (ls : List Text) :
    (p.progress ls).1 = ScanState.idle.after p.markers p.rule ls := by
  induction ls using List.reverseRecOn with
  | nil => rfl
  | append_singleton ls l ih =>
    rw [progress_concat, advance, ih, ScanState.after_concat]
    split <;> rfl

theorem active_progress_concat
    (h : (ScanState.idle.after p.markers p.rule (ls ++ [l])).active = true) :
    (p.progress (ls ++ [l])).2 =
      (p.progress ls).2.withDropped (ScanState.idle.after p.markers p.rule ls).active
        (ls.length + 1) := by
  rw [ScanState.after_concat] at h
  rw [progress_concat, advance, fst_progress]
  cases hv : ((ScanState.idle.after p.markers p.rule ls).step p.markers p.rule l).2 with
  | keep =>
    obtain ⟨hidle, hsame⟩ := ScanState.step_of_keep hv
    rw [hsame, hidle] at h
    cases h
  | drop => rfl

theorem OpenSince.spans_progress (h : p.OpenSince front call) :
    (p.progress (front ++ call)).2.spans =
      (p.progress front).2.spans ++ [⟨front.length + 1, (front ++ call).length, false⟩] := by
  obtain ⟨hne, hbefore, hsince⟩ := h
  induction call using List.reverseRecOn with
  | nil => exact absurd rfl hne
  | append_singleton call l ih =>
    have hactive := hsince (call ++ [l]) (List.prefix_refl _) hne
    rw [← List.append_assoc] at hactive ⊢
    rw [active_progress_concat hactive, Stripped.withDropped]
    by_cases hcall : call = []
    · subst hcall
      rw [List.append_nil, hbefore]
      simp
    · have hopen := hsince call (List.prefix_append call [l]) hcall
      have hspans := ih hcall fun part hpart =>
        hsince part (hpart.trans (List.prefix_append call [l]))
      rw [hopen, hspans]
      simp [List.modifyLast_concat, Nat.add_assoc]

theorem OpenSince.spans_sweep (h : p.OpenSince front call) :
    (p.sweep (front ++ call)).spans =
      (p.progress front).2.spans ++ [⟨front.length + 1, (front ++ call).length, true⟩] := by
  have hactive := h.since call (List.prefix_refl call) h.ne_nil
  rw [← fst_progress] at hactive
  rw [sweep, finish, if_pos hactive, h.spans_progress, List.modifyLast_concat]

/-- What a state says of the lines before it. -/
structure Counts (p : Stripper) (ls : List Text) (s : ScanState) : Prop where
  at_rest : s.active = false → s.balance = ⟨0, 0⟩
  in_call : s.active = true → ∃ front call, ls = front ++ call ∧ p.OpenSince front call ∧
    (p.sweep ls).spans.getLast? = some ⟨front.length + 1, ls.length, true⟩ ∧
    s.balance = Balance.counted call.flatten ∧ s.balance.Within call.flatten.length
  line : p.rule = .line → s.active = false

theorem Counts.idle (p : Stripper) (ls : List Text) : p.Counts ls .idle :=
  ⟨fun _ => rfl, fun h => absurd h Bool.false_ne_true, fun _ => rfl⟩

theorem OpenSince.counts (h : p.OpenSince front call) (hrule : p.rule ≠ .line) :
    p.Counts (front ++ call) ⟨true, Balance.of call.flatten⟩ where
  at_rest hs := absurd hs.symm Bool.false_ne_true
  in_call _ := by
    refine ⟨front, call, rfl, h, ?_, Balance.of_eq_counted _, Balance.within_of _⟩
    rw [h.spans_sweep, List.getLast?_concat]
  line hline := absurd hline hrule

theorem counts_step (h : p.Counts ls (ScanState.idle.after p.markers p.rule ls)) (l : Text) :
    p.Counts (ls ++ [l]) (ScanState.idle.after p.markers p.rule (ls ++ [l])) := by
  have hafter := ScanState.after_concat p.markers p.rule .idle ls l
  rcases ScanState.step_cases p.markers p.rule (ScanState.idle.after p.markers p.rule ls) l with
    ⟨hs, hstep⟩ | ⟨hs, hstep, hrule⟩ | ⟨hs, hstep⟩ | ⟨hs, hstep⟩
  · rw [hafter, hstep]
    exact ⟨h.at_rest, fun ha => absurd ha (by simp [hs]), fun _ => hs⟩
  · have hopen : (ScanState.idle.after p.markers p.rule (ls ++ [l])).active = true := by
      rw [hafter, hstep]
      rfl
    have hcounts := (OpenSince.first hs hopen).counts hrule
    rw [hafter, hstep]
    simpa [ScanState.openedBy] using hcounts
  · rw [hafter, hstep]
    exact .idle p _
  · obtain ⟨front, call, rfl, hcall, -, hbalance, -⟩ := h.in_call hs
    have hrule : p.rule ≠ .line := fun hline => by
      have := h.line hline
      rw [hs] at this
      cases this
    have hopen : (ScanState.idle.after p.markers p.rule (front ++ (call ++ [l]))).active = true := by
      rw [← List.append_assoc, hafter, hstep]
    have hcounts := (hcall.next hopen).counts hrule
    rw [hafter, hstep, hbalance, ← Balance.of_eq_counted, ← Balance.of_append, List.append_assoc]
    simpa using hcounts

theorem counts_after (p : Stripper) (ls : List Text) :
    p.Counts ls (ScanState.idle.after p.markers p.rule ls) := by
  induction ls using List.reverseRecOn with
  | nil => exact .idle p []
  | append_singleton ls l ih => exact counts_step ih l

theorem step?_after (p : Stripper) (ls : List Text) (l : Text)
    (h : (ls ++ [l]).flatten.length < 2 ^ 63) :
    (ScanState.idle.after p.markers p.rule ls).step? p.markers p.rule l =
      some ((ScanState.idle.after p.markers p.rule ls).step p.markers p.rule l) := by
  have hcounts := p.counts_after ls
  generalize ScanState.idle.after p.markers p.rule ls = s at hcounts ⊢
  rw [List.flatten_concat, List.length_append] at h
  have hline : Balance.of? l = some (Balance.of l) := Balance.of?_eq_some (by omega)
  cases hs : s.active with
  | true =>
    obtain ⟨front, call, rfl, -, -, hbalance, -⟩ := hcounts.in_call hs
    have hadd : s.balance.add? (Balance.of l) = some (s.balance + Balance.of l) := by
      rw [hbalance, ← Balance.of_eq_counted, ← Balance.of_append]
      refine Balance.add?_of ?_
      rw [List.flatten_append, List.length_append] at h
      rw [List.length_append]
      omega
    simp [ScanState.step?, ScanState.step, hs, hline, hadd]
  | false =>
    rcases ScanState.step_cases p.markers p.rule s l with
      ⟨-, hstep⟩ | ⟨-, hstep, -⟩ | ⟨hactive, -⟩ | ⟨hactive, -⟩
    · simp [ScanState.step?, hs, hstep]
    · simp [ScanState.step?, hs, hstep, hline, ScanState.openedBy]
    · rw [hs] at hactive
      cases hactive
    · rw [hs] at hactive
      cases hactive

theorem trace?_after (p : Stripper) (done ls : List Text)
    (h : (done ++ ls).flatten.length < 2 ^ 63) :
    (ScanState.idle.after p.markers p.rule done).trace? p.markers p.rule ls =
      some ((ScanState.idle.after p.markers p.rule done).trace p.markers p.rule ls) := by
  induction ls generalizing done with
  | nil => rfl
  | cons l ls ih =>
    have hsplit : done ++ l :: ls = done ++ [l] ++ ls := by simp
    rw [hsplit] at h
    have hshort : (done ++ [l]).flatten.length < 2 ^ 63 := by
      rw [List.flatten_append, List.length_append] at h
      omega
    have hstep := p.step?_after done l hshort
    have hrest := ih _ h
    rw [ScanState.after_concat] at hrest
    simp [ScanState.trace?, ScanState.trace, hstep, hrest]

/-- Behind each line the counters are at zero or say what the open call has opened and not closed so
far, and to count in words of 64 bits makes no difference to a text that has fewer than 2 ^ 63
bytes. -/
theorem counts_of_trace (p : Stripper) (ls : List Text) :
    (∀ i s v, (ScanState.idle.trace p.markers p.rule ls)[i]? = some (s, v) →
      p.Counts (ls.take (i + 1)) s) ∧
    ((Utf8.encode ls.flatten).length < 2 ^ 63 →
      ScanState.idle.trace? p.markers p.rule ls =
        some (ScanState.idle.trace p.markers p.rule ls)) := by
  constructor
  · intro i s v h
    rw [ScanState.eq_after_of_trace h]
    exact p.counts_after _
  · intro h
    exact p.trace?_after [] ls (Nat.lt_of_le_of_lt (Utf8.length_le_length_encode _) h)

def overclosed : List Text := ["f();\n".toList, "console.log(a))\n".toList, "\x7d,\n".toList]

theorem counts_of_trace_overclosed :
    (ScanState.idle.trace .usual .paren overclosed)[2]? = some (⟨true, ⟨-1, -1⟩⟩, .drop) ∧
      Counts ⟨.usual, .paren⟩ overclosed ⟨true, ⟨-1, -1⟩⟩ ∧
      (Utf8.encode overclosed.flatten).length < 2 ^ 63 ∧
      ScanState.idle.trace? .usual .paren overclosed =
        some [(.idle, .keep), (⟨true, ⟨0, -1⟩⟩, .drop), (⟨true, ⟨-1, -1⟩⟩, .drop)] := by
  have hlast : (ScanState.idle.trace .usual .paren overclosed)[2]? =
      some (⟨true, ⟨-1, -1⟩⟩, .drop) := by decide
  have hbytes : (Utf8.encode overclosed.flatten).length < 2 ^ 63 := by decide
  obtain ⟨hcounts, hwords⟩ := counts_of_trace ⟨.usual, .paren⟩ overclosed
  exact ⟨hlast, hcounts 2 _ _ hlast, hbytes, (hwords hbytes).trans (by decide)⟩

end Stripper

end CallStrip

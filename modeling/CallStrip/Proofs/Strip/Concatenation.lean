import CallStrip.Proofs.Strip.Locality
import Mathlib.Data.List.Forall2

/-!
Stripping a text that has another one behind it. What was found before is found again, but for a
last span without an end, which may reach further; if there is none, the two texts are stripped as
if each stood alone.
-/

namespace CallStrip

/-- What may become of a span when lines are put behind the text: it stays, or it had no end and
takes some of them. -/
def Span.GoesOn (s s' : Span) : Prop :=
  s' = s ∨ (s.unterminated = true ∧ s'.first = s.first ∧ s.last < s'.last)

namespace Segmented

variable {m : Markers} {rule : ClosingRule} {n : Nat} {a b : List Text} {sa sb : List Span}

theorem append (ha : Segmented m rule n a sa) (hended : ∀ s ∈ sa, s.unterminated = false)
    (hb : Segmented m rule (n + a.length) b sb) : Segmented m rule n (a ++ b) (sa ++ sb) := by
  induction ha with
  | done => exact hb
  | @keep n l ls spans hs _ ih =>
    rw [List.length_cons, Nat.add_comm ls.length 1, ← Nat.add_assoc] at hb
    exact .keep hs (ih hended hb)
  | @alone n l ls spans hs hal _ ih =>
    rw [List.length_cons, Nat.add_comm ls.length 1, ← Nat.add_assoc] at hb
    exact .alone hs hal (ih (fun s hs => hended s (List.mem_cons_of_mem _ hs)) hb)
  | @closed n e l ls spans hs hal he _ ih =>
    have hstart := he.1.1
    have hend := he.1.lt_end
    have hlen : n + (l :: ls).length = e + 1 + ((l :: ls).drop (e + 1 - n)).length := by
      rw [List.length_drop]
      omega
    rw [hlen] at hb
    have hrest := ih (fun s hs => hended s (List.mem_cons_of_mem _ hs)) hb
    rw [← List.drop_append_of_le_length (by omega)] at hrest
    exact .closed hs hal ((ClosingRule.isLeast_closesAt_append hend).mpr he) hrest
  | unclosed => exact absurd (hended _ List.mem_cons_self) (by simp)

theorem exists_prolonged (h : Segmented m rule n a sa) (b : List Text) :
    ∃ front behind, Segmented m rule n (a ++ b) (front ++ behind) ∧
      List.Forall₂ Span.GoesOn sa front ∧
      spared sa n a <+: spared (front ++ behind) n (a ++ b) := by
  induction h with
  | @done n =>
    obtain ⟨spans, hb⟩ := exists_spans m rule n b
    exact ⟨[], spans, hb, .nil, List.nil_prefix⟩
  | @keep n l ls spans hs h ih =>
    obtain ⟨front, behind, hrest, hgo, hleft⟩ := ih
    refine ⟨front, behind, .keep hs hrest, hgo, ?_⟩
    rw [List.cons_append, h.spared_keep, hrest.spared_keep]
    exact (List.prefix_cons_inj l).mpr hleft
  | @alone n l ls spans hs hal h ih =>
    obtain ⟨front, behind, hrest, hgo, hleft⟩ := ih
    refine ⟨⟨n, n, false⟩ :: front, behind, .alone hs hal hrest, .cons (.inl rfl) hgo, ?_⟩
    rw [List.cons_append, List.cons_append, spared_removal (Nat.le_refl n),
      spared_removal (Nat.le_refl n), Nat.add_sub_cancel_left]
    exact hleft
  | @closed n e l ls spans hs hal he h ih =>
    obtain ⟨front, behind, hrest, hgo, hleft⟩ := ih
    have hend := he.1.lt_end
    have hle := Nat.le_of_lt he.1.1
    rw [← List.drop_append_of_le_length (by omega)] at hrest hleft
    refine ⟨⟨n, e, false⟩ :: front, behind,
      .closed hs hal ((ClosingRule.isLeast_closesAt_append hend).mpr he) hrest,
      .cons (.inl rfl) hgo, ?_⟩
    rw [List.cons_append, spared_removal hle, spared_removal hle]
    exact hleft
  | @unclosed n l ls hs hal he =>
    obtain ⟨spans, hb⟩ := exists_spans m rule n (l :: ls ++ b)
    have hnone : spared [⟨n, n + ls.length, true⟩] n (l :: ls) = [] := by
      rw [spared_removal (Nat.le_add_right n _), List.drop_eq_nil_of_le]
      · rfl
      · rw [List.length_cons]
        omega
    rw [hnone]
    -- The call is closed by one of the new lines, or takes them all.
    rcases hb.eq_of_opens hs hal with ⟨e, rest, rfl, hleast⟩ | ⟨rfl, -⟩
    · refine ⟨[⟨n, e, false⟩], rest, hb, .cons (.inr ⟨rfl, rfl, ?_⟩) .nil, List.nil_prefix⟩
      by_contra hle
      refine he e ((ClosingRule.closesAt_append ?_).mp hleast.1)
      simp only [List.length_cons] at hle ⊢
      omega
    · refine ⟨[⟨n, n + (ls ++ b).length, true⟩], [], hb, .cons ?_ .nil, List.nil_prefix⟩
      cases b with
      | nil =>
        rw [List.append_nil]
        exact .inl rfl
      | cons k ks =>
        refine .inr ⟨rfl, rfl, ?_⟩
        simp only [List.length_append, List.length_cons]
        omega

end Segmented

namespace Stripper

variable {a : Text}

/-- A text put behind one that does not end inside a line changes nothing of what was found there,
unless a call is still open. -/
theorem strip_append (p : Stripper) (h : a = [] ∨ ['\n'] <:+ a) (b : Text) :
    ((∀ s ∈ (p.strip a).spans, s.unterminated = false) →
      p.strip (a ++ b) =
        ⟨(p.strip a).content ++ (p.strip b).content, (p.strip a).removed + (p.strip b).removed,
          (p.strip a).spans ++ (p.strip b).spans.map (Span.shift a.lines.length)⟩) ∧
    (p.strip a).content <+: (p.strip (a ++ b)).content ∧
    ∃ front behind, (p.strip (a ++ b)).spans = front ++ behind ∧
      List.Forall₂ Span.GoesOn (p.strip a).spans front := by
  obtain ⟨sa, ha, hsa⟩ := p.exists_segmented a
  have hlines := Text.lines_append h b
  constructor
  · intro hended
    obtain ⟨sb, hb, hsb⟩ := p.exists_segmented b
    rw [hsa] at hended
    have hb' := hb.shift a.lines.length
    have hab := ha.append hended hb'
    rw [← hlines] at hab
    have hspared : spared (sa ++ sb.map (Span.shift a.lines.length)) 1 (a.lines ++ b.lines) =
        spared sa 1 a.lines ++ spared sb 1 b.lines := by
      rw [spared_append (fun s hs => (ha.laid.within s hs).2.2) hb'.le_first, spared_shift]
    have hcount : (sb.map (Span.shift a.lines.length)).map Span.lineCount =
        sb.map Span.lineCount := by
      simp [Span.lineCount_shift]
    rw [strip_of_segmented hab, hsa, hsb, hlines]
    simp only [Stripped.ofSpans, hspared, List.flatten_append, List.map_append, List.sum_append,
      hcount]
  · obtain ⟨front, behind, hab, hgo, rest, hrest⟩ := ha.exists_prolonged b.lines
    rw [← hlines] at hab hrest
    rw [strip_of_segmented hab, hsa]
    refine ⟨⟨rest.flatten, ?_⟩, front, behind, rfl, hgo⟩
    simp only [Stripped.ofSpans, ← hrest, List.flatten_append]

theorem strip_append_reopened :
    ("f();\nconsole.log(1);\n".toList = [] ∨ ['\n'] <:+ "f();\nconsole.log(1);\n".toList) ∧
      strip ⟨.usual, .paren⟩ ("f();\nconsole.log(1);\n".toList ++ "console.log(\n2);".toList) =
        ⟨"f();\n".toList, 3, [⟨2, 2, false⟩, ⟨3, 4, false⟩]⟩ :=
  have h : "f();\nconsole.log(1);\n".toList = [] ∨ ['\n'] <:+ "f();\nconsole.log(1);\n".toList := by
    decide
  ⟨h, ((strip_append ⟨.usual, .paren⟩ h "console.log(\n2);".toList).1 (by decide)).trans
    (by decide)⟩

example : ((strip ⟨.usual, .paren⟩ "console.log(\n".toList).spans,
    (strip ⟨.usual, .paren⟩ "console.log(\n1);\n".toList).spans) =
    ([⟨1, 1, true⟩], [⟨1, 2, false⟩]) := by decide

end Stripper

end CallStrip

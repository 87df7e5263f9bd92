import CallStrip.Proofs.Strip.Accounting

/-!
Stripping in parts. Where no span is open between two lines, the lines before and the lines behind
are stripped as texts of their own, and only the numbers of the lines behind are moved on.
-/

namespace CallStrip

/-- No span that begins before line `i` has it or goes past it. -/
def Stripped.Reaches (r : Stripped) (i : Nat) : Prop := ∀ s ∈ r.spans, s.first < i → s.last < i

instance (r : Stripped) (i : Nat) : Decidable (r.Reaches i) :=
  inferInstanceAs (Decidable (∀ s ∈ r.spans, s.first < i → s.last < i))

variable {m : Markers} {rule : ClosingRule} {n d e : Nat} {ls a b : List Text} {spans : List Span}

theorem ClosingRule.closesAt_add : rule.ClosesAt (n + d) ls (e + d) ↔ rule.ClosesAt n ls e := by
  have he : e + d - (n + d) = e - n := by omega
  simp only [ClosesAt, he, Nat.add_lt_add_iff_right]

theorem ClosingRule.closesAt_append (h : e < n + a.length) :
    rule.ClosesAt n (a ++ b) e ↔ rule.ClosesAt n a e := by
  by_cases hlt : n < e
  · have hget : (a ++ b)[e - n]? = a[e - n]? := List.getElem?_append_left (by omega)
    have htake : (a ++ b).take (e - n + 1) = a.take (e - n + 1) :=
      List.take_append_of_le_length (by omega)
    simp only [ClosesAt, hget, htake]
  · simp only [ClosesAt, hlt, false_and]

theorem ClosingRule.isLeast_closesAt_add (h : IsLeast {e | rule.ClosesAt n ls e} e) (d : Nat) :
    IsLeast {e | rule.ClosesAt (n + d) ls e} (e + d) := by
  refine ⟨closesAt_add.mpr h.1, fun e' he' => ?_⟩
  obtain ⟨e', rfl⟩ := Nat.exists_eq_add_of_le' (show d ≤ e' by have := he'.1; omega)
  have hle : e ≤ e' := h.2 (closesAt_add.mp he')
  omega

theorem ClosingRule.isLeast_closesAt_append (h : e < n + a.length) :
    IsLeast {e | rule.ClosesAt n (a ++ b) e} e ↔ IsLeast {e | rule.ClosesAt n a e} e := by
  constructor
  · rintro ⟨he, hleast⟩
    exact ⟨(closesAt_append h).mp he, fun e' he' =>
      hleast ((closesAt_append he'.lt_end).mpr he')⟩
  · rintro ⟨he, hleast⟩
    refine ⟨(closesAt_append h).mpr he, fun e' he' => ?_⟩
    rcases Nat.lt_or_ge e' (n + a.length) with hlt | hge
    · exact hleast ((closesAt_append hlt).mp he')
    · omega

namespace Segmented

theorem shift (h : Segmented m rule n ls spans) (d : Nat) :
    Segmented m rule (n + d) ls (spans.map (Span.shift d)) := by
  induction h with
  | done => exact .done
  | keep hs _ ih => exact .keep hs (by rwa [Nat.add_right_comm] at ih)
  | alone hs ha _ ih => exact .alone hs ha (by rwa [Nat.add_right_comm] at ih)
  | @closed n e l ls spans hs ha he _ ih =>
    refine .closed hs ha (ClosingRule.isLeast_closesAt_add he d) ?_
    have hd : e + d + 1 - (n + d) = e + 1 - n := by omega
    rwa [hd, Nat.add_right_comm]
  | @unclosed n l ls hs ha he =>
    have hnone : ∀ e, ¬ rule.ClosesAt (n + d) (l :: ls) e := by
      intro e' he'
      obtain ⟨e', rfl⟩ := Nat.exists_eq_add_of_le' (show d ≤ e' by have := he'.1; omega)
      exact he e' (ClosingRule.closesAt_add.mp he')
    have hu := Segmented.unclosed hs ha hnone
    rwa [Nat.add_right_comm] at hu

theorem split (h : Segmented m rule n (a ++ b) spans)
    (hr : ∀ s ∈ spans, s.first < n + a.length → s.last < n + a.length) :
    ∃ sa sb, spans = sa ++ sb ∧ Segmented m rule n a sa ∧
      Segmented m rule (n + a.length) b sb := by
  -- By the number of lines in front: a span that closes takes more than one of them.
  obtain ⟨len, hlen⟩ : ∃ len, a.length = len := ⟨_, rfl⟩
  induction len using Nat.strong_induction_on generalizing n a spans with
  | _ len ih =>
    cases a with
    | nil => exact ⟨[], spans, rfl, .done, h⟩
    | cons l a =>
      rw [List.cons_append] at h
      rw [List.length_cons] at hlen hr ⊢
      cases h with
      | keep hs h =>
        rw [Nat.add_comm a.length 1, ← Nat.add_assoc] at hr ⊢
        obtain ⟨sa, sb, rfl, ha, hb⟩ := ih a.length (by omega) h hr rfl
        exact ⟨sa, sb, rfl, .keep hs ha, hb⟩
      | @alone _ _ _ spans hs hal h =>
        rw [Nat.add_comm a.length 1, ← Nat.add_assoc] at hr ⊢
        obtain ⟨sa, sb, rfl, ha, hb⟩ := ih a.length (by omega) h
          (fun s hs => hr s (List.mem_cons_of_mem _ hs)) rfl
        exact ⟨_ :: sa, sb, rfl, .alone hs hal ha, hb⟩
      | @closed _ e _ _ spans hs hal he h =>
        have hlt := he.1.1
        have hend : e < n + (l :: a).length := hr _ List.mem_cons_self (by simp only; omega)
        have hrest : ((l :: a).drop (e + 1 - n)).length = n + (a.length + 1) - (e + 1) := by
          rw [List.length_drop, List.length_cons]
          omega
        have hn : e + 1 + ((l :: a).drop (e + 1 - n)).length = n + (a.length + 1) := by
          rw [List.length_cons] at hend
          omega
        rw [← List.cons_append] at he h
        rw [List.drop_append_of_le_length (by omega)] at h
        have hleast := (ClosingRule.isLeast_closesAt_append hend).mp he
        rw [← hn] at hr ⊢
        obtain ⟨sa, sb, rfl, ha, hb⟩ := ih _ (by omega) h
          (fun s hs => hr s (List.mem_cons_of_mem _ hs)) rfl
        exact ⟨_ :: sa, sb, rfl, .closed hs hal hleast ha, hb⟩
      | unclosed hs hal he =>
        have hend : n + (a ++ b).length < n + (a.length + 1) :=
          hr _ List.mem_cons_self (by simp only; omega)
        obtain rfl : b = [] := by
          rw [List.length_append] at hend
          exact List.length_eq_zero_iff.mp (by omega)
        rw [List.append_nil] at he ⊢
        exact ⟨_, [], (List.append_nil _).symm, .unclosed hs hal he, .done⟩

end Segmented

namespace Stripper

variable {p : Stripper} {t : Text}

theorem strip_flatten_of_segmented (hcut : Text.Cut ls)
    (h : Segmented p.markers p.rule 1 ls spans) : p.strip ls.flatten = .ofSpans 1 ls spans := by
  have hlines := Text.lines_flatten hcut
  rw [strip_of_segmented (hlines.symm ▸ h), hlines]

theorem exists_split (ht : t.lines = a ++ b) (hr : (p.strip t).Reaches (a.length + 1)) :
    ∃ sa sb, p.strip t = .ofSpans 1 (a ++ b) (sa ++ sb) ∧ Segmented p.markers p.rule 1 a sa ∧
      Segmented p.markers p.rule (a.length + 1) b sb := by
  obtain ⟨spans, h, hs⟩ := p.exists_segmented t
  rw [hs, Nat.add_comm] at hr
  rw [ht] at h hs
  obtain ⟨sa, sb, rfl, ha, hb⟩ := h.split hr
  exact ⟨sa, sb, hs, ha, Nat.add_comm 1 _ ▸ hb⟩

theorem strip_of_first_span (ht : t.lines = a ++ b) (hr : (p.strip t).Reaches (a.length + 1))
    (he : a.length < e)
    (h : ∀ rest, Segmented p.markers p.rule (e + 1) (b.drop (e - a.length)) rest →
      Segmented p.markers p.rule (a.length + 1) b (⟨a.length + 1, e, false⟩ :: rest)) :
    p.strip t =
      ⟨(p.strip a.flatten).content ++ (p.strip (b.drop (e - a.length)).flatten).content,
        (p.strip a.flatten).removed + (e - a.length) +
          (p.strip (b.drop (e - a.length)).flatten).removed,
        (p.strip a.flatten).spans ++ ⟨a.length + 1, e, false⟩ ::
          (p.strip (b.drop (e - a.length)).flatten).spans.map (Span.shift e)⟩ := by
  obtain ⟨sa, sb, hs, ha, hb⟩ := exists_split ht hr
  obtain ⟨sc, hc⟩ := Segmented.exists_spans p.markers p.rule 1 (b.drop (e - a.length))
  have hc' := hc.shift e
  rw [Nat.add_comm 1 e] at hc'
  obtain rfl := hb.unique (h _ hc')
  have hcut := ht ▸ t.cut_lines
  have hcutb := hcut.sublist (List.sublist_append_right a b)
  have hspared : spared (sa ++ ⟨a.length + 1, e, false⟩ :: sc.map (Span.shift e)) 1 (a ++ b) =
      spared sa 1 a ++ spared sc 1 (b.drop (e - a.length)) := by
    have hn : e + 1 - (1 + a.length) = e - a.length := by omega
    rw [spared_append (fun s hs => (ha.laid.within s hs).2.2)
      (fun s hs => Nat.add_comm 1 _ ▸ hb.le_first s hs), Nat.add_comm a.length 1,
      spared_removal (by omega), hn, Nat.add_comm e 1, spared_shift]
  rw [hs, strip_flatten_of_segmented (hcut.sublist (List.sublist_append_left a b)) ha,
    strip_flatten_of_segmented (hcutb.sublist (List.drop_sublist _ b)) hc]
  have hcount : (⟨a.length + 1, e, false⟩ : Span).lineCount = e - a.length := by
    simp only [Span.lineCount]
    omega
  have hshift : (sc.map (Span.shift e)).map Span.lineCount = sc.map Span.lineCount := by
    simp [Span.lineCount_shift]
  simp only [Stripped.ofSpans, hspared, List.flatten_append, List.map_append, List.map_cons,
    List.sum_append, List.sum_cons, hcount, hshift, Nat.add_assoc]

theorem strip_of_alone {l : Text} (ht : t.lines = a ++ l :: b)
    (hr : (p.strip t).Reaches (a.length + 1)) (hs : p.markers.Starts p.rule l)
    (ha : p.markers.Alone p.rule l) :
    p.strip t =
      ⟨(p.strip a.flatten).content ++ (p.strip b.flatten).content,
        (p.strip a.flatten).removed + 1 + (p.strip b.flatten).removed,
        (p.strip a.flatten).spans ++ ⟨a.length + 1, a.length + 1, false⟩ ::
          (p.strip b.flatten).spans.map (Span.shift (a.length + 1))⟩ := by
  have hd : a.length + 1 - a.length = 1 := by omega
  have h := strip_of_first_span ht hr (Nat.lt_succ_self _) fun rest hrest =>
    .alone hs ha (by rwa [hd] at hrest)
  rwa [hd, List.drop_succ_cons, List.drop_zero] at h

end Stripper

end CallStrip

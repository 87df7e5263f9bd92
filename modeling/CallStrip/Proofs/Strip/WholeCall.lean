import CallStrip.Proofs.Strip.Counters
import CallStrip.Proofs.Strip.Mention
import CallStrip.Proofs.Strip.OpenCall

/-!
What is taken for a whole call. The test looks for a parenthesis that closes too early and counts
none that opens, so that a call may be taken for whole that has only begun.
-/

namespace CallStrip

def Markers.CallOf (m : Markers) (args t : Text) : Prop :=
  t = m.call ++ args ++ [')'] ∨ t = m.call ++ args ++ [')', ';']

/-- The call of `args` is closed by its last parenthesis, and not before. -/
structure Markers.ClosedCall (m : Markers) (args : Text) : Prop where
  remains_open : ∀ q, q <+: args → 1 ≤ (Balance.of (m.call ++ q)).parens
  closed : (Balance.of (m.call ++ args ++ [')'])).parens = 0

namespace Balance

theorem parens_of_notMem {t : Text} (h : ')' ∉ t) : (of t).parens = t.count '(' := by
  rw [of_eq_counted, counted, List.count_eq_zero_of_not_mem h]
  exact Int.sub_zero _

end Balance

namespace Markers

variable {m : Markers} {args q t : Text}

theorem wholeCall_iff : m.wholeCall t = true ↔ ∃ args, m.CallOf args t ∧ ')' ∉ args := by
  constructor
  · intro h
    unfold wholeCall at h
    split at h
    · cases h
    next rest hrest =>
    split at h
    · cases h
    next args hargs =>
    have hclose : ')' ∉ args := by simpa using h
    have ht := Text.after?_eq_some_iff.mp hrest
    cases hsemi : Text.before? [';'] rest with
    | none =>
      rw [hsemi] at hargs
      have hrest := Text.before?_eq_some_iff.mp hargs
      exact ⟨args, .inl (by rw [ht, List.append_assoc, ← hrest]; rfl), hclose⟩
    | some front =>
      rw [hsemi] at hargs
      have hrest := Text.before?_eq_some_iff.mp hsemi
      have hfront : front = args ++ [')'] := Text.before?_eq_some_iff.mp hargs
      exact ⟨args, .inr (by rw [ht, hrest, hfront]; simp), hclose⟩
  · rintro ⟨args, (ht | ht), hclose⟩
    · have hrest : Text.after? m.call t = some (args ++ [')']) :=
        Text.after?_eq_some_iff.mpr (by rw [ht, List.append_assoc])
      have hsemi : Text.before? [';'] (args ++ [')']) = none := by
        refine Option.eq_none_iff_forall_ne_some.mpr fun front hfront => ?_
        have hlast := congrArg List.getLast? (Text.before?_eq_some_iff.mp hfront)
        simp at hlast
      have hargs : Text.before? [')'] (args ++ [')']) = some args :=
        Text.before?_eq_some_iff.mpr rfl
      simp [wholeCall, hrest, hsemi, hargs, hclose]
    · have hrest : Text.after? m.call t = some (args ++ [')', ';']) :=
        Text.after?_eq_some_iff.mpr (by rw [ht, List.append_assoc])
      have hsemi : Text.before? [';'] (args ++ [')', ';']) = some (args ++ [')']) :=
        Text.before?_eq_some_iff.mpr (by simp)
      have hargs : Text.before? [')'] (args ++ [')']) = some args :=
        Text.before?_eq_some_iff.mpr rfl
      simp [wholeCall, hrest, hsemi, hargs, hclose]

theorem parens_call (hm : '(' ∉ m.target ∧ ')' ∉ m.target) :
    (Balance.of m.call).parens = 1 := by
  rw [call, Balance.of_append, Balance.parens_add, Balance.parens_of_notMem hm.2,
    List.count_eq_zero_of_not_mem hm.1]
  rfl

theorem parens_call_append (hm : '(' ∉ m.target ∧ ')' ∉ m.target) (hq : ')' ∉ q) :
    (Balance.of (m.call ++ q)).parens = 1 + q.count '(' := by
  rw [Balance.of_append, Balance.parens_add, parens_call hm, Balance.parens_of_notMem hq]

theorem parens_call_closed (hm : '(' ∉ m.target ∧ ')' ∉ m.target) (hargs : ')' ∉ args) :
    (Balance.of (m.call ++ args ++ [')'])).parens = args.count '(' := by
  have hlast : (Balance.of [')']).parens = -1 := rfl
  rw [Balance.of_append, Balance.parens_add, parens_call_append hm hargs, hlast]
  omega

theorem closedCall_iff (hm : '(' ∉ m.target ∧ ')' ∉ m.target) (hargs : ')' ∉ args) :
    m.ClosedCall args ↔ '(' ∉ args := by
  constructor
  · intro h
    have hcount := h.closed
    rw [parens_call_closed hm hargs] at hcount
    exact List.count_eq_zero.mp (by omega)
  · intro hopen
    refine ⟨fun q hq => ?_, ?_⟩
    · rw [parens_call_append hm fun hmem => hargs (hq.subset hmem)]
      omega
    · rw [parens_call_closed hm hargs, List.count_eq_zero_of_not_mem hopen]
      rfl

end Markers

namespace Stripper

/-- A call is taken for whole if nothing in its arguments closes a parenthesis. Under `paren` its
line goes alone then; the call is closed there exactly if nothing in its arguments opens one. -/
theorem strip_wholeCall (m : Markers) (hm : '(' ∉ m.target ∧ ')' ∉ m.target) :
    (∀ t, m.wholeCall t = true ↔ ∃ args, m.CallOf args t ∧ ')' ∉ args) ∧
    (∀ args, ')' ∉ args →
      (∀ q, q <+: args → (Balance.of (m.call ++ q)).parens = 1 + q.count '(') ∧
      (Balance.of (m.call ++ args ++ [')'])).parens = args.count '(' ∧
      (m.ClosedCall args ↔ '(' ∉ args)) ∧
    ∀ (t : Text) (a b : List Text) (l : Text), t.lines = a ++ l :: b →
      (strip ⟨m, .paren⟩ t).Reaches (a.length + 1) → (∀ g ∈ m.guards, ¬ g <:+: l) →
      m.wholeCall l.trim = true →
      strip ⟨m, .paren⟩ t =
        ⟨(strip ⟨m, .paren⟩ a.flatten).content ++ (strip ⟨m, .paren⟩ b.flatten).content,
          (strip ⟨m, .paren⟩ a.flatten).removed + 1 + (strip ⟨m, .paren⟩ b.flatten).removed,
          (strip ⟨m, .paren⟩ a.flatten).spans ++ ⟨a.length + 1, a.length + 1, false⟩ ::
            (strip ⟨m, .paren⟩ b.flatten).spans.map (Span.shift (a.length + 1))⟩ := by
  refine ⟨fun _ => Markers.wholeCall_iff, fun args hargs => ⟨fun q hq => ?_,
    Markers.parens_call_closed hm hargs, Markers.closedCall_iff hm hargs⟩, ?_⟩
  · exact Markers.parens_call_append hm fun hmem => hargs (hq.subset hmem)
  · intro t a b l ht hr hguards hwhole
    have hcall : m.call <:+: l := (Markers.opens_of_wholeCall hwhole).isInfix.trans l.trim_infix
    have htarget : m.target <:+: l := (List.prefix_append m.target ['(']).isInfix.trans hcall
    exact strip_of_alone (p := ⟨m, .paren⟩) ht hr ⟨⟨htarget, hguards⟩, .inr (.inl hwhole)⟩
      (.inr hwhole)

theorem strip_wholeCall_begun :
    Markers.usual.wholeCall "console.log(f(x)".toList = true ∧
    strip ⟨.usual, .paren⟩ "console.log(f(x)\n  , y);\nnext();\n".toList =
      ⟨"  , y);\nnext();\n".toList, 1, [⟨1, 1, false⟩]⟩ ∧
    Markers.usual.OpenCall "console.log(f(x)\n".toList
      ["  , y);\n".toList, "next();\n".toList] 1 :=
  ⟨by decide, ((strip_wholeCall .usual (by decide)).2.2 _ []
    ["  , y);\n".toList, "next();\n".toList] "console.log(f(x)\n".toList (by decide) (by decide)
    (by decide) (by decide)).trans (by decide), by decide⟩

theorem not_forall_wholeCall_closed :
    ¬ ∀ (m : Markers) (t : Text), '(' ∉ m.target → ')' ∉ m.target → m.wholeCall t = true →
      ∃ args, m.CallOf args t ∧ m.ClosedCall args := by
  intro h
  obtain ⟨args, ht | ht, hargs⟩ :=
    h .usual "console.log(f(x)".toList (by decide) (by decide) (by decide)
  · have hclosed := hargs.closed
    rw [← ht] at hclosed
    exact absurd hclosed (by decide)
  · have hlast := congrArg List.getLast? ht
    simp at hlast

end Stripper

end CallStrip

import CallStrip.Proofs.Strip.Locality
import Mathlib.Data.List.Infix

/-!
A call that closes every parenthesis on its own line. It is always removed; it goes alone where the
rule can see that it is whole, and takes the lines behind it along where the rule cannot.
-/

namespace CallStrip

structure Markers.BalancedCall (m : Markers) (l : Text) : Prop where
  plain_target : '(' ∉ m.target ∧ ')' ∉ m.target
  unguarded : ∀ g ∈ m.guards, ¬ g <:+: l
  opens : m.call <+: l.trim
  depth_nonneg : ∀ q, q <+: l → 0 ≤ (Balance.of q).parens
  depth_end : (Balance.of l).parens = 0

instance (m : Markers) (l : Text) : Decidable (m.BalancedCall l) :=
  decidable_of_iff (('(' ∉ m.target ∧ ')' ∉ m.target) ∧ (∀ g ∈ m.guards, ¬ g <:+: l) ∧
      m.call <+: l.trim ∧ (∀ q ∈ l.inits, 0 ≤ (Balance.of q).parens) ∧ (Balance.of l).parens = 0)
    ⟨fun ⟨ht, hg, ho, hn, he⟩ => ⟨ht, hg, ho, fun q hq => hn q ((List.mem_inits q l).mpr hq), he⟩,
      fun ⟨ht, hg, ho, hn, he⟩ => ⟨ht, hg, ho, fun q hq => hn q ((List.mem_inits q l).mp hq), he⟩⟩

def EndsBehind (i : Nat) (b : List Text) (e : Nat) : Prop :=
  i < e ∧ ∃ l, b[e - i - 1]? = some l ∧ (Balance.total (b.take (e - i))).parens ≤ 0 ∧
    ([')'] <:+ l.trim ∨ [')', ';'] <:+ l.trim)

namespace Markers.BalancedCall

variable {m : Markers} {l : Text}

theorem call_infix (h : m.BalancedCall l) : m.call <:+: l := h.opens.isInfix.trans l.trim_infix

theorem bare (h : m.BalancedCall l) : m.Bare l :=
  ⟨(List.prefix_append m.target ['(']).isInfix.trans h.call_infix, h.unguarded⟩

theorem starts (h : m.BalancedCall l) (rule : ClosingRule) : m.Starts rule l := by
  cases rule with
  | paren => exact ⟨h.bare, .inr (.inr h.call_infix)⟩
  | brace => exact h.bare
  | line => exact ⟨h.bare, statementCall_iff.mpr (.inl h.opens)⟩

theorem closesAt_iff (h : m.BalancedCall l) {i e : Nat} {b : List Text} :
    ClosingRule.paren.ClosesAt i (l :: b) e ↔ EndsBehind i b e := by
  by_cases hlt : i < e
  · have hget : (l :: b)[e - i]? = b[e - i - 1]? := by
      rw [List.getElem?_cons, if_neg (by omega)]
    simp only [ClosingRule.ClosesAt, EndsBehind, ClosingRule.Shuts, hlt, hget, List.take_succ_cons,
      Balance.total, Balance.parens_add, h.depth_end, Int.zero_add]
  · simp only [ClosingRule.ClosesAt, EndsBehind, hlt, false_and]

end Markers.BalancedCall

namespace Stripper

variable {p : Stripper} {t : Text} {a b : List Text} {l : Text}

theorem strip_balancedCall (hp : p.rule = .paren ∨ p.rule = .line) (ht : t.lines = a ++ l :: b)
    (hr : (p.strip t).Reaches (a.length + 1)) (hl : p.markers.BalancedCall l) :
    ((p.rule = .line ∨ [')', ';'] <:+ l.trim ∨ p.markers.wholeCall l.trim = true) →
      p.strip t =
        ⟨(p.strip a.flatten).content ++ (p.strip b.flatten).content,
          (p.strip a.flatten).removed + 1 + (p.strip b.flatten).removed,
          (p.strip a.flatten).spans ++ ⟨a.length + 1, a.length + 1, false⟩ ::
            (p.strip b.flatten).spans.map (Span.shift (a.length + 1))⟩) ∧
    (¬ (p.rule = .line ∨ [')', ';'] <:+ l.trim ∨ p.markers.wholeCall l.trim = true) →
      (∃ e, ⟨a.length + 1, e, false⟩ ∈ (p.strip t).spans ∧
        IsLeast {e | EndsBehind (a.length + 1) b e} e) ∨
      (⟨a.length + 1, t.lines.length, true⟩ ∈ (p.strip t).spans ∧
        ∀ e, ¬ EndsBehind (a.length + 1) b e)) := by
  have hs := hl.starts p.rule
  constructor
  · intro hwhole
    apply strip_of_alone ht hr hs
    rcases hp with hp | hp
    · rw [hp] at hwhole ⊢
      simpa [Markers.Alone] using hwhole
    · rw [hp]
      trivial
  · intro hopen
    obtain ⟨hline, hopen⟩ := not_or.mp hopen
    have hp : p.rule = .paren := hp.resolve_right hline
    obtain ⟨sa, sb, hstrip, -, hb⟩ := exists_split ht hr
    have hlen : t.lines.length = a.length + 1 + b.length := by
      rw [ht, List.length_append, List.length_cons]
      omega
    rw [hp] at hb hs
    rw [hstrip]
    rcases hb.eq_of_opens hs hopen with ⟨e, rest, rfl, he⟩ | ⟨rfl, he⟩
    · simp only [hl.closesAt_iff] at he
      exact .inl ⟨e, List.mem_append_right sa List.mem_cons_self, he⟩
    · simp only [hl.closesAt_iff] at he
      rw [hlen]
      exact .inr ⟨List.mem_append_right sa List.mem_cons_self, he⟩

theorem strip_balancedCall_nested :
    Markers.usual.BalancedCall "console.log(f(x));\n".toList ∧
    strip ⟨.usual, .paren⟩ "a();\nconsole.log(f(x));\nb();\n".toList =
      ⟨"a();\nb();\n".toList, 1, [⟨2, 2, false⟩]⟩ :=
  have hl : Markers.usual.BalancedCall "console.log(f(x));\n".toList := by decide
  ⟨hl, (strip_balancedCall (p := ⟨.usual, .paren⟩) (a := ["a();\n".toList])
    (b := ["b();\n".toList]) (.inl rfl) (by decide) (by decide) hl).1 (by decide) |>.trans
      (by decide)⟩

theorem not_forall_balancedCall_alone :
    ¬ ∀ (p : Stripper) (t : Text) (a b : List Text) (l : Text),
      p.rule = .paren ∨ p.rule = .line → t.lines = a ++ l :: b →
      (p.strip t).Reaches (a.length + 1) → p.markers.BalancedCall l →
      ⟨a.length + 1, a.length + 1, false⟩ ∈ (p.strip t).spans := by
  intro h
  have hmem := h ⟨.usual, .paren⟩ "console.log(f(x))\nconst a = 1\n".toList []
    ["const a = 1\n".toList] "console.log(f(x))\n".toList (.inl rfl) (by decide) (by decide)
    (by decide)
  exact absurd hmem (by decide)

end Stripper

end CallStrip

import CallStrip.Proofs.Strip.Locality
import Mathlib.Data.List.Infix

/-!
A call over several lines whose parentheses close on the last of them. Under `paren` it goes as one
span, unless its first line looks whole by its end.
-/

namespace CallStrip

/-- A call in line `l` that stays open up to line `k` of the lines `b` behind it, and closes there. -/
structure Markers.OpenCall (m : Markers) (l : Text) (b : List Text) (k : Nat) : Prop where
  calls : m.call <:+: l
  unguarded : ∀ g ∈ m.guards, ¬ g <:+: l
  several : 0 < k
  remains_open : ∀ j < k, 0 < (Balance.total ((l :: b).take (j + 1))).parens
  balanced : (Balance.total ((l :: b).take (k + 1))).parens ≤ 0
  ends_call : ∃ e ∈ (l :: b)[k]?, [')'] <:+ e.trim ∨ [')', ';'] <:+ e.trim

instance (m : Markers) (l : Text) (b : List Text) (k : Nat) : Decidable (m.OpenCall l b k) :=
  decidable_of_iff (m.call <:+: l ∧ (∀ g ∈ m.guards, ¬ g <:+: l) ∧ 0 < k ∧
      (∀ j < k, 0 < (Balance.total ((l :: b).take (j + 1))).parens) ∧
      (Balance.total ((l :: b).take (k + 1))).parens ≤ 0 ∧
      ∃ e ∈ (l :: b)[k]?, [')'] <:+ e.trim ∨ [')', ';'] <:+ e.trim)
    ⟨fun ⟨hc, hg, hk, ho, hb, he⟩ => ⟨hc, hg, hk, ho, hb, he⟩,
      fun ⟨hc, hg, hk, ho, hb, he⟩ => ⟨hc, hg, hk, ho, hb, he⟩⟩

namespace Markers.OpenCall

variable {m : Markers} {l : Text} {b : List Text} {k : Nat}

theorem starts (h : m.OpenCall l b k) : m.Starts .paren l :=
  ⟨⟨(List.prefix_append m.target ['(']).isInfix.trans h.calls, h.unguarded⟩, .inr (.inr h.calls)⟩

theorem isLeast_closesAt (h : m.OpenCall l b k) (n : Nat) :
    IsLeast {e | ClosingRule.paren.ClosesAt n (l :: b) e} (n + k) := by
  have hn : n + k - n = k := Nat.add_sub_cancel_left n k
  constructor
  · obtain ⟨e, he, hend⟩ := h.ends_call
    refine ⟨Nat.lt_add_of_pos_right h.several, e, ?_, ?_⟩
    · rw [hn]
      exact he
    · rw [hn]
      exact ⟨h.balanced, hend⟩
  · rintro e ⟨hlt, _, -, hshut, -⟩
    by_contra hlow
    have hopen := h.remains_open (e - n) (by omega)
    omega

end Markers.OpenCall

namespace Stripper

variable {p : Stripper} {t : Text} {a b : List Text} {l : Text} {k : Nat}

theorem strip_openCall (hp : p.rule = .paren) (ht : t.lines = a ++ l :: b)
    (hr : (p.strip t).Reaches (a.length + 1)) (h : p.markers.OpenCall l b k) :
    (¬ [')', ';'] <:+ l.trim → ¬ p.markers.wholeCall l.trim = true →
      p.strip t =
        ⟨(p.strip a.flatten).content ++ (p.strip (b.drop k).flatten).content,
          (p.strip a.flatten).removed + (k + 1) + (p.strip (b.drop k).flatten).removed,
          (p.strip a.flatten).spans ++ ⟨a.length + 1, a.length + 1 + k, false⟩ ::
            (p.strip (b.drop k).flatten).spans.map (Span.shift (a.length + 1 + k))⟩) ∧
    ([')', ';'] <:+ l.trim →
      p.strip t =
        ⟨(p.strip a.flatten).content ++ (p.strip b.flatten).content,
          (p.strip a.flatten).removed + 1 + (p.strip b.flatten).removed,
          (p.strip a.flatten).spans ++ ⟨a.length + 1, a.length + 1, false⟩ ::
            (p.strip b.flatten).spans.map (Span.shift (a.length + 1))⟩) := by
  have hs : p.markers.Starts p.rule l := hp ▸ h.starts
  constructor
  · intro hend hwhole
    have hopens : ¬ p.markers.Alone p.rule l := by
      rw [hp]
      exact not_or.mpr ⟨hend, hwhole⟩
    have hleast : IsLeast {e | p.rule.ClosesAt (a.length + 1) (l :: b) e} (a.length + 1 + k) :=
      hp ▸ h.isLeast_closesAt (a.length + 1)
    have hd : a.length + 1 + k - a.length = k + 1 := by omega
    have hbehind : a.length + 1 + k + 1 - (a.length + 1) = k + 1 := by omega
    have hsplit := strip_of_first_span ht hr (show a.length < a.length + 1 + k by omega)
      fun rest hrest => .closed hs hopens hleast (by rwa [hbehind, ← hd])
    rwa [hd, List.drop_succ_cons] at hsplit
  · intro hend
    apply strip_of_alone ht hr hs
    rw [hp]
    exact .inl hend

theorem strip_openCall_members :
    Markers.usual.OpenCall "console.log('y', \x7b\n".toList
      ["  z: f(1),\n".toList, "\x7d);\n".toList, "b();\n".toList] 2 ∧
    strip ⟨.usual, .paren⟩ "a();\nconsole.log('y', \x7b\n  z: f(1),\n\x7d);\nb();\n".toList =
      ⟨"a();\nb();\n".toList, 3, [⟨2, 4, false⟩]⟩ :=
  have h : Markers.usual.OpenCall "console.log('y', \x7b\n".toList
    ["  z: f(1),\n".toList, "\x7d);\n".toList, "b();\n".toList] 2 := by decide
  ⟨h, (strip_openCall (p := ⟨.usual, .paren⟩) (a := ["a();\n".toList]) rfl (by decide) (by decide)
    h).1 (by decide) (by decide) |>.trans (by decide)⟩

theorem not_forall_openCall_removed :
    ¬ ∀ (p : Stripper) (t : Text) (a b : List Text) (l : Text) (k : Nat),
      p.rule = .paren → t.lines = a ++ l :: b → (p.strip t).Reaches (a.length + 1) →
      p.markers.OpenCall l b k →
      ⟨a.length + 1, a.length + 1 + k, false⟩ ∈ (p.strip t).spans := by
  intro h
  have hmem := h ⟨.usual, .paren⟩
    "console.log(xs.map((x) => \x7b f(x);\n  return x; \x7d));\nnext();\n".toList []
    ["  return x; \x7d));\n".toList, "next();\n".toList]
    "console.log(xs.map((x) => \x7b f(x);\n".toList 1 rfl (by decide) (by decide) (by decide)
  exact absurd hmem (by decide)

end Stripper

end CallStrip

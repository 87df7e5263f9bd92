import CallStrip.Proofs.Text.Lines
import CallStrip.Strip
import Mathlib.Algebra.Ring.Nat

/-!
The lines that spans leave, and the stripped text that spans alone determine.
-/

namespace CallStrip

def Span.Covers (s : Span) (i : Nat) : Prop := s.first ≤ i ∧ i ≤ s.last

instance (s : Span) (i : Nat) : Decidable (s.Covers i) := inferInstanceAs (Decidable (_ ∧ _))

/-- The lines that no span covers, out of the lines from number `n` on. -/
def spared (spans : List Span) : Nat → List Text → List Text
  | _, [] => []
  | n, l :: ls =>
    if ∃ s ∈ spans, s.Covers n then spared spans (n + 1) ls else l :: spared spans (n + 1) ls

def Span.shift (d : Nat) (s : Span) : Span := ⟨s.first + d, s.last + d, s.unterminated⟩

def Stripped.ofSpans (n : Nat) (ls : List Text) (spans : List Span) : Stripped :=
  ⟨(spared spans n ls).flatten, (spans.map Span.lineCount).sum, spans⟩

def Stripped.remove (s : Span) (r : Stripped) : Stripped :=
  ⟨r.content, r.removed + s.lineCount, s :: r.spans⟩

variable {s : Span} {spans : List Span} {n d : Nat} {ls a b : List Text}

theorem spared_nil : spared [] n ls = ls := by
  induction ls generalizing n with
  | nil => rfl
  | cons l ls ih => simp [spared, ih]

theorem spared_of_lt (h : ∀ s ∈ spans, n < s.first) (l : Text) :
    spared spans n (l :: ls) = l :: spared spans (n + 1) ls := by
  have hn : ¬ ∃ s ∈ spans, s.Covers n := by
    rintro ⟨s, hs, hfirst, -⟩
    have := h s hs
    omega
  rw [spared, if_neg hn]

theorem spared_past (h : s.last < n) : spared (s :: spans) n ls = spared spans n ls := by
  induction ls generalizing n with
  | nil => rfl
  | cons l ls ih =>
    have hn : ¬ s.Covers n := fun hc => Nat.not_lt.mpr hc.2 h
    simp [spared, hn, ih (Nat.lt_succ_of_lt h)]

theorem spared_cover (hfirst : s.first ≤ n) (hlast : n ≤ s.last + 1) :
    spared (s :: spans) n ls = spared spans (s.last + 1) (ls.drop (s.last + 1 - n)) := by
  induction ls generalizing n with
  | nil => simp [spared]
  | cons l ls ih =>
    rcases Nat.lt_or_ge s.last n with hn | hn
    · have he : n = s.last + 1 := by omega
      subst he
      simpa using spared_past (Nat.lt_succ_self _)
    · have hc : ∃ s' ∈ s :: spans, s'.Covers n := ⟨s, List.mem_cons_self, hfirst, hn⟩
      have hk : s.last + 1 - n = s.last + 1 - (n + 1) + 1 := by omega
      rw [spared, if_pos hc, ih (by omega) (by omega), hk, List.drop_succ_cons]

theorem spared_removal {e : Nat} {u : Bool} (h : n ≤ e) :
    spared (⟨n, e, u⟩ :: spans) n ls = spared spans (e + 1) (ls.drop (e + 1 - n)) :=
  spared_cover (Nat.le_refl n) (Nat.le_succ_of_le h)

theorem spared_sublist (spans : List Span) (n : Nat) (ls : List Text) :
    (spared spans n ls).Sublist ls := by
  induction ls generalizing n with
  | nil => exact .slnil
  | cons l ls ih =>
    rw [spared]
    split
    · exact (ih (n + 1)).cons l
    · exact (ih (n + 1)).cons_cons l

theorem Text.lines_flatten_spared (t : Text) (spans : List Span) :
    lines (spared spans 1 t.lines).flatten = spared spans 1 t.lines :=
  lines_flatten ((cut_lines t).sublist (spared_sublist spans 1 t.lines))

theorem Span.shift_covers {s : Span} {i : Nat} : (s.shift d).Covers (i + d) ↔ s.Covers i := by
  simp only [Covers, shift, Nat.add_le_add_iff_right]

theorem Span.lineCount_shift (s : Span) (d : Nat) : (s.shift d).lineCount = s.lineCount := by
  simp only [lineCount, shift]
  omega

theorem spared_shift (spans : List Span) (d n : Nat) (ls : List Text) :
    spared (spans.map (Span.shift d)) (n + d) ls = spared spans n ls := by
  induction ls generalizing n with
  | nil => rfl
  | cons l ls ih =>
    have hrest := ih (n + 1)
    rw [Nat.add_right_comm] at hrest
    have hcov : (∃ s ∈ spans.map (Span.shift d), s.Covers (n + d)) ↔ ∃ s ∈ spans, s.Covers n := by
      constructor
      · rintro ⟨s, hs, hc⟩
        obtain ⟨s', hs', rfl⟩ := List.mem_map.mp hs
        exact ⟨s', hs', Span.shift_covers.mp hc⟩
      · rintro ⟨s, hs, hc⟩
        exact ⟨s.shift d, List.mem_map_of_mem hs, Span.shift_covers.mpr hc⟩
    simp only [spared, hrest, hcov]

theorem spared_past_append {sa sb : List Span} (h : ∀ s ∈ sa, s.last < n) :
    spared (sa ++ sb) n ls = spared sb n ls := by
  induction sa with
  | nil => rfl
  | cons s sa ih =>
    rw [List.cons_append, spared_past (h s List.mem_cons_self)]
    exact ih fun s' hs' => h s' (List.mem_cons_of_mem s hs')

theorem spared_append {sa sb : List Span} (ha : ∀ s ∈ sa, s.last < n + a.length)
    (hb : ∀ s ∈ sb, n + a.length ≤ s.first) :
    spared (sa ++ sb) n (a ++ b) = spared sa n a ++ spared sb (n + a.length) b := by
  induction a generalizing n with
  | nil =>
    rw [spared, List.nil_append, List.nil_append]
    exact spared_past_append ha
  | cons l a ih =>
    have hn : n + (l :: a).length = n + 1 + a.length := by
      rw [List.length_cons]
      omega
    have hcov : (∃ s ∈ sa ++ sb, s.Covers n) ↔ ∃ s ∈ sa, s.Covers n := by
      constructor
      · rintro ⟨s, hs, hc⟩
        rcases List.mem_append.mp hs with hs | hs
        · exact ⟨s, hs, hc⟩
        · have := hb s hs
          have := hc.1
          omega
      · rintro ⟨s, hs, hc⟩
        exact ⟨s, List.mem_append_left sb hs, hc⟩
    rw [hn] at ha hb ⊢
    simp only [List.cons_append, spared, hcov, ih ha hb]
    split <;> rfl

theorem ofSpans_cons {e : Nat} {u : Bool} (h : n ≤ e) :
    Stripped.ofSpans n ls (⟨n, e, u⟩ :: spans) =
      (Stripped.ofSpans (e + 1) (ls.drop (e + 1 - n)) spans).remove ⟨n, e, u⟩ := by
  simp [Stripped.ofSpans, Stripped.remove, spared_removal h, Nat.add_comm]

end CallStrip

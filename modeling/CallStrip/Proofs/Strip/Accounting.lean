import CallStrip.Proofs.Strip.Segmentation

/-!
Where the spans of a text lie, and how they account for every line of it: the lines in them are
gone, all others are there, in order and as they were.
-/

namespace CallStrip

/-- Spans in order among `len` lines from number `n` on. -/
structure Laid (n len : Nat) (spans : List Span) : Prop where
  within : ∀ s ∈ spans, n ≤ s.first ∧ s.first ≤ s.last ∧ s.last < n + len
  ordered : spans.Pairwise fun a b => a.last < b.first
  unterminated : ∀ s ∈ spans, s.unterminated = true → s.last + 1 = n + len

namespace Laid

variable {n len e : Nat} {u : Bool} {spans : List Span}

theorem nil (n : Nat) : Laid n 0 [] := ⟨by simp, .nil, by simp⟩

theorem later (h : Laid (n + 1) len spans) : Laid n (len + 1) spans := by
  refine ⟨fun s hs => ?_, h.ordered, fun s hs hu => ?_⟩
  · have := h.within s hs
    omega
  · have := h.unterminated s hs hu
    omega

theorem cons (h : Laid (e + 1) (n + len - e - 1) spans) (hle : n ≤ e) (hlt : e < n + len)
    (hu : u = true → e + 1 = n + len) : Laid n len (⟨n, e, u⟩ :: spans) := by
  constructor
  · intro s hs
    rcases List.mem_cons.mp hs with rfl | hs
    · exact ⟨le_refl n, hle, hlt⟩
    · have := h.within s hs
      omega
  · exact .cons (fun s hs => (h.within s hs).1) h.ordered
  · intro s hs hsu
    rcases List.mem_cons.mp hs with rfl | hs
    · exact hu hsu
    · have := h.unterminated s hs hsu
      omega

theorem terminated_of_mem_dropLast (h : Laid n len spans) :
    ∀ s ∈ spans.dropLast, s.unterminated = false := by
  intro s hs
  have hne : spans ≠ [] := by
    rintro rfl
    simp at hs
  have hsplit := List.dropLast_concat_getLast hne
  have hlt : s.last < (spans.getLast hne).first := by
    have hp := h.ordered
    rw [← hsplit, List.pairwise_append] at hp
    exact hp.2.2 s hs _ List.mem_cons_self
  have hz := h.within _ (List.getLast_mem hne)
  by_contra hu
  have hend := h.unterminated s ((List.dropLast_sublist spans).mem hs) (by simpa using hu)
  omega

end Laid

namespace Segmented

variable {m : Markers} {rule : ClosingRule} {n : Nat} {ls : List Text} {spans : List Span}

theorem laid (h : Segmented m rule n ls spans) : Laid n ls.length spans := by
  induction h using walk with
  | done n => exact .nil n
  | keep n l ls spans _ _ ih => exact ih.later
  | remove n e u l ls spans _ hle hend hu _ ih =>
    have hlen : ((l :: ls).drop (e + 1 - n)).length = n + (ls.length + 1) - e - 1 := by
      rw [List.length_drop, List.length_cons]
      omega
    rw [hlen] at ih
    refine ih.cons hle (Nat.lt_succ_of_le hend) fun hopen => ?_
    rw [hu hopen]
    rfl

theorem length_spared (h : Segmented m rule n ls spans) :
    (spared spans n ls).length + (spans.map Span.lineCount).sum = ls.length := by
  induction h using walk with
  | done => rfl
  | keep n l ls spans _ h ih =>
    rw [h.spared_keep, List.length_cons, List.length_cons]
    omega
  | remove n e u l ls spans _ hle hend _ _ ih =>
    rw [List.length_drop, List.length_cons] at ih
    rw [spared_removal hle, List.map_cons, List.sum_cons, Span.lineCount, List.length_cons]
    simp only
    omega

end Segmented

theorem Segmented.flatten_spared_eq_iff {m : Markers} {rule : ClosingRule} {t : Text}
    {spans : List Span} (h : Segmented m rule 1 t.lines spans) :
    (spared spans 1 t.lines).flatten = t ↔ (spans.map Span.lineCount).sum = 0 := by
  have hlen := h.length_spared
  constructor
  · intro heq
    have hlines := t.lines_flatten_spared spans
    rw [heq] at hlines
    rw [← hlines] at hlen
    omega
  · intro hzero
    have hfull : (spared spans 1 t.lines).length = t.lines.length := by omega
    rw [(spared_sublist spans 1 t.lines).eq_of_length hfull, Text.flatten_lines]

theorem Stripper.length_lines_strip (p : Stripper) (t : Text) :
    (p.strip t).content.lines.length + (p.strip t).removed = t.lines.length := by
  obtain ⟨spans, h, hr⟩ := p.exists_segmented t
  rw [hr, Stripped.ofSpans, t.lines_flatten_spared spans]
  exact h.length_spared

theorem Stripper.content_strip_eq_iff (p : Stripper) (t : Text) :
    (p.strip t).content = t ↔ (p.strip t).removed = 0 := by
  obtain ⟨spans, h, hr⟩ := p.exists_segmented t
  rw [hr, Stripped.ofSpans, h.flatten_spared_eq_iff]

structure Stripped.AccountsFor (r : Stripped) (t : Text) : Prop where
  within : ∀ s ∈ r.spans, 1 ≤ s.first ∧ s.first ≤ s.last ∧ s.last ≤ t.lines.length
  ordered : r.spans.Pairwise fun a b => a.last < b.first
  sum_lineCount : (r.spans.map Span.lineCount).sum = r.removed
  content_eq : r.content = (spared r.spans 1 t.lines).flatten
  length_lines : r.content.lines.length + r.removed = t.lines.length
  terminated : ∀ s ∈ r.spans.dropLast, s.unterminated = false
  unterminated : ∀ s ∈ r.spans, s.unterminated = true → s.last = t.lines.length
  changed_iff : r.changed = true ↔ r.content ≠ t

theorem Stripper.strip_accountsFor (p : Stripper) (t : Text) : (p.strip t).AccountsFor t := by
  obtain ⟨spans, h, hr⟩ := p.exists_segmented t
  have hlaid := h.laid
  rw [hr]
  constructor
  case within =>
    intro s hs
    have := hlaid.within s hs
    omega
  case ordered => exact hlaid.ordered
  case sum_lineCount => rfl
  case content_eq => rfl
  case length_lines =>
    rw [Stripped.ofSpans, t.lines_flatten_spared spans]
    exact h.length_spared
  case terminated => exact hlaid.terminated_of_mem_dropLast
  case unterminated =>
    intro s hs hu
    have := hlaid.unterminated s hs hu
    omega
  case changed_iff =>
    rw [Stripped.changed, decide_eq_true_eq, ne_eq, Stripped.ofSpans, h.flatten_spared_eq_iff]
    exact Nat.pos_iff_ne_zero

example : (Stripper.strip ⟨.usual, .paren⟩ "console.log(1);\nconsole.log(2);\n".toList).spans =
    [⟨1, 1, false⟩, ⟨2, 2, false⟩] := by decide

end CallStrip

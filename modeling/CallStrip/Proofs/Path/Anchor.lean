import CallStrip.Proofs.Path.Components

/-!
Anchored paths. Where a path is opened from a base, the components of the base come first and those
of the path behind them; a `.` does not count.
-/

namespace CallStrip.Path

variable {p q base path : Path} {t u : Name}

/-- The components that say where to go, which a `.` does not. -/
def moves (p : Path) : List Component := p.components.filter (· ≠ .here)

theorem component?_ne_here (t : Name) : component? t ≠ some .here := by
  rw [component?]
  split
  · simp
  · split <;> simp

theorem here_not_mem_parts (ts : List Name) : Component.here ∉ ts.filterMap component? := by
  intro hmem
  obtain ⟨t, -, ht⟩ := List.mem_filterMap.mp hmem
  exact component?_ne_here t ht

theorem moves_eq (p : Path) :
    p.moves = (if p.isAbsolute then [.root] else []) ++
      (Text.pieces 0x2F p.bytes).filterMap component? := by
  have hparts : ((Text.pieces 0x2F p.bytes).filterMap component?).filter (· ≠ .here) =
      (Text.pieces 0x2F p.bytes).filterMap component? := by
    rw [List.filter_eq_self]
    intro c hc
    have hne : c ≠ .here := fun h => here_not_mem_parts _ (h ▸ hc)
    exact decide_eq_true hne
  rw [moves, components_eq, List.filter_append, hparts, start]
  congr 1
  split
  · rfl
  · split <;> rfl

theorem moves_of_not_absolute (h : p.isAbsolute = false) :
    p.moves = (Text.pieces 0x2F p.bytes).filterMap component? := by
  rw [moves_eq, h, if_neg Bool.false_ne_true, List.nil_append]

theorem isAbsolute_append (ht : t ≠ []) (u : Name) :
    (⟨t ++ u⟩ : Path).isAbsolute = (⟨t⟩ : Path).isAbsolute := by
  cases t with
  | nil => exact absurd rfl ht
  | cons c t => rfl

theorem moves_append_sep (ht : t ≠ []) (u : Name) :
    (⟨t ++ 0x2F :: u⟩ : Path).moves = moves ⟨t⟩ ++ (Text.pieces 0x2F u).filterMap component? := by
  rw [moves_eq, moves_eq, isAbsolute_append ht, Text.pieces_append_sep, List.filterMap_append,
    List.append_assoc]

theorem moves_slash_append (t u : Name) :
    (⟨t ++ 0x2F :: u⟩ : Path).moves =
      moves ⟨t ++ [0x2F]⟩ ++ (Text.pieces 0x2F u).filterMap component? := by
  cases t with
  | nil =>
    rw [moves_eq, moves_eq]
    simp [isAbsolute, Text.pieces, component?]
  | cons c t =>
    have hne : c :: t ≠ [] := List.cons_ne_nil c t
    rw [moves_append_sep hne, moves_append_sep hne]
    simp [Text.pieces, component?]

theorem join_cases (p : Path) (hq : q.isAbsolute = false) :
    p.bytes = [] ∧ p.join q = q ∨
      (∃ t, p.bytes = t ++ [0x2F] ∧ p.join q = ⟨t ++ 0x2F :: q.bytes⟩) ∨
      p.bytes ≠ [] ∧ p.join q = ⟨p.bytes ++ 0x2F :: q.bytes⟩ := by
  rw [join, hq, if_neg Bool.false_ne_true]
  split
  · next hp =>
    rcases (Bool.or_eq_true _ _).mp hp with hnil | hslash
    · refine .inl ⟨of_decide_eq_true hnil, ?_⟩
      rw [of_decide_eq_true hnil]
      rfl
    · obtain ⟨t, ht⟩ := List.isSuffixOf_iff_suffix.mp hslash
      refine .inr (.inl ⟨t, ht.symm, ?_⟩)
      rw [← ht, List.append_assoc]
      rfl
  · next hp =>
    refine .inr (.inr ⟨?_, rfl⟩)
    rintro hnil
    simp [hnil] at hp

theorem moves_join (p : Path) (hq : q.isAbsolute = false) :
    (p.join q).moves = p.moves ++ q.moves := by
  obtain ⟨t⟩ := p
  rw [moves_of_not_absolute hq]
  obtain ⟨hnil, hjoin⟩ | ⟨t', ht, hjoin⟩ | ⟨hne, hjoin⟩ := join_cases ⟨t⟩ hq
  · obtain rfl : t = [] := hnil
    rw [hjoin, moves_of_not_absolute hq]
    rfl
  · obtain rfl : t = t' ++ [0x2F] := ht
    rw [hjoin, moves_slash_append]
  · rw [hjoin, moves_append_sep hne]

theorem isAbsolute_join (p : Path) (hq : q.isAbsolute = false) :
    (p.join q).isAbsolute = p.isAbsolute := by
  obtain ⟨t⟩ := p
  obtain ⟨hnil, hjoin⟩ | ⟨t', ht, hjoin⟩ | ⟨hne, hjoin⟩ := join_cases ⟨t⟩ hq
  · obtain rfl : t = [] := hnil
    rw [hjoin, hq]
    rfl
  · obtain rfl : t = t' ++ [0x2F] := ht
    rw [hjoin, ← List.singleton_append, ← List.append_assoc, isAbsolute_append (by simp)]
  · rw [hjoin, isAbsolute_append hne]

theorem isAbsolute_of_components_here (h : p.components = [.here]) : p.isAbsolute = false := by
  rw [← Bool.not_eq_true]
  intro habs
  rw [components_eq, start, if_pos habs] at h
  cases h

theorem moves_of_components_here (h : p.components = [.here]) : p.moves = [] := by
  rw [moves, h]
  rfl

/-- An absolute path stays as it is. Any other goes on from its base, whatever way the two of them
are spelled, and leads from the root exactly if the base does. -/
theorem moves_anchor (base path : Path) :
    if path.isAbsolute then anchor base path = path
    else
      (anchor base path).moves = base.moves ++ path.moves ∧
        ((anchor base path).isAbsolute = true ↔ base.isAbsolute = true) := by
  split
  · next habs => rw [anchor, habs, Bool.true_or, if_pos rfl]
  · next habs =>
    have hpath : path.isAbsolute = false := Bool.eq_false_iff.mpr habs
    by_cases hhere : base.components = [.here]
    · have hanchor : anchor base path = path := by simp [anchor, hhere]
      rw [hanchor, moves_of_components_here hhere, isAbsolute_of_components_here hhere, hpath]
      exact ⟨rfl, Iff.rfl⟩
    · have hanchor : anchor base path = base.join path := by simp [anchor, hhere, hpath]
      rw [hanchor, moves_join base hpath, isAbsolute_join base hpath]
      exact ⟨rfl, Iff.rfl⟩

example : (anchor (.ofString "./web//") (.ofString "./src/../a.ts")).moves =
    [.name "web", .name "src", .up, .name "a.ts"] := by
  decide

end CallStrip.Path

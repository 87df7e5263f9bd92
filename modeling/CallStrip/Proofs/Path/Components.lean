import CallStrip.FileTree.Basic
import CallStrip.Proofs.Text.Pieces

/-!
The components of a path that is joined from a path and a name.
-/

namespace CallStrip

namespace Path

variable {p : Path} {n t : Name}

theorem component?_of_isName (h : IsName n) : component? n = some (.name n) := by
  obtain ⟨h1, h2, h3, -⟩ := h
  simp [component?, h1, h2, h3]

theorem isAbsolute_of_isName (h : IsName n) : (⟨n⟩ : Path).isAbsolute = false := by
  rw [isAbsolute, ← Bool.not_eq_true, List.isPrefixOf_iff_prefix]
  rintro ⟨rest, rfl⟩
  exact h.2.2.2 List.mem_cons_self

def start (p : Path) : List Component :=
  if p.isAbsolute then [.root]
  else if (Text.pieces 0x2F p.bytes).head? = some [0x2E] then [.here] else []

theorem components_eq (p : Path) :
    p.components = p.start ++ (Text.pieces 0x2F p.bytes).filterMap component? :=
  rfl

theorem start_append_sep (ht : t ≠ []) (u : Name) : (⟨t ++ 0x2F :: u⟩ : Path).start = start ⟨t⟩ := by
  cases t with
  | nil => exact absurd rfl ht
  | cons c t =>
    have hhead : (Text.pieces 0x2F (c :: t) ++ Text.pieces 0x2F u).head? =
        (Text.pieces 0x2F (c :: t)).head? := by
      cases hp : Text.pieces 0x2F (c :: t) with
      | nil => exact absurd hp (Text.pieces_ne_nil _ _)
      | cons q qs => rfl
    simp only [start, isAbsolute, Text.pieces_append_sep, hhead]
    rfl

theorem components_append_sep (ht : t ≠ []) (u : Name) :
    (⟨t ++ 0x2F :: u⟩ : Path).components =
      components ⟨t⟩ ++ (Text.pieces 0x2F u).filterMap component? := by
  rw [components_eq, components_eq, start_append_sep ht, Text.pieces_append_sep,
    List.filterMap_append, List.append_assoc]

theorem parts_of_isName (h : IsName n) :
    (Text.pieces 0x2F n).filterMap component? = [.name n] := by
  rw [Text.pieces_of_not_mem h.2.2.2, List.filterMap_cons, component?_of_isName h]
  rfl

theorem start_of_isName (h : IsName n) : start ⟨n⟩ = [] := by
  rw [start, isAbsolute_of_isName h, Text.pieces_of_not_mem h.2.2.2]
  simp [h.2.1]

theorem components_join_name (p : Path) (h : IsName n) :
    (p.join ⟨n⟩).components = p.components ++ [.name n] := by
  obtain ⟨t⟩ := p
  rw [join, isAbsolute_of_isName h, if_neg Bool.false_ne_true]
  split
  · next ht =>
    rcases (Bool.or_eq_true _ _).mp ht with ht | ht
    · obtain rfl := of_decide_eq_true ht
      rw [List.nil_append, components_eq, start_of_isName h, parts_of_isName h]
      rfl
    -- The separator is there already.
    · obtain ⟨u, rfl⟩ := List.isSuffixOf_iff_suffix.mp ht
      cases u with
      | nil =>
        rw [components_eq]
        simp [start, isAbsolute, Text.pieces, component?, parts_of_isName h, components]
      | cons c u =>
        have hne : c :: u ≠ [] := List.cons_ne_nil c u
        rw [List.append_assoc, List.singleton_append, components_append_sep hne,
          components_append_sep hne, parts_of_isName h]
        simp [Text.pieces, component?]
  · next ht =>
    have hne : t ≠ [] := by rintro rfl; simp at ht
    rw [components_append_sep hne, parts_of_isName h]

end Path

end CallStrip

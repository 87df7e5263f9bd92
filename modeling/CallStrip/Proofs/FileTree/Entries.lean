import CallStrip.FileTree.Basic
import Mathlib.Data.List.Induction

/-!
The entries of a tree. Each of them stands in a folder and under names, so that nothing stands below
a location that is free or holds a file or a link.
-/

namespace CallStrip.FileTree

variable {t : FileTree} {l k : Location} {e : Entry} {n : Name} {s : Bytes}

theorem mem_entries_of_get? (hl : l ≠ []) (h : t.get? l = some e) : (l, e) ∈ t.entries := by
  have hlookup : t.entries.lookup l = some e := by rwa [get?, entryAt, if_neg hl] at h
  obtain ⟨front, behind, hsplit, -⟩ := List.lookup_eq_some_iff.mp hlookup
  rw [hsplit]
  exact List.mem_append_right front List.mem_cons_self

theorem get?_of_mem_entries (h : (l, e) ∈ t.entries) : t.get? l = some e := by
  obtain ⟨front, behind, hsplit⟩ := List.append_of_mem h
  have hfront : ∀ x ∈ front, (l != x.1) = true := by
    intro x hx
    have hnodup := t.nodup
    rw [hsplit, List.map_append, List.map_cons, List.nodup_append] at hnodup
    exact bne_iff_ne.mpr (hnodup.2.2 x.1 (List.mem_map_of_mem hx) l List.mem_cons_self).symm
  rw [get?, entryAt, if_neg (t.placed _ h).1]
  exact List.lookup_eq_some_iff.mpr ⟨front, behind, hsplit, hfront⟩

theorem get?_dropLast (hl : l ≠ []) (h : t.get? l = some e) : t.get? l.dropLast = some .folder :=
  (t.placed _ (mem_entries_of_get? hl h)).2.2

theorem folder_of_get?_concat (h : t.get? (l ++ [n]) = some e) : t.get? l = some .folder := by
  have hfolder := get?_dropLast (by simp) h
  rwa [List.dropLast_concat] at hfolder

theorem folder_of_get?_append (hk : k ≠ []) (h : t.get? (l ++ k) = some e) :
    t.get? l = some .folder := by
  induction k using List.reverseRecOn generalizing e with
  | nil => exact absurd rfl hk
  | append_singleton k n ih =>
    rw [← List.append_assoc] at h
    have hfolder := folder_of_get?_concat h
    cases k with
    | nil => rwa [List.append_nil] at hfolder
    | cons m k => exact ih (List.cons_ne_nil m k) hfolder

theorem get?_append_of_none (h : t.get? l = none) (n : Name) : t.get? (l ++ [n]) = none := by
  cases hx : t.get? (l ++ [n]) with
  | none => rfl
  | some e => exact absurd (h.symm.trans (folder_of_get?_concat hx)) (by simp)

theorem isName_of_get? (h : t.get? (l ++ k) = some e) : ∀ n ∈ k, IsName n := by
  cases hk : l ++ k with
  | nil => simp [(List.append_eq_nil_iff.mp hk).2]
  | cons m ms =>
    rw [hk] at h
    have hnames := (t.placed _ (mem_entries_of_get? (List.cons_ne_nil m ms) h)).2.1
    exact fun n hn => hnames n (hk ▸ List.mem_append_right l hn)

theorem ne_nil_of_file (h : t.get? l = some (.file s)) : l ≠ [] := by
  rintro rfl
  simp [get?, entryAt] at h

theorem admits_of_file (h : t.get? l = some (.file s)) : t.Admits l := by
  have hl := ne_nil_of_file h
  exact ⟨hl, isName_of_get? (l := []) h, get?_dropLast hl h, by simp [h]⟩

end CallStrip.FileTree

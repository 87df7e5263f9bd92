import CallStrip.Proofs.Json.Fields
import Mathlib.Data.List.Sort

/-!
The order of members. What an object keeps of the members written in it does not depend on how they
are put in their places: their keys ascend, and under each key stands what was written last.
-/

namespace CallStrip.Json

variable {ms ms' : List (Text × Value)} {k : Text} {v : Value}

def Ordered (ms : List (Text × Value)) : Prop := ms.Pairwise fun m m' => m.1 < m'.1

theorem mem_of_mem_put {m : Text × Value} (h : m ∈ put k v ms) : m = (k, v) ∨ m ∈ ms := by
  induction ms with
  | nil => exact .inl (List.mem_singleton.mp h)
  | cons l ms ih =>
    rw [put] at h
    split at h
    · exact (List.mem_cons.mp h).imp_right (List.mem_cons_of_mem l)
    · split at h
      · exact List.mem_cons.mp h
      · rcases List.mem_cons.mp h with rfl | h
        · exact .inr List.mem_cons_self
        · exact (ih h).imp_right (List.mem_cons_of_mem l)

theorem Ordered.put (h : Ordered ms) (k : Text) (v : Value) : Ordered (put k v ms) := by
  induction ms with
  | nil => exact List.pairwise_singleton _ _
  | cons m ms ih =>
    obtain ⟨hm, hms⟩ := List.pairwise_cons.mp h
    rw [Json.put]
    split
    · next hk =>
      subst hk
      exact List.pairwise_cons.mpr ⟨hm, hms⟩
    · next hne =>
      split
      · next hlt =>
        refine List.pairwise_cons.mpr ⟨fun l hl => ?_, h⟩
        rcases List.mem_cons.mp hl with rfl | hl
        · exact hlt
        · exact List.lt_trans hlt (hm l hl)
      · next hle =>
        have hlt : m.1 < k :=
          (List.le_iff_lt_or_eq.mp (List.not_lt.mp hle)).resolve_right (Ne.symm hne)
        refine List.pairwise_cons.mpr ⟨fun l hl => ?_, ih hms⟩
        rcases mem_of_mem_put hl with rfl | hl
        · exact hlt
        · exact hm l hl

theorem Ordered.mem_iff (h : Ordered ms) : (k, v) ∈ ms ↔ ms.lookup k = some v := by
  induction ms with
  | nil => exact iff_of_false List.not_mem_nil fun h => nomatch h
  | cons m ms ih =>
    obtain ⟨hm, hms⟩ := List.pairwise_cons.mp h
    rw [List.mem_cons, lookup_cons, ih hms]
    split
    · next hk =>
      subst hk
      -- The key of the first member is no other member's.
      have hnone : ms.lookup m.1 ≠ some v := fun hlookup =>
        absurd (hm _ ((ih hms).mpr hlookup)) (List.lt_irrefl _)
      rw [or_iff_left hnone, Option.some.injEq, Prod.ext_iff]
      exact ⟨fun h => h.2.symm, fun h => ⟨rfl, h.symm⟩⟩
    · next hne => exact or_iff_right fun h => hne (congrArg Prod.fst h)

theorem Ordered.eq_of_lookup (h : Ordered ms) (h' : Ordered ms')
    (hlookup : ∀ k, ms.lookup k = ms'.lookup k) : ms = ms' := by
  have : Std.Irrefl fun m m' : Text × Value => m.1 < m'.1 := ⟨fun m => List.lt_irrefl m.1⟩
  have : Std.Antisymm fun m m' : Text × Value => m.1 < m'.1 :=
    ⟨fun m m' hlt hgt => absurd hgt (List.lt_asymm hlt)⟩
  refine List.Pairwise.eq_of_mem_iff h h' fun m => ?_
  rw [h.mem_iff, h'.mem_iff, hlookup]

def Settles (ms kept : List (Text × Value)) : Prop :=
  Ordered kept ∧ ∀ k, kept.lookup k = ms.reverse.lookup k

theorem settles_collect (ms : List (Text × Value)) : Settles ms (collect ms) := by
  induction ms using List.reverseRecOn with
  | nil => exact ⟨.nil, fun _ => rfl⟩
  | append_singleton ms m ih =>
    obtain ⟨j, w⟩ := m
    rw [collect_append]
    refine ⟨ih.1.put j w, fun k => ?_⟩
    rw [lookup_put, List.reverse_concat, lookup_cons, ih.2]

theorem Settles.eq_collect (h : Settles ms ms') : ms' = collect ms :=
  h.1.eq_of_lookup (settles_collect ms).1 fun k => (h.2 k).trans ((settles_collect ms).2 k).symm

theorem Settles.mem (h : Settles ms ms') {m : Text × Value} (hm : m ∈ ms') : m ∈ ms := by
  have hlookup := h.1.mem_iff.mp hm
  rw [h.2] at hlookup
  obtain ⟨front, behind, hsplit, -⟩ := List.lookup_eq_some_iff.mp hlookup
  rw [← List.mem_reverse, hsplit]
  exact List.mem_append_right front List.mem_cons_self

theorem Ordered.settles (h : Ordered ms) : Settles ms ms := by
  refine ⟨h, fun k => ?_⟩
  induction ms with
  | nil => rfl
  | cons m ms ih =>
    obtain ⟨hm, hms⟩ := List.pairwise_cons.mp h
    rw [lookup_cons, List.reverse_cons, List.lookup_append, ← ih hms]
    split
    · next hk =>
      have hnone : ms.lookup k = none := by
        refine List.lookup_eq_none_iff.mpr fun l hl => bne_iff_ne.mpr fun hkey => ?_
        exact absurd (hkey.symm ▸ hk ▸ hm l hl) (List.lt_irrefl _)
      rw [hnone, lookup_cons, if_pos hk]
      rfl
    · next hne =>
      rw [lookup_cons, if_neg hne]
      exact Option.or_none.symm

end CallStrip.Json

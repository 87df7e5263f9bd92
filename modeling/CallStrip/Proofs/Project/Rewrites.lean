import CallStrip.Proofs.FileTree.Alike
import CallStrip.Proofs.Strip.Idempotence
import CallStrip.Proofs.Text.Utf8
import Mathlib.Algebra.BigOperators.Group.Finset.Basic
import Mathlib.Data.Finset.Card

/-!
Trees before and after some of their files were stripped. Stripping a file twice does what stripping
it once does, so it only counts which files were stripped, not how often or in which order.
-/

namespace CallStrip

namespace FileTree

def lineCount (t : FileTree) (l : Location) : Nat :=
  match t.get? l with
  | some (.file s) => ((Utf8.decode s).map fun x => x.lines.length).getD 0
  | _ => 0

variable {t u : FileTree} {l : Location} {x y : Text}

theorem text_unique (hx : t.get? l = some (.file (Utf8.encode x)))
    (hy : t.get? l = some (.file (Utf8.encode y))) : x = y := by
  rw [hx, Option.some.injEq, Entry.file.injEq] at hy
  exact Utf8.encode_injective hy

theorem lineCount_of_get? (h : t.get? l = some (.file (Utf8.encode x))) :
    t.lineCount l = x.lines.length := by
  simp only [lineCount, h, Utf8.decode_encode, Option.map_some, Option.getD_some]

theorem lineCount_congr (h : u.get? l = t.get? l) : u.lineCount l = t.lineCount l := by
  simp only [lineCount, h]

end FileTree

/-- Tree `u` is tree `t` with the files at the locations `ls` stripped. -/
structure Stripper.Rewrites (p : Stripper) (t : FileTree) (ls : Finset Location) (u : FileTree) :
    Prop where
  here : u.here = t.here
  inside : ∀ l ∈ ls, ∃ x, t.get? l = some (.file (Utf8.encode x)) ∧
    u.get? l = some (.file (Utf8.encode (p.strip x).content))
  outside : ∀ l ∉ ls, u.get? l = t.get? l

namespace Stripper.Rewrites

variable {p : Stripper} {t t' u : FileTree} {l : Location} {ls ls' V : Finset Location} {x : Text}

theorem refl (p : Stripper) (t : FileTree) : p.Rewrites t ∅ t :=
  ⟨rfl, fun l hl => absurd hl (Finset.notMem_empty l), fun _ _ => rfl⟩

theorem alike (h : p.Rewrites t ls u) : t.Alike u := by
  refine ⟨h.here, fun l => ?_⟩
  by_cases hl : l ∈ ls
  · obtain ⟨x, ht, hu⟩ := h.inside l hl
    exact .inr ⟨_, _, ht, hu⟩
  · exact .inl (h.outside l hl)

theorem get?_of_mem (h : p.Rewrites t ls u) (hl : l ∈ ls)
    (hx : t.get? l = some (.file (Utf8.encode x))) :
    u.get? l = some (.file (Utf8.encode (p.strip x).content)) := by
  obtain ⟨y, hy, hu⟩ := h.inside l hl
  rw [FileTree.text_unique hx hy, hu]

theorem text_iff (h : p.Rewrites t ls u) :
    (∃ x, u.get? l = some (.file (Utf8.encode x))) ↔
      ∃ x, t.get? l = some (.file (Utf8.encode x)) := by
  by_cases hl : l ∈ ls
  · obtain ⟨x, ht, hu⟩ := h.inside l hl
    exact iff_of_true ⟨_, hu⟩ ⟨x, ht⟩
  · rw [h.outside l hl]

theorem settled (h : p.Rewrites t ls t') (h' : p.Rewrites t' ls' u) (hl : l ∈ ls) :
    u.get? l = t'.get? l := by
  by_cases hl' : l ∈ ls'
  · obtain ⟨x, -, hx⟩ := h.inside l hl
    rw [h'.get?_of_mem hl' hx, hx, p.strip_content]
    rfl
  · exact h'.outside l hl'

theorem trans (h : p.Rewrites t ls t') (h' : p.Rewrites t' ls' u) :
    p.Rewrites t (ls ∪ ls') u := by
  refine ⟨h'.here.trans h.here, fun l hl => ?_, fun l hl => ?_⟩
  · by_cases hin : l ∈ ls
    · obtain ⟨x, ht, ht'⟩ := h.inside l hin
      exact ⟨x, ht, (h.settled h' hin).trans ht'⟩
    · obtain ⟨x, ht', hu⟩ := h'.inside l ((Finset.mem_union.mp hl).resolve_left hin)
      exact ⟨x, h.outside l hin ▸ ht', hu⟩
  · obtain ⟨hout, hout'⟩ := not_or.mp (mt Finset.mem_union.mpr hl)
    exact (h'.outside l hout').trans (h.outside l hout)

theorem card_changed (h : p.Rewrites t ls t') (h' : p.Rewrites t' ls' u) (V : Finset Location) :
    (V.filter fun l => u.get? l ≠ t.get? l).card =
      (V.filter fun l => t'.get? l ≠ t.get? l).card +
        (V.filter fun l => u.get? l ≠ t'.get? l).card := by
  have hboth : ∀ l, t'.get? l ≠ t.get? l → u.get? l = t'.get? l := by
    intro l hne
    have hl : l ∈ ls := by
      by_contra hout
      exact hne (h.outside l hout)
    exact h.settled h' hl
  have heither : (V.filter fun l => u.get? l ≠ t.get? l) =
      (V.filter fun l => t'.get? l ≠ t.get? l) ∪ V.filter fun l => u.get? l ≠ t'.get? l := by
    rw [← Finset.filter_or]
    refine Finset.filter_congr fun l _ => ?_
    by_cases hne : t'.get? l = t.get? l
    · simp [hne]
    · simp [hne, hboth l hne]
  have hdisjoint : Disjoint (V.filter fun l => t'.get? l ≠ t.get? l)
      (V.filter fun l => u.get? l ≠ t'.get? l) :=
    Finset.disjoint_filter.mpr fun l _ hne hne' => hne' (hboth l hne)
  rw [heither, Finset.card_union_of_disjoint hdisjoint]

theorem filter_changed_singleton (h : p.Rewrites t {l} u) (hl : l ∈ V) :
    (V.filter fun k => u.get? k ≠ t.get? k) = if u.get? l ≠ t.get? l then {l} else ∅ := by
  have hother : ∀ k, u.get? k ≠ t.get? k → k = l := by
    intro k hne
    by_contra hk
    exact hne (h.outside k (mt Finset.mem_singleton.mp hk))
  ext k
  split
  · next hne =>
    rw [Finset.mem_filter, Finset.mem_singleton]
    constructor
    · exact fun hk => hother k hk.2
    · rintro rfl
      exact ⟨hl, hne⟩
  · next heq =>
    rw [Finset.mem_filter]
    constructor
    · rintro ⟨-, hk⟩
      exact absurd (hother k hk ▸ hk) heq
    · exact fun hk => absurd hk (Finset.notMem_empty k)

theorem sum_lineCount_singleton (h : p.Rewrites t {l} u) (hl : l ∈ V) :
    u.lineCount l + ∑ k ∈ V, t.lineCount k = t.lineCount l + ∑ k ∈ V, u.lineCount k := by
  have hothers : ∑ k ∈ V.erase l, u.lineCount k = ∑ k ∈ V.erase l, t.lineCount k := by
    refine Finset.sum_congr rfl fun k hk => FileTree.lineCount_congr (h.outside k ?_)
    rw [Finset.mem_singleton]
    exact Finset.ne_of_mem_erase hk
  rw [← Finset.add_sum_erase V t.lineCount hl, ← Finset.add_sum_erase V u.lineCount hl, hothers]
  omega

end Stripper.Rewrites

end CallStrip

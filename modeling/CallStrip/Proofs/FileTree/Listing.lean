import CallStrip.Proofs.Project.Visits
import CallStrip.Target
import Mathlib.Data.List.Sort

/-!
Listings of folders. Putting content into a file moves its entry to the end of the tree, so trees
that are alike list the same children in another order; in order they are the same.
-/

namespace CallStrip

namespace FileTree

variable {t u : FileTree} {l : Location} {p : Path} {i : Child} {c : IoCause}

theorem childIn?_eq_some_iff {e : Location × Entry} :
    childIn? l e = some i ↔ e.1 = l ++ [i.name] ∧ e.2.kind = i.kind := by
  obtain ⟨k, x⟩ := e
  obtain ⟨n, kind⟩ := i
  rw [childIn?]
  rcases List.eq_nil_or_concat k with rfl | ⟨k, m, rfl⟩
  · simp
  · simp only [List.concat_eq_append, List.getLast?_concat, List.dropLast_concat,
      Option.ite_none_right_eq_some, Option.some.injEq, Child.mk.injEq]
    constructor
    · rintro ⟨rfl, rfl, hkind⟩
      exact ⟨rfl, hkind⟩
    · rintro ⟨happend, hkind⟩
      obtain ⟨rfl, hname⟩ := List.append_inj' happend rfl
      exact ⟨rfl, List.singleton_inj.mp hname, hkind⟩

theorem mem_children :
    i ∈ t.children l ↔ ∃ e, t.get? (l ++ [i.name]) = some e ∧ e.kind = i.kind := by
  simp only [children, List.mem_filterMap, childIn?_eq_some_iff, Prod.exists]
  constructor
  · rintro ⟨k, e, hmem, rfl, hkind⟩
    exact ⟨e, get?_of_mem_entries hmem, hkind⟩
  · rintro ⟨e, he, hkind⟩
    exact ⟨_, e, mem_entries_of_get? (by simp) he, rfl, hkind⟩

theorem nodup_names_children (t : FileTree) (l : Location) :
    ((t.children l).map (·.name)).Nodup := by
  have hentries : t.entries.Pairwise fun e e' => e.1 ≠ e'.1 := List.pairwise_map.mp t.nodup
  refine List.pairwise_map.mpr (hentries.filterMap _ fun e e' hne i hi j hj hname => hne ?_)
  rw [(childIn?_eq_some_iff.mp hi).1, (childIn?_eq_some_iff.mp hj).1, hname]

theorem nodup_children (t : FileTree) (l : Location) : (t.children l).Nodup :=
  (nodup_names_children t l).of_map _

theorem readFolder_eq_ok (hp : t.find p = .ok l) (hl : t.get? l = some .folder) :
    t.readFolder p = .ok (t.children l) := by
  rw [readFolder, hp]
  exact if_pos hl

theorem readFolder_eq_notFolder (hp : t.find p = .ok l) (hl : t.get? l ≠ some .folder) :
    t.readFolder p = .error .notFolder := by
  rw [readFolder, hp]
  exact if_neg hl

theorem readFolder_eq_error (hp : t.find p = .error c) : t.readFolder p = .error c := by
  rw [readFolder, hp]
  rfl

namespace Alike

theorem kind_iff (h : t.Alike u) {l : Location} {kind : EntryKind} :
    (∃ e, u.get? l = some e ∧ e.kind = kind) ↔ ∃ e, t.get? l = some e ∧ e.kind = kind := by
  rcases h.entry l with he | ⟨s, s', hs, hs'⟩
  · rw [he]
  · simp [hs, hs', Entry.kind]

theorem children_perm (h : t.Alike u) (l : Location) : (u.children l).Perm (t.children l) := by
  refine (List.perm_ext_iff_of_nodup (nodup_children u l) (nodup_children t l)).mpr fun i => ?_
  simp only [mem_children]
  exact h.kind_iff

end Alike

end FileTree

namespace Child

variable {children children' : List Child}

theorem insert_eq_orderedInsert (i : Child) (children : List Child) :
    insert i children = children.orderedInsert (fun i j => ¬ j.name < i.name) i := by
  induction children with
  | nil => rfl
  | cons j children ih =>
    rw [insert, List.orderedInsert_cons, ite_not, ih]

theorem inOrder_eq_insertionSort (children : List Child) :
    inOrder children = children.insertionSort fun i j => ¬ j.name < i.name := by
  induction children with
  | nil => rfl
  | cons i children ih =>
    rw [inOrder, List.foldr_cons, insert_eq_orderedInsert, List.insertionSort_cons, ← ih, inOrder]

theorem pairwise_inOrder (children : List Child) :
    (inOrder children).Pairwise fun i j => ¬ j.name < i.name := by
  have : Std.Total fun i j : Child => ¬ j.name < i.name := ⟨fun i j => List.le_total i.name j.name⟩
  have : IsTrans Child fun i j => ¬ j.name < i.name := ⟨fun _ _ _ hij hjk => List.le_trans hij hjk⟩
  rw [inOrder_eq_insertionSort]
  exact List.pairwise_insertionSort _ children

theorem inOrder_perm_self (children : List Child) : (inOrder children).Perm children := by
  rw [inOrder_eq_insertionSort]
  exact List.perm_insertionSort _ children

theorem mem_inOrder {i : Child} : i ∈ inOrder children ↔ i ∈ children :=
  (inOrder_perm_self children).mem_iff

theorem pairwise_lt_inOrder (h : (children.map (·.name)).Nodup) :
    (inOrder children).Pairwise fun i j => i.name < j.name := by
  have hne : (inOrder children).Pairwise fun i j => i.name ≠ j.name :=
    List.pairwise_map.mp (((inOrder_perm_self children).map _).nodup_iff.mpr h)
  refine (pairwise_inOrder children).imp₂ (fun i j hle hne => ?_) hne
  exact Decidable.byContradiction fun hlt =>
    hne (Std.Trichotomous.trichotomous i.name j.name hlt hle)

theorem inOrder_perm (h : children'.Perm children) (hnodup : (children.map (·.name)).Nodup) :
    inOrder children' = inOrder children := by
  have hperm : (inOrder children').Perm (inOrder children) :=
    (inOrder_perm_self children').trans (h.trans (inOrder_perm_self children).symm)
  have hsorted := pairwise_lt_inOrder hnodup
  have hsorted' := pairwise_lt_inOrder ((h.map _).nodup_iff.mpr hnodup)
  exact hperm.eq_of_pairwise (fun _ _ _ _ hij hji => absurd hji (List.lt_asymm hij)) hsorted'
    hsorted

end Child

namespace Target

variable {t : FileTree} {folder : Path} {children : List Child} {c : IoCause}

theorem run_listing_ok (h : t.readFolder folder = .ok children) :
    (listing folder : ExceptT IoCause (StateM FileTree) _).run.run t =
      (.ok (Child.inOrder children), t) := by
  have hread : (Disk.readFolder folder : StateM FileTree _).run t = (.ok children, t) :=
    congrArg (·, t) h
  rw [listing, ExceptT.run_mk, run_bind hread]
  rfl

theorem run_listing_error (h : t.readFolder folder = .error c) :
    (listing folder : ExceptT IoCause (StateM FileTree) _).run.run t =
      (.error (.unlisted folder c), t) := by
  have hread : (Disk.readFolder folder : StateM FileTree _).run t = (.error c, t) :=
    congrArg (·, t) h
  rw [listing, ExceptT.run_mk, run_bind hread]
  rfl

end Target

end CallStrip

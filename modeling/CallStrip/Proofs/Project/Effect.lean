import CallStrip.Proofs.Project.Visits
import Mathlib.Data.Set.Card

/-!
What a run makes of a tree, and what it tells about it: the files that its paths lead to are
stripped, nothing else is different, and the totals count each file once, however often and in
whatever order the paths name it.
-/

namespace CallStrip

namespace Tally

theorem record_comm (n : Tally) (v w : Visit) : (n.record v).record w = (n.record w).record v := by
  cases v <;> cases w <;> simp [record]
  omega

theorem foldl_record (n : Tally) (v : Visit) (vs : List Visit) :
    vs.foldl record (n.record v) = (vs.foldl record n).record v := by
  induction vs generalizing n with
  | nil => rfl
  | cons w vs ih => rw [List.foldl_cons, List.foldl_cons, record_comm, ih]

theorem ofVisits_cons (v : Visit) (vs : List Visit) : ofVisits (v :: vs) = (ofVisits vs).record v :=
  foldl_record zero v vs

theorem seen_record (n : Tally) (v : Visit) : (n.record v).seen = n.seen + 1 := by
  cases v <;> rfl

theorem removed_record (n : Tally) (v : Visit) : (n.record v).removed = n.removed + v.removed := by
  cases v <;> rfl

theorem seen_ofVisits (vs : List Visit) : (ofVisits vs).seen = vs.length := by
  induction vs with
  | nil => rfl
  | cons v vs ih => rw [ofVisits_cons, seen_record, ih, List.length_cons]

end Tally

namespace Stripper

variable {p : Stripper} {t u : FileTree} {vs : List (Path × Visit)}

theorem missing_record_visit (p : Stripper) (x : Text) (n : Tally) :
    (n.record (p.visit x)).missing = n.missing := by
  unfold visit
  split <;> rfl

theorem modified_record_visit (p : Stripper) (x : Text) (n : Tally) :
    (n.record (p.visit x)).modified =
      (if (p.strip x).content = x then 0 else 1) + n.modified := by
  unfold visit
  split
  · next h =>
    rw [if_neg (mt (changed_eq_false_iff p x).mpr (by simp [h])), Nat.add_comm]
    rfl
  · next h =>
    rw [if_pos ((changed_eq_false_iff p x).mp (by simpa using h)), Nat.zero_add]
    rfl

namespace Visits

theorem rewrites (h : p.Visits t vs u) : p.Rewrites t (t.visited (vs.map (·.1))) u := by
  induction h with
  | done => exact .refl p _
  | missing hmiss _ ih =>
    rw [List.map_cons, FileTree.visited_cons, FileTree.visited_of_misses hmiss, Finset.empty_union]
    exact ih
  | found hf hl hr _ ih =>
    rw [List.map_cons, FileTree.visited_cons, FileTree.visited_of_find hf, ← hr.alike.visited]
    exact hr.trans ih

theorem missing_eq (h : p.Visits t vs u) :
    (Tally.ofVisits (vs.map (·.2))).missing = (vs.map (·.1)).countP t.misses := by
  induction h with
  | done => rfl
  | missing hmiss _ ih =>
    rw [List.map_cons, List.map_cons, Tally.ofVisits_cons, List.countP_cons_of_pos hmiss, ← ih]
    rfl
  | @found t t' u path l x vs hf hl hr _ ih =>
    have hfound : ¬ t.misses path = true := by
      rw [FileTree.misses_eq_false (FileTree.readText_eq_ok_iff.mpr ⟨l, hf, hl⟩)]
      exact Bool.false_ne_true
    have hsame : t'.misses = t.misses := funext hr.alike.misses
    rw [List.map_cons, List.map_cons, Tally.ofVisits_cons, missing_record_visit, ih,
      List.countP_cons_of_neg hfound, hsame]

variable {V : Finset Location}

theorem modified_eq (h : p.Visits t vs u) (hV : t.visited (vs.map (·.1)) ⊆ V) :
    (Tally.ofVisits (vs.map (·.2))).modified =
      (V.filter fun l => u.get? l ≠ t.get? l).card := by
  induction h with
  | done => simp [Tally.ofVisits, Tally.zero]
  | missing hmiss _ ih =>
    rw [List.map_cons, FileTree.visited_cons, FileTree.visited_of_misses hmiss,
      Finset.empty_union] at hV
    rw [List.map_cons, Tally.ofVisits_cons, ← ih hV]
    rfl
  | @found t t' u path l x vs hf hl hr hvs ih =>
    rw [List.map_cons, FileTree.visited_cons, FileTree.visited_of_find hf,
      ← hr.alike.visited] at hV
    have hlV : l ∈ V := hV (Finset.mem_union_left _ (Finset.mem_singleton_self l))
    have hchanged : t'.get? l ≠ t.get? l ↔ (p.strip x).content ≠ x := by
      rw [hr.get?_of_mem (Finset.mem_singleton_self l) hl, hl, ne_eq, Option.some.injEq,
        Entry.file.injEq]
      exact not_congr ⟨fun he => Utf8.encode_injective he, congrArg Utf8.encode⟩
    rw [List.map_cons, Tally.ofVisits_cons, modified_record_visit,
      ih (Finset.union_subset_right hV), hr.card_changed hvs.rewrites,
      hr.filter_changed_singleton hlV]
    congr 1
    by_cases hx : (p.strip x).content = x <;> simp [hchanged, hx]

theorem removed_eq (h : p.Visits t vs u) (hV : t.visited (vs.map (·.1)) ⊆ V) :
    (Tally.ofVisits (vs.map (·.2))).removed + ∑ l ∈ V, u.lineCount l = ∑ l ∈ V, t.lineCount l := by
  induction h with
  | done => exact Nat.zero_add _
  | missing hmiss _ ih =>
    rw [List.map_cons, FileTree.visited_cons, FileTree.visited_of_misses hmiss,
      Finset.empty_union] at hV
    rw [List.map_cons, Tally.ofVisits_cons, Tally.removed_record, ← ih hV]
    rfl
  | @found t t' u path l x vs hf hl hr _ ih =>
    rw [List.map_cons, FileTree.visited_cons, FileTree.visited_of_find hf,
      ← hr.alike.visited] at hV
    have hlV : l ∈ V := hV (Finset.mem_union_left _ (Finset.mem_singleton_self l))
    have hlines : t'.lineCount l + (p.strip x).removed = t.lineCount l := by
      have ht' := hr.get?_of_mem (Finset.mem_singleton_self l) hl
      rw [FileTree.lineCount_of_get? ht', FileTree.lineCount_of_get? hl, p.length_lines_strip]
    have hsum := hr.sum_lineCount_singleton hlV
    have hrest := ih (Finset.union_subset_right hV)
    rw [List.map_cons, Tally.ofVisits_cons, Tally.removed_record, removed_visit]
    omega

end Visits

/-- What a run over some paths, told by a tally, has made of tree `t`. -/
structure Accomplishes (p : Stripper) (t : FileTree) (paths : List Path) (u : FileTree)
    (n : Tally) : Prop where
  stripped : ∀ path ∈ paths, ∀ l, t.find path = .ok l → ∃ x,
    t.get? l = some (.file (Utf8.encode x)) ∧
      u.get? l = some (.file (Utf8.encode (p.strip x).content))
  others : ∀ l, (∀ path ∈ paths, t.find path ≠ .ok l) → u.get? l = t.get? l
  places : ∀ l, (u.get? l).isSome = (t.get? l).isSome
  leads : ∀ path, u.find path = t.find path
  seen : n.seen = paths.length
  missing : n.missing = paths.countP t.misses
  modified : {l | u.get? l ≠ t.get? l}.encard = n.modified
  removed : n.removed + ∑ l ∈ t.visited paths, u.lineCount l = ∑ l ∈ t.visited paths, t.lineCount l

theorem Visits.accomplishes (h : p.Visits t vs u) :
    p.Accomplishes t (vs.map (·.1)) u (Tally.ofVisits (vs.map (·.2))) := by
  have hr := h.rewrites
  constructor
  case stripped =>
    exact fun path hpath l hl => hr.inside l (FileTree.mem_visited.mpr ⟨path, hpath, hl⟩)
  case others =>
    intro l hl
    refine hr.outside l fun hmem => ?_
    obtain ⟨path, hpath, hf⟩ := FileTree.mem_visited.mp hmem
    exact hl path hpath hf
  case places => exact hr.alike.isSome
  case leads => exact hr.alike.find
  case seen => rw [Tally.seen_ofVisits, List.length_map, List.length_map]
  case missing => exact h.missing_eq
  case modified =>
    have hset : {l | u.get? l ≠ t.get? l} =
        ((t.visited (vs.map (·.1))).filter fun l => u.get? l ≠ t.get? l : Finset Location) := by
      ext l
      rw [Finset.mem_coe, Finset.mem_filter]
      constructor
      · exact fun hne => ⟨by_contra fun hl => hne (hr.outside l hl), hne⟩
      · exact fun hl => hl.2
    rw [hset, Set.encard_coe_eq_coe_finsetCard, h.modified_eq (Finset.Subset.refl _)]
  case removed => exact h.removed_eq (Finset.Subset.refl _)

namespace Accomplishes

variable {u' : FileTree} {paths paths' : List Path} {n n' : Tally}

theorem get?_eq (h : p.Accomplishes t paths u n) (h' : p.Accomplishes t paths' u' n')
    (hp : paths'.Perm paths) (l : Location) : u'.get? l = u.get? l := by
  by_cases hl : ∃ path ∈ paths, t.find path = .ok l
  · obtain ⟨path, hpath, hf⟩ := hl
    obtain ⟨x, hx, hu⟩ := h.stripped path hpath l hf
    obtain ⟨y, hy, hu'⟩ := h'.stripped path (hp.mem_iff.mpr hpath) l hf
    rw [hu, hu', FileTree.text_unique hx hy]
  · have hnone : ∀ path ∈ paths, t.find path ≠ .ok l := fun path hpath hf => hl ⟨path, hpath, hf⟩
    rw [h.others l hnone, h'.others l fun path hpath => hnone path (hp.mem_iff.mp hpath)]

theorem tally_eq (h : p.Accomplishes t paths u n) (h' : p.Accomplishes t paths' u' n')
    (hp : paths'.Perm paths) : n' = n := by
  have hget := h.get?_eq h' hp
  have hseen : n'.seen = n.seen := by rw [h.seen, h'.seen, hp.length_eq]
  have hmissing : n'.missing = n.missing := by rw [h.missing, h'.missing, hp.countP_eq]
  have hmodified : n'.modified = n.modified := by
    have hset := h'.modified
    simp only [hget] at hset
    exact Nat.cast_injective (hset.symm.trans h.modified)
  have hremoved : n'.removed = n.removed := by
    have hsum := h'.removed
    have hlines : u'.lineCount = u.lineCount := funext fun l => FileTree.lineCount_congr (hget l)
    rw [FileTree.visited_perm hp, hlines] at hsum
    have := h.removed
    omega
  cases n
  cases n'
  rw [Tally.mk.injEq]
  exact ⟨hseen, hmodified, hmissing, hremoved⟩

end Accomplishes

end Stripper

namespace Project

variable {p : Project} {t : FileTree} {paths : List Path}

theorem exists_visits_of_run
    (h : ((p.run false paths : StateM FileTree Run).run t).1.failure = none) :
    ∃ r u, (p.run false paths : StateM FileTree Run).run t = (r, u) ∧ r.failure = none ∧
      r.visits.map (·.1) = paths ∧ p.stripper.Visits t r.visits u := by
  obtain ⟨vs, u, hrun, hvs, hpaths⟩ := run_of_fits (fits_of_run h)
  exact ⟨_, u, hrun, rfl, hpaths, hvs⟩

/-- A run that nothing stops has the effect and the totals it should have, and in whatever order its
paths are given it is not stopped and has the same of both. -/
theorem run_accomplishes (p : Project) (t : FileTree) (paths : List Path)
    (h : ((p.run false paths : StateM FileTree Run).run t).1.failure = none) :
    p.stripper.Accomplishes t paths ((p.run false paths : StateM FileTree Run).run t).2
      ((p.run false paths : StateM FileTree Run).run t).1.tally ∧
    ∀ paths', paths'.Perm paths →
      ((p.run false paths' : StateM FileTree Run).run t).1.failure = none ∧
      ((p.run false paths' : StateM FileTree Run).run t).1.tally =
        ((p.run false paths : StateM FileTree Run).run t).1.tally ∧
      ((p.run false paths' : StateM FileTree Run).run t).2.here =
        ((p.run false paths : StateM FileTree Run).run t).2.here ∧
      ∀ l, ((p.run false paths' : StateM FileTree Run).run t).2.get? l =
        ((p.run false paths : StateM FileTree Run).run t).2.get? l := by
  have heffect : ∀ qs, (∀ q ∈ qs, t.Fits q) → ∃ r u,
      (p.run false qs : StateM FileTree Run).run t = (r, u) ∧ r.failure = none ∧ u.here = t.here ∧
        p.stripper.Accomplishes t qs u r.tally := by
    intro qs hqs
    obtain ⟨vs, u, hrun, hvs, hmap⟩ := run_of_fits hqs
    exact ⟨_, u, hrun, rfl, hvs.rewrites.here, hmap ▸ hvs.accomplishes⟩
  have hfits := fits_of_run h
  obtain ⟨r, u, hrun, -, hhere, hacc⟩ := heffect paths hfits
  rw [hrun]
  refine ⟨hacc, fun paths' hp => ?_⟩
  obtain ⟨r', u', hrun', hnone', hhere', hacc'⟩ :=
    heffect paths' fun q hq => hfits q (hp.mem_iff.mp hq)
  rw [hrun']
  exact ⟨hnone', hacc.tally_eq hacc' hp, hhere'.trans hhere.symm, hacc.get?_eq hacc' hp⟩

def sampleTree : FileTree where
  entries := [(["w"], .folder),
    (["w", "a.ts"], .file (Utf8.encode "console.log(1);\nf();\n".toList)),
    (["w", "b.ts"], .link (.ofString "a.ts"))]
  here := ["w"]
  nodup := by decide
  placed := by decide
  here_folder := by decide

def usual : Project := ⟨.initial, ⟨.usual, .paren⟩, .ofString "."⟩

def aliases : List Path := [.ofString "b.ts", .ofString "c.ts", .ofString "a.ts"]

theorem run_accomplishes_aliases :
    ((usual.run false aliases : StateM FileTree Run).run sampleTree).1.failure = none ∧
    ((usual.run false aliases : StateM FileTree Run).run sampleTree).1.tally = ⟨3, 1, 1, 1⟩ ∧
    usual.stripper.Accomplishes sampleTree aliases
      ((usual.run false aliases : StateM FileTree Run).run sampleTree).2 ⟨3, 1, 1, 1⟩ := by
  have hfailure :
      ((usual.run false aliases : StateM FileTree Run).run sampleTree).1.failure = none := by
    decide +kernel
  have htally :
      ((usual.run false aliases : StateM FileTree Run).run sampleTree).1.tally = ⟨3, 1, 1, 1⟩ := by
    decide +kernel
  have heffect := (run_accomplishes usual sampleTree aliases hfailure).1
  rw [htally] at heffect
  exact ⟨hfailure, htally, heffect⟩

end Project

end CallStrip

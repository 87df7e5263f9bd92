import CallStrip.Proofs.Project.Clean
import CallStrip.Proofs.Project.Sweep

/-!
Dry runs. A run over files that are all different meets each of them as it was at the start, so a
dry run, which leaves the tree as it is, tells what the run will come to.
-/

namespace CallStrip

namespace FileTree

variable {t u : FileTree} {path path' : Path}

def SameFile (t : FileTree) (path path' : Path) : Prop :=
  ∃ l s, t.find path = .ok l ∧ t.find path' = .ok l ∧ t.get? l = some (.file s)

theorem SameFile.samePlace (h : t.SameFile path path') : t.SamePlace path path' := by
  obtain ⟨l, _, hl, hl', _⟩ := h
  exact ⟨l, hl, hl'⟩

theorem Alike.sameFile_iff (h : t.Alike u) : u.SameFile path path' ↔ t.SameFile path path' := by
  simp only [SameFile, exists_and_left, h.find, h.file_iff]

end FileTree

theorem Stripper.Rewrites.readText_of_not_sameFile {p : Stripper} {t u : FileTree} {l : Location}
    {path path' : Path} {s : Bytes} (h : p.Rewrites t {l} u) (hf : t.find path = .ok l)
    (hl : t.get? l = some (.file s)) (hne : ¬ t.SameFile path path') :
    u.readText path' = t.readText path' := by
  refine h.alike.readText_of_get? fun k hk => h.outside k fun hmem => hne ?_
  obtain rfl := Finset.mem_singleton.mp hmem
  exact ⟨k, s, hf, hk, hl⟩

namespace Project

variable {p : Project} {t : FileTree} {paths : List Path}

theorem run_eq_sweep (h : paths.Pairwise fun q q' => ¬ t.SameFile q q') :
    ∃ u, (p.run false paths : StateM FileTree Run).run t = ((t.sweep paths).run p.stripper, u) := by
  induction paths generalizing t with
  | nil => exact ⟨t, rfl⟩
  | cons path paths ih =>
    obtain ⟨hpath, hpaths⟩ := List.pairwise_cons.mp h
    rw [FileTree.sweep]
    cases hread : t.readText path with
    | error c =>
      by_cases hc : c.kind = .notFound
      · obtain ⟨u, hrun⟩ := ih hpaths
        refine ⟨u, ?_⟩
        rw [run_cons_ok (Stripper.run_stripFile_missing hread hc), hrun]
        simp only [if_pos hc]
        rfl
      · refine ⟨t, ?_⟩
        rw [run_cons_error (Stripper.run_stripFile_unread hread hc)]
        simp only [if_neg hc]
        rfl
    | ok x =>
      obtain ⟨l, hf, hl⟩ := FileTree.readText_eq_ok_iff.mp hread
      obtain ⟨t', hstrip, hrewrites⟩ := p.stripper.run_stripFile_found hf hl
      -- The files behind this one are still what they were, so the sweep of them is the same.
      have hrest : t'.sweep paths = t.sweep paths := FileTree.sweep_congr fun q hq =>
        hrewrites.readText_of_not_sameFile hf hl (hpath q hq)
      obtain ⟨u, hrun⟩ := ih (hpaths.imp fun hne => mt hrewrites.alike.sameFile_iff.mp hne)
      refine ⟨u, ?_⟩
      rw [run_cons_ok hstrip, hrun, hrest]
      rfl

theorem run_dry_tree (p : Project) (t : FileTree) (paths : List Path) :
    (p.run true paths : StateM FileTree Run).run t =
      (((t.sweep paths).run p.stripper).unwritten, t) := by
  rw [p.run_dry, StateT.run_map, t.run_sweep]
  rfl

/-- Over different files a dry run changes nothing and comes to what the run itself comes to: the
same visits and totals, but that nothing was written, and the same failure at the same path. -/
theorem run_dry_foretells (p : Project) (t : FileTree) (paths : List Path)
    (h : paths.Pairwise fun q q' => ¬ t.SameFile q q') :
    ∃ r u, (p.run false paths : StateM FileTree Run).run t = (r, u) ∧
      (p.run true paths : StateM FileTree Run).run t = (r.unwritten, t) ∧
      r.unwritten.tally = r.tally ∧
      (∀ path n written, (path, .modified n written) ∈ r.visits → written = true) ∧
      (r.failure = none → r.visits.map (·.1) = paths) ∧
      ∀ f, r.failure = some f → ∃ path behind c,
        paths = r.visits.map (·.1) ++ path :: behind ∧ f = .unread path c := by
  obtain ⟨u, hrun⟩ := run_eq_sweep (p := p) h
  refine ⟨_, u, hrun, p.run_dry_tree t paths, Run.tally_unwritten _,
    fun _ _ _ => Sweep.written_of_mem_visits_run p.stripper _, ?_, ?_⟩
  · intro hnone
    rw [Sweep.failure_run_eq_none_iff] at hnone
    rw [Sweep.map_fst_visits_run, FileTree.texts_sweep_of_none hnone, List.map_map]
    exact List.map_id paths
  · intro f hf
    obtain ⟨⟨path, c⟩, hfailure, rfl⟩ := Option.map_eq_some_iff.mp hf
    obtain ⟨-, -, behind, hpaths⟩ := FileTree.split_of_sweep hfailure
    rw [Sweep.map_fst_visits_run]
    exact ⟨path, behind, c, hpaths, rfl⟩

def severalPaths : List Path :=
  [.ofString "c.ts", .ofString "b.ts", .ofString ".", .ofString ".."]

theorem run_dry_foretells_severalPaths :
    (severalPaths.Pairwise fun q q' => ¬ sampleTree.SameFile q q') ∧
      ∃ r u, (usual.run false severalPaths : StateM FileTree Run).run sampleTree = (r, u) ∧
        (usual.run true severalPaths : StateM FileTree Run).run sampleTree =
          (r.unwritten, sampleTree) ∧
        r = ⟨[(.ofString "c.ts", .missing), (.ofString "b.ts", .modified 1 true)],
          some (.unread (.ofString ".") .isFolder)⟩ := by
  have hplaces : severalPaths.Pairwise fun q q' => ¬ sampleTree.SamePlace q q' := by
    decide +kernel
  have hfiles : severalPaths.Pairwise fun q q' => ¬ sampleTree.SameFile q q' :=
    hplaces.imp fun hne h => hne h.samePlace
  obtain ⟨r, u, hrun, hdry, -⟩ := run_dry_foretells usual sampleTree severalPaths hfiles
  refine ⟨hfiles, r, u, hrun, hdry, ?_⟩
  have hr : _ = r := congrArg Prod.fst hrun
  exact hr.symm.trans (by decide +kernel)

end Project

end CallStrip

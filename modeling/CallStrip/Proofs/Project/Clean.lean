import CallStrip.Program
import CallStrip.Proofs.Project.Effect
import CallStrip.Proofs.Project.Opening

/-!
After a run. The files that a run has visited are clean: a survey finds nothing in them, and another
run writes nothing. Both work on the same targets as long as the run does not rewrite the settings
that name them.
-/

namespace CallStrip

def Stripper.CleanIn (p : Stripper) (t : FileTree) (path : Path) : Prop :=
  t.misses path = true ∨ ∃ x, t.readText path = .ok x ∧ p.strip x = .unchanged x

theorem Stripper.Rewrites.cleanIn {p : Stripper} {t u : FileTree} {paths : List Path}
    (h : p.Rewrites t (t.visited paths) u) (hfits : ∀ path ∈ paths, t.Fits path) :
    ∀ path ∈ paths, p.CleanIn u path := by
  intro path hpath
  rcases FileTree.fits_iff.mp (hfits path hpath) with hmiss | ⟨x, hx⟩
  · exact .inl ((h.alike.misses path).trans hmiss)
  · obtain ⟨l, hf, -⟩ := FileTree.readText_eq_ok_iff.mp hx
    obtain ⟨y, -, hy⟩ := h.inside l (FileTree.mem_visited.mpr ⟨path, hpath, hf⟩)
    have hread := FileTree.readText_eq_ok_iff.mpr ⟨l, (h.alike.find path).trans hf, hy⟩
    exact .inr ⟨_, hread, p.strip_content y⟩

namespace Project

variable {p : Project} {t : FileTree} {paths : List Path}

def restingVisit (t : FileTree) (path : Path) : Visit :=
  if t.misses path then .missing else .unchanged

def restingRun (t : FileTree) (paths : List Path) : Run :=
  ⟨paths.map fun path => (path, restingVisit t path), none⟩

theorem run_of_clean (h : ∀ path ∈ paths, p.stripper.CleanIn t path) :
    (p.run false paths : StateM FileTree _).run t = (restingRun t paths, t) := by
  induction paths with
  | nil => rfl
  | cons path paths ih =>
    obtain ⟨hpath, hpaths⟩ := List.forall_mem_cons.mp h
    have hvisit : (p.stripper.stripFile false path : Action (StateM FileTree) Visit).run.run t =
        (.ok (restingVisit t path), t) := by
      rcases hpath with hmiss | ⟨x, hx, hstrip⟩
      · obtain ⟨c, hc, hkind⟩ := FileTree.misses_iff.mp hmiss
        rw [restingVisit, if_pos hmiss, Stripper.run_stripFile_missing hc hkind]
      · have hchanged : (p.stripper.strip x).changed = false := by rw [hstrip]; rfl
        rw [restingVisit, FileTree.misses_eq_false hx,
          Stripper.run_stripFile_unchanged hx hchanged]
        rfl
    rw [run_cons_ok hvisit, ih hpaths]
    rfl

theorem tally_restingRun (t : FileTree) (paths : List Path) :
    (restingRun t paths).tally = ⟨paths.length, 0, paths.countP t.misses, 0⟩ := by
  rw [Run.tally, restingRun, List.map_map]
  induction paths with
  | nil => rfl
  | cons path paths ih =>
    rw [List.map_cons, Tally.ofVisits_cons, ih]
    by_cases hmiss : t.misses path = true
    · rw [List.countP_cons_of_pos hmiss]
      simp [restingVisit, hmiss, Tally.record]
    · rw [List.countP_cons_of_neg hmiss]
      simp [restingVisit, hmiss, Tally.record]

theorem survey_of_clean (h : ∀ path ∈ paths, p.stripper.CleanIn t path) :
    (p.survey paths : StateM FileTree _).run t = (⟨[], none⟩, t) := by
  induction paths with
  | nil => rfl
  | cons path paths ih =>
    obtain ⟨hpath, hpaths⟩ := List.forall_mem_cons.mp h
    rw [survey, run_bind (Disk.run_readText t path)]
    rcases hpath with hmiss | ⟨x, hx, hstrip⟩
    · obtain ⟨c, hc, hkind⟩ := FileTree.misses_iff.mp hmiss
      simp only [hc, if_pos hkind]
      exact ih hpaths
    · have hfindings : p.stripper.findings path x = [] := by
        rw [Stripper.findings, hstrip]
        rfl
      simp only [hx]
      rw [run_bind (ih hpaths), hfindings]
      rfl

end Project

def FileTree.SamePlace (t : FileTree) (path path' : Path) : Prop :=
  ∃ l, t.find path = .ok l ∧ t.find path' = .ok l

instance {t : FileTree} {path path' : Path} : Decidable (t.SamePlace path path') :=
  match h : t.find path with
  | .ok l => decidable_of_iff (t.find path' = .ok l) (by simp [FileTree.SamePlace, h])
  | .error _ => .isFalse (by simp [FileTree.SamePlace, h])

def Outcome.result? {α : Type} : Outcome α → Option α
  | .finished _ a => some a
  | _ => none

namespace Scope

variable {s : Scope} {root : Path} {t u : FileTree} {p : Project} {paths : List Path}

/-- No target of a scope leads to the file that keeps the settings. -/
def SparesSettings (s : Scope) (root : Path) (t : FileTree) : Prop :=
  ∀ paths ∈ ((s.targets root : StateM FileTree _).run t).1.result?,
    ∀ path ∈ paths, ¬ t.SamePlace path (SettingsFile.pathFor root)

instance : Decidable (s.SparesSettings root t) :=
  inferInstanceAs (Decidable (∀ paths ∈ _, ∀ path ∈ paths, ¬ _))

theorem run_perform {α : Type} {work : Project → List Path → StateM FileTree α}
    {o : Outcome (List Path)} (h : (s.targets root : StateM FileTree _).run t = (o, t)) :
    (s.perform root work).run t = (o.proceed work).run t := by
  rw [perform_eq, run_bind h]

theorem run_perform_finished {α : Type} {work : Project → List Path → StateM FileTree α} {a : α}
    (h : (s.targets root : StateM FileTree _).run t = (.finished p paths, t))
    (hwork : (work p paths).run t = (a, u)) : (s.perform root work).run t = (.finished p a, u) := by
  rw [run_perform h, Outcome.proceed, StateT.run_map, hwork]
  rfl

theorem targets_of_rewrites
    (ht : (s.targets root : StateM FileTree _).run t = (.finished p paths, t))
    (hspares : s.SparesSettings root t) (hr : p.stripper.Rewrites t (t.visited paths) u) :
    (s.targets root : StateM FileTree _).run u = (.finished p paths, u) := by
  have hsettings :
      u.readText (SettingsFile.pathFor root) = t.readText (SettingsFile.pathFor root) := by
    refine hr.alike.readText_of_get? fun l hl => hr.outside l fun hvisited => ?_
    obtain ⟨path, hpath, hf⟩ := FileTree.mem_visited.mp hvisited
    exact hspares paths (by rw [ht]; rfl) path hpath ⟨l, hf, hl⟩
  obtain ⟨o, ht', hu⟩ := s.sameIn_targets root hr.alike hsettings
  rw [ht] at ht'
  cases ht'
  exact hu

end Scope

namespace Program

variable {i : Ink} {root : Path} {s : Scope} {t : FileTree}

theorem failure_of_succeeded {dry : Bool} {p : Project} {r : Run}
    (h : (stripped i dry (.finished p r)).succeeded = true) : r.failure = none := by
  cases hfailure : r.failure with
  | none => rfl
  | some f => simp [stripped, hfailure, Transcript.failed, Transcript.succeeded] at h

theorem run_strip {o : Outcome Run} {u : FileTree}
    (h : (s.strip root false : StateM FileTree _).run t = (o, u)) :
    (strip i root s false : StateM FileTree _).run t = (stripped i false o, u) :=
  run_bind h

theorem exists_rewrites_of_strip
    (h : ((strip i root s false : StateM FileTree _).run t).1.succeeded = true) :
    ∃ p paths u,
      (s.targets root : StateM FileTree _).run t = (.finished p paths, t) ∧
      ((strip i root s false : StateM FileTree _).run t).2 = u ∧
      (∀ path ∈ paths, t.Fits path) ∧ p.stripper.Rewrites t (t.visited paths) u := by
  obtain ⟨o, ht, -⟩ := s.sameIn_targets root (FileTree.Alike.refl t) rfl
  cases o with
  | unopened c =>
    rw [run_strip (Scope.run_perform ht)] at h
    cases h
  | unresolved p c =>
    rw [run_strip (Scope.run_perform ht)] at h
    cases h
  | finished p paths =>
    have hstrip := run_strip (i := i) (Scope.run_perform_finished ht rfl)
    rw [hstrip] at h
    have hfailure := failure_of_succeeded h
    obtain ⟨r, u, hrun, -, hpaths, hvisits⟩ := Project.exists_visits_of_run hfailure
    refine ⟨p, paths, u, ht, ?_, Project.fits_of_run hfailure, hpaths ▸ hvisits.rewrites⟩
    rw [hstrip]
    exact congrArg Prod.snd hrun

/-- After a run that succeeds, unless it has rewritten the settings, the targets are the same, a
survey of them finds nothing, and another run modifies nothing. -/
theorem check_after_strip (i : Ink) (root : Path) (s : Scope) (t : FileTree)
    (h : ((strip i root s false : StateM FileTree _).run t).1.succeeded = true)
    (hspares : s.SparesSettings root t) :
    ∃ p paths u r,
      ((strip i root s false : StateM FileTree _).run t).2 = u ∧
      (s.targets root : StateM FileTree _).run t = (.finished p paths, t) ∧
      (s.targets root : StateM FileTree _).run u = (.finished p paths, u) ∧
      (check i root s : StateM FileTree _).run u =
        (.done (Report.surveyOpening i p.stripper.markers.target ++
          Report.nothingFound i p.stripper.markers.target), u) ∧
      (strip i root s false : StateM FileTree _).run u =
        (stripped i false (.finished p r), u) ∧
      r.failure = none ∧ r.tally = ⟨paths.length, 0, paths.countP t.misses, 0⟩ := by
  obtain ⟨p, paths, u, ht, htree, hfits, hrewrites⟩ := exists_rewrites_of_strip h
  have hclean := hrewrites.cleanIn hfits
  have hu := Scope.targets_of_rewrites ht hspares hrewrites
  have hsurvey : (s.survey root : StateM FileTree _).run u = (.finished p ⟨[], none⟩, u) :=
    Scope.run_perform_finished hu (Project.survey_of_clean hclean)
  have hstrip : (s.strip root false : StateM FileTree _).run u =
      (.finished p (Project.restingRun u paths), u) :=
    Scope.run_perform_finished hu (Project.run_of_clean hclean)
  have hcheck : (check i root s : StateM FileTree _).run u =
      (checked i (.finished p ⟨[], none⟩), u) := run_bind hsurvey
  have hmisses : u.misses = t.misses := funext hrewrites.alike.misses
  refine ⟨p, paths, u, _, htree, ht, hu, ?_, run_strip hstrip, rfl, ?_⟩
  · rw [hcheck]
    simp [checked]
  · rw [Project.tally_restingRun, hmisses]

def siteTree : FileTree where
  entries := [(["w"], .folder), (["w", ".logscrub"], .folder),
    (["w", ".logscrub", "config.toml"], .file (Utf8.encode (Settings.render
      { Settings.initial with files := [], guards := [], discoverRoot := "src".toList }))),
    (["w", "src"], .folder),
    (["w", "src", "a.ts"],
      .file (Utf8.encode "console.log(1);\nf();\n".toList)),
    (["w", "src", "b.ts"], .link (.ofString "a.ts"))]
  here := ["w"]
  nodup := by decide
  placed := by decide
  here_folder := by decide

def siteScope : Scope := ⟨.discovered, some .line⟩

theorem check_after_strip_site :
    ((strip ⟨false⟩ (.ofString ".") siteScope false : StateM FileTree _).run
      siteTree).1.succeeded = true ∧
    siteScope.SparesSettings (.ofString ".") siteTree ∧
    ∃ (p : Project) (u : FileTree),
      ((strip ⟨false⟩ (.ofString ".") siteScope false : StateM FileTree _).run siteTree).2 = u ∧
      (check ⟨false⟩ (.ofString ".") siteScope : StateM FileTree _).run u =
        (.done (Report.surveyOpening ⟨false⟩ p.stripper.markers.target ++
          Report.nothingFound ⟨false⟩ p.stripper.markers.target), u) := by
  have hsucceeded : ((strip ⟨false⟩ (.ofString ".") siteScope false : StateM FileTree _).run
      siteTree).1.succeeded = true := by decide +kernel
  have hspares : siteScope.SparesSettings (.ofString ".") siteTree := by decide +kernel
  obtain ⟨p, -, u, -, hu, -, -, hcheck, -⟩ :=
    check_after_strip ⟨false⟩ (.ofString ".") siteScope siteTree hsucceeded hspares
  exact ⟨hsucceeded, hspares, p, u, hu, hcheck⟩

end Program

end CallStrip

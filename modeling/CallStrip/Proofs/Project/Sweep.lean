import CallStrip.Proofs.Project.Effect
import CallStrip.Survey

/-!
Sweeps: files read one after the other, up to the first that cannot be read. A dry run and a survey
do nothing but to sweep the files, on every disk; they differ in what they tell about the texts.
-/

namespace CallStrip

def Visit.unwritten : Visit → Visit
  | .modified n _ => .modified n false
  | v => v

theorem Tally.record_unwritten (n : Tally) (v : Visit) : n.record v.unwritten = n.record v := by
  cases v <;> rfl

theorem Tally.ofVisits_map_unwritten (vs : List Visit) :
    ofVisits (vs.map Visit.unwritten) = ofVisits vs := by
  induction vs with
  | nil => rfl
  | cons v vs ih => rw [List.map_cons, ofVisits_cons, ofVisits_cons, ih, record_unwritten]

def Run.unwritten (r : Run) : Run := { r with visits := r.visits.map fun v => (v.1, v.2.unwritten) }

theorem Run.tally_unwritten (r : Run) : r.unwritten.tally = r.tally := by
  have hvisits : r.unwritten.visits.map (·.2) = (r.visits.map (·.2)).map Visit.unwritten := by
    simp [unwritten]
  rw [tally, hvisits, Tally.ofVisits_map_unwritten, tally]

theorem Run.map_fst_unwritten (r : Run) : r.unwritten.visits.map (·.1) = r.visits.map (·.1) := by
  simp [unwritten]

def Failure.unread (path : Path) (c : IoCause) : Failure :=
  .io ((IoError.ofCause c).within ("Failed to read ".toList ++ path.text))

/-- The paths whose files were read, each with its text unless it is missing, and the file that
could not be read. -/
structure Sweep where
  texts : List (Path × Option Text)
  failure : Option (Path × IoCause)
  deriving DecidableEq, Repr

namespace Sweep

def add (x : Path × Option Text) (w : Sweep) : Sweep := { w with texts := x :: w.texts }

def run (p : Stripper) (w : Sweep) : Run where
  visits := w.texts.map fun x => (x.1, x.2.elim .missing p.visit)
  failure := w.failure.map fun x => .unread x.1 x.2

def survey (p : Stripper) (w : Sweep) : Survey where
  findings := w.texts.flatMap fun x => x.2.elim [] (p.findings x.1)
  failure := w.failure

end Sweep

section AnyDisk

variable {m : Type → Type} [Monad m] [Disk m]

def Disk.sweep : List Path → m Sweep
  | [] => return ⟨[], none⟩
  | path :: paths => do
    match ← Disk.readText path with
    | .error c =>
      if c.kind = .notFound then return (← sweep paths).add (path, none)
      else return ⟨[], some (path, c)⟩
    | .ok x => return (← sweep paths).add (path, some x)

variable [LawfulMonad m]

theorem Project.run_dry (p : Project) (paths : List Path) :
    (p.run true paths : m Run) = (fun w => (w.run p.stripper).unwritten) <$> Disk.sweep paths := by
  induction paths with
  | nil => simp [run, Disk.sweep, Sweep.run, Run.unwritten]
  | cons path paths ih =>
    simp only [run, Disk.sweep, Stripper.stripFile, ExceptT.run_mk, map_bind, bind_assoc]
    refine bind_congr fun r => ?_
    cases r with
    | error c =>
      by_cases hc : c.kind = .notFound <;>
        simp [hc, ih, Sweep.run, Sweep.add, Run.unwritten, Visit.unwritten, Failure.unread]
    | ok x =>
      cases hx : (p.stripper.strip x).changed <;>
        simp [hx, ih, Sweep.run, Sweep.add, Run.unwritten, Stripper.visit, Visit.unwritten]

theorem Project.survey_eq (p : Project) (paths : List Path) :
    (p.survey paths : m Survey) = Sweep.survey p.stripper <$> Disk.sweep paths := by
  induction paths with
  | nil => simp [survey, Disk.sweep, Sweep.survey]
  | cons path paths ih =>
    simp only [survey, Disk.sweep, map_bind]
    refine bind_congr fun r => ?_
    cases r with
    | error c =>
      by_cases hc : c.kind = .notFound
      · simp only [hc, if_true, ih, map_bind, map_pure]
        exact map_eq_pure_bind _ _
      · simp [hc, Sweep.survey]
    | ok x => simp [ih, Sweep.survey, Sweep.add]

end AnyDisk

namespace Stripper

variable {p : Stripper} {path : Path} {x : Text}

theorem sum_lineCount_spans (p : Stripper) (x : Text) :
    ((p.strip x).spans.map Span.lineCount).sum = (p.strip x).removed := by
  obtain ⟨spans, -, hr⟩ := p.exists_segmented x
  rw [hr]
  rfl

theorem spans_eq_nil_iff : (p.strip x).spans = [] ↔ (p.strip x).changed = false := by
  have hsum := p.sum_lineCount_spans x
  rw [Stripped.changed, decide_eq_false_iff_not, ← hsum]
  cases (p.strip x).spans with
  | nil => simp
  | cons s spans => simp [Span.lineCount]

theorem sum_lineCount_findings (p : Stripper) (path : Path) (x : Text) :
    ((p.findings path x).map fun f => f.span.lineCount).sum = (p.strip x).removed := by
  rw [← sum_lineCount_spans, findings, List.map_map]
  rfl

theorem findings_eq_nil_iff : p.findings path x = [] ↔ (p.strip x).changed = false := by
  rw [← spans_eq_nil_iff, findings, List.map_eq_nil_iff]

end Stripper

namespace Sweep

variable (p : Stripper) (w : Sweep)

theorem failure_run_eq_none_iff : (w.run p).failure = none ↔ w.failure = none := by
  simp [run]

theorem failure_run_eq_some {path : Path} {c : IoCause} (h : w.failure = some (path, c)) :
    (w.run p).failure = some (.unread path c) := by
  rw [run, h, Option.map_some]

theorem map_fst_visits_run : (w.run p).visits.map (·.1) = w.texts.map (·.1) := by
  simp [run]

theorem written_of_mem_visits_run {path : Path} {n : Nat} {written : Bool}
    (h : (path, .modified n written) ∈ (w.run p).visits) : written = true := by
  obtain ⟨⟨path', x⟩, -, he⟩ := List.mem_map.mp h
  cases x with
  | none => simp at he
  | some x =>
    simp only [Option.elim_some, Stripper.visit] at he
    split at he
    · cases he
      rfl
    · simp at he

theorem sum_lineCount_survey :
    ((w.survey p).findings.map fun f => f.span.lineCount).sum = (w.run p).tally.removed := by
  obtain ⟨texts, failure⟩ := w
  rw [survey, run, Run.tally]
  induction texts with
  | nil => rfl
  | cons x texts ih =>
    rw [List.flatMap_cons, List.map_append, List.sum_append, ih, List.map_cons, List.map_cons,
      Tally.ofVisits_cons, Tally.removed_record, Nat.add_comm]
    congr 1
    cases x.2 with
    | none => rfl
    | some y => simp [p.removed_visit, p.sum_lineCount_findings]

theorem modified_run_eq_zero_iff :
    (w.run p).tally.modified = 0 ↔ (w.survey p).findings = [] := by
  obtain ⟨texts, failure⟩ := w
  rw [survey, run, Run.tally]
  induction texts with
  | nil => simp [Tally.ofVisits, Tally.zero]
  | cons x texts ih =>
    rw [List.flatMap_cons, List.append_eq_nil_iff, ← ih, List.map_cons, List.map_cons,
      Tally.ofVisits_cons]
    obtain ⟨path, y⟩ := x
    cases y with
    | none => simp [Tally.record]
    | some y =>
      simp only [Option.elim_some, p.modified_record_visit, Stripper.findings_eq_nil_iff,
        Stripper.changed_eq_false_iff]
      split <;> simp [*]

end Sweep

namespace FileTree

variable {t u : FileTree} {paths : List Path}

def sweep (t : FileTree) : List Path → Sweep
  | [] => ⟨[], none⟩
  | path :: paths =>
    match t.readText path with
    | .error c =>
      if c.kind = .notFound then (t.sweep paths).add (path, none) else ⟨[], some (path, c)⟩
    | .ok x => (t.sweep paths).add (path, some x)

theorem run_sweep (t : FileTree) (paths : List Path) :
    (Disk.sweep paths : StateM FileTree Sweep).run t = (t.sweep paths, t) := by
  induction paths with
  | nil => rfl
  | cons path paths ih =>
    rw [Disk.sweep, run_bind (Disk.run_readText t path), sweep]
    cases t.readText path with
    | error c =>
      by_cases hc : c.kind = .notFound
      · simp only [if_pos hc]
        exact run_bind ih
      · simp only [if_neg hc]
        rfl
    | ok x => exact run_bind ih

theorem sweep_congr (h : ∀ path ∈ paths, u.readText path = t.readText path) :
    u.sweep paths = t.sweep paths := by
  induction paths with
  | nil => rfl
  | cons path paths ih =>
    obtain ⟨hpath, hpaths⟩ := List.forall_mem_cons.mp h
    rw [sweep, sweep, hpath, ih hpaths]

theorem texts_sweep_of_none (h : (t.sweep paths).failure = none) :
    (t.sweep paths).texts = paths.map fun path => (path, (t.readText path).toOption) := by
  induction paths with
  | nil => rfl
  | cons path paths ih =>
    rw [sweep] at h ⊢
    cases hread : t.readText path with
    | error c =>
      simp only [hread] at h ⊢
      by_cases hc : c.kind = .notFound
      · simp only [if_pos hc] at h ⊢
        simp [Sweep.add, ih h, hread, Except.toOption]
      · simp only [if_neg hc] at h
        cases h
    | ok x =>
      simp only [hread] at h ⊢
      simp [Sweep.add, ih h, hread, Except.toOption]

theorem split_of_sweep {path : Path} {c : IoCause}
    (h : (t.sweep paths).failure = some (path, c)) :
    t.readText path = .error c ∧ c.kind ≠ .notFound ∧
      ∃ behind, paths = (t.sweep paths).texts.map (·.1) ++ path :: behind := by
  induction paths with
  | nil => cases h
  | cons path' paths ih =>
    rw [sweep] at h ⊢
    cases hread : t.readText path' with
    | error c' =>
      simp only [hread] at h ⊢
      by_cases hc : c'.kind = .notFound
      · simp only [if_pos hc] at h ⊢
        obtain ⟨herror, hkind, behind, hpaths⟩ := ih h
        exact ⟨herror, hkind, behind, congrArg (path' :: ·) hpaths⟩
      · simp only [if_neg hc] at h ⊢
        cases h
        exact ⟨hread, hc, paths, rfl⟩
    | ok x =>
      simp only [hread] at h ⊢
      obtain ⟨herror, hkind, behind, hpaths⟩ := ih h
      exact ⟨herror, hkind, behind, congrArg (path' :: ·) hpaths⟩

end FileTree

end CallStrip

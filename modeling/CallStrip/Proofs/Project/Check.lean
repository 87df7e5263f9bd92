import CallStrip.Proofs.Project.Clean
import CallStrip.Proofs.Project.Printed
import CallStrip.Proofs.Project.Sweep

/-!
Checks and dry runs. Both open the same project, resolve the same targets and sweep them, so one
fails where the other does, and otherwise a check finds what a dry run would remove.
-/

namespace CallStrip

def Complaint.OfFault (c : Complaint) : Prop := ∀ told, c.origin ≠ .remark told

def Stripper.spansIn (p : Stripper) (t : FileTree) (path : Path) : List Span :=
  (t.readText path).toOption.elim [] fun x => (p.strip x).spans

theorem FileTree.spans_findings_sweep {t : FileTree} {paths : List Path}
    (h : (t.sweep paths).failure = none) (p : Stripper) :
    ((t.sweep paths).survey p).findings.map (fun f => (f.path, f.span)) =
      paths.flatMap fun path => (p.spansIn t path).map (path, ·) := by
  rw [Sweep.survey, texts_sweep_of_none h, List.flatMap_map, List.map_flatMap]
  refine congrArg (paths.flatMap ·) (funext fun path => ?_)
  rw [Stripper.spansIn]
  cases (t.readText path).toOption with
  | none => rfl
  | some x => simp [Stripper.findings]

namespace Outcome

variable {α β : Type}

def map (f : Project → α → β) : Outcome α → Outcome β
  | .unopened c => .unopened c
  | .unresolved p c => .unresolved p c
  | .finished p a => .finished p (f p a)

def Explained : Outcome α → Prop
  | .unopened c | .unresolved _ c => c.OfFault
  | .finished _ _ => True

theorem run_proceed {t : FileTree} {work : Project → α → StateM FileTree β} {f : Project → α → β}
    (h : ∀ p a, (work p a).run t = (f p a, t)) (o : Outcome α) :
    (o.proceed work).run t = (o.map f, t) := by
  cases o with
  | unopened c => rfl
  | unresolved p c => rfl
  | finished p a =>
    rw [proceed, StateT.run_map, h]
    rfl

end Outcome

namespace Scope

variable {s : Scope} {root : Path} {t : FileTree} {o : Outcome (List Path)}

theorem explained_targets (s : Scope) (root : Path) (t : FileTree) :
    ((s.targets root : StateM FileTree _).run t).1.Explained := by
  rw [targets, perform, Project.openAt, bind_assoc]
  cases hload : (Project.load root : Action (StateM FileTree) Project).run.run t with
  | mk r u =>
    rw [run_bind hload]
    cases r with
    | error f =>
      intro told h
      cases h
    | ok p =>
      dsimp only
      rw [pure_bind]
      dsimp only
      cases htargets : (((s.rule.map p.withRule).getD p).targets s.selection :
          Action (StateM FileTree) (List Path)).run.run u with
      | mk r v =>
        rw [run_bind htargets]
        cases r with
        | error f =>
          intro told h
          cases h
        | ok paths => trivial

theorem run_strip_dry (h : (s.targets root : StateM FileTree _).run t = (o, t)) :
    (s.strip root true : StateM FileTree _).run t =
      (o.map fun p paths => ((t.sweep paths).run p.stripper).unwritten, t) := by
  refine (run_perform h).trans (Outcome.run_proceed (fun p paths => ?_) o)
  rw [p.run_dry, StateT.run_map, t.run_sweep]
  rfl

theorem run_survey (h : (s.targets root : StateM FileTree _).run t = (o, t)) :
    (s.survey root : StateM FileTree _).run t =
      (o.map fun p paths => (t.sweep paths).survey p.stripper, t) := by
  refine (run_perform h).trans (Outcome.run_proceed (fun p paths => ?_) o)
  rw [p.survey_eq, StateT.run_map, t.run_sweep]
  rfl

end Scope

namespace Program

variable {i : Ink} {t : FileTree} {p : Project} {r : Run} {y : Survey} {path : Path} {c : IoCause}

theorem complaint_stripped (i : Ink) (dry : Bool) (p : Project) (r : Run) :
    (stripped i dry (.finished p r)).complaint = r.failure.map .ofFailure := by
  cases h : r.failure <;> simp [stripped, h, Transcript.failed, Transcript.done]

theorem succeeded_stripped_iff {dry : Bool} :
    (stripped i dry (.finished p r)).succeeded = true ↔ r.failure = none := by
  rw [Transcript.succeeded, complaint_stripped, Option.isNone_map, Option.isNone_iff_eq_none]

theorem complaint_checked_unread (h : y.failure = some (path, c)) :
    (checked i (.finished p y)).complaint =
      some ⟨["Failed to read ".toList ++ path.text], .io c⟩ := by
  simp [checked, h, Transcript.failed, Text.concat]

theorem complaint_checked_read (h : y.failure = none) :
    (checked i (.finished p y)).complaint =
      if y.findings = [] then none
      else some ⟨[], .remark (Text.ofNat y.findings.length ++ ' ' :: p.stripper.markers.target ++
        " statement(s) remaining".toList)⟩ := by
  by_cases hy : y.findings = [] <;>
    simp [checked, h, hy, Transcript.failed, Transcript.done, Complaint.remark, Report.remaining,
      Text.concat]

/-- A check of some targets in a tree comes out as a dry run over them does. -/
structure Concurs (i : Ink) (t : FileTree) (targets : Outcome (List Path)) (dry : Outcome Run)
    (found : Outcome Survey) : Prop where
  succeeded : (checked i found).succeeded = true ↔
    (stripped i true dry).succeeded = true ∧ ∃ p r, dry = .finished p r ∧ r.tally.modified = 0
  remaining : (∃ told, (checked i found).complaint = some (.remark told)) ↔
    (stripped i true dry).succeeded = true ∧ ∃ p r, dry = .finished p r ∧ 0 < r.tally.modified
  counted : (stripped i true dry).succeeded = true → ∃ p paths r y,
    targets = .finished p paths ∧ dry = .finished p r ∧ found = .finished p y ∧
      (0 < r.tally.modified → (checked i found).complaint = some ⟨[], .remark
        (Text.ofNat (paths.map fun path => (p.stripper.spansIn t path).length).sum ++
          ' ' :: p.stripper.markers.target ++ " statement(s) remaining".toList)⟩) ∧
      y.findings.map (fun f => (f.path, f.span)) =
        (paths.flatMap fun path => (p.stripper.spansIn t path).map (path, ·)) ∧
      (y.findings.map fun f => f.span.last - f.span.first + 1).sum = r.tally.removed
  printed : ∀ p y, found = .finished p y →
    (checked i found).out = y.told i p.stripper.markers.target
  failed : (∃ c, (checked i found).complaint = some c ∧ c.OfFault) ↔
    (stripped i true dry).succeeded = false
  unopened : ∀ c, found = .unopened c ↔ dry = .unopened c
  unresolved : ∀ p c, found = .unresolved p c ↔ dry = .unresolved p c
  unread : ∀ p, (∃ y x, found = .finished p y ∧ y.failure = some x) ↔
    ∃ r f, dry = .finished p r ∧ r.failure = some f
  stopped : ∀ p r f, dry = .finished p r → r.failure = some f → ∃ path c behind y,
    f = .io ⟨["Failed to read ".toList ++ path.text], c⟩ ∧ t.readText path = .error c ∧
      targets = .finished p (r.visits.map (·.1) ++ path :: behind) ∧
      found = .finished p y ∧ y.failure = some (path, c) ∧
      (checked i found).complaint = some ⟨["Failed to read ".toList ++ path.text], .io c⟩

section Sweep

variable {paths : List Path}

theorem concurs_of_unread (h : (t.sweep paths).failure = some (path, c)) :
    Concurs i t (.finished p paths) (.finished p ((t.sweep paths).run p.stripper).unwritten)
      (.finished p ((t.sweep paths).survey p.stripper)) := by
  have hrun : ((t.sweep paths).run p.stripper).unwritten.failure = some (.unread path c) :=
    Sweep.failure_run_eq_some p.stripper _ h
  have hsurvey : ((t.sweep paths).survey p.stripper).failure = some (path, c) := h
  have hfault : (stripped i true
      (.finished p ((t.sweep paths).run p.stripper).unwritten)).succeeded = false := by
    rw [← Bool.not_eq_true, succeeded_stripped_iff, hrun]
    exact Option.some_ne_none _
  have hcomplaint := complaint_checked_unread (i := i) (p := p) hsurvey
  have hfailed :
      (checked i (.finished p ((t.sweep paths).survey p.stripper))).succeeded = false := by
    rw [Transcript.succeeded, hcomplaint]
    rfl
  constructor
  case succeeded => simp [hfault, hfailed]
  case remaining => simp [hfault, hcomplaint, Complaint.remark]
  case counted => simp [hfault]
  case failed => simp [hfault, hcomplaint, Complaint.OfFault]
  case unopened => simp
  case unresolved => simp
  case printed =>
    rintro p' y heq
    obtain ⟨rfl, rfl⟩ := Outcome.finished.inj heq
    exact out_checked i p _
  case unread => simp [hrun, hsurvey]
  case stopped =>
    intro p' r f heq hf
    obtain ⟨rfl, rfl⟩ := Outcome.finished.inj heq
    obtain ⟨hread, -, behind, hpaths⟩ := FileTree.split_of_sweep h
    rw [hrun] at hf
    refine ⟨path, c, behind, _, (Option.some.inj hf).symm, hread, ?_, rfl, h, hcomplaint⟩
    rw [Run.map_fst_unwritten, Sweep.map_fst_visits_run, ← hpaths]

theorem concurs_of_read (h : (t.sweep paths).failure = none) :
    Concurs i t (.finished p paths) (.finished p ((t.sweep paths).run p.stripper).unwritten)
      (.finished p ((t.sweep paths).survey p.stripper)) := by
  have hrun : ((t.sweep paths).run p.stripper).unwritten.failure = none :=
    (Sweep.failure_run_eq_none_iff p.stripper _).mpr h
  have hsurvey : ((t.sweep paths).survey p.stripper).failure = none := h
  have hdone : (stripped i true
      (.finished p ((t.sweep paths).run p.stripper).unwritten)).succeeded = true :=
    succeeded_stripped_iff.mpr hrun
  have hcomplaint := complaint_checked_read (i := i) (p := p) hsurvey
  have htally := Run.tally_unwritten ((t.sweep paths).run p.stripper)
  have hnone := (t.sweep paths).modified_run_eq_zero_iff p.stripper
  rw [← htally] at hnone
  have hclean : (checked i (.finished p ((t.sweep paths).survey p.stripper))).succeeded = true ↔
      ((t.sweep paths).survey p.stripper).findings = [] := by
    rw [Transcript.succeeded, hcomplaint]
    split <;> simp [*]
  constructor
  case succeeded => simp [hclean, hdone, hnone]
  case remaining =>
    by_cases hy : ((t.sweep paths).survey p.stripper).findings = [] <;>
      simp [hdone, hcomplaint, Nat.pos_iff_ne_zero, hnone, hy, Complaint.remark]
  case counted =>
    have hspans := FileTree.spans_findings_sweep h p.stripper
    refine fun _ => ⟨p, paths, _, _, rfl, rfl, rfl, fun hpos => ?_, hspans, ?_⟩
    · have hlength := congrArg List.length hspans
      rw [List.length_map, List.length_flatMap] at hlength
      rw [hcomplaint, if_neg (mt hnone.mpr (Nat.pos_iff_ne_zero.mp hpos)), hlength]
      simp only [List.length_map]
    · rw [htally]
      exact (t.sweep paths).sum_lineCount_survey p.stripper
  case printed =>
    rintro p' y heq
    obtain ⟨rfl, rfl⟩ := Outcome.finished.inj heq
    exact out_checked i p _
  case failed =>
    by_cases hy : ((t.sweep paths).survey p.stripper).findings = [] <;>
      simp [hdone, hcomplaint, hy, Complaint.OfFault]
  case unopened => simp
  case unresolved => simp
  case unread => simp [hrun, hsurvey]
  case stopped =>
    intro p' r f heq hf
    obtain ⟨rfl, rfl⟩ := Outcome.finished.inj heq
    rw [hrun] at hf
    cases hf

end Sweep

theorem concurs_of_explained {o : Outcome (List Path)} (h : o.Explained) :
    Concurs i t o (o.map fun p paths => ((t.sweep paths).run p.stripper).unwritten)
      (o.map fun p paths => (t.sweep paths).survey p.stripper) := by
  cases o with
  | finished p paths =>
    cases hfailure : (t.sweep paths).failure with
    | none => exact concurs_of_read hfailure
    | some x =>
      obtain ⟨path, c⟩ := x
      exact concurs_of_unread hfailure
  | unopened c | unresolved p c =>
    have hremark : ∀ told, c ≠ .remark told := fun told hc => h told (hc ▸ rfl)
    have hfault : c.OfFault := h
    constructor <;>
      simp [Outcome.map, checked, stripped, Transcript.failed, Transcript.succeeded, hremark,
        hfault]

/-- A check and a dry run of one scope change nothing, and one comes out as the other does. -/
theorem check_concurs (i : Ink) (root : Path) (s : Scope) (t : FileTree) :
    ∃ targets dry found,
      (s.targets root : StateM FileTree _).run t = (targets, t) ∧
      (s.strip root true : StateM FileTree _).run t = (dry, t) ∧
      (s.survey root : StateM FileTree _).run t = (found, t) ∧
      (strip i root s true : StateM FileTree _).run t = (stripped i true dry, t) ∧
      (check i root s : StateM FileTree _).run t = (checked i found, t) ∧
      Concurs i t targets dry found := by
  obtain ⟨o, ht, -⟩ := s.sameIn_targets root (FileTree.Alike.refl t) rfl
  have hexplained := s.explained_targets root t
  rw [ht] at hexplained
  have hdry := Scope.run_strip_dry ht
  have hfound := Scope.run_survey ht
  exact ⟨o, _, _, ht, hdry, hfound, run_bind hdry, run_bind hfound,
    concurs_of_explained hexplained⟩

def calledTree : FileTree where
  entries := [(["w"], .folder),
    (["w", "a.ts"], .file (Utf8.encode "console.log(\n  1\n);\nf();\n".toList)),
    (["w", "b.ts"], .file (Utf8.encode "f();\n  console.log(2);\n".toList))]
  here := ["w"]
  nodup := by decide
  placed := by decide
  here_folder := by decide

def repeatedScope : Scope :=
  ⟨.listed [.ofString "a.ts", .ofString "gone.ts", .ofString "b.ts", .ofString "a.ts"], none⟩

def repeatedCheck : List Text :=
  ["Checking for console.log statements...", "⚠ a.ts:1-3 - console.log(",
    "⚠ b.ts:2 - console.log(2);", "⚠ a.ts:1-3 - console.log(", "",
    "Tip: Run \x60logscrub strip\x60 to remove them"]

def repeatedDryRun : List Text :=
  ["Removing console.log statements (paren rule)...", "",
    "a.ts", "  OK - Would remove 3 console.log line(s)", "gone.ts", "  MISSING - File not found",
    "b.ts", "  OK - Would remove 1 console.log line(s)",
    "a.ts", "  OK - Would remove 3 console.log line(s)", "", List.replicate 60 '=', "Summary:",
    "   Files processed: 4", "   Files modified: 3", "   Files missing: 1",
    "   Total console.log lines removed: 7", List.replicate 60 '=', "",
    "Dry run: no files were written"]

theorem check_concurs_repeated :
    (check ⟨false⟩ (.ofString ".") repeatedScope : StateM FileTree _).run calledTree =
      (⟨repeatedCheck.flatMap (· ++ ['\n']),
        some ⟨[], .remark "3 console.log statement(s) remaining".toList⟩⟩, calledTree) ∧
    (strip ⟨false⟩ (.ofString ".") repeatedScope true : StateM FileTree _).run calledTree =
      (⟨repeatedDryRun.flatMap (· ++ ['\n']), none⟩, calledTree) ∧
    ∃ p r, (repeatedScope.strip (.ofString ".") true : StateM FileTree _).run calledTree =
        (.finished p r, calledTree) ∧ 0 < r.tally.modified := by
  obtain ⟨targets, dry, found, -, hdry, -, hstrip, hcheck, hconcurs⟩ :=
    check_concurs ⟨false⟩ (.ofString ".") repeatedScope calledTree
  have hfound : checked ⟨false⟩ found = ⟨repeatedCheck.flatMap (· ++ ['\n']),
      some ⟨[], .remark "3 console.log statement(s) remaining".toList⟩⟩ := by
    refine (congrArg Prod.fst hcheck).symm.trans ?_
    decide +kernel
  have hstripped : stripped ⟨false⟩ true dry = ⟨repeatedDryRun.flatMap (· ++ ['\n']), none⟩ := by
    refine (congrArg Prod.fst hstrip).symm.trans ?_
    decide +kernel
  obtain ⟨-, p, r, rfl, hpos⟩ := hconcurs.remaining.mp ⟨_, congrArg Transcript.complaint hfound⟩
  exact ⟨hcheck.trans (hfound ▸ rfl), hstrip.trans (hstripped ▸ rfl), p, r, hdry, hpos⟩

end Program

end CallStrip

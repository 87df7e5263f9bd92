import CallStrip.Program
import CallStrip.Proofs.Workspace.Shape
import Mathlib.Algebra.GroupWithZero.Nat

/-!
Summaries of documents that hold a value: made exactly where the value has the shape of a workspace,
and then of what the value says.
-/

namespace CallStrip

open Json

theorem total_eq_sum {α : Type} (count : α → Nat) (xs : List α) :
    total count xs = (xs.map count).sum := by
  induction xs with
  | nil => rfl
  | cons x xs ih => rw [total, ih, List.map_cons, List.sum_cons]

theorem Workspace.departmentCount_eq (w : Workspace) :
    w.summary.departmentCount =
      ((w.groups.flatMap (·.divisions)).map (·.departments.length)).sum := by
  have hgroup (gs : List MissionGroup) : total (·.departmentCount) gs =
      ((gs.flatMap (·.divisions)).map (·.departments.length)).sum := by
    induction gs with
    | nil => rfl
    | cons g gs ih =>
      rw [total, ih, MissionGroup.departmentCount, total_eq_sum, List.flatMap_cons, List.map_append,
        List.sum_append]
  exact hgroup w.groups

namespace Summary

variable {document : Bytes} {x v : Value}

def complaint (f : Located) : Complaint :=
  (Complaint.ofFailure (.document f)).within "Failed to summarize workspace document"

theorem run_summarize_ok {s : Summary} (h : ofDocument document = .ok s) (t : FileTree) :
    (Program.summarize (pure document) : StateM FileTree Transcript).run t =
      (.done s.report, t) := by
  rw [Program.summarize, pure_bind, h]
  rfl

theorem run_summarize_error {f : Located} (h : ofDocument document = .error f) (t : FileTree) :
    (Program.summarize (pure document) : StateM FileTree Transcript).run t =
      (.failed [] (complaint f), t) := by
  rw [Program.summarize, pure_bind, h]
  rfl

theorem ofDocument_cases (hv : asWritten document = .ok v) :
    (∃ w, Workspace.DocumentOnce v ∧ Workspace.ofDocument? v.settled = some w ∧
        ofDocument document = .ok w.summary) ∨
      (Workspace.DocumentOnce v → Workspace.ofDocument? v.settled = none) ∧
        ∃ f, ofDocument document = .error f := by
  obtain ⟨w, honce, hw, hread⟩ | ⟨hnone, f, hread⟩ := Workspace.agrees_document.whole hv
  · refine .inl ⟨w, honce, hw, ?_⟩
    rw [ofDocument, Workspace.read, hread]
    rfl
  · refine .inr ⟨hnone, f, ?_⟩
    rw [ofDocument, Workspace.read, hread]
    rfl

theorem report_eq_printed (s : Summary) :
    s.report = "View Type: ".toList ++ s.viewType ++ '\n' :: "User Role: ".toList ++ s.userRole ++
      '\n' :: "Mission Groups: ".toList ++ Text.ofNat s.groupCount ++
      '\n' :: "Total Departments: ".toList ++ Text.ofNat s.departmentCount ++
      '\n' :: '\n' :: "First 3 Mission Groups:".toList ++
      '\n' :: s.leading.flatMap fun g =>
        "  - ".toList ++ g.1 ++ " (".toList ++ Text.ofNat g.2 ++ " divisions)\n".toList := by
  have hheading (behind : Text) : "First ".toList ++ (Text.ofNat Workspace.listedGroups ++
      (" Mission Groups:\n".toList ++ behind)) = "First 3 Mission Groups:".toList ++
        '\n' :: behind := rfl
  unfold report groupLine
  simp only [List.append_assoc, List.cons_append, List.nil_append, hheading]

/-- On a document with a value, where no record has a field twice, the summary counts and lists what
the value has in the shape of a workspace; where it has another shape nothing is printed. -/
theorem summarize_of_parse (document : Bytes) (x : Value) (hx : parse document = .ok x)
    (honce : ∀ v, asWritten document = .ok v → Workspace.DocumentOnce v) (t : FileTree) :
    match Workspace.ofDocument? x with
    | some w =>
      ∃ s : Summary, s = {
          viewType := w.viewType.plain
          userRole := w.userRole.plain
          groupCount := w.groups.length
          departmentCount := ((w.groups.flatMap (·.divisions)).map (·.departments.length)).sum
          leading := (w.groups.take 3).map fun g => (g.name.plain, g.divisions.length) } ∧
        ofDocument document = .ok s ∧
        (Program.summarize (pure document) : StateM FileTree Transcript).run t =
          (.done ("View Type: ".toList ++ s.viewType ++
            '\n' :: "User Role: ".toList ++ s.userRole ++
            '\n' :: "Mission Groups: ".toList ++ Text.ofNat s.groupCount ++
            '\n' :: "Total Departments: ".toList ++ Text.ofNat s.departmentCount ++
            '\n' :: '\n' :: "First 3 Mission Groups:".toList ++
            '\n' :: s.leading.flatMap fun g =>
              "  - ".toList ++ g.1 ++ " (".toList ++ Text.ofNat g.2 ++ " divisions)\n".toList), t)
    | none =>
      ∃ f, ofDocument document = .error f ∧
        (Program.summarize (pure document) : StateM FileTree Transcript).run t =
          (.failed [] (complaint f), t) := by
  obtain ⟨v, hv, rfl⟩ := parse_eq_ok hx
  obtain ⟨w, -, hw, hread⟩ | ⟨hnone, f, hread⟩ := ofDocument_cases hv
  · rw [hw]
    refine ⟨w.summary, ?_, hread, ?_⟩
    · rw [← w.departmentCount_eq]
      rfl
    · rw [run_summarize_ok hread, report_eq_printed]
  · rw [hnone (honce v hv)]
    exact ⟨f, hread, run_summarize_error hread t⟩

def fourGroups : Bytes := Utf8.encode <|
  "\x7b\"data\":[[\"grid\",null,[[\"A\",[[[1,2]],\x7b\"x\":[],\"departments\":[3]\x7d]],".toList ++
    "[\"B\",[]],[true,[]],[0,[]]]]]\x7d".toList

def fourGroupsSummary : Summary where
  viewType := "grid".toList
  userRole := "None".toList
  groupCount := 4
  departmentCount := 3
  leading := [("A".toList, 2), ("B".toList, 0), ("True".toList, 0)]

def fourGroupsReport : List Text :=
  ["View Type: grid", "User Role: None", "Mission Groups: 4", "Total Departments: 3", "",
    "First 3 Mission Groups:", "  - A (2 divisions)", "  - B (0 divisions)",
    "  - True (0 divisions)"]

theorem summarize_of_parse_fourGroups :
    ∃ x w, parse fourGroups = .ok x ∧
      (∀ v, asWritten fourGroups = .ok v → Workspace.DocumentOnce v) ∧
      Workspace.ofDocument? x = some w ∧ ofDocument fourGroups = .ok fourGroupsSummary ∧
      (Program.summarize (pure fourGroups) : StateM FileTree Transcript).run
          (.fresh "home" (by decide)) =
        (.done (fourGroupsReport.flatMap (· ++ ['\n'])), .fresh "home" (by decide)) := by
  have hshape : ((parse fourGroups).toOption.bind Workspace.ofDocument?).map Workspace.summary =
      some fourGroupsSummary := by
    decide +kernel
  have hcheck : (match asWritten fourGroups with
      | .ok v => decide (Workspace.DocumentOnce v)
      | .error _ => true) = true := by
    decide +kernel
  have hreport : fourGroupsSummary.report = fourGroupsReport.flatMap (· ++ ['\n']) := by
    decide +kernel
  have honce : ∀ v, asWritten fourGroups = .ok v → Workspace.DocumentOnce v := by
    intro v hv
    rw [hv] at hcheck
    exact of_decide_eq_true hcheck
  cases hx : parse fourGroups with
  | error f => rw [hx] at hshape; cases hshape
  | ok x =>
    rw [hx] at hshape
    obtain ⟨w, hw, hsummary⟩ := Option.map_eq_some_iff.mp hshape
    have hw : Workspace.ofDocument? x = some w := hw
    have h := summarize_of_parse fourGroups x hx honce (.fresh "home" (by decide))
    rw [hw] at h
    obtain ⟨s, hs, hread, hrun⟩ := h
    obtain rfl : s = fourGroupsSummary := by
      rw [hs, ← w.departmentCount_eq, ← hsummary]
      rfl
    refine ⟨x, w, rfl, honce, hw, hread, hrun.trans ?_⟩
    rw [← report_eq_printed]
    exact congrArg (fun told => (Transcript.done told, _)) hreport

end Summary

end CallStrip

import CallStrip.Proofs.Project.Check
import CallStrip.Proofs.Strip.Numbering

/-!
What is printed about lines by their numbers: a preview lists the lines that are removed and the
text that a run writes, and a check tells each span by its first line.
-/

namespace CallStrip

def Stripped.goneLine (i : Ink) (l : Text × Nat) : Text :=
  i.hue .red ['-'] ++ ' ' :: List.replicate (5 - (Text.ofNat l.2).length) ' ' ++ Text.ofNat l.2 ++
    ' ' :: i.hue .red l.1 ++ ['\n']

/-- What a preview with the removed lines prints of a text. -/
def Stripped.previewed (i : Ink) (path : Path) (t : Text) (r : Stripped) : Text :=
  i.paint (.heading .blue) "Logscrub Preview".toList ++ '\n' ::
    i.hue .blue "================".toList ++ '\n' :: "File: ".toList ++ path.text ++ ['\n', '\n'] ++
  if r.changed = false then i.hue .green ['✓'] ++ " Nothing to remove".toList ++ ['\n']
  else
    i.paint (.heading .red) "REMOVED LINES:".toList ++ '\n' ::
      i.hue .red "--------------".toList ++ '\n' :: (r.gone t).flatMap (goneLine i) ++
    (if ∃ s ∈ r.spans, s.unterminated = true then
      "  ".toList ++ i.hue .yellow ['⚠'] ++ " call never closed before end of file".toList ++ ['\n']
    else []) ++
    '\n' :: i.paint (.heading .yellow) "AFTER STRIPPING:".toList ++ '\n' ::
      i.hue .yellow "----------------".toList ++ '\n' :: r.content ++
    (if ['\n'] <:+ r.content then [] else ['\n']) ++
    '\n' :: Text.ofNat r.removed ++ " line(s) in ".toList ++ Text.ofNat r.spans.length ++
      " span(s) would be removed".toList ++ ['\n']

namespace Report

variable {i : Ink} {path : Path} {t : Text} {r : Stripped}

theorem ended_eq (t : Text) : ended t = t ++ if ['\n'] <:+ t then [] else ['\n'] := by
  rw [ended]
  by_cases h : ['\n'] <:+ t
  · rw [if_pos (List.isSuffixOf_iff_suffix.mpr h), if_pos h, List.append_nil]
  · rw [if_neg (mt List.isSuffixOf_iff_suffix.mp h), if_neg h]

theorem removedLine_eq (i : Ink) (l : Text × Nat) : removedLine i l = Stripped.goneLine i l := by
  simp [removedLine, Stripped.goneLine, Text.lineOf, Text.concat, Text.padLeft]

theorem removedLines_eq (h : r.AccountsFor t) (i : Ink) :
    removedLines i t.shownLines r.spans =
      i.paint (.heading .red) "REMOVED LINES:".toList ++ '\n' ::
        i.hue .red "--------------".toList ++ '\n' :: (r.gone t).flatMap (Stripped.goneLine i) ++
      (if ∃ s ∈ r.spans, s.unterminated = true then
        "  ".toList ++ i.hue .yellow ['⚠'] ++ " call never closed before end of file".toList ++
          ['\n']
      else []) ++ ['\n'] := by
  have hlines : removedLine i = Stripped.goneLine i := funext (removedLine_eq i)
  have hrule : List.replicate 14 '-' = "--------------".toList := by decide
  -- Only the last span can be open, so the warning comes once, below all the lines.
  rw [removedLines, flatMap_spanLines h.laid i t.shownLines, h.numbersLines.flatMap_numbered,
    hlines, hrule]
  simp only [Text.lineOf, Text.concat, List.flatten_cons, List.flatten_nil, List.append_assoc,
    List.append_nil, List.cons_append, List.nil_append]
  rfl

theorem preview_eq (h : r.AccountsFor t) (i : Ink) (path : Path) :
    preview i true path t r = r.previewed i path t := by
  have hopening : List.replicate 16 '=' = "================".toList := by decide
  have hkept : List.replicate 16 '-' = "----------------".toList := by decide
  rw [preview, previewOpening, removedLines_eq h, keptLines, ended_eq, Stripped.previewed, hopening,
    hkept]
  cases r.changed <;>
    simp only [Text.lineOf, Text.concat, List.flatten_cons, List.flatten_nil, List.append_assoc,
      List.append_nil, List.cons_append, List.nil_append, Bool.not_false, Bool.not_true,
      Bool.true_eq_false, Bool.false_eq_true, if_true, if_false] <;>
    rfl

end Report

namespace Program

variable {i : Ink} {root file : Path} {rule : Option ClosingRule} {tree : FileTree} {q : Project}
  {t : Text}

theorem targets_listed
    (hopen : (Project.openAt root rule : StateM FileTree _).run tree = (.ok q, tree)) :
    (Scope.targets ⟨.listed [file], rule⟩ root : StateM FileTree _).run tree =
      (.finished q [q.locate file], tree) := by
  rw [Scope.targets, Scope.perform, run_bind hopen]
  rfl

theorem run_preview
    (hopen : (Project.openAt root rule : StateM FileTree _).run tree = (.ok q, tree))
    (hread : tree.readText (q.locate file) = .ok t) :
    (preview i root file true rule : StateM FileTree _).run tree =
      (.done (Report.preview i true (q.locate file) t (q.stripper.strip t)), tree) := by
  rw [preview, run_bind hopen]
  dsimp only
  rw [run_bind (Disk.run_readText tree _), hread]
  rfl

theorem exists_run_strip_listed
    (hopen : (Project.openAt root rule : StateM FileTree _).run tree = (.ok q, tree))
    (hread : tree.readText (q.locate file) = .ok t) :
    ∃ told u, (strip i root ⟨.listed [file], rule⟩ false : StateM FileTree _).run tree = (told, u) ∧
      told.succeeded = true ∧ u.readText (q.locate file) = .ok (q.stripper.strip t).content := by
  obtain ⟨l, hf, hl⟩ := FileTree.readText_eq_ok_iff.mp hread
  obtain ⟨u, hstrip, hrewrites⟩ := q.stripper.run_stripFile_found hf hl
  have hrun : (q.run false [q.locate file] : StateM FileTree Run).run tree =
      (⟨[(q.locate file, q.stripper.visit t)], none⟩, u) := by
    rw [Project.run_cons_ok hstrip]
    rfl
  refine ⟨_, u, run_strip (Scope.run_perform_finished (targets_listed hopen) hrun),
    succeeded_stripped_iff.mpr rfl, FileTree.readText_eq_ok_iff.mpr ⟨l, ?_, ?_⟩⟩
  · exact (hrewrites.alike.find _).trans hf
  · exact hrewrites.get?_of_mem (Finset.mem_singleton_self l) hl

/-- The numbers of spans name the removed lines. A preview lists exactly these lines, and below them
the text that a run over the file leaves in it; a check tells each span by its real first line. -/
theorem preview_numbersLines (p : Stripper) (t : Text) :
    (p.strip t).NumbersLines t ∧
    ∀ (i : Ink) (root : Path) (rule : Option ClosingRule) (tree : FileTree) (q : Project),
      (Project.openAt root rule : StateM FileTree _).run tree = (.ok q, tree) → q.stripper = p →
      (∀ file, tree.readText (q.locate file) = .ok t →
        (preview i root file true rule : StateM FileTree _).run tree =
          (.done ((p.strip t).previewed i (q.locate file) t), tree) ∧
        ∃ told u,
          (strip i root ⟨.listed [file], rule⟩ false : StateM FileTree _).run tree = (told, u) ∧
          told.succeeded = true ∧ u.readText (q.locate file) = .ok (p.strip t).content) ∧
      ∀ (selection : Selection) (paths : List Path),
        (Scope.targets ⟨selection, rule⟩ root : StateM FileTree _).run tree =
          (.finished q paths, tree) →
        ∃ told, (check i root ⟨selection, rule⟩ : StateM FileTree _).run tree = (told, tree) ∧
          told.out = Survey.told i p.markers.target
            { findings := (tree.sweep paths).texts.flatMap fun x => x.2.elim [] fun y =>
                (p.strip y).spans.map fun s =>
                  ⟨x.1, s, ((y.lines[s.first - 1]?).getD []).trim⟩
              failure := (tree.sweep paths).failure } := by
  refine ⟨(p.strip_accountsFor t).numbersLines, ?_⟩
  rintro i root rule tree q hopen rfl
  refine ⟨fun file hread => ⟨?_, exists_run_strip_listed hopen hread⟩, fun selection paths ht => ?_⟩
  · rw [run_preview hopen hread, Report.preview_eq (q.stripper.strip_accountsFor t)]
  · refine ⟨_, run_bind (Scope.run_survey ht), ?_⟩
    have hfindings (path : Path) : q.stripper.findings path = _ :=
      funext (q.stripper.findings_eq path)
    simp only [Outcome.map, out_checked, Sweep.survey, hfindings]

def carriageText : Text := "f();\r\nconsole.log(\r\n  1\r\n);\r\n\ng(console.log('2'\n  , 3".toList

def carriageTree : FileTree where
  entries := [(["w"], .folder),
    (["w", "a.ts"], .file (Utf8.encode carriageText))]
  here := ["w"]
  nodup := by decide
  placed := by decide
  here_folder := by decide

def unsettled : Project :=
  ⟨⟨.initial, SettingsFile.pathFor (.ofString ".")⟩, ⟨.usual, .paren⟩, .ofString "."⟩

def carriagePreview : List Text :=
  ["Logscrub Preview", List.replicate 16 '=', "File: a.ts", "",
    "REMOVED LINES:", List.replicate 14 '-',
    "-     2 console.log(", "-     3   1", "-     4 );", "-     6 g(console.log('2'",
    "-     7   , 3",
    "  ⚠ call never closed before end of file", "",
    "AFTER STRIPPING:", List.replicate 16 '-', "f();\r", "", "",
    "5 line(s) in 2 span(s) would be removed"]

def carriageCheck : List Text :=
  ["Checking for console.log statements...", "⚠ a.ts:2-4 - console.log(",
    "⚠ a.ts:6-7 - g(console.log('2'", "", "Tip: Run \x60logscrub strip\x60 to remove them"]

theorem preview_numbersLines_carriages :
    (Project.openAt (.ofString ".") none : StateM FileTree _).run carriageTree =
        (.ok unsettled, carriageTree) ∧
      carriageTree.readText (unsettled.locate (.ofString "a.ts")) = .ok carriageText ∧
      (unsettled.stripper.strip carriageText).gone carriageText =
        [("console.log(".toList, 2), ("  1".toList, 3), (");".toList, 4),
          ("g(console.log('2'".toList, 6), ("  , 3".toList, 7)] ∧
      (preview ⟨false⟩ (.ofString ".") (.ofString "a.ts") true none : StateM FileTree _).run
          carriageTree =
        (.done (carriagePreview.flatMap (· ++ ['\n'])), carriageTree) ∧
      ∃ told, (check ⟨false⟩ (.ofString ".") ⟨.listed [.ofString "a.ts"], none⟩ :
          StateM FileTree _).run carriageTree = (told, carriageTree) ∧
        told.out = carriageCheck.flatMap (· ++ ['\n']) := by
  have hopen : (Project.openAt (.ofString ".") none : StateM FileTree _).run carriageTree =
      (.ok unsettled, carriageTree) := rfl
  have hread : carriageTree.readText (unsettled.locate (.ofString "a.ts")) =
      .ok carriageText := by decide +kernel
  have hprinted : (unsettled.stripper.strip carriageText).previewed ⟨false⟩
      (unsettled.locate (.ofString "a.ts")) carriageText =
        carriagePreview.flatMap (· ++ ['\n']) := by decide +kernel
  obtain ⟨-, hcommands⟩ := preview_numbersLines unsettled.stripper carriageText
  obtain ⟨hpreviews, hchecks⟩ :=
    hcommands ⟨false⟩ (.ofString ".") none carriageTree unsettled hopen rfl
  obtain ⟨hpreview, -⟩ := hpreviews (.ofString "a.ts") hread
  obtain ⟨told, hcheck, hout⟩ := hchecks _ _ (targets_listed hopen)
  rw [hprinted] at hpreview
  refine ⟨hopen, hread, by decide +kernel, hpreview, told, hcheck, hout.trans ?_⟩
  decide +kernel

end Program

end CallStrip

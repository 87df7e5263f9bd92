import CallStrip.Program

/-!
What a check prints, written out.
-/

namespace CallStrip

def Finding.line (i : Ink) (f : Finding) : Text :=
  i.hue .yellow ['⚠'] ++ ' ' :: f.path.text ++ ':' :: Text.ofNat f.span.first ++
    (if f.span.first < f.span.last then '-' :: Text.ofNat f.span.last else []) ++
    " - ".toList ++ i.hue .red f.first ++ ['\n']

def Survey.told (i : Ink) (target : Text) (y : Survey) : Text :=
  i.hue .blue ("Checking for ".toList ++ target ++ " statements...".toList) ++ ['\n'] ++
    y.findings.flatMap (·.line i) ++
    if y.failure.isSome then []
    else if y.findings = [] then
      i.hue .green ['✓'] ++ " No ".toList ++ target ++ " statements found!\n".toList
    else '\n' :: i.hue .cyan "Tip: Run \x60logscrub strip\x60 to remove them".toList ++ ['\n']

theorem Report.findingLine_eq (i : Ink) (f : Finding) : findingLine i f = f.line i := by
  have hmany : 1 < f.span.lineCount ↔ f.span.first < f.span.last := by
    rw [Span.lineCount]
    omega
  simp only [findingLine, Finding.line, range, hmany, Text.lineOf, Text.concat]
  split <;> simp

namespace Program

variable {i : Ink} {p : Project} {y : Survey}

theorem out_checked (i : Ink) (p : Project) (y : Survey) :
    (checked i (.finished p y)).out = y.told i p.stripper.markers.target := by
  have hopening (target : Text) : Report.surveyOpening i target =
      i.hue .blue ("Checking for ".toList ++ target ++ " statements...".toList) ++ ['\n'] := by
    simp [Report.surveyOpening, Text.lineOf, Text.concat]
  have hlines : y.findings.flatMap (Report.findingLine i) = y.findings.flatMap (·.line i) :=
    congrArg (y.findings.flatMap ·) (funext (Report.findingLine_eq i))
  rw [Survey.told, ← hopening, ← hlines]
  cases hfailure : y.failure with
  | some x => simp [checked, hfailure, Transcript.failed]
  | none =>
    by_cases hy : y.findings = []
    · simp [checked, hfailure, hy, Transcript.done, Report.nothingFound, Text.lineOf, Text.concat]
    · simp [checked, hfailure, hy, Transcript.failed, Report.surveyTip, Text.lineOf, Text.concat]

end Program

end CallStrip

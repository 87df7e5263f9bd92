import CallStrip.Style
import CallStrip.Survey
import CallStrip.Text.Line

/-!
What the commands print: each report as a text, made from what was found or done.
-/

namespace CallStrip.Report

open Text (lineOf)

def runOpening (i : Ink) (p : Stripper) : Text :=
  lineOf [i.hue .blue (Text.concat ["Removing ", p.markers.target, " statements (", p.rule.name,
    " rule)..."]), "\n"]

def outcomeLine (i : Ink) (target : Text) (dry : Bool) : Visit → Text
  | .modified n _ =>
    lineOf ["  ", i.hue .green "OK", " - ", if dry then "Would remove" else "Removed", " ",
      Text.ofNat n, " ", target, " line(s)"]
  | .unchanged =>
    lineOf ["  ", i.hue .grey "SKIP", " - No ", target, " found or already clean"]
  | .missing => lineOf ["  ", i.hue .yellow "MISSING", " - File not found"]

def visitLines (i : Ink) (target : Text) (dry : Bool) (v : Path × Visit) : Text :=
  lineOf [v.1.text] ++ outcomeLine i target dry v.2

def rule : Text := List.replicate 60 '='

def tallyLines (i : Ink) (target : Text) (dry : Bool) (t : Tally) : Text :=
  lineOf ["\n", rule] ++ lineOf [i.paint .strong "Summary:"] ++
  lineOf ["   Files processed: ", Text.ofNat t.seen] ++
  lineOf ["   Files modified: ", Text.ofNat t.modified] ++
  (if 0 < t.missing then lineOf ["   Files missing: ", Text.ofNat t.missing] else []) ++
  lineOf ["   Total ", target, " lines removed: ", Text.ofNat t.removed] ++
  lineOf [rule] ++
  if dry && 0 < t.modified then lineOf ["\n", i.hue .cyan "Dry run: no files were written"] else []

def surveyOpening (i : Ink) (target : Text) : Text :=
  lineOf [i.hue .blue (Text.concat ["Checking for ", target, " statements..."])]

def range (s : Span) : Text :=
  if 1 < s.lineCount then Text.concat [Text.ofNat s.first, "-", Text.ofNat s.last]
  else Text.ofNat s.first

def findingLine (i : Ink) (f : Finding) : Text :=
  lineOf [i.hue .yellow "⚠", " ", f.path.text, ":", range f.span, " - ", i.hue .red f.first]

def nothingFound (i : Ink) (target : Text) : Text :=
  lineOf [i.hue .green "✓", " No ", target, " statements found!"]

def surveyTip (i : Ink) : Text :=
  lineOf ["\n", i.hue .cyan "Tip: Run \x60logscrub strip\x60 to remove them"]

def remaining (target : Text) (count : Nat) : Text :=
  Text.concat [Text.ofNat count, " ", target, " statement(s) remaining"]

def previewOpening (i : Ink) (path : Path) : Text :=
  lineOf [i.paint (.heading .blue) "Logscrub Preview"] ++
  lineOf [i.hue .blue (List.replicate 16 '=')] ++
  lineOf ["File: ", path.text, "\n"]

def numbered (lines : List Text) (s : Span) : List (Text × Nat) :=
  ((lines.drop (s.first - 1)).take s.lineCount).zipIdx s.first

def removedLine (i : Ink) (l : Text × Nat) : Text :=
  lineOf [i.hue .red "-", " ", Text.padLeft 5 (Text.ofNat l.2), " ", i.hue .red l.1]

def spanLines (i : Ink) (lines : List Text) (s : Span) : Text :=
  (numbered lines s).flatMap (removedLine i) ++
  if s.unterminated then
    lineOf ["  ", i.hue .yellow "⚠", " call never closed before end of file"]
  else []

def removedLines (i : Ink) (lines : List Text) (spans : List Span) : Text :=
  lineOf [i.paint (.heading .red) "REMOVED LINES:"] ++
  lineOf [i.hue .red (List.replicate 14 '-')] ++
  spans.flatMap (spanLines i lines) ++ ['\n']

def ended (t : Text) : Text := if ['\n'].isSuffixOf t then t else t ++ ['\n']

def keptLines (i : Ink) (s : Stripped) : Text :=
  lineOf [i.paint (.heading .yellow) "AFTER STRIPPING:"] ++
  lineOf [i.hue .yellow (List.replicate 16 '-')] ++ ended s.content

def preview (i : Ink) (listing : Bool) (path : Path) (t : Text) (s : Stripped) : Text :=
  previewOpening i path ++
  if !s.changed then lineOf [i.hue .green "✓", " Nothing to remove"]
  else
    (if listing then removedLines i t.shownLines s.spans else []) ++ keptLines i s ++ ['\n'] ++
    lineOf [Text.ofNat s.removed, " line(s) in ", Text.ofNat s.spans.length,
      " span(s) would be removed"] ++
    if listing then [] else lineOf ["Use ", i.hue .cyan "--diff", " to list the removed lines"]

def initOpening (i : Ink) : Text :=
  lineOf [i.paint (.heading .blue) "Initializing logscrub in your project..."]

def initialized (i : Ink) (existed : Bool) (f : SettingsFile) : Text :=
  let s := f.settings
  let heading (t : Text) : Text := lineOf ["\n", i.paint (.heading .blue) t]
  lineOf ["  ", i.hue .green "✓", if existed then " Kept existing " else " Created ",
    f.path.text] ++
  heading "Current settings:" ++
  lineOf ["  • Target marker: ", i.hue .yellow s.target] ++
  lineOf ["  • Protected: ", Text.join ", " s.guards] ++
  lineOf ["  • Closing rule: ", s.rule.name] ++
  lineOf ["  • Listed files: ", Text.ofNat s.files.length] ++
  lineOf ["  • Discovery: ", s.discoverRoot, "/**/*.", s.discoverExtension] ++
  heading "Quick start:" ++
  lineOf ["  1. Preview a file:  ", i.hue .yellow "logscrub preview src/lib/email.ts --diff"] ++
  lineOf ["  2. Strip for real:  ", i.hue .yellow "logscrub strip"]

def assigning (i : Ink) (key value : Text) : Text :=
  lineOf [i.hue .green "→", " Setting ", i.hue .cyan key, " = ", i.hue .yellow value]

def assigned (i : Ink) : Text := lineOf [i.hue .green "✓", " Configuration updated"]

def entryLine (i : Ink) (e : Text × Text) : Text := lineOf [i.hue .cyan e.1, " = ", e.2]

def listed (i : Ink) (existed : Bool) (s : Settings) : Text :=
  (if existed then [] else lineOf [i.hue .grey "(defaults, no config file)"]) ++
  s.entries.flatMap (entryLine i)

end CallStrip.Report

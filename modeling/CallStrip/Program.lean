import CallStrip.Command.Scope
import CallStrip.Command.Words
import CallStrip.Report
import CallStrip.Workspace.Reader

/-!
Running a command: what it prints, and the complaint it ends with if it fails. What was printed
before a failure stays.
-/

namespace CallStrip

structure Transcript where
  out : Text
  complaint : Option Complaint
  deriving DecidableEq, Repr

namespace Transcript

def done (out : Text) : Transcript := ⟨out, none⟩

def failed (out : Text) (c : Complaint) : Transcript := ⟨out, some c⟩

def succeeded (t : Transcript) : Bool := t.complaint.isNone

def errors (i : Ink) (t : Transcript) : Text := (t.complaint.map (·.display i)).getD []

end Transcript

structure Result where
  out : Text
  errors : Text
  code : Nat
  deriving DecidableEq, Repr

namespace Program

variable {m : Type → Type} [Monad m] [Disk m]

def stripped (i : Ink) (dry : Bool) : Outcome Run → Transcript
  | .unopened c => .failed [] c
  | .unresolved _ c => .failed [] c
  | .finished p r =>
    let target := p.stripper.markers.target
    let told := Report.runOpening i p.stripper ++ r.visits.flatMap (Report.visitLines i target dry)
    match r.failure with
    | some f => .failed told (.ofFailure f)
    | none => .done (told ++ Report.tallyLines i target dry r.tally)

def checked (i : Ink) : Outcome Survey → Transcript
  | .unopened c => .failed [] c
  | .unresolved p c => .failed (Report.surveyOpening i p.stripper.markers.target) c
  | .finished p s =>
    let target := p.stripper.markers.target
    let told := Report.surveyOpening i target ++ s.findings.flatMap (Report.findingLine i)
    match s.failure with
    | some (path, c) => .failed told ⟨[Text.concat ["Failed to read ", path.text]], .io c⟩
    | none =>
      if s.findings = [] then .done (told ++ Report.nothingFound i target)
      else
        .failed (told ++ Report.surveyTip i)
          (.remark (Report.remaining target s.findings.length))

def strip (i : Ink) (root : Path) (scope : Scope) (dry : Bool) : m Transcript := do
  return stripped i dry (← scope.strip root dry)

def check (i : Ink) (root : Path) (scope : Scope) : m Transcript := do
  return checked i (← scope.survey root)

def preview (i : Ink) (root file : Path) (listing : Bool) (rule : Option ClosingRule) :
    m Transcript := do
  match ← Project.openAt root rule with
  | .error c => return .failed [] c
  | .ok p =>
    let path := p.locate file
    match ← Disk.readText path with
    | .error c =>
      return .failed [] ⟨[Text.concat ["Failed to read file: ", path.text]], .io c⟩
    | .ok t => return .done (Report.preview i listing path t (p.stripper.strip t))

def summarize (input : m Bytes) : m Transcript := do
  match Summary.ofDocument (← input) with
  | .ok s => return .done s.report
  | .error f =>
    return .failed [] ((Complaint.ofFailure (.document f)).within
      "Failed to summarize workspace document")

def init (i : Ink) (root : Path) : m Transcript := do
  let existed ← Disk.present (SettingsFile.pathFor root)
  match ← (Project.init root : Action m Project).run with
  | .error f =>
    return .failed (Report.initOpening i) ((Complaint.ofFailure f).within
      "Failed to initialize logscrub in the specified directory")
  | .ok p => return .done (Report.initOpening i ++ Report.initialized i existed p.file)

def assign (i : Ink) (root : Path) (key value : Text) : m Transcript := do
  let opening := Report.assigning i key value
  match ← (SettingsFile.load root : Action m SettingsFile).run with
  | .error f =>
    return .failed opening ((Complaint.ofFailure f).within "Run \x60logscrub init\x60 first")
  | .ok f =>
    match (← f.assign key value).2 with
    | .error f => return .failed opening (.ofFailure f)
    | .ok () => return .done (opening ++ Report.assigned i)

def lookup (root : Path) (key : Text) : m Transcript := do
  match ← (SettingsFile.loadOrInitial root : Action m SettingsFile).run with
  | .error f => return .failed [] (.ofFailure f)
  | .ok f =>
    match f.settings.getNamed key with
    | .error e => return .failed [] (.ofFailure (.settings e))
    | .ok value => return .done (Text.lineOf [value])

def list (i : Ink) (root : Path) : m Transcript := do
  match ← (SettingsFile.loadOrInitial root : Action m SettingsFile).run with
  | .error f => return .failed [] (.ofFailure f)
  | .ok f => return .done (Report.listed i (← Disk.present f.path) f.settings)

def run (i : Ink) (root : Path) (input : m Bytes) : Command → m Transcript
  | .strip scope dry => strip i root scope dry
  | .preview file listing rule => preview i root file listing rule
  | .check scope => check i root scope
  | .summarize => summarize input
  | .init => init i root
  | .assign key value => assign i root key value
  | .lookup key => lookup root key
  | .list => list i root

def versionLine : Text := Text.lineOf ["logscrub ", Settings.currentVersion]

def usage : Text :=
  Text.lineOf ["Usage: logscrub [-v] [--root <ROOT>] <COMMAND>\n\nCommands:"] ++
  Command.Level.program.inner.flatMap fun l => Text.lineOf ["  ", l.word]

def answer (i : Ink) (surroundings : Option Text) (words : List Text) (input : m Bytes) :
    m Result := do
  match Invocation.ofWords surroundings words with
  | .error .help => return ⟨usage, [], 0⟩
  | .error .version => return ⟨versionLine, [], 0⟩
  | .error .misuse => return ⟨[], usage, 2⟩
  | .ok call =>
    let t ← run i call.root input call.command
    return ⟨t.out, t.errors i, if t.succeeded then 0 else 1⟩

end Program

end CallStrip

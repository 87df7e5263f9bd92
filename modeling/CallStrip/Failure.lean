import CallStrip.IoError
import CallStrip.Json.Message
import CallStrip.Settings.Basic
import CallStrip.Text.Visible

/-!
Everything that can stop an operation, its wording, and the advice that goes with it.
-/

namespace CallStrip

inductive Failure where
  | io (e : IoError)
  | document (f : Json.Located)
  | settings (f : SettingsFault)
  | markers (f : MarkerFault)
  deriving DecidableEq, Repr

def SettingsFault.message : SettingsFault → Text
  | .notFound p => "Configuration file not found at ".toList ++ p.quoted
  | .malformed => "Invalid configuration: not a document of settings".toList
  | .unknownKey k => "Unknown config key: ".toList ++ k
  | .badValue f v => "Invalid value for ".toList ++ f ++ ": ".toList ++ v

def MarkerFault.message : MarkerFault → Text
  | .emptyTarget => "target marker must not be empty".toList
  | .emptyGuard => "protected markers must not be empty".toList

namespace Failure

def chain : Failure → List Text
  | .io e => ("IO error: ".toList ++ e.text) :: e.text :: e.sources
  | .document f =>
    let inner := "Malformed workspace document: ".toList ++ f.message
    ["Summary error: ".toList ++ inner, inner, f.message]
  | .settings f => ["Configuration error: ".toList ++ f.message, f.message]
  | .markers f => ["Invalid input: ".toList ++ f.message]

def message (f : Failure) : Text := f.chain.headD []

def hint? : Failure → Option Text
  | .io e =>
    if e.kind = .permissionDenied then some "Check file permissions on the target files".toList
    else none
  | .document _ =>
    some ("Expected shape: \x7b\"data\":\x7b\"workspace\":".toList ++
      "\x7b\"viewType\":..,\"userRole\":..\x7d\x7d\x7d".toList)
  | .settings (.unknownKey _) =>
    some "Run \x60logscrub config list\x60 to see the available keys".toList
  | _ => none

end Failure

end CallStrip

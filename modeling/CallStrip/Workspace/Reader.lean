import CallStrip.Json.Message
import CallStrip.Json.Record
import CallStrip.Workspace.Basic

/-!
Reading a workspace from a document: `data.workspace` with the view, the role and the groups, which
may be left out.
-/

namespace CallStrip

open Json Json.Reader

variable {σ : Type}

def Json.Field.one {β : Type} (key : String) (get : σ → Option β) (set : β → σ → σ)
    (read : Nat → Reader β) (h : ∀ d, Shrinks (read d)) (required : Bool) : Field σ where
  key := key.toList
  required := required
  given a := (get a).isSome
  read depth a := do return set (← read depth) a
  stays depth _ := (h depth).stays.bind fun _ => stays_pure _

def need {β : Type} (key : String) : Option β → Except Cause β
  | some v => .ok v
  | none => .error (.missing key.toList)

namespace Division

structure Draft where
  departments : Option (List Value) := none

def record : Record Draft Division where
  name := "Division".toList
  empty := {}
  fields := [.one "departments" (·.departments) (fun v a => { a with departments := some v })
    (fun d => typedList (value (d - 1)) (shrinks_value _) d)
    (fun _ => shrinks_typedList _ _ _) true]
  finish a := do return ⟨← need "departments" a.departments⟩

end Division

namespace MissionGroup

structure Draft where
  name : Option Value := none
  divisions : Option (List Division) := none

def record : Record Draft MissionGroup where
  name := "MissionGroup".toList
  empty := {}
  fields := [
    .one "name" (·.name) (fun v a => { a with name := some v }) value shrinks_value true,
    .one "divisions" (·.divisions) (fun v a => { a with divisions := some v })
      (fun d => typedList (Division.record.read (d - 1)) (Division.record.shrinks_read _) d)
      (fun _ => shrinks_typedList _ _ _) true]
  finish a := do return ⟨← need "name" a.name, ← need "divisions" a.divisions⟩

end MissionGroup

namespace Workspace

structure Draft where
  viewType : Option Value := none
  userRole : Option Value := none
  groups : Option (List MissionGroup) := none

def record : Record Draft Workspace where
  name := "Workspace".toList
  empty := {}
  fields := [
    .one "viewType" (·.viewType) (fun v a => { a with viewType := some v }) value
      shrinks_value true,
    .one "userRole" (·.userRole) (fun v a => { a with userRole := some v }) value
      shrinks_value true,
    .one "hierarchical" (·.groups) (fun v a => { a with groups := some v })
      (fun d => typedList (MissionGroup.record.read (d - 1)) (MissionGroup.record.shrinks_read _) d)
      (fun _ => shrinks_typedList _ _ _) false]
  finish a := do
    return ⟨← need "viewType" a.viewType, ← need "userRole" a.userRole, a.groups.getD []⟩

def wrapped (name key : String) {σ : Type} (inner : Record σ Workspace) :
    Record (Option Workspace) Workspace where
  name := name.toList
  empty := none
  fields := [.one key id (fun v _ => some v) inner.read inner.shrinks_read true]
  finish a := need key a

def document : Record (Option Workspace) Workspace :=
  wrapped "Envelope" "data" (wrapped "Data" "workspace" record)

def read (bytes : Bytes) : Except Located Workspace := whole (document.read depthLimit) bytes

end Workspace

def Summary.ofDocument (document : Bytes) : Except Located Summary := do
  return (← Workspace.read document).summary

end CallStrip

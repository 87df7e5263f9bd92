import CallStrip.Proofs.Json.Places
import CallStrip.Proofs.Json.Rendered
import CallStrip.Proofs.Workspace.Cut

/-!
The free values of a workspace: the view, the role, and the names of the groups that a report lists.
Each has its place in the document: the bytes before and behind it stay as they are when another
value is written there, and the document is read as the workspace with that value.
-/

namespace CallStrip

open Json Json.Reader

namespace Division

theorem framed_slots : ∀ x ∈ slots, ∀ d, Framed (x.read d) :=
  List.forall_mem_singleton.mpr (framed_readList shrinks_value framed_value)

end Division

namespace MissionGroup

theorem framed_slots : ∀ x ∈ slots, ∀ d, Framed (x.read d) :=
  forall_slots.mpr ⟨framed_value, framed_readList Division.record.shrinks_read
    (Record.framed_read (Division.madeOf.framedFields Division.framed_slots))⟩

theorem seats_name (d : Nat) : record.Seats nameSlot.field d (value d) nameSlot.part :=
  madeOf.seats List.mem_cons_self framed_slots (fun _ _ _ => rfl)
    (forall_slots.mpr ⟨fun h => absurd rfl h, fun _ _ _ _ => rfl⟩) d

def namePart : Part MissionGroup Value := ⟨fun g => some g.name, fun v g => { g with name := v }⟩

theorem finish_eq_ok {a : Draft} {g : MissionGroup} (h : record.finish a = .ok g) :
    a = ⟨some g.name, some g.divisions⟩ := by
  obtain ⟨_ | v, _ | ds⟩ := a
  all_goals cases h
  rfl

theorem holds_name (d : Nat) : Holds (record.read (d + 1)) (value d) namePart := by
  refine (seats_name d).holds_read fun a g v h hv => ?_
  obtain rfl := finish_eq_ok h
  exact ⟨hv, fun v => rfl⟩

end MissionGroup

namespace Workspace

theorem framed_slots : ∀ x ∈ slots, ∀ d, Framed (x.read d) :=
  forall_slots.mpr ⟨framed_value, framed_value, framed_readList MissionGroup.record.shrinks_read
    (Record.framed_read (MissionGroup.madeOf.framedFields MissionGroup.framed_slots))⟩

theorem seats_viewType (d : Nat) : record.Seats viewTypeSlot.field d (value d) viewTypeSlot.part :=
  madeOf.seats (by simp [slots]) framed_slots (fun _ _ _ => rfl)
    (forall_slots.mpr ⟨fun h => absurd rfl h, fun _ _ _ _ => rfl, fun _ _ _ _ => rfl⟩) d

theorem seats_userRole (d : Nat) : record.Seats userRoleSlot.field d (value d) userRoleSlot.part :=
  madeOf.seats (by simp [slots]) framed_slots (fun _ _ _ => rfl)
    (forall_slots.mpr ⟨fun _ _ _ _ => rfl, fun h => absurd rfl h, fun _ _ _ _ => rfl⟩) d

theorem seats_groups (d : Nat) :
    record.Seats groupsSlot.field d (groupsSlot.read d) groupsSlot.part :=
  madeOf.seats (by simp [slots]) framed_slots (fun _ _ _ => rfl)
    (forall_slots.mpr ⟨fun _ _ _ _ => rfl, fun _ _ _ _ => rfl, fun h => absurd rfl h⟩) d

theorem finish_eq_ok {a : Draft} {w : Workspace} (h : record.finish a = .ok w) :
    ∃ v u gs, a = ⟨some v, some u, gs⟩ ∧ w = ⟨v, u, gs.getD []⟩ := by
  obtain ⟨_ | v, _ | u, gs⟩ := a
  all_goals cases h
  exact ⟨v, u, gs, rfl, rfl⟩

def groupsPart : Part Workspace (List MissionGroup) where
  get w := if w.groups.isEmpty then none else some w.groups
  set gs w := { w with groups := gs }

theorem holds_viewType (d : Nat) : Holds (record.read (d + 1)) (value d)
    ⟨fun w => some w.viewType, fun v w => { w with viewType := v }⟩ := by
  refine (seats_viewType d).holds_read fun a w v h hv => ?_
  obtain ⟨_, _, _, rfl, rfl⟩ := finish_eq_ok h
  exact ⟨hv, fun v => rfl⟩

theorem holds_userRole (d : Nat) : Holds (record.read (d + 1)) (value d)
    ⟨fun w => some w.userRole, fun v w => { w with userRole := v }⟩ := by
  refine (seats_userRole d).holds_read fun a w v h hv => ?_
  obtain ⟨_, _, _, rfl, rfl⟩ := finish_eq_ok h
  exact ⟨hv, fun v => rfl⟩

theorem holds_groups (d : Nat) : Holds (record.read (d + 1)) (groupsSlot.read d) groupsPart := by
  refine (seats_groups d).holds_read fun a w v h hv => ?_
  obtain ⟨_, _, gs, rfl, rfl⟩ := finish_eq_ok h
  refine ⟨?_, fun v => rfl⟩
  -- a document without groups has no place for them
  cases gs with
  | none => cases hv
  | some gs =>
    rw [groupsPart] at hv
    dsimp only at hv
    split at hv
    · cases hv
    · exact hv

section Wrapped

variable {σ : Type} {inner : Record σ Workspace} {once : Value → Prop}
  {of? : Value → Option Workspace}

theorem framedFields_wrapped (name key : String) (h : Agrees inner.read once of?)
    (hframed : ∀ d, Framed (inner.read d)) : (wrapped name key inner).FramedFields :=
  (madeOf_wrapped name key h).framedFields (List.forall_mem_singleton.mpr hframed)

theorem holds_wrapped (name key : String) (h : Agrees inner.read once of?)
    (hframed : ∀ d, Framed (inner.read d)) (d : Nat) :
    Holds ((wrapped name key inner).read (d + 1)) (inner.read d) .self := by
  have hseats := (madeOf_wrapped name key h).seats List.mem_cons_self
    (List.forall_mem_singleton.mpr hframed) (fun _ _ _ => rfl)
    (List.forall_mem_singleton.mpr fun h => absurd rfl h) d
  refine hseats.holds_read fun a w v hfinish hv => ?_
  cases a with
  | none => cases hfinish
  | some w' =>
    cases hfinish
    exact ⟨hv, fun v => rfl⟩

end Wrapped

theorem holds_document (d : Nat) : Holds (document.read (d + 2)) (record.read d) .self := by
  have hframed := Record.framed_read (madeOf.framedFields framed_slots)
  have hdata := holds_wrapped "Data" "workspace" agrees hframed d
  have houter := holds_wrapped "Envelope" "data" (agrees_wrapped "Data" "workspace" agrees)
    (Record.framed_read (framedFields_wrapped "Data" "workspace" agrees hframed)) (d + 1)
  exact (houter.trans hdata).congr (fun _ _ h => h) fun _ _ _ _ => rfl

inductive FreePlace where
  | viewType
  | userRole
  | groupName (i : Nat)

def FreePlace.room : FreePlace → Nat
  | .viewType => depthLimit - 3
  | .userRole => depthLimit - 3
  | .groupName _ => depthLimit - 5

def at? (w : Workspace) : FreePlace → Option Value
  | .viewType => some w.viewType
  | .userRole => some w.userRole
  | .groupName i => (w.groups.take listedGroups)[i]?.map (·.name)

def withValue (w : Workspace) (v : Value) : FreePlace → Workspace
  | .viewType => { w with viewType := v }
  | .userRole => { w with userRole := v }
  | .groupName i => { w with groups := w.groups.modify i fun g => { g with name := v } }

def FreePlace.part (p : FreePlace) : Part Workspace Value := ⟨(·.at? p), fun v w => w.withValue v p⟩

theorem exists_group {w : Workspace} {i : Nat} {v : Value} (h : w.at? (.groupName i) = some v) :
    ∃ g, w.groups[i]? = some g ∧ g.name = v ∧ groupsPart.get w = some w.groups := by
  obtain ⟨g, hg, rfl⟩ := Option.map_eq_some_iff.mp h
  have hfound : w.groups[i]? = some g := by
    rw [List.getElem?_take] at hg
    split at hg
    · exact hg
    · cases hg
  refine ⟨g, hfound, rfl, if_neg fun hempty => ?_⟩
  rw [List.isEmpty_iff.mp hempty] at hfound
  cases hfound

theorem holds_groupName (d i : Nat) :
    Holds (record.read (d + 3)) (value d) (FreePlace.groupName i).part := by
  have hitem := holds_readList MissionGroup.record.shrinks_read
    (Record.framed_read (MissionGroup.madeOf.framedFields MissionGroup.framed_slots)) i (d + 1)
  have hname := ((holds_groups (d + 2)).trans hitem).trans (MissionGroup.holds_name d)
  have hget {w : Workspace} {g : MissionGroup} (hg : w.groups[i]? = some g)
      (hgroups : groupsPart.get w = some w.groups) : (groupsPart.trans (.item i)).get w = some g :=
    (Part.trans_get hgroups _).trans hg
  refine hname.congr (fun w v h => ?_) fun w v h v' => ?_
  · obtain ⟨g, hg, rfl, hgroups⟩ := exists_group h
    exact Part.trans_get (hget hg hgroups) _
  · obtain ⟨g, hg, rfl, hgroups⟩ := exists_group h
    have hmodify : w.groups.modify i (fun g => { g with name := v' }) =
        w.groups.set i { g with name := v' } := by
      have : Inhabited MissionGroup := ⟨g⟩
      rw [List.modify_eq_set, hg]
      rfl
    have hset := (Part.trans_set (hget hg hgroups) MissionGroup.namePart v').trans
      (Part.trans_set hgroups (.item i) (MissionGroup.namePart.set v' g))
    exact (congrArg (fun gs => { w with groups := gs }) hmodify).trans hset.symm

theorem holds_place (p : FreePlace) : Holds (document.read depthLimit) (value p.room) p.part := by
  have hdocument := holds_document (depthLimit - 2)
  cases p with
  | viewType =>
    exact (hdocument.trans (holds_viewType (depthLimit - 3))).congr (fun _ _ h => h)
      fun _ _ _ _ => rfl
  | userRole =>
    exact (hdocument.trans (holds_userRole (depthLimit - 3))).congr (fun _ _ h => h)
      fun _ _ _ _ => rfl
  | groupName i =>
    exact (hdocument.trans (holds_groupName (depthLimit - 5) i)).congr (fun _ _ h => h)
      fun _ _ _ _ => rfl

end Workspace

end CallStrip

import CallStrip.Proofs.Json.Fields

/-!
The shape of a workspace in a value, and that a workspace is read from a document exactly where the
document's value has this shape.
-/

namespace CallStrip

open Json Json.Reader

namespace Division

def keys : List Text := ["departments".toList]

def ofFields? (look : Text → Option Value) : Option Division := do
  return ⟨← (← look "departments".toList).items?⟩

def ofValue? (v : Value) : Option Division := v.recordOf? keys ofFields?

def FieldsOnce (v : Value) : Prop := v.FieldsOnce keys fun _ _ => True

instance : DecidablePred FieldsOnce := fun v => inferInstanceAs (Decidable (v.FieldsOnce keys _))

end Division

namespace MissionGroup

def keys : List Text := ["name".toList, "divisions".toList]

def ofFields? (look : Text → Option Value) : Option MissionGroup := do
  return ⟨← look "name".toList, ← (← look "divisions".toList).listOf? Division.ofValue?⟩

def ofValue? (v : Value) : Option MissionGroup := v.recordOf? keys ofFields?

def once (k : Text) (v : Value) : Prop := k = "divisions".toList → v.AllItems Division.FieldsOnce

instance (k : Text) (v : Value) : Decidable (once k v) := inferInstanceAs (Decidable (_ → _))

def FieldsOnce (v : Value) : Prop := v.FieldsOnce keys once

instance : DecidablePred FieldsOnce := fun v => inferInstanceAs (Decidable (v.FieldsOnce keys once))

end MissionGroup

namespace Workspace

def keys : List Text := ["viewType".toList, "userRole".toList, "hierarchical".toList]

def ofFields? (look : Text → Option Value) : Option Workspace := do
  let groups ← match look "hierarchical".toList with
    | none => some []
    | some v => v.listOf? MissionGroup.ofValue?
  return ⟨← look "viewType".toList, ← look "userRole".toList, groups⟩

def ofValue? (v : Value) : Option Workspace := v.recordOf? keys ofFields?

def once (k : Text) (v : Value) : Prop :=
  k = "hierarchical".toList → v.AllItems MissionGroup.FieldsOnce

instance (k : Text) (v : Value) : Decidable (once k v) := inferInstanceAs (Decidable (_ → _))

def FieldsOnce (v : Value) : Prop := v.FieldsOnce keys once

instance : DecidablePred FieldsOnce := fun v => inferInstanceAs (Decidable (v.FieldsOnce keys once))

def within? (key : String) (of? : Value → Option Workspace) (v : Value) : Option Workspace :=
  v.recordOf? [key.toList] fun look => do of? (← look key.toList)

def ofDocument? : Value → Option Workspace := within? "data" (within? "workspace" ofValue?)

/-- No object that stands for a record has one of its fields twice. -/
def DocumentOnce (v : Value) : Prop :=
  v.FieldsOnce ["data".toList] fun _ v => v.FieldsOnce ["workspace".toList] fun _ v => FieldsOnce v

instance : DecidablePred DocumentOnce := fun v =>
  inferInstanceAs (Decidable (v.FieldsOnce ["data".toList] _))

end Workspace

namespace Division

def slots : List (Slot Draft fun _ _ => True) := [
  { key := "departments"
    get := (·.departments)
    set := fun v a => { a with departments := some v }
    read := readList value shrinks_value
    shrinks := shrinks_readList shrinks_value
    required := true
    of? := Value.listOf? some
    agrees := (agrees_readList shrinks_value agrees_value).congr fun v => by simp [Value.AllItems] }]

theorem madeOf : record.MadeOf slots where
  fields := rfl
  nodup := by decide
  empty := List.forall_mem_singleton.mpr rfl
  get_set := List.forall_mem_singleton.mpr fun _ _ => rfl
  get_set_ne := List.forall_mem_singleton.mpr (List.forall_mem_singleton.mpr fun h => absurd rfl h)
  needed := by
    refine List.forall_mem_singleton.mpr fun _ a ha => ?_
    obtain ⟨departments⟩ := a
    obtain rfl : departments = none := ha
    exact ⟨_, rfl⟩

theorem agrees : Agrees record.read FieldsOnce ofValue? := by
  have hfields (look : Text → Option Value) : ofFields? look =
      ((look "departments".toList).bind (Value.listOf? some)).bind fun v => some ⟨v⟩ := by
    rw [ofFields?]
    cases look "departments".toList with
    | none => rfl
    | some v => rw [Option.bind_some, Value.listOf?_some]; rfl
  refine madeOf.agrees (fun look a hd => ?_) fun look hnone => ?_
  · have hkeeps := (List.forall_mem_singleton.mp hd).bind_eq
    obtain ⟨departments⟩ := a
    rw [hfields]
    cases departments with
    | none => exact congrArg (Option.bind · _) hkeeps
    | some v => exact congrArg (Option.bind · _) hkeeps
  · obtain ⟨g, hg⟩ | ⟨v, hv, hg⟩ := kept_or_none (look "departments".toList) (Value.listOf? some)
    · have hd : Drafted slots look ⟨g⟩ := List.forall_mem_singleton.mpr hg
      exact absurd hd (hnone ⟨g⟩)
    · rw [hfields, hv, Option.bind_some, hg]
      rfl

end Division

namespace MissionGroup

def nameSlot : Slot Draft once where
  key := "name"
  get := (·.name)
  set := fun v a => { a with name := some v }
  read := value
  shrinks := shrinks_value
  required := true
  of? := some
  agrees := agrees_value.congr fun _ => iff_of_true (fun h => absurd h (by decide)) trivial

def divisionsSlot : Slot Draft once where
  key := "divisions"
  get := (·.divisions)
  set := fun v a => { a with divisions := some v }
  read := readList Division.record.read Division.record.shrinks_read
  shrinks := shrinks_readList Division.record.shrinks_read
  required := true
  of? := Value.listOf? Division.ofValue?
  agrees := (agrees_readList Division.record.shrinks_read Division.agrees).congr fun _ =>
    forall_prop_of_true rfl

def slots : List (Slot Draft once) := [nameSlot, divisionsSlot]

theorem forall_slots {P : Slot Draft once → Prop} :
    (∀ x ∈ slots, P x) ↔ P nameSlot ∧ P divisionsSlot := by
  rw [slots, List.forall_mem_cons, List.forall_mem_singleton]

theorem madeOf : record.MadeOf slots where
  fields := rfl
  nodup := by decide
  empty := forall_slots.mpr ⟨rfl, rfl⟩
  get_set := forall_slots.mpr ⟨fun _ _ => rfl, fun _ _ => rfl⟩
  get_set_ne := forall_slots.mpr
    ⟨forall_slots.mpr ⟨fun h => absurd rfl h, fun _ _ _ => rfl⟩,
      forall_slots.mpr ⟨fun _ _ _ => rfl, fun h => absurd rfl h⟩⟩
  needed := by
    refine forall_slots.mpr ⟨fun _ a ha => ?_, fun _ a ha => ?_⟩
    · obtain ⟨name, divisions⟩ := a
      obtain rfl : name = none := ha
      exact ⟨_, rfl⟩
    · obtain ⟨name, divisions⟩ := a
      obtain rfl : divisions = none := ha
      cases name <;> exact ⟨_, rfl⟩

theorem ofFields?_eq (look : Text → Option Value) :
    ofFields? look = (look "name".toList).bind fun n =>
      ((look "divisions".toList).bind (Value.listOf? Division.ofValue?)).bind fun ds =>
        some ⟨n, ds⟩ := by
  rw [ofFields?]
  cases look "divisions".toList <;> rfl

theorem agrees : Agrees record.read FieldsOnce ofValue? := by
  refine madeOf.agrees (fun look a hd => ?_) fun look hnone => ?_
  · obtain ⟨hname, hdivisions⟩ := forall_slots.mp hd
    obtain ⟨name, divisions⟩ := a
    have hname : look "name".toList = name := (Option.bind_fun_some _).symm.trans hname.bind_eq
    have hdivisions : (look "divisions".toList).bind (Value.listOf? Division.ofValue?) = divisions :=
      hdivisions.bind_eq
    rw [ofFields?_eq, hname, hdivisions]
    cases name <;> cases divisions <;> rfl
  · obtain ⟨g, hg⟩ | ⟨v, hv, hg⟩ :=
      kept_or_none (look "divisions".toList) (Value.listOf? Division.ofValue?)
    · have hd : Drafted slots look ⟨look "name".toList, g⟩ := forall_slots.mpr ⟨rfl, hg⟩
      exact absurd hd (hnone _)
    · rw [ofFields?_eq, hv, Option.bind_some, hg]
      cases look "name".toList <;> rfl

end MissionGroup

namespace Workspace

def viewTypeSlot : Slot Draft once where
  key := "viewType"
  get := (·.viewType)
  set := fun v a => { a with viewType := some v }
  read := value
  shrinks := shrinks_value
  required := true
  of? := some
  agrees := agrees_value.congr fun _ => iff_of_true (fun h => absurd h (by decide)) trivial

def userRoleSlot : Slot Draft once where
  key := "userRole"
  get := (·.userRole)
  set := fun v a => { a with userRole := some v }
  read := value
  shrinks := shrinks_value
  required := true
  of? := some
  agrees := agrees_value.congr fun _ => iff_of_true (fun h => absurd h (by decide)) trivial

def groupsSlot : Slot Draft once where
  key := "hierarchical"
  get := (·.groups)
  set := fun v a => { a with groups := some v }
  read := readList MissionGroup.record.read MissionGroup.record.shrinks_read
  shrinks := shrinks_readList MissionGroup.record.shrinks_read
  required := false
  of? := Value.listOf? MissionGroup.ofValue?
  agrees := (agrees_readList MissionGroup.record.shrinks_read MissionGroup.agrees).congr fun _ =>
    forall_prop_of_true rfl

def slots : List (Slot Draft once) := [viewTypeSlot, userRoleSlot, groupsSlot]

theorem forall_slots {P : Slot Draft once → Prop} :
    (∀ x ∈ slots, P x) ↔ P viewTypeSlot ∧ P userRoleSlot ∧ P groupsSlot := by
  rw [slots, List.forall_mem_cons, List.forall_mem_cons, List.forall_mem_singleton]

theorem madeOf : record.MadeOf slots where
  fields := rfl
  nodup := by decide
  empty := forall_slots.mpr ⟨rfl, rfl, rfl⟩
  get_set := forall_slots.mpr ⟨fun _ _ => rfl, fun _ _ => rfl, fun _ _ => rfl⟩
  get_set_ne := forall_slots.mpr
    ⟨forall_slots.mpr ⟨fun h => absurd rfl h, fun _ _ _ => rfl, fun _ _ _ => rfl⟩,
      forall_slots.mpr ⟨fun _ _ _ => rfl, fun h => absurd rfl h, fun _ _ _ => rfl⟩,
      forall_slots.mpr ⟨fun _ _ _ => rfl, fun _ _ _ => rfl, fun h => absurd rfl h⟩⟩
  needed := by
    refine forall_slots.mpr ⟨fun _ a ha => ?_, fun _ a ha => ?_, fun h => absurd h (by decide)⟩
    · obtain ⟨viewType, userRole, groups⟩ := a
      obtain rfl : viewType = none := ha
      exact ⟨_, rfl⟩
    · obtain ⟨viewType, userRole, groups⟩ := a
      obtain rfl : userRole = none := ha
      cases viewType <;> exact ⟨_, rfl⟩

theorem agrees : Agrees record.read FieldsOnce ofValue? := by
  refine madeOf.agrees (fun look a hd => ?_) fun look hnone => ?_
  · obtain ⟨hview, hrole, hgroups⟩ := forall_slots.mp hd
    obtain ⟨viewType, userRole, groups⟩ := a
    have hview : look "viewType".toList = viewType :=
      (Option.bind_fun_some _).symm.trans hview.bind_eq
    have hrole : look "userRole".toList = userRole :=
      (Option.bind_fun_some _).symm.trans hrole.bind_eq
    have hgroups : (look "hierarchical".toList).map (Value.listOf? MissionGroup.ofValue?) =
        groups.map some := hgroups
    rw [ofFields?, hview, hrole]
    cases hv : look "hierarchical".toList with
    | none =>
      rw [hv] at hgroups
      obtain rfl : groups = none := Option.map_eq_none_iff.mp hgroups.symm
      cases viewType <;> cases userRole <;> rfl
    | some v =>
      rw [hv] at hgroups
      obtain ⟨gs, rfl, hgs⟩ := Option.map_eq_some_iff.mp hgroups.symm
      dsimp only
      rw [← hgs]
      cases viewType <;> cases userRole <;> rfl
  · obtain ⟨g, hg⟩ | ⟨v, hv, hg⟩ :=
      kept_or_none (look "hierarchical".toList) (Value.listOf? MissionGroup.ofValue?)
    · have hd : Drafted slots look ⟨look "viewType".toList, look "userRole".toList, g⟩ :=
        forall_slots.mpr ⟨rfl, rfl, hg⟩
      exact absurd hd (hnone _)
    · rw [ofFields?, hv]
      dsimp only
      rw [hg]
      rfl

section Wrapped

variable {σ : Type} {inner : Record σ Workspace} {once : Value → Prop}
  {of? : Value → Option Workspace}

def wrapperSlot (key : String) (h : Agrees inner.read once of?) :
    Slot (Option Workspace) fun _ => once where
  key := key
  get := id
  set := fun v _ => some v
  read := inner.read
  shrinks := inner.shrinks_read
  required := true
  of? := of?
  agrees := h

theorem madeOf_wrapped (name key : String) (h : Agrees inner.read once of?) :
    (wrapped name key inner).MadeOf [wrapperSlot key h] where
  fields := rfl
  nodup := List.nodup_singleton _
  empty := List.forall_mem_singleton.mpr rfl
  get_set := List.forall_mem_singleton.mpr fun _ _ => rfl
  get_set_ne := List.forall_mem_singleton.mpr (List.forall_mem_singleton.mpr fun h => absurd rfl h)
  needed := by
    refine List.forall_mem_singleton.mpr fun _ a ha => ?_
    obtain rfl : a = none := ha
    exact ⟨_, rfl⟩

theorem agrees_wrapped (name key : String) (h : Agrees inner.read once of?) :
    Agrees (wrapped name key inner).read (Value.FieldsOnce [key.toList] fun _ => once)
      (within? key of?) := by
  refine (madeOf_wrapped name key h).agrees (fun look a hd => ?_) fun look hnone => ?_
  · have hkeeps : (look key.toList).bind of? = a := (List.forall_mem_singleton.mp hd).bind_eq
    have hneed : (need key a).toOption = a := by cases a <;> rfl
    exact hkeeps.trans hneed.symm
  · obtain ⟨g, hg⟩ | ⟨v, hv, hg⟩ := kept_or_none (look key.toList) of?
    · have hd : Drafted [wrapperSlot key h] look g := List.forall_mem_singleton.mpr hg
      exact absurd hd (hnone g)
    · rw [hv]
      exact hg

end Wrapped

theorem agrees_document : Agrees document.read DocumentOnce ofDocument? :=
  agrees_wrapped "Envelope" "data" (agrees_wrapped "Data" "workspace" agrees)

end Workspace

end CallStrip

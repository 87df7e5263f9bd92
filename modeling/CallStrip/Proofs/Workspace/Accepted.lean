import CallStrip.Proofs.Workspace.Summary

/-!
Which documents are accepted: at each place of a record there is an object that carries its keys, or
a list of its fields in order, and no field is given twice.
-/

namespace CallStrip

open Json

namespace Json.Value

variable {α : Type} {P Q : Value → Prop} {required optional keys : List Text} {v : Value}

def ListOf (P : Value → Prop) (v : Value) : Prop := ∃ vs, v = .list vs ∧ ∀ x ∈ vs, P x

/-- An object that carries the required keys, or a list of the values of all keys in order, of which
only those of optional keys may be left off. -/
def RecordOf (required optional : List Text) (P : Text → Value → Prop) (v : Value) : Prop :=
  (∃ ms, v = .object ms ∧ (∀ k ∈ required, k ∈ ms.map (·.1)) ∧
    ∀ k ∈ required ++ optional, ∀ x, ms.lookup k = some x → P k x) ∨
  ∃ vs, v = .list vs ∧ required.length ≤ vs.length ∧ vs.length ≤ (required ++ optional).length ∧
    ∀ m ∈ (required ++ optional).zip vs, P m.1 m.2

theorem isSome_mapM_iff {of? : Value → Option α} {vs : List Value} :
    (vs.mapM of?).isSome = true ↔ ∀ x ∈ vs, (of? x).isSome = true := by
  induction vs with
  | nil => simp
  | cons x vs ih =>
    rw [List.mapM_cons, List.forall_mem_cons, ← ih]
    cases of? x with
    | none => simp
    | some a => cases vs.mapM of? <;> simp

theorem isSome_listOf?_iff {of? : Value → Option α} (h : ∀ x, (of? x).isSome = true ↔ P x) :
    (v.listOf? of?).isSome = true ↔ v.ListOf P := by
  cases v with
  | list vs =>
    have hmap : (Value.list vs).listOf? of? = vs.mapM of? := rfl
    rw [hmap, isSome_mapM_iff]
    simp [ListOf, h]
  | _ => simp [listOf?, items?, ListOf]

theorem lookup_zip_of_mem {k j : Text} {vs : List Value} {w : Value} (hk : j ∉ keys)
    (hj : k ∈ keys) :
    ((j :: keys).zip (w :: vs)).lookup k = (keys.zip vs).lookup k := by
  rw [List.zip_cons_cons, lookup_cons, if_neg]
  rintro rfl
  exact hk hj

theorem forall_lookup_zip_iff (hkeys : keys.Nodup) {vs : List Value} {P : Text → Value → Prop} :
    (∀ k ∈ keys, ∀ x, (keys.zip vs).lookup k = some x → P k x) ↔
      ∀ m ∈ keys.zip vs, P m.1 m.2 := by
  induction keys generalizing vs with
  | nil => simp
  | cons j keys ih =>
    obtain ⟨hj, hkeys⟩ := List.nodup_cons.mp hkeys
    cases vs with
    | nil => simp
    | cons w vs =>
      have hfirst : ((j :: keys).zip (w :: vs)).lookup j = some w := by
        rw [List.zip_cons_cons, lookup_cons, if_pos rfl]
      have hrest : (∀ k ∈ keys, ∀ x, ((j :: keys).zip (w :: vs)).lookup k = some x → P k x) ↔
          ∀ m ∈ keys.zip vs, P m.1 m.2 := by
        rw [← ih hkeys]
        exact forall₂_congr fun k hk => by rw [lookup_zip_of_mem hj hk]
      rw [List.forall_mem_cons, hrest, hfirst, List.zip_cons_cons, List.forall_mem_cons]
      simp

theorem isSome_lookup_zip_iff (hkeys : (required ++ optional).Nodup) {vs : List Value} :
    (∀ k ∈ required, (((required ++ optional).zip vs).lookup k).isSome = true) ↔
      required.length ≤ vs.length := by
  induction required generalizing vs with
  | nil => simp
  | cons j required ih =>
    rw [List.cons_append] at hkeys ⊢
    obtain ⟨hj, hkeys⟩ := List.nodup_cons.mp hkeys
    cases vs with
    | nil => exact iff_of_false (fun h => by simpa using h j List.mem_cons_self) (by simp)
    | cons w vs =>
      have hfirst : ((j :: (required ++ optional)).zip (w :: vs)).lookup j = some w := by
        rw [List.zip_cons_cons, lookup_cons, if_pos rfl]
      have hrest : (∀ k ∈ required,
          (((j :: (required ++ optional)).zip (w :: vs)).lookup k).isSome = true) ↔
          required.length ≤ vs.length := by
        rw [← ih hkeys]
        exact forall₂_congr fun k hk => by
          rw [lookup_zip_of_mem hj (List.mem_append_left optional hk)]
      rw [List.forall_mem_cons, hrest, hfirst]
      simp

theorem isSome_recordOf?_iff {P : Text → Value → Prop} {of? : (Text → Option Value) → Option α}
    (hsplit : required ++ optional = keys) (hkeys : keys.Nodup)
    (hof : ∀ look, (of? look).isSome = true ↔
      (∀ k ∈ required, (look k).isSome = true) ∧
        ∀ k ∈ required ++ optional, ∀ x, look k = some x → P k x) :
    (v.recordOf? keys of?).isSome = true ↔ v.RecordOf required optional P := by
  subst hsplit
  cases v with
  | scalar x => simp [recordOf?, fields?, RecordOf]
  | object ms =>
    have hrecord :
        (Value.object ms).recordOf? (required ++ optional) of? = of? fun k => ms.lookup k := rfl
    rw [hrecord, hof]
    simp [RecordOf]
  | list vs =>
    by_cases hlen : vs.length ≤ (required ++ optional).length
    · have hrecord : (Value.list vs).recordOf? (required ++ optional) of? =
          of? fun k => ((required ++ optional).zip vs).lookup k := by
        rw [recordOf?, fields?, if_pos hlen]
        rfl
      rw [hrecord, hof, isSome_lookup_zip_iff hkeys, forall_lookup_zip_iff hkeys]
      simp [RecordOf, hlen, -List.length_append]
    · have hrecord : (Value.list vs).recordOf? (required ++ optional) of? = none := by
        rw [recordOf?, fields?, if_neg hlen]
        rfl
      rw [hrecord]
      simp [RecordOf, hlen, -List.length_append]

end Json.Value

theorem forall_eq_some_iff {α : Type} {P : α → Prop} {a : α} :
    (∀ x, some a = some x → P x) ↔ P a := by
  simp

namespace Division

def Shaped (v : Value) : Prop :=
  v.RecordOf ["departments".toList] [] fun _ x => x.ListOf fun _ => True

theorem isSome_ofValue?_iff {v : Value} : (ofValue? v).isSome = true ↔ Shaped v := by
  refine Value.isSome_recordOf?_iff rfl (by decide) fun look => ?_
  have hitems (x : Value) : x.items?.isSome = true ↔ x.ListOf fun _ => True := by
    rw [← Value.listOf?_some]
    exact Value.isSome_listOf?_iff fun _ => by simp
  rw [List.append_nil, List.forall_mem_singleton, List.forall_mem_singleton, ofFields?]
  cases look "departments".toList with
  | none => exact iff_of_false Bool.false_ne_true fun h => Bool.false_ne_true h.1
  | some x =>
    rw [forall_eq_some_iff, ← hitems, Option.bind_eq_bind, Option.bind_some]
    cases x.items? <;> simp

end Division

namespace MissionGroup

def Shaped (v : Value) : Prop :=
  v.RecordOf ["name".toList, "divisions".toList] [] fun k x =>
    k = "divisions".toList → x.ListOf Division.Shaped

theorem isSome_ofValue?_iff {v : Value} : (ofValue? v).isSome = true ↔ Shaped v := by
  refine Value.isSome_recordOf?_iff rfl (by decide) fun look => ?_
  have hlist (x : Value) :
      (x.listOf? Division.ofValue?).isSome = true ↔ x.ListOf Division.Shaped :=
    Value.isSome_listOf?_iff fun _ => Division.isSome_ofValue?_iff
  rw [List.append_nil, List.forall_mem_cons, List.forall_mem_singleton, List.forall_mem_cons,
    List.forall_mem_singleton, ofFields?]
  cases look "name".toList with
  | none => exact iff_of_false Bool.false_ne_true fun h => Bool.false_ne_true h.1.1
  | some n =>
    cases look "divisions".toList with
    | none => exact iff_of_false Bool.false_ne_true fun h => Bool.false_ne_true h.1.2
    | some x =>
      rw [forall_eq_some_iff, forall_eq_some_iff, forall_prop_of_true rfl, ← hlist x,
        Option.bind_eq_bind, Option.bind_some, Option.bind_eq_bind, Option.bind_some]
      cases x.listOf? Division.ofValue? <;> simp

end MissionGroup

namespace Workspace

def Shaped (v : Value) : Prop :=
  v.RecordOf ["viewType".toList, "userRole".toList] ["hierarchical".toList] fun k x =>
    k = "hierarchical".toList → x.ListOf MissionGroup.Shaped

def DocumentShaped (v : Value) : Prop :=
  v.RecordOf ["data".toList] [] fun _ x => x.RecordOf ["workspace".toList] [] fun _ y => Shaped y

theorem isSome_ofValue?_iff {v : Value} : (ofValue? v).isSome = true ↔ Shaped v := by
  refine Value.isSome_recordOf?_iff rfl (by decide) fun look => ?_
  have hlist (x : Value) :
      (x.listOf? MissionGroup.ofValue?).isSome = true ↔ x.ListOf MissionGroup.Shaped :=
    Value.isSome_listOf?_iff fun _ => MissionGroup.isSome_ofValue?_iff
  have hfields : (∀ k ∈ ["viewType".toList, "userRole".toList] ++ ["hierarchical".toList],
      ∀ x, look k = some x → k = "hierarchical".toList → x.ListOf MissionGroup.Shaped) ↔
      ∀ x, look "hierarchical".toList = some x → x.ListOf MissionGroup.Shaped := by
    simp
  rw [List.forall_mem_cons, List.forall_mem_singleton, hfields, ofFields?]
  cases look "hierarchical".toList with
  | none => cases look "viewType".toList <;> cases look "userRole".toList <;> simp
  | some x =>
    rw [forall_eq_some_iff, ← hlist]
    dsimp only
    cases x.listOf? MissionGroup.ofValue? <;> cases look "viewType".toList <;>
      cases look "userRole".toList <;> simp

theorem isSome_within?_iff {key : String} {of? : Value → Option Workspace} {P : Value → Prop}
    {v : Value} (h : ∀ x, (of? x).isSome = true ↔ P x) :
    (within? key of? v).isSome = true ↔ v.RecordOf [key.toList] [] fun _ => P := by
  refine Value.isSome_recordOf?_iff (List.append_nil _) (List.nodup_singleton _) fun look => ?_
  rw [List.append_nil, List.forall_mem_singleton, List.forall_mem_singleton]
  cases look key.toList with
  | none => exact iff_of_false Bool.false_ne_true fun h => Bool.false_ne_true h.1
  | some x =>
    rw [forall_eq_some_iff, ← h]
    simp

theorem isSome_ofDocument?_iff {v : Value} :
    (ofDocument? v).isSome = true ↔ DocumentShaped v :=
  isSome_within?_iff fun _ => isSome_within?_iff fun _ => isSome_ofValue?_iff

end Workspace

namespace Summary

variable {document : Bytes} {x : Value}

/-- A document with a value is accepted exactly if the value has the shape of a workspace and no
record has a field twice; all others are rejected, and nothing is printed. -/
theorem accepts_iff_shaped (document : Bytes) (x : Value) (hx : parse document = .ok x)
    (t : FileTree) :
    ((∃ s, ofDocument document = .ok s) ↔ Workspace.DocumentShaped x ∧
        ∀ v, asWritten document = .ok v → Workspace.DocumentOnce v) ∧
      ((¬ ∃ s, ofDocument document = .ok s) →
        ∃ f, ofDocument document = .error f ∧
          (Program.summarize (pure document) : StateM FileTree Transcript).run t =
            (.failed [] (complaint f), t)) := by
  obtain ⟨v, hv, rfl⟩ := parse_eq_ok hx
  have honce : (∀ w, asWritten document = .ok w → Workspace.DocumentOnce w) ↔
      Workspace.DocumentOnce v := by
    rw [hv]
    exact ⟨fun h => h v rfl, fun h w hw => Except.ok.inj hw ▸ h⟩
  rw [honce, ← Workspace.isSome_ofDocument?_iff]
  obtain ⟨w, honce, hw, hread⟩ | ⟨hnone, f, hread⟩ := ofDocument_cases hv
  · refine ⟨iff_of_true ⟨_, hread⟩ ⟨by rw [hw]; rfl, honce⟩, fun h => absurd ⟨_, hread⟩ h⟩
  · have hreject : ¬ ∃ s, ofDocument document = .ok s := by
      rintro ⟨s, hs⟩
      rw [hread] at hs
      cases hs
    refine ⟨iff_of_false hreject ?_, fun _ => ⟨f, hread, run_summarize_error hread t⟩⟩
    rintro ⟨hsome, honce⟩
    rw [hnone honce] at hsome
    cases hsome

def bareLists : Bytes := Utf8.encode "[[[\"grid\",\"admin\"]]]".toList

theorem parse_bareLists : ∃ vs, parse bareLists = .ok (.list vs) := by
  have h : ((parse bareLists).toOption.bind Value.items?).isSome = true := by decide +kernel
  cases hp : parse bareLists with
  | error f => rw [hp] at h; cases h
  | ok v =>
    rw [hp] at h
    cases v with
    | list vs => exact ⟨vs, rfl⟩
    | _ => cases h

theorem ofDocument_bareLists : ∃ s, ofDocument bareLists = .ok s := by
  have h : (ofDocument bareLists).toOption.isSome = true := by decide +kernel
  cases hs : ofDocument bareLists with
  | error f => rw [hs] at h; cases h
  | ok s => exact ⟨s, rfl⟩

theorem accepts_iff_shaped_bareLists :
    ∃ x, parse bareLists = .ok x ∧ Workspace.DocumentShaped x ∧
      ∀ v, asWritten bareLists = .ok v → Workspace.DocumentOnce v := by
  obtain ⟨vs, hvs⟩ := parse_bareLists
  have h := (accepts_iff_shaped bareLists _ hvs (.fresh "home" (by decide))).1
  exact ⟨_, hvs, h.mp ofDocument_bareLists⟩

theorem not_forall_accepted_object :
    ¬ ∀ document x s, parse document = .ok x → ofDocument document = .ok s →
      ∃ ms, x = .object ms := by
  intro h
  obtain ⟨vs, hvs⟩ := parse_bareLists
  obtain ⟨s, hs⟩ := ofDocument_bareLists
  obtain ⟨ms, hms⟩ := h bareLists _ s hvs hs
  cases hms

end Summary

end CallStrip

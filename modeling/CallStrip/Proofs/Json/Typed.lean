import CallStrip.Json.Record
import CallStrip.Proofs.Json.Skipping

/-!
Reading by shape. On a document that holds some value, a reader of lists or records yields what a
function makes of the settled value, and fails where that function has nothing or the members of
an object repeat a field.
-/

namespace CallStrip.Json

open Reading (bind_eq_ok bind_ok bind_error map_ok map_error map_eq_ok)
open Reader

variable {α β σ : Type} {s r t : Bytes} {b : UInt8} {k : Text} {v : Value} {depth : Nat}
  {o : Option α} {P : Prop} {x : Except Fault (α × Bytes)}

def Yields (P : Prop) (o : Option α) (r : Bytes) (x : Except Fault (α × Bytes)) : Prop :=
  (∃ a, P ∧ o = some a ∧ x = .ok (a, r)) ∨ (P → o = none) ∧ ∃ f, x = .error f

theorem Yields.error (h : P → o = none) {f : Fault} (hx : x = .error f) : Yields P o r x :=
  .inr ⟨h, f, hx⟩

theorem Yields.of_eq (h : Yields P o r x) {y : Except Fault (α × Bytes)} (hy : y = x) :
    Yields P o r y :=
  hy ▸ h

/-- A reader agrees with a function on settled values, provided that no field is repeated. -/
def Agrees (p : Nat → Reader α) (once : Value → Prop) (of? : Value → Option α) : Prop :=
  ∀ ⦃depth s v r⦄, written depth s = .ok (v, r) → Yields (once v) (of? v.settled) r (p depth s)

theorem Agrees.whole {p : Nat → Reader α} {once : Value → Prop} {of? : Value → Option α}
    (h : Agrees p once of?) {document : Bytes} (hv : asWritten document = .ok v) :
    (∃ a, once v ∧ of? v.settled = some a ∧ Json.whole (p depthLimit) document = .ok a) ∨
      (once v → of? v.settled = none) ∧ ∃ f, Json.whole (p depthLimit) document = .error f := by
  obtain ⟨r, u, hw, hr⟩ := whole_eq_ok hv
  obtain ⟨a, honce, hof, hread⟩ | ⟨hnone, f, hread⟩ := h hw
  · exact .inl ⟨a, honce, hof, whole_ok hread hr⟩
  · exact .inr ⟨hnone, _, whole_error hread⟩

theorem Agrees.congr {p : Nat → Reader α} {once once' : Value → Prop} {of? : Value → Option α}
    (h : Agrees p once of?) (honce : ∀ v, once' v ↔ once v) : Agrees p once' of? :=
  fun _ _ v _ hw => propext (honce v) ▸ h hw

theorem agrees_value : Agrees value (fun _ => True) some := by
  intro depth s v r h
  exact .inl ⟨v.settled, trivial, rfl, by rw [value_eq, map_ok h]⟩

def Value.items? : Value → Option (List Value)
  | .list vs => some vs
  | _ => none

theorem mismatched_error (wanted : Wanted) (b : UInt8) (s : Bytes) :
    ∃ f, (mismatched wanted b : Reader α) s = .error f := by
  unfold mismatched
  split
  · exact ⟨_, rfl⟩
  · split
    · exact ⟨_, rfl⟩
    · cases hx : scalar b s with
      | error f => exact ⟨f, bind_error hx⟩
      | ok p =>
      obtain ⟨x, r⟩ := p
      rw [bind_ok hx]
      cases x <;> exact ⟨_, rfl⟩

theorem yields_items {p : Reader β} {q : Reader α} {once : β → Prop} {of? : β → Option α}
    (hp : Shrinks p) (hq : Shrinks q)
    (h : ∀ ⦃s v r⦄, p s = .ok (v, r) → Yields (once v) (of? v) r (q s)) {first : Bool}
    {vs : List β} (hs : items p hp first s = .ok (vs, r)) :
    Yields (∀ v ∈ vs, once v) (vs.mapM of?) r (items q hq first s) := by
  fun_induction items p hp first s generalizing vs r with
  | case1 | case3 | case4 => cases hs
  | case2 first s t hm =>
    cases hs
    exact .inl ⟨[], by simp, rfl, by rw [items_eq, bind_ok hm]; rfl⟩
  | case5 first s t hm v u hv vs w hvs ih =>
    cases hs
    have hstep : items q hq first s = (q >>= fun a =>
        (items q hq false : Reader (List α)) >>= fun as => pure (a :: as)) t := by
      rw [items_eq, bind_ok hm, if_pos rfl]
    obtain ⟨a, ha, hof, hx⟩ | ⟨hnone, f, hx⟩ := h hv
    · rw [bind_ok hx] at hstep
      obtain ⟨as, has, hofs, hxs⟩ | ⟨hnone, f, hxs⟩ := ih hvs
      · refine .inl ⟨a :: as, List.forall_mem_cons.mpr ⟨ha, has⟩, ?_, hstep.trans (bind_ok hxs)⟩
        rw [List.mapM_cons, hof, hofs]
        rfl
      · refine .error (fun hall => ?_) (hstep.trans (bind_error hxs))
        rw [List.mapM_cons, hof, hnone (List.forall_mem_cons.mp hall).2]
        rfl
    · refine .error (fun hall => ?_) (hstep.trans (bind_error hx))
      rw [List.mapM_cons, hnone (List.forall_mem_cons.mp hall).1]
      rfl

def Value.listOf? (of? : Value → Option α) (v : Value) : Option (List α) := do
  (← v.items?).mapM of?

theorem Value.listOf?_some (v : Value) : v.listOf? some = v.items? := by
  have hmap (vs : List Value) : vs.mapM some = some vs := by
    induction vs with
    | nil => rfl
    | cons w vs ih => rw [List.mapM_cons, ih]; rfl
  cases h : v.items? with
  | none => rw [Value.listOf?, h]; rfl
  | some vs => rw [Value.listOf?, h]; exact hmap vs

def Value.AllItems (P : Value → Prop) (v : Value) : Prop :=
  ∀ vs, v.items? = some vs → ∀ x ∈ vs, P x

instance {P : Value → Prop} [DecidablePred P] : (v : Value) → Decidable (v.AllItems P)
  | .list vs => decidable_of_iff (∀ x ∈ vs, P x) (by simp [Value.AllItems, Value.items?])
  | .object _ => .isTrue fun _ h => nomatch h
  | .scalar _ => .isTrue fun _ h => nomatch h

theorem typedList_of_ink {p : Reader α} (hp : Shrinks p) {d : Nat}
    (hb : nextInk .endInValue s = .ok (b, t)) :
    typedList p hp d s =
      (if b = 0x5B then if d = 0 then fail .tooDeep else (items p hp true : Reader (List α))
      else mismatched .list b) t := by
  rw [typedList, bind_ok hb]

def readList (p : Nat → Reader α) (hp : ∀ d, Shrinks (p d)) (d : Nat) : Reader (List α) :=
  typedList (p (d - 1)) (hp (d - 1)) d

theorem shrinks_readList {p : Nat → Reader α} (hp : ∀ d, Shrinks (p d)) (d : Nat) :
    Shrinks (readList p hp d) :=
  shrinks_typedList _ _ _

theorem agrees_readList {p : Nat → Reader α} {once : Value → Prop} {of? : Value → Option α}
    (hp : ∀ d, Shrinks (p d)) (h : Agrees p once of?) :
    Agrees (readList p hp) (Value.AllItems once) (Value.listOf? of?) := by
  intro depth s v r hw
  rw [readList]
  obtain ⟨b, t, hb, ⟨x, rfl, hne, -, -⟩ | ⟨d, vs, rfl, rfl, rfl, hvs⟩ |
    ⟨d, ms, rfl, rfl, rfl, -⟩⟩ := written_cases hw
  · obtain ⟨f, hf⟩ := mismatched_error (α := List α) .list b t
    refine .error (fun _ => ?_) ((typedList_of_ink _ hb).trans (by rw [if_neg hne]; exact hf))
    rw [Value.settled]
    rfl
  · have hitems := yields_items (shrinks_written d) (hp d) (fun s v r hv => h hv) hvs
    have hread : typedList (p d) (hp d) (d + 1) s = items (p d) (hp d) true t := by
      rw [typedList_of_ink _ hb, if_pos rfl, if_neg (Nat.succ_ne_zero d)]
    have hof : (Value.list vs).settled.listOf? of? = vs.mapM fun v => of? v.settled := by
      rw [Value.settled, settledItems_eq]
      exact List.mapM_map
    have honce : Value.AllItems once (.list vs) ↔ ∀ v ∈ vs, once v := by
      simp [Value.AllItems, Value.items?]
    rw [honce, hof]
    exact hitems.of_eq hread
  · refine .error (fun _ => ?_) ((typedList_of_ink _ hb).trans rfl)
    rw [Value.settled]
    rfl

end CallStrip.Json

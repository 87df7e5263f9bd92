import CallStrip.Json.Value

/-!
Values as they are written, where an object keeps all its members in the order of the document. A
value is what is written, settled: the members are put in the order of their keys, of several with
one key the last.
-/

namespace CallStrip.Json

open Reading (bind_eq_ok bind_ok bind_error map_ok map_error map_eq_ok)
open Reader

variable {α β σ τ : Type} {s r : Bytes} {depth : Nat} {v : Value}

def appendMember (inner : Reader α) (k : Text) (ms : List (Text × α)) :
    Reader (List (Text × α)) := do
  colon
  return ms ++ [(k, ← inner)]

theorem stays_appendMember {inner : Reader α} (h : Stays inner) (k : Text) (ms : List (Text × α)) :
    Stays (appendMember inner k ms) :=
  shrinks_colon.stays.bind fun _ => h.bind fun _ => stays_pure _

def writtenReader : Nat → { p : Reader Value // Shrinks p }
  | 0 => valueReader 0
  | depth + 1 =>
    let inner := writtenReader depth
    have hm := stays_appendMember inner.2.stays
    ⟨do
      let b ← nextInk .endInValue
      if b = 0x5B then Value.list <$> (items inner.1 inner.2 true : Reader (List Value))
      else if b = 0x7B then
        Value.object <$> (members (appendMember inner.1) hm true [] : Reader (List (Text × Value)))
      else Value.scalar <$> Json.scalar b,
    (shrinks_nextInk _).bind fun b => by
      split
      · exact (stays_items inner.1 inner.2 true).map _
      · split
        · exact (stays_members _ hm true []).map _
        · exact (stays_scalar b).map _⟩

def written (depth : Nat) : Reader Value := (writtenReader depth).1

theorem shrinks_written (depth : Nat) : Shrinks (written depth) := (writtenReader depth).2

theorem stays_member_written (depth : Nat) (k : Text) (ms : List (Text × Value)) :
    Stays (appendMember (written depth) k ms) :=
  stays_appendMember (shrinks_written depth).stays k ms

theorem written_cases (h : written depth s = .ok (v, r)) :
    ∃ b t, nextInk .endInValue s = .ok (b, t) ∧
      ((∃ x, v = .scalar x ∧ b ≠ 0x5B ∧ b ≠ 0x7B ∧ Json.scalar b t = .ok (x, r)) ∨
        (∃ d vs, depth = d + 1 ∧ v = .list vs ∧ b = 0x5B ∧
          items (written d) (shrinks_written d) true t = .ok (vs, r)) ∨
        ∃ d ms, depth = d + 1 ∧ v = .object ms ∧ b = 0x7B ∧
          members (appendMember (written d)) (stays_member_written d) true [] t = .ok (ms, r)) := by
  cases depth with
  | zero =>
    obtain ⟨b, t, hb, h⟩ := bind_eq_ok h
    refine ⟨b, t, hb, .inl ?_⟩
    split at h
    · cases h
    · next hopen =>
      obtain ⟨hlist, hobject⟩ : b ≠ 0x5B ∧ b ≠ 0x7B := by simpa using hopen
      obtain ⟨x, hx, rfl⟩ := map_eq_ok h
      exact ⟨x, rfl, hlist, hobject, hx⟩
  | succ d =>
    obtain ⟨b, t, hb, h⟩ := bind_eq_ok h
    refine ⟨b, t, hb, ?_⟩
    split at h
    · next hlist =>
      obtain ⟨vs, hvs, rfl⟩ := map_eq_ok h
      exact .inr (.inl ⟨d, vs, rfl, rfl, hlist, hvs⟩)
    · next hlist =>
      split at h
      · next hobject =>
        obtain ⟨ms, hms, rfl⟩ := map_eq_ok h
        exact .inr (.inr ⟨d, ms, rfl, rfl, hobject, hms⟩)
      · next hobject =>
        obtain ⟨x, hx, rfl⟩ := map_eq_ok h
        exact .inl ⟨x, rfl, hlist, hobject, hx⟩

def collect (ms : List (Text × α)) : List (Text × α) := ms.foldl (fun ms m => put m.1 m.2 ms) []

mutual

def Value.settled : Value → Value
  | .scalar x => .scalar x
  | .list vs => .list (settledItems vs)
  | .object ms => .object (collect (settledMembers ms))

def settledItems : List Value → List Value
  | [] => []
  | v :: vs => v.settled :: settledItems vs

def settledMembers : List (Text × Value) → List (Text × Value)
  | [] => []
  | (k, v) :: ms => (k, v.settled) :: settledMembers ms

end

theorem settledItems_eq (vs : List Value) : settledItems vs = vs.map Value.settled := by
  induction vs with
  | nil => rw [settledItems]; rfl
  | cons v vs ih => rw [settledItems, ih]; rfl

theorem settledMembers_eq (ms : List (Text × Value)) :
    settledMembers ms = ms.map fun m => (m.1, m.2.settled) := by
  induction ms with
  | nil => rw [settledMembers]; rfl
  | cons m ms ih => rw [settledMembers, ih]; rfl

theorem collect_append (ms : List (Text × α)) (k : Text) (v : α) :
    collect (ms ++ [(k, v)]) = put k v (collect ms) := by
  rw [collect, List.foldl_append]
  rfl

theorem items_eq (item : Reader α) (h : Shrinks item) (first : Bool) (s : Bytes) :
    items item h first s = (moreItems first >>= fun more =>
      if more then
        item >>= fun v => (items item h false : Reader (List α)) >>= fun vs => pure (v :: vs)
      else pure []) s := by
  rw [items]
  split
  · next hm => rw [bind_error hm]
  · next hm => rw [bind_ok hm]; rfl
  · next hm =>
    rw [bind_ok hm, if_pos rfl]
    split
    · next hi => rw [bind_error hi]
    · next hi =>
      rw [bind_ok hi]
      split
      · next hvs => rw [bind_error hvs]
      · next hvs => rw [bind_ok hvs]; rfl

theorem items_cases {item : Reader α} {h : Shrinks item} {first : Bool} {vs : List α}
    (hs : items item h first s = .ok (vs, r)) :
    vs = [] ∧ moreItems first s = .ok (false, r) ∨
      ∃ t v u ws, vs = v :: ws ∧ moreItems first s = .ok (true, t) ∧ item t = .ok (v, u) ∧
        items item h false u = .ok (ws, r) := by
  rw [items_eq] at hs
  obtain ⟨more, t, hmore, hs⟩ := bind_eq_ok hs
  cases more with
  | false => cases hs; exact .inl ⟨rfl, hmore⟩
  | true =>
    rw [if_pos rfl] at hs
    obtain ⟨v, u, hv, hs⟩ := bind_eq_ok hs
    obtain ⟨ws, w, hws, hs⟩ := bind_eq_ok hs
    cases hs
    exact .inr ⟨t, v, u, ws, rfl, hmore, hv, hws⟩

theorem members_eq (member : Text → σ → Reader σ) (h : ∀ k a, Stays (member k a)) (first : Bool)
    (a : σ) (s : Bytes) :
    members member h first a s = (nextKey? first >>= fun key =>
      match key with
      | none => pure a
      | some k => member k a >>= members member h false) s := by
  rw [members]
  split
  · next hk => rw [bind_error hk]
  · next hk => rw [bind_ok hk]; rfl
  · next hk =>
    rw [bind_ok hk]
    dsimp only
    split
    · next hv => rw [bind_error hv]
    · next hv => rw [bind_ok hv]

theorem items_map {p : Reader α} {q : Reader β} {f : α → β} (hp : Shrinks p) (hq : Shrinks q)
    (h : q = f <$> p) (first : Bool) (s : Bytes) :
    items q hq first s =
      (List.map f <$> (items p hp first : Reader (List α)) : Reader (List β)) s := by
  subst h
  fun_induction items p hp first s with
  | case1 first s e hm =>
    have hitems : items p hp first s = .error e := by rw [items_eq, bind_error hm]
    rw [items_eq, bind_error hm, map_error hitems]
  | case2 first s r hm =>
    have hitems : items p hp first s = .ok ([], r) := by rw [items_eq, bind_ok hm]; rfl
    rw [items_eq, bind_ok hm, map_ok hitems]
    rfl
  | case3 first s r hm e hi =>
    have hitems : items p hp first s = .error e := by
      rw [items_eq, bind_ok hm, if_pos rfl, bind_error hi]
    rw [items_eq, bind_ok hm, if_pos rfl, bind_error (map_error hi), map_error hitems]
  | case4 first s r hm v t hi e hvs ih =>
    have hitems : items p hp first s = .error e := by
      rw [items_eq, bind_ok hm, if_pos rfl, bind_ok hi, bind_error hvs]
    rw [map_error hvs] at ih
    rw [items_eq, bind_ok hm, if_pos rfl, bind_ok (map_ok hi), bind_error ih, map_error hitems]
  | case5 first s r hm v t hi vs u hvs ih =>
    have hitems : items p hp first s = .ok (v :: vs, u) := by
      rw [items_eq, bind_ok hm, if_pos rfl, bind_ok hi, bind_ok hvs]
      rfl
    rw [map_ok hvs] at ih
    rw [items_eq, bind_ok hm, if_pos rfl, bind_ok (map_ok hi), bind_ok ih, map_ok hitems]
    rfl

theorem members_map {member : Text → σ → Reader σ} {member' : Text → τ → Reader τ} {f : σ → τ}
    (hm : ∀ k a, Stays (member k a)) (hm' : ∀ k a, Stays (member' k a))
    (h : ∀ k a, member' k (f a) = f <$> member k a) (first : Bool) (a : σ) (s : Bytes) :
    members member' hm' first (f a) s =
      (f <$> (members member hm first a : Reader σ) : Reader τ) s := by
  fun_induction members member hm first a s with
  | case1 first a s e hk =>
    have hmembers : members member hm first a s = .error e := by rw [members_eq, bind_error hk]
    rw [members_eq, bind_error hk, map_error hmembers]
  | case2 first a s r hk =>
    have hmembers : members member hm first a s = .ok (a, r) := by rw [members_eq, bind_ok hk]; rfl
    rw [members_eq, bind_ok hk, map_ok hmembers]
    rfl
  | case3 first a s k r hk e hv =>
    have hmembers : members member hm first a s = .error e := by
      rw [members_eq, bind_ok hk]
      exact bind_error hv
    rw [members_eq, bind_ok hk, map_error hmembers]
    dsimp only
    rw [h, bind_error (map_error hv)]
  | case4 first a s k r hk b t hv ih =>
    have hmembers : members member hm first a s = members member hm false b t := by
      rw [members_eq, bind_ok hk]
      exact bind_ok hv
    rw [members_eq, bind_ok hk]
    dsimp only
    rw [h, bind_ok (map_ok hv), ih]
    simp only [Functor.map, StateT.map, hmembers]

theorem value_succ (depth : Nat) (hm : ∀ k ms, Stays (do colon; return put k (← value depth) ms)) :
    value (depth + 1) = nextInk .endInValue >>= fun b =>
      if b = 0x5B then
        Value.list <$> (items (value depth) (shrinks_value depth) true : Reader (List Value))
      else if b = 0x7B then
        Value.object <$> (members (fun k ms => do colon; return put k (← value depth) ms) hm true [] :
          Reader (List (Text × Value)))
      else Value.scalar <$> Json.scalar b :=
  rfl

theorem written_succ (depth : Nat) :
    written (depth + 1) = nextInk .endInValue >>= fun b =>
      if b = 0x5B then
        Value.list <$> (items (written depth) (shrinks_written depth) true : Reader (List Value))
      else if b = 0x7B then
        Value.object <$> (members (appendMember (written depth)) (stays_member_written depth) true [] :
          Reader (List (Text × Value)))
      else Value.scalar <$> Json.scalar b :=
  rfl

theorem value_eq (depth : Nat) : value depth = Value.settled <$> written depth := by
  have hscalar (b : UInt8) : (Value.scalar <$> Json.scalar b : Reader Value) =
      Value.settled <$> (Value.scalar <$> Json.scalar b : Reader Value) := by
    rw [Functor.map_map]
    rfl
  induction depth with
  | zero =>
    have hzero : value 0 = nextInk .endInValue >>= fun b =>
        if b = 0x5B || b = 0x7B then fail .tooDeep else Value.scalar <$> Json.scalar b := rfl
    have hwritten : written 0 = value 0 := rfl
    rw [hwritten, hzero, map_bind]
    refine bind_congr fun b => ?_
    split
    · rfl
    · exact hscalar b
  | succ depth ih =>
    have hitems : @Eq (Reader (List Value)) (items (value depth) (shrinks_value depth) true)
        (List.map Value.settled <$>
          (items (written depth) (shrinks_written depth) true : Reader (List Value))) := by
      funext s
      exact items_map (shrinks_written depth) (shrinks_value depth) ih true s
    -- Putting a member in its place commutes with settling the members before it.
    have hmember (k : Text) (ms : List (Text × Value)) :
        (do colon; return put k (← value depth) (collect (settledMembers ms)) :
          Reader (List (Text × Value))) =
        (fun ms => collect (settledMembers ms)) <$> appendMember (written depth) k ms := by
      rw [appendMember, map_bind]
      refine bind_congr fun _ => ?_
      rw [ih, bind_map_left, map_bind]
      refine bind_congr fun v => ?_
      rw [map_pure]
      simp only [settledMembers_eq, List.map_append, List.map_singleton, collect_append]
    have hm (k : Text) (ms : List (Text × Value)) :
        Stays (do colon; return put k (← value depth) ms : Reader (List (Text × Value))) :=
      shrinks_colon.stays.bind fun _ => (shrinks_value depth).stays.bind fun _ => stays_pure _
    have hmembers : @Eq (Reader (List (Text × Value)))
        (members (fun k ms => do colon; return put k (← value depth) ms) hm true [])
        ((fun ms => collect (settledMembers ms)) <$> (members (appendMember (written depth))
          (stays_member_written depth) true [] : Reader (List (Text × Value)))) := by
      funext s
      exact members_map (stays_member_written depth) hm hmember true [] s
    rw [value_succ depth hm, written_succ, map_bind]
    refine bind_congr fun b => ?_
    split
    · rw [hitems, Functor.map_map, Functor.map_map]
      simp only [Value.settled, settledItems_eq]
    · split
      · rw [hmembers, Functor.map_map, Functor.map_map]
        simp only [Value.settled]
      · exact hscalar b

section Whole

variable {p : Reader α} {q : Reader β} {document : Bytes} {a : α}

theorem whole_ok (h : p document = .ok (a, r)) {u : Unit × Bytes} (hr : finish r = .ok u) :
    whole p document = .ok a := by
  obtain ⟨_, t⟩ := u
  rw [whole, bind_ok h, bind_ok hr]
  rfl

theorem whole_error {f : Fault} (h : p document = .error f) :
    whole p document = .error (f.locate document) := by
  rw [whole, bind_error h]

theorem whole_eq_ok (h : whole p document = .ok a) :
    ∃ r u, p document = .ok (a, r) ∧ finish r = .ok u := by
  rw [whole] at h
  split at h
  · next hread =>
    cases h
    obtain ⟨v, r, hv, hread⟩ := bind_eq_ok hread
    obtain ⟨_, t, hr, hread⟩ := bind_eq_ok hread
    cases hread
    exact ⟨r, _, hv, hr⟩
  · cases h

end Whole

def asWritten (document : Bytes) : Except Located Value := whole (written depthLimit) document

theorem parse_eq_ok {document : Bytes} {x : Value} (h : parse document = .ok x) :
    ∃ v, asWritten document = .ok v ∧ v.settled = x := by
  obtain ⟨r, u, hx, hr⟩ := whole_eq_ok h
  rw [value_eq] at hx
  obtain ⟨v, hv, rfl⟩ := map_eq_ok hx
  exact ⟨v, whole_ok hv hr, rfl⟩

end CallStrip.Json

import CallStrip.Proofs.Json.Typed
import CallStrip.Workspace.Reader
import Mathlib.Data.List.Nodup

/-!
Records made of slots, each of which keeps one value of its own kind. A record agrees with what its
fields make of the values found under their keys, be they the members of an object in any order,
with others between them, or the items of a list.
-/

namespace CallStrip.Json

open Reading (bind_eq_ok bind_ok bind_error map_ok map_error map_eq_ok)
open Reader

variable {α σ : Type} {s r t u : Bytes} {k : Text} {v : Value} {depth : Nat}

def Value.fields? (keys : List Text) : Value → Option (Text → Option Value)
  | .object ms => some fun k => ms.lookup k
  | .list vs => if vs.length ≤ keys.length then some fun k => (keys.zip vs).lookup k else none
  | .scalar _ => none

def Value.FieldsOnce (keys : List Text) (inner : Text → Value → Prop) : Value → Prop
  | .object ms =>
    (∀ k ∈ keys, ms.countP (·.1 = k) ≤ 1) ∧ ∀ m ∈ ms, m.1 ∈ keys → inner m.1 m.2
  | .list vs => ∀ m ∈ keys.zip vs, inner m.1 m.2
  | .scalar _ => True

instance {keys : List Text} {inner : Text → Value → Prop} [∀ k v, Decidable (inner k v)] :
    (v : Value) → Decidable (v.FieldsOnce keys inner)
  | .object _ => inferInstanceAs (Decidable (_ ∧ _))
  | .list vs => inferInstanceAs (Decidable (∀ m ∈ keys.zip vs, inner m.1 m.2))
  | .scalar _ => .isTrue trivial

structure Slot (σ : Type) (inner : Text → Value → Prop) where
  {β : Type}
  key : String
  get : σ → Option β
  set : β → σ → σ
  read : Nat → Reader β
  shrinks : ∀ d, Shrinks (read d)
  required : Bool
  of? : Value → Option β
  agrees : Agrees read (inner key.toList) of?

namespace Slot

variable {inner : Text → Value → Prop}

def name (x : Slot σ inner) : Text := x.key.toList

def field (x : Slot σ inner) : Field σ := .one x.key x.get x.set x.read x.shrinks x.required

def Keeps (x : Slot σ inner) (look : Text → Option Value) (a : σ) : Prop :=
  (look x.name).map x.of? = (x.get a).map some

theorem Keeps.bind_eq {x : Slot σ inner} {look : Text → Option Value} {a : σ} (h : x.Keeps look a) :
    (look x.name).bind x.of? = x.get a := by
  rw [Keeps] at h
  cases hv : look x.name with
  | none =>
    rw [hv] at h
    exact (Option.map_eq_none_iff.mp h.symm).symm
  | some v =>
    rw [hv] at h
    obtain ⟨b, hb, hof⟩ := Option.map_eq_some_iff.mp h.symm
    exact hof.symm.trans hb.symm

theorem field_read (x : Slot σ inner) (hw : written depth s = .ok (v, r)) (a : σ) :
    (∃ b, inner x.name v ∧ x.of? v.settled = some b ∧ x.field.read depth a s = .ok (x.set b a, r)) ∨
      (inner x.name v → x.of? v.settled = none) ∧ ∃ f, x.field.read depth a s = .error f := by
  obtain ⟨b, hinner, hb, hread⟩ | ⟨hnone, f, hread⟩ := x.agrees hw
  · exact .inl ⟨b, hinner, hb, bind_ok hread⟩
  · exact .inr ⟨hnone, f, bind_error hread⟩

end Slot

structure Record.MadeOf {inner : Text → Value → Prop} (l : Record σ α) (xs : List (Slot σ inner)) :
    Prop where
  fields : l.fields = xs.map Slot.field
  nodup : (xs.map Slot.name).Nodup
  empty : ∀ x ∈ xs, x.get l.empty = none
  get_set : ∀ x ∈ xs, ∀ b a, x.get (x.set b a) = some b
  get_set_ne : ∀ x ∈ xs, ∀ y ∈ xs, y.name ≠ x.name → ∀ b a, y.get (x.set b a) = y.get a
  needed : ∀ x ∈ xs, x.required = true → ∀ a, x.get a = none → ∃ c, l.finish a = .error c

theorem kept_or_none {β : Type} (o : Option Value) (of? : Value → Option β) :
    (∃ g : Option β, o.map of? = g.map some) ∨ ∃ v, o = some v ∧ of? v = none := by
  cases o with
  | none => exact .inl ⟨none, rfl⟩
  | some v =>
    cases hv : of? v with
    | none => exact .inr ⟨v, rfl, hv⟩
    | some b => exact .inl ⟨some b, congrArg some hv⟩

def seen (ms : List (Text × Value)) (k : Text) : Option Value := (ms.lookup k).map Value.settled

section Seen

variable {ms acc : List (Text × Value)} {j : Text}

theorem seen_append_ne (h : j ≠ k) : seen (acc ++ [(k, v)]) j = seen acc j := by
  rw [seen, List.lookup_append, List.lookup_cons, beq_eq_false_iff_ne.mpr h, seen]
  simp

theorem seen_append_self (h : seen acc k = none) : seen (acc ++ [(k, v)]) k = some v.settled := by
  have hnone : acc.lookup k = none := Option.map_eq_none_iff.mp h
  rw [seen, List.lookup_append, hnone]
  simp

theorem seen_mono (h : acc <+: ms) (hk : seen acc k = some v) : seen ms k = some v := by
  obtain ⟨w, hw, rfl⟩ := Option.map_eq_some_iff.mp hk
  obtain ⟨rest, rfl⟩ := h
  rw [seen, List.lookup_append, hw]
  rfl

end Seen

section Drafts

variable {inner : Text → Value → Prop} {l : Record σ α} {xs : List (Slot σ inner)}
  {x : Slot σ inner} {look look' : Text → Option Value} {a : σ}

def Drafted (xs : List (Slot σ inner)) (look : Text → Option Value) (a : σ) : Prop :=
  ∀ x ∈ xs, x.Keeps look a

theorem Drafted.congr (h : Drafted xs look a) (hlook : ∀ x ∈ xs, look' x.name = look x.name) :
    Drafted xs look' a := by
  intro x hx
  rw [Slot.Keeps, hlook x hx]
  exact h x hx

theorem Drafted.get_none (h : Drafted xs look a) (hx : x ∈ xs) (hnone : look x.name = none) :
    x.get a = none := by
  have hkeeps := h x hx
  rw [Slot.Keeps, hnone] at hkeeps
  exact Option.map_eq_none_iff.mp hkeeps.symm

theorem Drafted.get_some (h : Drafted xs look a) (hx : x ∈ xs) (hv : look x.name = some v) :
    ∃ b, x.get a = some b ∧ x.of? v = some b := by
  have hkeeps := h x hx
  rw [Slot.Keeps, hv] at hkeeps
  obtain ⟨b, hb, hof⟩ := Option.map_eq_some_iff.mp hkeeps.symm
  exact ⟨b, hb, hof.symm⟩

end Drafts

namespace Record.MadeOf

variable {inner : Text → Value → Prop} {l : Record σ α} {xs : List (Slot σ inner)}
  {x : Slot σ inner} {look look' : Text → Option Value} {a : σ} (h : l.MadeOf xs)
include h

theorem drafted_empty : Drafted xs (seen []) l.empty := by
  intro x hx
  rw [Slot.Keeps, h.empty x hx]
  rfl

theorem eq_of_name {y : Slot σ inner} (hx : x ∈ xs) (hy : y ∈ xs) (hname : y.name = x.name) :
    y = x :=
  List.inj_on_of_nodup_map h.nodup hy hx hname

theorem drafted_set (hx : x ∈ xs) {b : x.β} (hd : Drafted xs look a) (hv : look' x.name = some v)
    (hb : x.of? v = some b) (hlook : ∀ y ∈ xs, y.name ≠ x.name → look' y.name = look y.name) :
    Drafted xs look' (x.set b a) := by
  intro y hy
  by_cases hname : y.name = x.name
  · obtain rfl := h.eq_of_name hx hy hname
    rw [Slot.Keeps, hv, h.get_set y hy b a, Option.map_some, hb]
    rfl
  · rw [Slot.Keeps, hlook y hy hname, h.get_set_ne x hx y hy hname b a]
    exact hd y hy

theorem find?_field (hx : x ∈ xs) : l.fields.find? (·.key = x.name) = some x.field := by
  have hfind : xs.find? (fun y => y.name = x.name) = some x := by
    cases hy : xs.find? (fun y => y.name = x.name) with
    | none => simpa using List.find?_eq_none.mp hy x hx
    | some y =>
      have hname : y.name = x.name := by simpa using List.find?_some hy
      rw [h.eq_of_name hx (List.mem_of_find?_eq_some hy) hname]
  rw [h.fields, List.find?_map]
  exact congrArg (Option.map Slot.field) hfind

theorem find?_none (hk : k ∉ xs.map Slot.name) : l.fields.find? (·.key = k) = none := by
  rw [h.fields, List.find?_map, Option.map_eq_none_iff, List.find?_eq_none]
  intro y hy hkey
  exact hk (List.mem_map.mpr ⟨y, hy, of_decide_eq_true hkey⟩)

theorem member_again (hx : x ∈ xs) {b : x.β} (hb : x.get a = some b) (depth : Nat) (s : Bytes) :
    ∃ f, l.member depth x.name a s = .error f := by
  have hgiven : x.field.given a = true := by
    change (x.get a).isSome = true
    rw [hb]
    rfl
  rw [Record.member, h.find?_field hx]
  dsimp only
  rw [if_pos hgiven]
  exact ⟨_, rfl⟩

theorem member_new (hx : x ∈ xs) (hnone : x.get a = none) (hcolon : colon s = .ok ((), t))
    (depth : Nat) : l.member depth x.name a s = x.field.read depth a t := by
  have hgiven : ¬ x.field.given a = true := by
    change ¬ (x.get a).isSome = true
    rw [hnone]
    exact Bool.false_ne_true
  rw [Record.member, h.find?_field hx]
  dsimp only
  rw [if_neg hgiven, bind_ok hcolon]

theorem member_other (hk : k ∉ xs.map Slot.name) (hcolon : colon s = .ok ((), t))
    (hw : written depth t = .ok (v, r)) (a : σ) : l.member depth k a s = .ok (a, r) := by
  rw [Record.member, h.find?_none hk]
  dsimp only
  rw [bind_ok hcolon, bind_ok (skipValue_of_written hw)]
  rfl

end Record.MadeOf

def DraftOf {inner : Text → Value → Prop} (l : Record σ α) (xs : List (Slot σ inner)) (P : Prop)
    (look : Text → Option Value) (r : Bytes) (y : Except Fault (σ × Bytes)) : Prop :=
  (∃ a, P ∧ Drafted xs look a ∧ y = .ok (a, r)) ∨
    (P → ∀ a, Drafted xs look a → ∃ c, l.finish a = .error c) ∧ ∃ f, y = .error f

def Once {inner : Text → Value → Prop} (xs : List (Slot σ inner)) (ms : List (Text × Value)) :
    Prop :=
  Value.FieldsOnce (xs.map Slot.name) inner (.object ms)

section Members

variable {inner : Text → Value → Prop} {l : Record σ α} {xs : List (Slot σ inner)}
  {x : Slot σ inner} {acc ms : List (Text × Value)} {a : σ}

theorem Once.nil (xs : List (Slot σ inner)) : Once xs [] := ⟨by simp, by simp⟩

theorem Once.of_prefix (h : Once xs ms) (hp : acc <+: ms) : Once xs acc :=
  ⟨fun k hk => Nat.le_trans (hp.sublist.countP_le) (h.1 k hk),
    fun m hm hk => h.2 m (hp.subset hm) hk⟩

theorem Once.append_other (h : Once xs acc) (hk : k ∉ xs.map Slot.name) :
    Once xs (acc ++ [(k, v)]) := by
  refine ⟨fun j hj => ?_, fun m hm hj => ?_⟩
  · have hne : ¬ k = j := by rintro rfl; exact hk hj
    simpa [List.countP_append, hne] using h.1 j hj
  · rcases List.mem_append.mp hm with hm | hm
    · exact h.2 m hm hj
    · obtain rfl := List.mem_singleton.mp hm
      exact absurd hj hk

theorem countP_eq_zero (hnone : seen acc k = none) : acc.countP (·.1 = k) = 0 := by
  refine List.countP_eq_zero.mpr fun m hm hmk => ?_
  have hlookup := List.lookup_eq_none_iff.mp (Option.map_eq_none_iff.mp hnone) m hm
  simp [of_decide_eq_true hmk] at hlookup

theorem Once.append_new (h : Once xs acc) (hnone : seen acc x.name = none) (hv : inner x.name v) :
    Once xs (acc ++ [(x.name, v)]) := by
  refine ⟨fun j hj => ?_, fun m hm hj => ?_⟩
  · by_cases hne : x.name = j
    · subst hne
      simp [List.countP_append, countP_eq_zero hnone]
    · simpa [List.countP_append, hne] using h.1 j hj
  · rcases List.mem_append.mp hm with hm | hm
    · exact h.2 m hm hj
    · obtain rfl := List.mem_singleton.mp hm
      exact hv

theorem Once.not_append_again (hx : x ∈ xs) {w : Value} (hw : seen acc x.name = some w) :
    ¬ Once xs (acc ++ [(x.name, v)]) := by
  intro h
  obtain ⟨w', hlookup, -⟩ := Option.map_eq_some_iff.mp hw
  obtain ⟨front, behind, rfl, -⟩ := List.lookup_eq_some_iff.mp hlookup
  have hle := h.1 x.name (List.mem_map_of_mem hx)
  simp only [List.countP_append, List.countP_cons, List.countP_nil, decide_true, if_true] at hle
  omega

theorem prefix_of_members {p : Reader Value} (hp : Stays p) {first : Bool}
    (hs : members (appendMember p) (stays_appendMember hp) first acc s = .ok (ms, r)) :
    acc <+: ms := by
  fun_induction members (appendMember p) (stays_appendMember hp) first acc s
    generalizing ms r with
  | case1 | case3 => cases hs
  | case2 first acc s t hk => cases hs; exact List.prefix_rfl
  | case4 first acc s k t hk b u hm ih =>
    obtain ⟨_, x, hcolon, hm⟩ := bind_eq_ok hm
    obtain ⟨v, y, hv, hm⟩ := bind_eq_ok hm
    cases hm
    exact (List.prefix_append acc _).trans (ih hs)

theorem draftOf_members (h : l.MadeOf xs) {first : Bool} (hd : Drafted xs (seen acc) a)
    (ho : Once xs acc)
    (hs : members (appendMember (written depth)) (stays_member_written depth) first acc s =
      .ok (ms, r)) :
    DraftOf l xs (Once xs ms) (seen ms) r
      (members (l.member depth) (l.stays_member depth) first a s) := by
  fun_induction members (appendMember (written depth)) (stays_member_written depth) first acc s
    generalizing ms r a with
  | case1 | case3 => cases hs
  | case2 first acc s t hk =>
    cases hs
    exact .inl ⟨a, ho, hd, by rw [members_eq, bind_ok hk]; rfl⟩
  | case4 first acc s k t hk acc' u hm ih =>
    obtain ⟨_, w, hcolon, hm⟩ := bind_eq_ok hm
    obtain ⟨v, y, hv, hm⟩ := bind_eq_ok hm
    cases hm
    have hprefix := prefix_of_members (shrinks_written depth).stays hs
    have hstep : members (l.member depth) (l.stays_member depth) first a s =
        (l.member depth k a >>= fun b => (members (l.member depth) (l.stays_member depth) false b :
          Reader σ)) t := by
      rw [members_eq, bind_ok hk]
    by_cases hslot : k ∈ xs.map Slot.name
    · obtain ⟨x, hx, rfl⟩ := List.mem_map.mp hslot
      cases hseen : seen acc x.name with
      | some w =>
        -- The slot has its value and refuses another, and the members have its key twice.
        obtain ⟨b, hb, -⟩ := hd.get_some hx hseen
        obtain ⟨f, hagain⟩ := h.member_again hx hb depth t
        refine .inr ⟨fun honce => ?_, f, hstep.trans (bind_error hagain)⟩
        exact absurd (honce.of_prefix hprefix) (Once.not_append_again hx hseen)
      | none =>
        have hread := h.member_new hx (hd.get_none hx hseen) hcolon depth
        obtain ⟨b, hinner, hb, hfield⟩ | ⟨hnone, f, hfield⟩ := x.field_read hv a
        · rw [hstep, bind_ok (hread.trans hfield)]
          exact ih (h.drafted_set hx hd (seen_append_self hseen) hb fun y _ hne =>
            seen_append_ne hne)
            (ho.append_new hseen hinner) hs
        · refine .inr ⟨fun honce a' hd' => ?_, f, hstep.trans (bind_error (hread.trans hfield))⟩
          have hmem : (x.name, v) ∈ ms := hprefix.subset (by simp)
          obtain ⟨b, -, hb⟩ := hd'.get_some hx (seen_mono hprefix (seen_append_self hseen))
          rw [hnone (honce.2 _ hmem hslot)] at hb
          cases hb
    -- A key of no slot is skipped, so that the draft stays and no look-up changes.
    · have hread := h.member_other hslot hcolon hv a
      rw [hstep, bind_ok hread]
      refine ih (hd.congr fun x hx => seen_append_ne ?_) (ho.append_other hslot) hs
      rintro rfl
      exact hslot (List.mem_map_of_mem hx)

end Members

section Items

variable {inner : Text → Value → Prop} {l : Record σ α} {xs ys : List (Slot σ inner)}
  {acc : List (Text × Value)} {a : σ} {vs : List Value}

theorem closeList_end {first : Bool} (hm : moreItems first s = .ok (false, r)) :
    closeList s = .ok ((), r) := by
  obtain ⟨b, t, hdrop, ⟨rfl, -, rfl⟩ | ⟨-, -, he, -⟩ | ⟨-, -, he, -⟩⟩ := moreItems_cases hm
  · rw [closeList, bind_ok (nextInk_eq_ok_iff.mpr hdrop)]
    rfl
  · cases he
  · cases he

theorem closeList_more {first : Bool} (hm : moreItems first s = .ok (true, r)) :
    ∃ f, closeList s = .error f := by
  have hfail (b : UInt8) (t : Bytes) (hb : b ≠ 0x5D) (hdrop : s.dropWhile isBlank = b :: t) :
      ∃ f, closeList s = .error f := by
    rw [closeList, bind_ok (nextInk_eq_ok_iff.mpr hdrop), if_neg hb]
    split
    · cases hc : nextInk .trailingBytes t with
      | error f => exact ⟨f, bind_error hc⟩
      | ok c => rw [bind_ok hc]; exact ⟨_, rfl⟩
    · exact ⟨_, rfl⟩
  obtain ⟨b, t, hdrop, ⟨-, he, -⟩ | ⟨hb, -, -, -⟩ | ⟨rfl, -, -, -⟩⟩ := moreItems_cases hm
  · cases he
  · exact hfail b t hb hdrop
  · exact hfail _ t (by decide) hdrop

theorem listed_cons (y : Slot σ inner) (count : Nat) (fs : List (Field σ)) (a : σ) :
    l.listed depth count a (y.field :: fs) = moreItems (count = 0) >>= fun more =>
      if more then y.field.read depth a >>= fun b => l.listed depth (count + 1) b fs
      else if y.required then fail (.tooShort count l.name l.fields.length) else pure a :=
  rfl

theorem draftOf_listed (h : l.MadeOf xs) (hys : ∀ y ∈ ys, y ∈ xs)
    (hnodup : (ys.map Slot.name).Nodup)
    (hnew : ∀ y ∈ ys, seen acc y.name = none) (hd : Drafted xs (seen acc) a) {count : Nat}
    (hs : items (written depth) (shrinks_written depth) (count = 0) s = .ok (vs, r)) :
    DraftOf l xs (vs.length ≤ ys.length ∧ ∀ m ∈ (ys.map Slot.name).zip vs, inner m.1 m.2)
      (seen (acc ++ (ys.map Slot.name).zip vs)) r
      (l.listed depth count a (ys.map Slot.field) s) := by
  induction ys generalizing acc a count s vs with
  | nil =>
    obtain ⟨rfl, hm⟩ | ⟨t, v, u, ws, rfl, hm, -, -⟩ := items_cases hs
    · refine .inl ⟨a, ⟨Nat.le_refl _, by simp⟩, by simpa using hd, ?_⟩
      exact bind_ok (closeList_end hm)
    · obtain ⟨f, hf⟩ := closeList_more hm
      exact .inr ⟨fun hP => absurd hP.1 (by simp), f, bind_error hf⟩
  | cons y ys ih =>
    obtain ⟨hy, hys⟩ := List.forall_mem_cons.mp hys
    obtain ⟨hynew, hnew⟩ := List.forall_mem_cons.mp hnew
    obtain ⟨hfresh, hnodup⟩ := List.nodup_cons.mp hnodup
    rw [List.map_cons, List.map_cons, listed_cons]
    obtain ⟨rfl, hm⟩ | ⟨t, v, u, ws, rfl, hm, hv, hws⟩ := items_cases hs
    -- The list ends here, and the slots from `y` on get nothing.
    · rw [bind_ok hm, if_neg Bool.false_ne_true, List.zip_nil_right, List.append_nil]
      split
      · next hrequired =>
        exact .inr ⟨fun _ a' hd' => h.needed y hy hrequired a' (hd'.get_none hy hynew), _, rfl⟩
      · exact .inl ⟨a, ⟨by simp, by simp⟩, hd, rfl⟩
    · rw [bind_ok hm, if_pos rfl]
      have happend : acc ++ (y.name :: ys.map Slot.name).zip (v :: ws) =
          (acc ++ [(y.name, v)]) ++ (ys.map Slot.name).zip ws := by simp
      have hP : ((v :: ws).length ≤ (y :: ys).length ∧
          ∀ m ∈ (y.name :: ys.map Slot.name).zip (v :: ws), inner m.1 m.2) ↔
          inner y.name v ∧ ws.length ≤ ys.length ∧
            ∀ m ∈ (ys.map Slot.name).zip ws, inner m.1 m.2 := by
        rw [List.zip_cons_cons, List.forall_mem_cons, List.length_cons, List.length_cons,
          Nat.succ_le_succ_iff, and_left_comm]
      rw [happend, hP]
      obtain ⟨b, hinner, hb, hfield⟩ | ⟨hnone, f, hfield⟩ := y.field_read hv a
      · rw [bind_ok hfield, and_iff_right hinner]
        refine ih hys hnodup (fun z hz => ?_) (h.drafted_set hy hd (seen_append_self hynew) hb
          fun z _ hne => seen_append_ne hne) hws
        rw [seen_append_ne, hnew z hz]
        rintro hname
        exact hfresh (hname ▸ List.mem_map_of_mem hz)
      · refine .inr ⟨fun hall a' hd' => ?_, f, bind_error hfield⟩
        obtain ⟨b, -, hb⟩ := hd'.get_some hy
          (seen_mono (List.prefix_append _ _) (seen_append_self hynew))
        rw [hnone hall.1] at hb
        cases hb

end Items

section LookUps

variable {ms : List (Text × Value)} {keys : List Text} {vs : List Value}

theorem lookup_cons (m : Text × Value) (ms : List (Text × Value)) (k : Text) :
    (m :: ms).lookup k = if k = m.1 then some m.2 else ms.lookup k := by
  rw [List.lookup_cons]
  by_cases h : k = m.1
  · rw [beq_iff_eq.mpr h, if_pos h]
  · rw [beq_eq_false_iff_ne.mpr h, if_neg h]

theorem lookup_map_snd (f : Value → Value) (ms : List (Text × Value)) (k : Text) :
    (ms.map fun m => (m.1, f m.2)).lookup k = (ms.lookup k).map f := by
  induction ms with
  | nil => rfl
  | cons m ms ih =>
    rw [List.map_cons, lookup_cons, lookup_cons, ih]
    split <;> rfl

theorem lookup_put {j : Text} (k : Text) (v : Value) (ms : List (Text × Value)) :
    (put k v ms).lookup j = if j = k then some v else ms.lookup j := by
  induction ms with
  | nil => exact lookup_cons (k, v) [] j
  | cons m ms ih =>
    rw [put]
    split
    · next hk =>
      rw [lookup_cons, lookup_cons, ← hk]
      split <;> rfl
    · next hk =>
      split
      · exact lookup_cons (k, v) (m :: ms) j
      · rw [lookup_cons, lookup_cons, ih]
        by_cases hj : j = k
        · rw [if_pos hj, if_pos hj, if_neg fun hm => hk (hj ▸ hm)]
        · rw [if_neg hj, if_neg hj]

theorem lookup_collect (h : ms.countP (·.1 = k) ≤ 1) : (collect ms).lookup k = ms.lookup k := by
  induction ms using List.reverseRecOn with
  | nil => rfl
  | append_singleton ms m ih =>
    obtain ⟨j, w⟩ := m
    rw [List.countP_append] at h
    rw [collect_append, lookup_put, List.lookup_append, lookup_cons]
    by_cases hk : k = j
    · subst hk
      have hzero : ms.countP (·.1 = k) = 0 := by
        simp only [List.countP_singleton, decide_true, if_true] at h
        omega
      have hnone : ms.lookup k = none := by
        refine List.lookup_eq_none_iff.mpr fun m hm => bne_iff_ne.mpr fun hkey => ?_
        exact List.countP_eq_zero.mp hzero m hm (decide_eq_true hkey.symm)
      rw [if_pos rfl, if_pos rfl, hnone]
      rfl
    · rw [if_neg hk, if_neg hk, ih (Nat.le_trans (Nat.le_add_right _ _) h)]
      exact Option.or_none.symm

theorem lookup_settled_object (h : ms.countP (·.1 = k) ≤ 1) :
    (collect (settledMembers ms)).lookup k = seen ms k := by
  rw [settledMembers_eq, lookup_collect, lookup_map_snd, seen]
  rwa [List.countP_map]

theorem lookup_settled_list (keys : List Text) (vs : List Value) (k : Text) :
    (keys.zip (vs.map Value.settled)).lookup k = seen (keys.zip vs) k := by
  rw [List.zip_map_right, seen, ← lookup_map_snd]
  rfl

end LookUps

def Value.recordOf? (keys : List Text) (of? : (Text → Option Value) → Option α) (v : Value) :
    Option α := do
  of? (← v.fields? keys)

section Records

variable {inner : Text → Value → Prop} {l : Record σ α} {xs : List (Slot σ inner)}
  {of? : (Text → Option Value) → Option α} {look look' : Text → Option Value} {P : Prop}
  (hof : ∀ look a, Drafted xs look a → of? look = (l.finish a).toOption)
  (hnone : ∀ look, (∀ a, ¬ Drafted xs look a) → of? look = none)
include hof hnone

theorem yields_finished {p : Reader σ} (h : DraftOf l xs P look r (p s))
    (hlook : P → ∀ x ∈ xs, look' x.name = look x.name) :
    Yields P (of? look') r ((p >>= l.finished) s) := by
  obtain ⟨a, hP, hd, hread⟩ | ⟨hfail, f, hread⟩ := h
  · rw [bind_ok hread, hof look' a (hd.congr (hlook hP)), Record.finished]
    cases l.finish a with
    | ok w => exact .inl ⟨w, hP, rfl, rfl⟩
    | error c => exact .error (fun _ => rfl) rfl
  · refine .error (fun hP => ?_) (bind_error hread)
    by_cases hd : ∃ a, Drafted xs look' a
    · obtain ⟨a, hd⟩ := hd
      obtain ⟨c, hc⟩ := hfail hP a (hd.congr fun x hx => (hlook hP x hx).symm)
      rw [hof look' a hd, hc]
      rfl
    · exact hnone look' fun a ha => hd ⟨a, ha⟩

theorem Record.MadeOf.agrees (h : l.MadeOf xs) :
    Agrees l.read (Value.FieldsOnce (xs.map Slot.name) inner)
      (Value.recordOf? (xs.map Slot.name) of?) := by
  intro depth s v r hw
  obtain ⟨b, t, hb, ⟨x, rfl, hlist, hobject, -⟩ | ⟨d, vs, rfl, rfl, rfl, hvs⟩ |
    ⟨d, ms, rfl, rfl, rfl, hms⟩⟩ := written_cases hw
  · obtain ⟨f, hf⟩ := mismatched_error (α := α) (.record l.name) b t
    refine .error (f := f) (fun _ => ?_) ?_
    · rw [Value.settled]
      rfl
    · rw [Record.read, bind_ok hb, if_neg hlist, if_neg hobject]
      exact hf
  · have hread : l.read (d + 1) s =
        (l.listed d 0 l.empty (xs.map Slot.field) >>= l.finished) t := by
      rw [Record.read, bind_ok hb, if_pos rfl, if_neg (Nat.succ_ne_zero d), h.fields]
      rfl
    have hdraft : DraftOf l xs
        (vs.length ≤ xs.length ∧ ∀ m ∈ (xs.map Slot.name).zip vs, inner m.1 m.2)
        (seen ([] ++ (xs.map Slot.name).zip vs)) r (l.listed d 0 l.empty (xs.map Slot.field) t) :=
      draftOf_listed h (fun _ hy => hy) h.nodup (fun _ _ => rfl) h.drafted_empty hvs
    rw [Value.settled, settledItems_eq]
    by_cases hlen : vs.length ≤ xs.length
    · rw [and_iff_right hlen] at hdraft
      have hfields : Value.recordOf? (xs.map Slot.name) of? (.list (vs.map Value.settled)) =
          of? fun k => ((xs.map Slot.name).zip (vs.map Value.settled)).lookup k := by
        simp [Value.recordOf?, Value.fields?, hlen]
      rw [hfields]
      refine (yields_finished hof hnone hdraft fun _ x _ => ?_).of_eq hread
      exact lookup_settled_list _ vs x.name
    · have hfields :
          Value.recordOf? (xs.map Slot.name) of? (.list (vs.map Value.settled)) = none := by
        simp [Value.recordOf?, Value.fields?, hlen]
      obtain ⟨a, hP, -⟩ | ⟨-, f, hf⟩ := hdraft
      · exact absurd hP.1 hlen
      · exact .error (fun _ => hfields) (hread.trans (bind_error hf))
  · have hread : l.read (d + 1) s =
        ((members (l.member d) (l.stays_member d) true l.empty : Reader σ) >>= l.finished) t := by
      rw [Record.read, bind_ok hb, if_neg (by decide), if_pos rfl, if_neg (Nat.succ_ne_zero d)]
      rfl
    have hdraft := draftOf_members h h.drafted_empty (Once.nil xs) hms
    rw [Value.settled]
    refine (yields_finished hof hnone hdraft fun honce x hx => ?_).of_eq hread
    exact lookup_settled_object (honce.1 x.name (List.mem_map_of_mem hx))

end Records

end CallStrip.Json

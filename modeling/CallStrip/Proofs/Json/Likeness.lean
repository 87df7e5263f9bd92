import CallStrip.Proofs.Json.Spelling

/-!
Texts of values that are alike but for the members of objects that no record asks for. A record has
some keys; members with other keys may stand anywhere among its own, as many as there are, with any
values. What is read of two such texts is the same.
-/

namespace CallStrip.Json

open Reading (bind_eq_ok bind_ok bind_error map_eq_ok)
open Reader

variable {α β σ : Type} {s s' t u v v' r e e' g l w : Bytes} {b : UInt8} {first : Bool} {k : Text}

inductive Gap : Bool → Bytes → Prop
  | first {w : Bytes} : Blanks w → Gap true w
  | later {w i : Bytes} : Blanks w → Blanks i → Gap false (w ++ 0x2C :: i)

def Named (first : Bool) (k : Text) (l : Bytes) : Prop :=
  ∃ g s c, Gap first g ∧ Spells s (Utf8.encode k) ∧ Blanks c ∧
    l = g ++ 0x22 :: (s ++ 0x22 :: (c ++ [0x3A]))

def SameValue (v v' : Bytes) : Prop := v = v' ∧ Fits .value v

inductive ItemsAlike (R : Nat → Bytes → Bytes → Prop) : Nat → Bytes → Bytes → Prop
  | close {n : Nat} {w w' : Bytes} : Blanks w → Blanks w' →
    ItemsAlike R n (w ++ [0x5D]) (w' ++ [0x5D])
  | item {n : Nat} {g g' v v' s s' : Bytes} : Gap (n = 0) g → Gap (n = 0) g' → R n v v' →
    ItemsAlike R (n + 1) s s' → ItemsAlike R n (g ++ (v ++ s)) (g' ++ (v' ++ s'))

/-- The rests of two objects, each with or without a member before it. The members with one of the
keys are related in turn; the others stand anywhere in either of the objects. -/
inductive MembersAlike (keys : List Text) (R : Text → Bytes → Bytes → Prop) :
    Bool → Bool → Bytes → Bytes → Prop
  | close {first first' : Bool} {w w' : Bytes} : Blanks w → Blanks w' →
    MembersAlike keys R first first' (w ++ [0x7D]) (w' ++ [0x7D])
  | field {first first' : Bool} {k : Text} {l l' v v' s s' : Bytes} : k ∈ keys →
    Named first k l → Named first' k l' → R k v v' → MembersAlike keys R false false s s' →
    MembersAlike keys R first first' (l ++ (v ++ s)) (l' ++ (v' ++ s'))
  | left {first first' : Bool} {k : Text} {l v s s' : Bytes} : k ∉ keys → Named first k l →
    Fits .value v → MembersAlike keys R false first' s s' →
    MembersAlike keys R first first' (l ++ (v ++ s)) s'
  | right {first first' : Bool} {k : Text} {l v s s' : Bytes} : k ∉ keys → Named first' k l →
    Fits .value v → MembersAlike keys R first false s s' →
    MembersAlike keys R first first' s (l ++ (v ++ s'))

inductive ListsAlike (R : Bytes → Bytes → Prop) : Bytes → Bytes → Prop
  | list {w w' s s' : Bytes} : Blanks w → Blanks w' → ItemsAlike (fun _ => R) 0 s s' →
    ListsAlike R (w ++ 0x5B :: s) (w' ++ 0x5B :: s')

def Row (keys : List Text) (R : Text → Bytes → Bytes → Prop) (n : Nat) (v v' : Bytes) : Prop :=
  ∃ k, keys[n]? = some k ∧ R k v v'

inductive RecordsAlike (keys : List Text) (R : Text → Bytes → Bytes → Prop) :
    Bytes → Bytes → Prop
  | list {w w' s s' : Bytes} : Blanks w → Blanks w' → ItemsAlike (Row keys R) 0 s s' →
    RecordsAlike keys R (w ++ 0x5B :: s) (w' ++ 0x5B :: s')
  | object {w w' s s' : Bytes} : Blanks w → Blanks w' → MembersAlike keys R true true s s' →
    RecordsAlike keys R (w ++ 0x7B :: s) (w' ++ 0x7B :: s')

/-- A reader makes the same of what is related, and takes nothing that is not related to itself. -/
structure Follows (R : Bytes → Bytes → Prop) (p : Reader α) : Prop where
  inked : ∀ ⦃v v'⦄, R v v' → Inked .list v ∧ Inked .list v'
  trims : ∀ s, p (s.dropWhile isBlank) = p s
  same : ∀ ⦃v v' e e' x r⦄, R v v' → Ends e → Ends e' → p (v ++ e) = .ok (x, r) →
    r = e ∧ p (v' ++ e') = .ok (x, e')
  taken : ∀ ⦃u x r⦄, p u = .ok (x, r) → ∃ v, u = v ++ r ∧ R v v

theorem Gap.ends (h : Gap false g) (t : Bytes) : Ends (g ++ t) := by
  cases h with
  | later hw _ =>
    rw [List.append_assoc]
    exact (ends_of_comma _).of_blanks hw

theorem Inked.append {k : Bracket} (h : Inked k v) (t : Bytes) :
    ∃ b m, (v ++ t).dropWhile isBlank = b :: m ∧ b ≠ k.close := by
  obtain ⟨b, m, hdrop, hne⟩ := h
  obtain ⟨hsplit, hs⟩ := dropWhile_eq_cons hdrop
  refine ⟨b, m ++ t, ?_, hne⟩
  rw [hsplit, List.append_assoc]
  exact hs (m ++ t)

theorem Gap.moreItems (hg : Gap first g) (hv : Inked .list v) (t : Bytes) :
    moreItems first (g ++ (v ++ t)) = .ok (true, (v ++ t).dropWhile isBlank) := by
  obtain ⟨b, m, hdrop, hne⟩ := hv.append t
  rw [hdrop]
  cases hg with
  | first hw =>
    refine moreItems_first ?_ hne
    rw [List.dropWhile_append_of_pos hw, hdrop]
  | later hw hi =>
    rw [List.append_assoc, List.cons_append]
    refine moreItems_comma (dropWhile_blanks hw rfl _) ?_ hne
    rw [List.dropWhile_append_of_pos hi, hdrop]

theorem Gap.nextKey? (hg : Gap first g) (t : Bytes) :
    nextKey? first (g ++ 0x22 :: t) = (some <$> quoted) t := by
  cases hg with
  | first hw => exact nextKey?_first (dropWhile_blanks hw rfl t)
  | later hw hi =>
    rw [List.append_assoc, List.cons_append]
    exact nextKey?_comma (dropWhile_blanks hw rfl _) (dropWhile_blanks hi rfl t)

theorem gap_of_moreItems (h : moreItems first u = .ok (true, r)) :
    ∃ g, Gap first g ∧ u = g ++ r := by
  obtain ⟨b, t, hdrop, ⟨-, he, -⟩ | ⟨-, rfl, -, rfl⟩ | ⟨rfl, rfl, -, rfl⟩⟩ := moreItems_cases h
  · cases he
  · obtain ⟨w, hw, rfl⟩ := blanks_of_dropWhile hdrop
    exact ⟨w, .first hw, rfl⟩
  · obtain ⟨w, hw, rfl⟩ := blanks_of_dropWhile hdrop
    refine ⟨w ++ 0x2C :: t.takeWhile isBlank,
      .later hw fun _ hb => List.mem_takeWhile_imp hb, ?_⟩
    rw [List.append_assoc, List.cons_append, List.takeWhile_append_dropWhile]

theorem blanks_of_moreItems (h : moreItems first u = .ok (false, r)) :
    ∃ w, Blanks w ∧ u = w ++ 0x5D :: r := by
  obtain ⟨b, t, hdrop, ⟨rfl, -, rfl⟩ | ⟨-, -, he, -⟩ | ⟨-, -, he, -⟩⟩ := moreItems_cases h
  · exact blanks_of_dropWhile hdrop
  · cases he
  · cases he

theorem Named.ends (h : Named first k l) (t : Bytes) : Ends (l ++ t) := by
  obtain ⟨g, s, c, hg, -, -, rfl⟩ := h
  rw [List.append_assoc]
  cases hg with
  | first hw =>
    refine Ends.of_blanks hw ?_
    rintro b ⟨⟩
    decide
  | later hw hi => exact (Gap.later hw hi).ends _

theorem Named.nextKey? (h : Named first k l) : ∃ c, Blanks c ∧
    ∀ t, nextKey? first (l ++ t) = .ok (some k, c ++ 0x3A :: t) := by
  obtain ⟨g, s, c, hg, hs, hc, rfl⟩ := h
  refine ⟨c, hc, fun t => ?_⟩
  have hquoted := hs.quoted (c ++ 0x3A :: t)
  simp only [List.append_assoc, List.cons_append, List.nil_append]
  rw [hg.nextKey?]
  exact Reading.map_ok hquoted

theorem named_of_nextKey? (h : nextKey? first u = .ok (some k, t))
    (hcolon : colon t = .ok ((), r)) : ∃ l, Named first k l ∧ u = l ++ r := by
  obtain ⟨c, hc, rfl⟩ := blanks_of_colon hcolon
  have named {g m : Bytes} (hg : Gap first g) (hm : quoted m = .ok (k, c ++ 0x3A :: r)) :
      ∃ l, Named first k l ∧ g ++ 0x22 :: m = l ++ r := by
    obtain ⟨s, hs, rfl⟩ := spells_of_quoted hm
    exact ⟨_, ⟨g, s, c, hg, hs, hc, rfl⟩, by simp⟩
  obtain ⟨b, m, hdrop, ⟨-, he, -⟩ | ⟨rfl, rfl, j, he, hj⟩ | ⟨rfl, rfl, j, n, he, hn, hj⟩⟩ :=
    nextKey?_cases h
  · cases he
  · cases he
    obtain ⟨w, hw, rfl⟩ := blanks_of_dropWhile hdrop
    exact named (.first hw) hj
  · cases he
    obtain ⟨w, hw, rfl⟩ := blanks_of_dropWhile hdrop
    obtain ⟨i, hi, rfl⟩ := blanks_of_dropWhile hn
    obtain ⟨l, hl, hsplit⟩ := named (.later hw hi) hj
    refine ⟨l, hl, ?_⟩
    rw [← hsplit, List.append_assoc, List.cons_append]

theorem blanks_of_nextKey? (h : nextKey? first u = .ok (none, r)) :
    ∃ w, Blanks w ∧ u = w ++ 0x7D :: r := by
  obtain ⟨b, t, hdrop, ⟨rfl, -, rfl⟩ | ⟨-, -, j, he, -⟩ | ⟨-, -, j, _, he, -⟩⟩ := nextKey?_cases h
  · exact blanks_of_dropWhile hdrop
  · cases he
  · cases he

theorem nextInk_bind_dropWhile (c : Cause) (f : UInt8 → Reader α) (s : Bytes) :
    (nextInk c >>= f) (s.dropWhile isBlank) = (nextInk c >>= f) s := by
  have htrim := nextInk_dropWhile c s
  cases h : nextInk c s with
  | error x => rw [bind_error h, bind_error (htrim.trans h)]
  | ok x => rw [bind_ok h, bind_ok (htrim.trans h)]

theorem bind_pure_dropWhile {p : Reader α} (h : p (s.dropWhile isBlank) = p s) (g : α → β) :
    (p >>= fun v => pure (g v)) (s.dropWhile isBlank) = (p >>= fun v => pure (g v)) s := by
  cases hs : p s with
  | error f => rw [bind_error hs, bind_error (h.trans hs)]
  | ok x => rw [bind_ok hs, bind_ok (h.trans hs)]

theorem value_dropWhile (d : Nat) (s : Bytes) : value d (s.dropWhile isBlank) = value d s := by
  cases d with
  | zero => exact nextInk_bind_dropWhile _ _ s
  | succ d => exact nextInk_bind_dropWhile _ _ s

theorem skipValue_of_value {d : Nat} {x : Value} (h : value d u = .ok (x, r)) :
    skipValue u = .ok ((), r) := by
  rw [value_eq] at h
  obtain ⟨y, hy, -⟩ := map_eq_ok h
  exact skipValue_of_written hy

theorem follows_value (d : Nat) : Follows SameValue (value d) where
  inked := by
    rintro v _ ⟨rfl, hv⟩
    have hink : Inked .list (v ++ []) := hv.inked []
    rw [List.append_nil] at hink
    exact ⟨hink, hink⟩
  trims := value_dropWhile d
  same := by
    rintro v _ e e' x r ⟨rfl, hv⟩ he he' hx
    -- A skip takes `v` and no more, and a reader takes what a skip takes.
    have hskip := hv.skipValue he
    rw [skipValue_of_value hx] at hskip
    cases hskip
    obtain ⟨s, hsplit, hs⟩ := local_value d hx
    obtain rfl := List.append_cancel_right hsplit
    exact ⟨rfl, hs e' (.inr he')⟩
  taken := by
    intro u x r hx
    obtain ⟨v, rfl, hv⟩ := fits_of_skipValue (skipValue_of_value hx)
    exact ⟨v, rfl, rfl, hv⟩

section Lists

variable {R : Bytes → Bytes → Prop} {p : Reader α} {n : Nat} {xs : List α}

theorem inked_of_opening {k : Bracket} (hw : Blanks w) (s : Bytes) :
    Inked .list (w ++ k.opening :: s) :=
  ⟨k.opening, s, dropWhile_blanks hw k.isBlank_opening s, k.opening_ne_close .list⟩

theorem ItemsAlike.ends {R : Nat → Bytes → Bytes → Prop} (h : ItemsAlike R (n + 1) s s')
    (e e' : Bytes) : Ends (s ++ e) ∧ Ends (s' ++ e') := by
  have hfalse : decide (n + 1 = 0) = false := decide_eq_false (Nat.succ_ne_zero n)
  cases h with
  | close hw hw' =>
    simp only [List.append_assoc]
    exact ⟨(ends_of_closing rfl _).of_blanks hw, (ends_of_closing rfl _).of_blanks hw'⟩
  | item hg hg' _ _ =>
    rw [hfalse] at hg hg'
    simp only [List.append_assoc]
    exact ⟨hg.ends _, hg'.ends _⟩

theorem items_same (hp : Follows R p) (h : Shrinks p) (ha : ItemsAlike (fun _ => R) n s s')
    (hs : items p h (n = 0) (s ++ e) = .ok (xs, r)) :
    r = e ∧ items p h (n = 0) (s' ++ e') = .ok (xs, e') := by
  induction ha generalizing xs with
  | @close n w w' hw hw' =>
    simp only [List.append_assoc, List.singleton_append] at hs ⊢
    rw [items_eq, bind_ok (moreItems_close (dropWhile_blanks hw rfl e))] at hs
    cases hs
    rw [items_eq, bind_ok (moreItems_close (dropWhile_blanks hw' rfl e'))]
    exact ⟨rfl, rfl⟩
  | @item n g g' v v' s s' hg hg' hv ha ih =>
    have hfalse : decide (n + 1 = 0) = false := decide_eq_false (Nat.succ_ne_zero n)
    obtain ⟨hink, hink'⟩ := hp.inked hv
    obtain ⟨hends, hends'⟩ := ha.ends e e'
    simp only [List.append_assoc] at hs ⊢
    rw [items_eq, bind_ok (hg.moreItems hink _), if_pos rfl] at hs
    obtain ⟨x, m, hx, hs⟩ := bind_eq_ok hs
    rw [hp.trims] at hx
    obtain ⟨rfl, hx'⟩ := hp.same hv hends hends' hx
    obtain ⟨ys, t, hys, hs⟩ := bind_eq_ok hs
    cases hs
    rw [← hfalse] at hys
    obtain ⟨rfl, hys'⟩ := ih hys
    rw [hfalse] at hys'
    rw [items_eq, bind_ok (hg'.moreItems hink' _), if_pos rfl, bind_ok ((hp.trims _).trans hx'),
      bind_ok hys']
    exact ⟨rfl, rfl⟩

theorem itemsAlike_of_items (hp : Follows R p) (h : Shrinks p)
    (hs : items p h first u = .ok (xs, r)) (hfirst : first = decide (n = 0)) :
    ∃ s, u = s ++ r ∧ ItemsAlike (fun _ => R) n s s := by
  fun_induction items p h first u generalizing xs r n with
  | case1 | case3 | case4 => cases hs
  | case2 first u m hm =>
    cases hs
    obtain ⟨w, hw, rfl⟩ := blanks_of_moreItems hm
    exact ⟨w ++ [0x5D], by simp, .close hw hw⟩
  | case5 first u m hm x t hx xs z hxs ih =>
    cases hs
    subst hfirst
    obtain ⟨g, hg, rfl⟩ := gap_of_moreItems hm
    obtain ⟨v, rfl, hv⟩ := hp.taken hx
    obtain ⟨s, rfl, hs⟩ := ih hxs (n := n + 1) (decide_eq_false (Nat.succ_ne_zero n)).symm
    exact ⟨g ++ (v ++ s), by simp, .item hg hg hv hs⟩

theorem follows_typedList (hp : Follows R p) (h : Shrinks p) (d : Nat) :
    Follows (ListsAlike R) (typedList p h d) where
  inked := by
    rintro v v' ⟨hw, hw', -⟩
    exact ⟨inked_of_opening (k := .list) hw _, inked_of_opening (k := .list) hw' _⟩
  trims := nextInk_bind_dropWhile _ _
  same := by
    rintro v v' e e' x r ⟨hw, hw', ha⟩ - - hx
    rw [List.append_assoc, List.cons_append] at hx ⊢
    rw [typedList, bind_ok (nextInk_blanks hw rfl _ _), if_pos rfl] at hx
    rw [typedList, bind_ok (nextInk_blanks hw' rfl _ _), if_pos rfl]
    split at hx
    · cases hx
    · next hd =>
      rw [if_neg hd]
      exact items_same hp h ha hx
  taken := by
    intro u x r hx
    obtain ⟨b, t, hb, hlist⟩ := bind_eq_ok hx
    obtain ⟨w, hw, rfl⟩ := blanks_of_nextInk hb
    split_ifs at hlist with hopen hd
    · cases hlist
    · obtain ⟨s, rfl, hs⟩ := itemsAlike_of_items hp h hlist (n := 0) rfl
      exact ⟨w ++ b :: s, by simp, hopen ▸ .list hw hw hs⟩
    · obtain ⟨f, hf⟩ := mismatched_error (α := List α) .list b t
      rw [hf] at hlist
      cases hlist

end Lists

theorem MembersAlike.ends {keys : List Text} {R : Text → Bytes → Bytes → Prop} {first' : Bool}
    (h : MembersAlike keys R first first' s s') (e e' : Bytes) :
    Ends (s ++ e) ∧ Ends (s' ++ e') := by
  induction h with
  | close hw hw' =>
    simp only [List.append_assoc]
    exact ⟨(ends_of_closing rfl _).of_blanks hw, (ends_of_closing rfl _).of_blanks hw'⟩
  | field _ hl hl' _ _ _ =>
    simp only [List.append_assoc]
    exact ⟨hl.ends _, hl'.ends _⟩
  | left _ hl _ _ ih =>
    simp only [List.append_assoc]
    exact ⟨hl.ends _, ih.2⟩
  | right _ hl _ _ ih =>
    simp only [List.append_assoc]
    exact ⟨ih.1, hl.ends _⟩

namespace Record

variable {R : Text → Bytes → Bytes → Prop} {l : Record σ α} {f : Field σ} {fs : List (Field σ)}
  {d n : Nat} {a x : σ} {first' : Bool}

def keys (l : Record σ α) : List Text := l.fields.map (·.key)

def FollowsFields (R : Text → Bytes → Bytes → Prop) (l : Record σ α) : Prop :=
  ∀ f ∈ l.fields, ∀ d a, Follows (R f.key) (f.read d a)

theorem find?_of_mem_keys (hk : k ∈ l.keys) :
    ∃ f ∈ l.fields, l.fields.find? (·.key = k) = some f ∧ f.key = k := by
  obtain ⟨f, hf, hkey⟩ := List.mem_map.mp hk
  have hsome : (l.fields.find? (·.key = k)).isSome = true :=
    List.find?_isSome.mpr ⟨f, hf, decide_eq_true hkey⟩
  obtain ⟨j, hj⟩ := Option.isSome_iff_exists.mp hsome
  have hkey := List.find?_some hj
  exact ⟨j, List.mem_of_find?_eq_some hj, hj, of_decide_eq_true hkey⟩

theorem find?_of_not_mem_keys (hk : k ∉ l.keys) : l.fields.find? (·.key = k) = none := by
  rw [List.find?_eq_none]
  intro f hf hkey
  exact hk (List.mem_map.mpr ⟨f, hf, of_decide_eq_true hkey⟩)

theorem members_other (hk : k ∉ l.keys) (hg : Named first k g) (hv : Fits .value v) (ht : Ends t) :
    members (l.member d) (l.stays_member d) first a (g ++ (v ++ t)) =
      members (l.member d) (l.stays_member d) false a t := by
  obtain ⟨c, hc, hnext⟩ := hg.nextKey?
  have hmember : l.member d k a (c ++ 0x3A :: (v ++ t)) = .ok (a, t) := by
    rw [member, find?_of_not_mem_keys hk]
    dsimp only
    rw [bind_ok (colon_blanks hc _), bind_ok (hv.skipValue ht)]
    rfl
  rw [members_eq, bind_ok (hnext _)]
  exact bind_ok hmember

theorem members_field (hf : l.fields.find? (·.key = k) = some f) (hg : Named first k g) :
    members (l.member d) (l.stays_member d) first a (g ++ t) = .ok (x, r) ↔
      f.given a = false ∧ ∃ b m, f.read d a t = .ok (b, m) ∧
        members (l.member d) (l.stays_member d) false b m = .ok (x, r) := by
  obtain ⟨c, hc, hnext⟩ := hg.nextKey?
  rw [members_eq, bind_ok (hnext t)]
  dsimp only
  have hmember : l.member d k a (c ++ 0x3A :: t) =
      if f.given a = true then (do blanks; failAhead (.duplicate k) : Reader σ) (c ++ 0x3A :: t)
      else f.read d a t := by
    rw [member, hf]
    dsimp only
    split
    · rfl
    · rw [bind_ok (colon_blanks hc t)]
  cases hgiven : f.given a with
  | true =>
    refine iff_of_false (fun h => ?_) (by simp)
    obtain ⟨b, m, hb, -⟩ := bind_eq_ok h
    rw [hmember, if_pos hgiven] at hb
    cases hb
  | false =>
    rw [if_neg (by simp [hgiven])] at hmember
    constructor
    · intro h
      obtain ⟨b, m, hb, h⟩ := bind_eq_ok h
      exact ⟨rfl, b, m, hmember ▸ hb, h⟩
    · rintro ⟨-, b, m, hb, h⟩
      exact (bind_ok (hmember.trans hb)).trans h

theorem members_same (hR : l.FollowsFields R) (ha : MembersAlike l.keys R first first' s s')
    (hx : members (l.member d) (l.stays_member d) first a (s ++ e) = .ok (x, r)) :
    r = e ∧ members (l.member d) (l.stays_member d) first' a (s' ++ e') = .ok (x, e') := by
  -- Both objects have the same draft at every step: a member that only one has leaves it as it is.
  induction ha generalizing a with
  | close hw hw' =>
    simp only [List.append_assoc, List.singleton_append] at hx ⊢
    rw [members_eq, bind_ok (nextKey?_close (dropWhile_blanks hw rfl e))] at hx
    cases hx
    rw [members_eq, bind_ok (nextKey?_close (dropWhile_blanks hw' rfl e'))]
    exact ⟨rfl, rfl⟩
  | field hk hg hg' hv ha ih =>
    obtain ⟨f, hf, hfind, rfl⟩ := find?_of_mem_keys hk
    obtain ⟨hends, hends'⟩ := ha.ends e e'
    simp only [List.append_assoc] at hx ⊢
    obtain ⟨hgiven, b, m, hb, hx⟩ := (members_field hfind hg).mp hx
    obtain ⟨rfl, hb'⟩ := (hR f hf d a).same hv hends hends' hb
    obtain ⟨rfl, hx'⟩ := ih hx
    exact ⟨rfl, (members_field hfind hg').mpr ⟨hgiven, b, _, hb', hx'⟩⟩
  | left hk hg hv ha ih =>
    rw [List.append_assoc, List.append_assoc, members_other hk hg hv (ha.ends e e').1] at hx
    exact ih hx
  | right hk hg hv ha ih =>
    rw [List.append_assoc, List.append_assoc, members_other hk hg hv (ha.ends e e').2]
    exact ih hx

theorem member_cases {c : σ} (h : l.member d k a u = .ok (c, t)) :
    ∃ w, colon u = .ok ((), w) ∧
      (l.fields.find? (·.key = k) = none ∧ c = a ∧ skipValue w = .ok ((), t) ∨
        ∃ f ∈ l.fields, f.key = k ∧ l.fields.find? (·.key = k) = some f ∧ f.given a = false ∧
          f.read d a w = .ok (c, t)) := by
  cases hfind : l.fields.find? (·.key = k) with
  | none =>
    rw [member, hfind] at h
    obtain ⟨_, w, hcolon, h⟩ := bind_eq_ok h
    obtain ⟨_, z, hskip, h⟩ := bind_eq_ok h
    cases h
    exact ⟨w, hcolon, .inl ⟨rfl, rfl, hskip⟩⟩
  | some f =>
    have hkey := List.find?_some hfind
    rw [member, hfind] at h
    dsimp only at h
    split at h
    · obtain ⟨_, _, -, h⟩ := bind_eq_ok h
      cases h
    · next hgiven =>
      obtain ⟨_, w, hcolon, h⟩ := bind_eq_ok h
      exact ⟨w, hcolon, .inr ⟨f, List.mem_of_find?_eq_some hfind, of_decide_eq_true hkey, rfl,
        Bool.eq_false_iff.mpr hgiven, h⟩⟩

theorem membersAlike_of_members (hR : l.FollowsFields R)
    (hx : members (l.member d) (l.stays_member d) first a u = .ok (x, r)) :
    ∃ s, u = s ++ r ∧ MembersAlike l.keys R first first s s := by
  fun_induction members (l.member d) (l.stays_member d) first a u generalizing x r with
  | case1 | case3 => cases hx
  | case2 first a u m hk =>
    cases hx
    obtain ⟨w, hw, rfl⟩ := blanks_of_nextKey? hk
    exact ⟨w ++ [0x7D], by simp, .close hw hw⟩
  | case4 first a u k m hk b t hm ih =>
    obtain ⟨s, rfl, hs⟩ := ih hx
    obtain ⟨y, hcolon, ⟨hfind, rfl, hskip⟩ | ⟨f, hf, rfl, -, -, hread⟩⟩ := member_cases hm
    · have hmem : k ∉ l.keys := fun hmem => by
        obtain ⟨f, -, hf, -⟩ := find?_of_mem_keys hmem
        rw [hf] at hfind
        cases hfind
      obtain ⟨g, hg, rfl⟩ := named_of_nextKey? hk hcolon
      obtain ⟨v, rfl, hv⟩ := fits_of_skipValue hskip
      exact ⟨g ++ (v ++ s), by simp, .left hmem hg hv (.right hmem hg hv hs)⟩
    · obtain ⟨g, hg, rfl⟩ := named_of_nextKey? hk hcolon
      obtain ⟨v, rfl, hv⟩ := (hR f hf d a).taken hread
      exact ⟨g ++ (v ++ s), by simp, .field (List.mem_map_of_mem hf) hg hg hv hs⟩

theorem closeList_eq (hw : Blanks w) (t : Bytes) : closeList (w ++ 0x5D :: t) = .ok ((), t) := by
  rw [closeList, bind_ok (nextInk_blanks hw rfl t _), if_pos rfl]
  rfl

theorem blanks_of_closeList (h : closeList u = .ok ((), r)) :
    ∃ w, Blanks w ∧ u = w ++ 0x5D :: r := by
  obtain ⟨b, m, hb, hclosed⟩ := bind_eq_ok h
  obtain ⟨w, hw, rfl⟩ := blanks_of_nextInk hb
  split_ifs at hclosed with hbracket hcomma
  · cases hclosed
    exact ⟨w, hw, by rw [hbracket]⟩
  · obtain ⟨_, _, -, hcause⟩ := bind_eq_ok hclosed
    cases hcause
  · cases hclosed

theorem getElem?_of_drop (h : l.fields.drop n = f :: fs) :
    l.fields[n]? = some f ∧ l.fields.drop (n + 1) = fs := by
  have hhead : (l.fields.drop n)[0]? = l.fields[n]? := List.getElem?_drop
  have htail : (l.fields.drop n).tail = l.fields.drop (n + 1) := List.tail_drop
  rw [h] at hhead htail
  exact ⟨hhead.symm, htail.symm⟩

theorem listed_same (hR : l.FollowsFields R) (hfs : l.fields.drop n = fs)
    (ha : ItemsAlike (Row l.keys R) n s s') (hx : l.listed d n a fs (s ++ e) = .ok (x, r)) :
    r = e ∧ l.listed d n a fs (s' ++ e') = .ok (x, e') := by
  induction fs generalizing n a s s' with
  | nil =>
    cases ha with
    | close hw hw' =>
      simp only [List.append_assoc, List.singleton_append] at hx ⊢
      rw [listed, bind_ok (closeList_eq hw e)] at hx
      cases hx
      rw [listed, bind_ok (closeList_eq hw' e')]
      exact ⟨rfl, rfl⟩
    | item _ _ hv _ =>
      obtain ⟨k, hk, -⟩ := hv
      have hle := List.drop_eq_nil_iff.mp hfs
      rw [keys, List.getElem?_map, List.getElem?_eq_none hle] at hk
      cases hk
  | cons f fs ih =>
    obtain ⟨hf, hrest⟩ := getElem?_of_drop hfs
    cases ha with
    | close hw hw' =>
      simp only [List.append_assoc, List.singleton_append] at hx ⊢
      rw [listed, bind_ok (moreItems_close (dropWhile_blanks hw rfl e))] at hx
      rw [listed, bind_ok (moreItems_close (dropWhile_blanks hw' rfl e'))]
      rw [if_neg Bool.false_ne_true] at hx ⊢
      split at hx
      · cases hx
      · next hrequired =>
        cases hx
        rw [if_neg hrequired]
        exact ⟨rfl, rfl⟩
    | item hg hg' hv ha =>
      obtain ⟨k, hk, hv⟩ := hv
      rw [keys, List.getElem?_map, hf] at hk
      obtain rfl := Option.some.inj hk
      have hfollows := hR f (List.mem_of_getElem? hf) d a
      obtain ⟨hink, hink'⟩ := hfollows.inked hv
      obtain ⟨hends, hends'⟩ := ha.ends e e'
      simp only [List.append_assoc] at hx ⊢
      rw [listed, bind_ok (hg.moreItems hink _), if_pos rfl] at hx
      obtain ⟨b, m, hb, hx⟩ := bind_eq_ok hx
      rw [hfollows.trims] at hb
      obtain ⟨rfl, hb'⟩ := hfollows.same hv hends hends' hb
      obtain ⟨rfl, hx'⟩ := ih hrest ha hx
      rw [listed, bind_ok (hg'.moreItems hink' _), if_pos rfl,
        bind_ok ((hfollows.trims _).trans hb'), hx']
      exact ⟨rfl, rfl⟩

theorem itemsAlike_of_listed (hR : l.FollowsFields R) (hfs : l.fields.drop n = fs)
    (hx : l.listed d n a fs u = .ok (x, r)) :
    ∃ s, u = s ++ r ∧ ItemsAlike (Row l.keys R) n s s := by
  induction fs generalizing n a u with
  | nil =>
    obtain ⟨_, m, hclose, hend⟩ := bind_eq_ok hx
    cases hend
    obtain ⟨w, hw, rfl⟩ := blanks_of_closeList hclose
    exact ⟨w ++ [0x5D], by simp, .close hw hw⟩
  | cons f fs ih =>
    obtain ⟨hf, hrest⟩ := getElem?_of_drop hfs
    obtain ⟨more, m, hmore, hbehind⟩ := bind_eq_ok hx
    cases more with
    | false =>
      rw [if_neg Bool.false_ne_true] at hbehind
      obtain ⟨w, hw, rfl⟩ := blanks_of_moreItems hmore
      split at hbehind
      · cases hbehind
      · cases hbehind
        exact ⟨w ++ [0x5D], by simp, .close hw hw⟩
    | true =>
      rw [if_pos rfl] at hbehind
      obtain ⟨b, t, hb, hlisted⟩ := bind_eq_ok hbehind
      obtain ⟨g, hg, rfl⟩ := gap_of_moreItems hmore
      obtain ⟨v, rfl, hv⟩ := (hR f (List.mem_of_getElem? hf) d a).taken hb
      obtain ⟨s, rfl, hs⟩ := ih hrest hlisted
      have hrow : Row l.keys R n v v := by
        refine ⟨f.key, ?_, hv⟩
        rw [keys, List.getElem?_map, hf]
        rfl
      exact ⟨g ++ (v ++ s), by simp, .item hg hg hrow hs⟩

theorem finished_same {p : Reader σ} {x : α}
    (hp : ∀ b m, p u = .ok (b, m) → m = e ∧ p t = .ok (b, e'))
    (hx : (p >>= l.finished) u = .ok (x, r)) :
    r = e ∧ (p >>= l.finished) t = .ok (x, e') := by
  obtain ⟨b, m, hb, hfinished⟩ := bind_eq_ok hx
  obtain ⟨rfl, hb'⟩ := hp b m hb
  obtain ⟨rfl, hidle⟩ := l.idle_finished b hfinished
  exact ⟨rfl, (bind_ok hb').trans (hidle e')⟩

theorem follows_read (hR : l.FollowsFields R) (d : Nat) :
    Follows (RecordsAlike l.keys R) (l.read d) where
  inked := by
    rintro v v' (⟨hw, hw', -⟩ | ⟨hw, hw', -⟩)
    · exact ⟨inked_of_opening (k := .list) hw _, inked_of_opening (k := .list) hw' _⟩
    · exact ⟨inked_of_opening (k := .object) hw _, inked_of_opening (k := .object) hw' _⟩
  trims := nextInk_bind_dropWhile _ _
  same := by
    rintro v v' e e' x r (⟨hw, hw', ha⟩ | ⟨hw, hw', ha⟩) - - hx
    all_goals
      rw [List.append_assoc, List.cons_append] at hx ⊢
      rw [read, bind_ok (nextInk_blanks hw rfl _ _)] at hx
      rw [read, bind_ok (nextInk_blanks hw' rfl _ _)]
    · rw [if_pos rfl] at hx ⊢
      split at hx
      · cases hx
      · next hd =>
        rw [if_neg hd]
        exact finished_same (fun _ _ hb => listed_same hR List.drop_zero ha hb) hx
    · rw [if_neg (by decide), if_pos rfl] at hx ⊢
      split at hx
      · cases hx
      · next hd =>
        rw [if_neg hd]
        exact finished_same (fun _ _ hb => members_same hR ha hb) hx
  taken := by
    intro u x r hx
    obtain ⟨b, t, hb, hread⟩ := bind_eq_ok hx
    obtain ⟨w, hw, rfl⟩ := blanks_of_nextInk hb
    split_ifs at hread with hlist hd hobject hd
    · cases hread
    · obtain ⟨a, m, ha, hread⟩ := bind_eq_ok hread
      obtain ⟨rfl, -⟩ := l.idle_finished a hread
      obtain ⟨s, rfl, hs⟩ := itemsAlike_of_listed hR List.drop_zero ha
      exact ⟨w ++ b :: s, by simp, hlist ▸ .list hw hw hs⟩
    · cases hread
    · obtain ⟨a, m, ha, hread⟩ := bind_eq_ok hread
      obtain ⟨rfl, -⟩ := l.idle_finished a hread
      obtain ⟨s, rfl, hs⟩ := membersAlike_of_members hR ha
      exact ⟨w ++ b :: s, by simp, hobject ▸ .object hw hw hs⟩
    · obtain ⟨f, hf⟩ := mismatched_error (α := α) (.record l.name) b t
      rw [hf] at hread
      cases hread

end Record

end CallStrip.Json

import CallStrip.Proofs.Json.Decimal
import CallStrip.Proofs.Json.Likeness
import CallStrip.Proofs.Json.Ordered

/-!
What the texts of values denote, told by their grammar: digits are a number in tens, between quotes
a text is spelled, and of the members of an object the last one with a key counts. A value is read
from a text where the text denotes it, and nowhere else.
-/

namespace CallStrip.Json

open Reading (bind_eq_ok bind_ok map_eq_ok map_ok)
open Reader

variable {α : Type} {s t u r w e : Bytes} {b : UInt8} {first : Bool} {d m : Nat} {v : Value}
  {vs : List Value} {ms acc : List (Text × Value)} {x : Scalar}

def Reads (p : Reader α) (s : Bytes) (x : α) : Prop := ∀ e, Ends e → p (s ++ e) = .ok (x, e)

/-- What a scalar's text denotes. How a number is rounded that has a point, an exponent, too many
digits or a zero behind a minus is left to its reader. -/
inductive Means : Bytes → Scalar → Prop
  | null : Means [0x6E, 0x75, 0x6C, 0x6C] .null
  | yes : Means [0x74, 0x72, 0x75, 0x65] (.flag true)
  | no : Means [0x66, 0x61, 0x6C, 0x73, 0x65] (.flag false)
  | text {s : Bytes} {t : Text} : Spells s (Utf8.encode t) → Means (0x22 :: (s ++ [0x22])) (.text t)
  | whole {ds : Bytes} : Whole ds → decimal 0 ds < twoTo 64 →
    Means ds (.number (.whole (decimal 0 ds)))
  | negative {ds : Bytes} : Whole ds → 0 < decimal 0 ds → decimal 0 ds ≤ twoTo 63 →
    Means (0x2D :: ds) (.number (.whole (-(decimal 0 ds : Int))))
  | real {b : UInt8} {s : Bytes} {x : Binary64} : b = 0x2D ∨ isDigit b = true →
    Reads (number b) s (.real x) → Means (b :: s) (.number (.real x))

inductive ItemsDenote (R : Bytes → Value → Prop) : Bool → Bytes → List Value → Prop
  | close {first : Bool} {w : Bytes} : Blanks w → ItemsDenote R first (w ++ [0x5D]) []
  | item {first : Bool} {g s t : Bytes} {v : Value} {vs : List Value} : Gap first g → R s v →
    ItemsDenote R false t vs → ItemsDenote R first (g ++ (s ++ t)) (v :: vs)

inductive MembersDenote (R : Bytes → Value → Prop) : Bool → Bytes → List (Text × Value) → Prop
  | close {first : Bool} {w : Bytes} : Blanks w → MembersDenote R first (w ++ [0x7D]) []
  | member {first : Bool} {k : Text} {l s t : Bytes} {v : Value} {ms : List (Text × Value)} :
    Named first k l → R s v → MembersDenote R false t ms →
    MembersDenote R first (l ++ (s ++ t)) ((k, v) :: ms)

/-- A text denotes a value, with at most some brackets inside each other. -/
def Denotes : Nat → Bytes → Value → Prop
  | _, s, .scalar x => ∃ w t, s = w ++ t ∧ Blanks w ∧ Means t x
  | d + 1, s, .list vs =>
    ∃ w t, s = w ++ 0x5B :: t ∧ Blanks w ∧ ItemsDenote (Denotes d) true t vs
  | d + 1, s, .object ms => ∃ w t written, s = w ++ 0x7B :: t ∧ Blanks w ∧
    MembersDenote (Denotes d) true t written ∧ Settles written ms
  | 0, _, _ => False

theorem denotes_scalar : Denotes d s (.scalar x) ↔ ∃ w t, s = w ++ t ∧ Blanks w ∧ Means t x := by
  cases d <;> exact Iff.rfl

theorem scalar_of_number (h : b = 0x2D ∨ isDigit b = true) :
    Json.scalar b = Scalar.number <$> number b := by
  have hne (c : UInt8) (hc : c ≠ 0x2D) (hdigit : isDigit c = false) : b ≠ c := by
    rintro rfl
    rcases h with rfl | h
    · exact hc rfl
    · exact absurd h (Bool.eq_false_iff.mp hdigit)
  have hstart : (decide (b = 0x2D) || isDigit b) = true := by simpa using h
  rw [Json.scalar, if_neg (hne _ (by decide) (by decide)), if_neg (hne _ (by decide) (by decide)),
    if_neg (hne _ (by decide) (by decide)), if_neg (hne _ (by decide) (by decide)), if_pos hstart]

theorem startsScalar_of_number (h : b = 0x2D ∨ isDigit b = true) : startsScalar b = true := by
  rcases h with rfl | h
  · decide
  · exact startsScalar_of_digit h

theorem reads_number {ds : Bytes} {n : Number} (hb : b = 0x2D ∨ isDigit b = true)
    (h : Reads (number b) ds n) : Reads (Json.scalar b) ds (.number n) := by
  rw [scalar_of_number hb]
  exact fun e he => map_ok (h e he)

theorem Means.reads (h : Means s x) :
    ∃ b t, s = b :: t ∧ startsScalar b = true ∧ Reads (Json.scalar b) t x := by
  cases h with
  | null => exact ⟨_, _, rfl, by decide, fun e _ => bind_ok (word_append _ e)⟩
  | yes => exact ⟨_, _, rfl, by decide, fun e _ => bind_ok (word_append _ e)⟩
  | no => exact ⟨_, _, rfl, by decide, fun e _ => bind_ok (word_append _ e)⟩
  | @text s t hs =>
    refine ⟨_, _, rfl, by decide, fun e _ => ?_⟩
    rw [List.append_assoc]
    exact map_ok (hs.quoted e)
  | whole hw hlt =>
    obtain ⟨d, ds, rfl, hd⟩ := hw.eq_cons
    exact ⟨d, ds, rfl, startsScalar_of_digit hd,
      reads_number (.inr hd) fun e he => number_whole hw hlt he⟩
  | negative hw hpos hle =>
    exact ⟨_, _, rfl, by decide,
      reads_number (.inl rfl) fun e he => number_negative hw hpos hle he⟩
  | real hb hs => exact ⟨_, _, rfl, startsScalar_of_number hb, reads_number hb hs⟩

theorem means_of_number {n : Number} (hb : b = 0x2D ∨ isDigit b = true)
    (h : number b u = .ok (n, r)) : ∃ t, u = t ++ r ∧ Means (b :: t) (.number n) := by
  cases n with
  | whole i =>
    obtain ⟨ds, rfl, hw, hlt, rfl⟩ | ⟨ds, rfl, rfl, hw, hpos, hle, rfl⟩ := number_eq_whole h
    · exact ⟨ds, rfl, .whole hw hlt⟩
    · exact ⟨ds, rfl, .negative hw hpos hle⟩
  | real x =>
    obtain ⟨t, rfl, ht⟩ := local_number b h
    exact ⟨t, rfl, .real hb fun e he => ht e (.inr he)⟩

theorem means_of_scalar (h : Json.scalar b u = .ok (x, r)) : ∃ t, u = t ++ r ∧ Means (b :: t) x := by
  unfold Json.scalar at h
  split_ifs at h with hnull hyes hno hquote hnumber
  · subst hnull
    obtain ⟨_, m, hw, hx⟩ := bind_eq_ok h
    cases hx
    exact ⟨_, rest_of_word hw, .null⟩
  · subst hyes
    obtain ⟨_, m, hw, hx⟩ := bind_eq_ok h
    cases hx
    exact ⟨_, rest_of_word hw, .yes⟩
  · subst hno
    obtain ⟨_, m, hw, hx⟩ := bind_eq_ok h
    cases hx
    exact ⟨_, rest_of_word hw, .no⟩
  · subst hquote
    obtain ⟨t, ht, rfl⟩ := map_eq_ok h
    obtain ⟨s, hs, rfl⟩ := spells_of_quoted ht
    exact ⟨s ++ [0x22], by simp, .text hs⟩
  · obtain ⟨n, hn, rfl⟩ := map_eq_ok h
    exact means_of_number (by simpa using hnumber) hn
  · cases h

def putMember (p : Reader Value) (k : Text) (ms : List (Text × Value)) :
    Reader (List (Text × Value)) := do
  colon
  return put k (← p) ms

theorem stays_putMember (d : Nat) (k : Text) (ms : List (Text × Value)) :
    Stays (putMember (value d) k ms) :=
  shrinks_colon.stays.bind fun _ => (shrinks_value d).stays.bind fun _ => stays_pure _

theorem putMember_ok {p : Reader Value} (hw : Blanks w) (h : p s = .ok (v, r)) (k : Text)
    (ms : List (Text × Value)) : putMember p k ms (w ++ 0x3A :: s) = .ok (put k v ms, r) := by
  rw [putMember, bind_ok (colon_blanks hw s)]
  exact bind_ok h

theorem value_zero : value 0 = nextInk .endInValue >>= fun b =>
    if b = 0x5B || b = 0x7B then fail .tooDeep else Value.scalar <$> Json.scalar b :=
  rfl

theorem value_list (hw : Blanks w) (s : Bytes) : value (d + 1) (w ++ 0x5B :: s) =
    (Value.list <$> (items (value d) (shrinks_value d) true : Reader (List Value)) :
      Reader Value) s := by
  rw [value_succ d (stays_putMember d), bind_ok (nextInk_blanks hw rfl s _), if_pos rfl]

theorem value_object (hw : Blanks w) (s : Bytes) : value (d + 1) (w ++ 0x7B :: s) =
    (Value.object <$> (members (putMember (value d)) (stays_putMember d) true [] :
      Reader (List (Text × Value))) : Reader Value) s := by
  rw [value_succ d (stays_putMember d), bind_ok (nextInk_blanks hw rfl s _), if_neg (by decide),
    if_pos rfl]
  rfl

theorem value_scalar (hw : Blanks w) (hb : startsScalar b = true) (s : Bytes) :
    value d (w ++ b :: s) = (Value.scalar <$> Json.scalar b) s := by
  obtain ⟨hopened, hblank, -⟩ := of_startsScalar hb
  have hlist : b ≠ 0x5B := by
    rintro rfl
    cases hopened
  have hobject : b ≠ 0x7B := by
    rintro rfl
    cases hopened
  cases d with
  | zero =>
    rw [value_zero, bind_ok (nextInk_blanks hw hblank s _), if_neg (by simp [hlist, hobject])]
  | succ d =>
    rw [value_succ d (stays_putMember d), bind_ok (nextInk_blanks hw hblank s _), if_neg hlist,
      if_neg hobject]

section Rests

variable {R R' : Bytes → Value → Prop} {p : Reader Value}

theorem ItemsDenote.ends (h : ItemsDenote R false s vs) (e : Bytes) : Ends (s ++ e) := by
  cases h with
  | close hw =>
    rw [List.append_assoc]
    exact (ends_of_closing rfl _).of_blanks hw
  | item hg _ _ =>
    rw [List.append_assoc]
    exact hg.ends _

theorem MembersDenote.ends (h : MembersDenote R first s ms) (e : Bytes) : Ends (s ++ e) := by
  cases h with
  | close hw =>
    rw [List.append_assoc]
    exact (ends_of_closing rfl _).of_blanks hw
  | member hl _ _ =>
    rw [List.append_assoc]
    exact hl.ends _

theorem ItemsDenote.read (hp : Shrinks p) (htrims : ∀ s, p (s.dropWhile isBlank) = p s)
    (hR : ∀ s v, R s v → Inked .list s ∧ Reads p s v) (h : ItemsDenote R first s vs) (e : Bytes) :
    items p hp first (s ++ e) = .ok (vs, e) := by
  induction h with
  | close hw =>
    rw [List.append_assoc, List.singleton_append, items_eq,
      bind_ok (moreItems_close (dropWhile_blanks hw rfl e))]
    rfl
  | @item first g s t v vs hg hv ht ih =>
    obtain ⟨hink, hreads⟩ := hR s v hv
    rw [List.append_assoc, List.append_assoc, items_eq, bind_ok (hg.moreItems hink _), if_pos rfl,
      bind_ok ((htrims _).trans (hreads _ (ht.ends e))), bind_ok ih]
    rfl

theorem MembersDenote.read (hm : ∀ k ms, Stays (putMember p k ms))
    (hR : ∀ s v, R s v → Reads p s v) (h : MembersDenote R first s ms)
    (acc : List (Text × Value)) (e : Bytes) : members (putMember p) hm first acc (s ++ e) =
      .ok (ms.foldl (fun ms m => put m.1 m.2 ms) acc, e) := by
  induction h generalizing acc with
  | close hw =>
    rw [List.append_assoc, List.singleton_append, members_eq,
      bind_ok (nextKey?_close (dropWhile_blanks hw rfl e))]
    rfl
  | @member first k l s t v ms hl hv ht ih =>
    obtain ⟨c, hc, hnext⟩ := hl.nextKey?
    rw [List.append_assoc, List.append_assoc, members_eq, bind_ok (hnext _)]
    exact (bind_ok (putMember_ok hc (hR s v hv _ (ht.ends e)) k acc)).trans (ih (put k v acc))

theorem ItemsDenote.imp (h : ∀ s v, R s v → R' s v) (hs : ItemsDenote R first s vs) :
    ItemsDenote R' first s vs := by
  induction hs with
  | close hw => exact .close hw
  | item hg hv _ ih => exact .item hg (h _ _ hv) ih

theorem MembersDenote.imp (h : ∀ s v, R s v → R' s v) (hs : MembersDenote R first s ms) :
    MembersDenote R' first s ms := by
  induction hs with
  | close hw => exact .close hw
  | member hl hv _ ih => exact .member hl (h _ _ hv) ih

end Rests

theorem Denotes.inked (h : Denotes d s v) : Inked .list s := by
  cases v with
  | scalar x =>
    obtain ⟨w, t, rfl, hw, hx⟩ := denotes_scalar.mp h
    obtain ⟨b, t, rfl, hb, -⟩ := hx.reads
    obtain ⟨-, hblank, hclosing⟩ := of_startsScalar hb
    refine ⟨b, t, dropWhile_blanks hw hblank t, ?_⟩
    rintro rfl
    cases hclosing
  | list vs =>
    cases d with
    | zero => cases h
    | succ d =>
      obtain ⟨w, t, rfl, hw, -⟩ := h
      exact inked_of_opening (k := .list) hw t
  | object ms =>
    cases d with
    | zero => cases h
    | succ d =>
      obtain ⟨w, t, written, rfl, hw, -⟩ := h
      exact inked_of_opening (k := .object) hw t

theorem reads_scalar (h : Denotes d s (.scalar x)) : Reads (value d) s (.scalar x) := by
  obtain ⟨w, t, rfl, hw, hx⟩ := denotes_scalar.mp h
  obtain ⟨b, t, rfl, hb, hreads⟩ := hx.reads
  intro e he
  rw [List.append_assoc, List.cons_append, value_scalar hw hb]
  exact map_ok (hreads e he)

theorem Denotes.reads (h : Denotes d s v) : Reads (value d) s v := by
  induction d generalizing s v with
  | zero =>
    cases v with
    | scalar x => exact reads_scalar h
    | list vs => cases h
    | object ms => cases h
  | succ d ih =>
    intro e he
    cases v with
    | scalar x => exact reads_scalar h e he
    | list vs =>
      obtain ⟨w, t, rfl, hw, ht⟩ := h
      have hitems := ht.read (shrinks_value d) (value_dropWhile d)
        (fun s v hv => ⟨hv.inked, ih hv⟩) e
      rw [List.append_assoc, List.cons_append, value_list hw]
      exact map_ok hitems
    | object ms =>
      obtain ⟨w, t, written, rfl, hw, ht, hms⟩ := h
      have hmembers := ht.read (stays_putMember d) (fun s v hv => ih hv) [] e
      rw [List.append_assoc, List.cons_append, value_object hw, hms.eq_collect]
      exact map_ok hmembers

theorem itemsDenote_of_items {R : Bytes → Value → Prop} {p : Reader Value} (hp : Shrinks p)
    (hR : ∀ u v r, p u = .ok (v, r) → ∃ s, u = s ++ r ∧ R s v)
    (h : items p hp first u = .ok (vs, r)) : ∃ s, u = s ++ r ∧ ItemsDenote R first s vs := by
  fun_induction items p hp first u generalizing vs r with
  | case1 | case3 | case4 => cases h
  | case2 first u m hm =>
    cases h
    obtain ⟨w, hw, rfl⟩ := blanks_of_moreItems hm
    exact ⟨w ++ [0x5D], by simp, .close hw⟩
  | case5 first u m hm v t hv vs x hvs ih =>
    cases h
    obtain ⟨g, hg, rfl⟩ := gap_of_moreItems hm
    obtain ⟨s, rfl, hs⟩ := hR _ _ _ hv
    obtain ⟨z, rfl, hz⟩ := ih hvs
    exact ⟨g ++ (s ++ z), by simp, .item hg hs hz⟩

theorem membersDenote_of_members {R : Bytes → Value → Prop} {p : Reader Value}
    (hm : ∀ k ms, Stays (putMember p k ms))
    (hR : ∀ u v r, p u = .ok (v, r) → ∃ s, u = s ++ r ∧ R s v)
    (h : members (putMember p) hm first acc u = .ok (ms, r)) :
    ∃ s written, u = s ++ r ∧ MembersDenote R first s written ∧
      ms = written.foldl (fun ms m => put m.1 m.2 ms) acc := by
  fun_induction members (putMember p) hm first acc u generalizing ms r with
  | case1 | case3 => cases h
  | case2 first acc u m hk =>
    cases h
    obtain ⟨w, hw, rfl⟩ := blanks_of_nextKey? hk
    exact ⟨w ++ [0x7D], [], by simp, .close hw, rfl⟩
  | case4 first acc u k m hk acc' t hput ih =>
    obtain ⟨_, y, hcolon, hput⟩ := bind_eq_ok hput
    obtain ⟨v, z, hv, hput⟩ := bind_eq_ok hput
    cases hput
    obtain ⟨l, hl, rfl⟩ := named_of_nextKey? hk hcolon
    obtain ⟨s, rfl, hs⟩ := hR _ _ _ hv
    obtain ⟨z, written, rfl, hz, rfl⟩ := ih h
    exact ⟨l ++ (s ++ z), (k, v) :: written, by simp, .member hl hs hz, rfl⟩

theorem denotes_of_scalar (hw : Blanks w) (h : Json.scalar b t = .ok (x, r)) :
    ∃ s, w ++ b :: t = s ++ r ∧ Denotes d s (.scalar x) := by
  obtain ⟨s, rfl, hs⟩ := means_of_scalar h
  exact ⟨w ++ b :: s, by simp, denotes_scalar.mpr ⟨w, b :: s, rfl, hw, hs⟩⟩

theorem denotes_of_value (h : value d u = .ok (v, r)) : ∃ s, u = s ++ r ∧ Denotes d s v := by
  induction d generalizing u v r with
  | zero =>
    rw [value_zero] at h
    obtain ⟨b, t, hb, hbehind⟩ := bind_eq_ok h
    obtain ⟨w, hw, rfl⟩ := blanks_of_nextInk hb
    split at hbehind
    · cases hbehind
    · obtain ⟨x, hx, rfl⟩ := map_eq_ok hbehind
      exact denotes_of_scalar hw hx
  | succ d ih =>
    rw [value_succ d (stays_putMember d)] at h
    obtain ⟨b, t, hb, hbehind⟩ := bind_eq_ok h
    obtain ⟨w, hw, rfl⟩ := blanks_of_nextInk hb
    split_ifs at hbehind with hlist hobject
    · obtain ⟨vs, hvs, rfl⟩ := map_eq_ok hbehind
      obtain ⟨s, rfl, hs⟩ := itemsDenote_of_items (shrinks_value d) (fun _ _ _ => ih) hvs
      exact ⟨w ++ b :: s, by simp, w, s, by rw [hlist], hw, hs⟩
    · obtain ⟨ms, hms, rfl⟩ := map_eq_ok hbehind
      obtain ⟨s, written, rfl, hs, rfl⟩ :=
        membersDenote_of_members (stays_putMember d) (fun _ _ _ => ih) hms
      exact ⟨w ++ b :: s, by simp, w, s, written, by rw [hobject], hw, hs,
        settles_collect written⟩
    · obtain ⟨x, hx, rfl⟩ := map_eq_ok hbehind
      exact denotes_of_scalar hw hx

theorem denotes_of_reads (h : Reads (value d) s v) : Denotes d s v := by
  obtain ⟨t, hsplit, ht⟩ := denotes_of_value (h [] ends_nil)
  rwa [List.append_cancel_right hsplit]

theorem Denotes.mono (h : Denotes d s v) (hle : d ≤ m) : Denotes m s v := by
  induction d generalizing s v m with
  | zero =>
    cases v with
    | scalar x => exact denotes_scalar.mpr (denotes_scalar.mp h)
    | list vs => cases h
    | object ms => cases h
  | succ d ih =>
    cases m with
    | zero => exact absurd hle (Nat.not_succ_le_zero d)
    | succ m =>
      have hsub : ∀ s v, Denotes d s v → Denotes m s v :=
        fun s v hv => ih hv (Nat.le_of_succ_le_succ hle)
      cases v with
      | scalar x => exact denotes_scalar.mpr (denotes_scalar.mp h)
      | list vs =>
        obtain ⟨w, t, rfl, hw, ht⟩ := h
        exact ⟨w, t, rfl, hw, ht.imp hsub⟩
      | object ms =>
        obtain ⟨w, t, written, rfl, hw, ht, hms⟩ := h
        exact ⟨w, t, written, rfl, hw, ht.imp hsub, hms⟩

theorem Denotes.unique {v' : Value} (h : Denotes d s v) (h' : Denotes m s v') : v = v' := by
  have hread := (h.mono (Nat.le_max_left d m)).reads [] ends_nil
  have hread' := (h'.mono (Nat.le_max_right d m)).reads [] ends_nil
  rw [hread] at hread'
  cases hread'
  rfl

end CallStrip.Json

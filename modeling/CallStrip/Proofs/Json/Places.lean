import CallStrip.Proofs.Json.Meaning

/-!
Places in documents. What a reader makes of a text has parts, and each part has a place in the text:
with another text there, that part is what the other text is read as, and all else stays as it was.
Places in places are places.
-/

namespace CallStrip.Json

open Reading (bind_eq_ok bind_ok map_eq_ok map_ok)
open Reader

variable {α β γ σ : Type} {s t u r w e : Bytes} {b : UInt8} {first : Bool} {d : Nat} {k : Text}

/-- A part of a thing, which may be missing, and the thing with another such part. -/
structure Part (α β : Type) where
  get : α → Option β
  set : β → α → α

def Part.trans (m : Part α β) (n : Part β γ) : Part α γ where
  get a := (m.get a).bind n.get
  set z a := (m.get a).elim a fun y => m.set (n.set z y) a

theorem Part.trans_get {m : Part α β} {x : α} {y : β} (h : m.get x = some y) (n : Part β γ) :
    (m.trans n).get x = n.get y := by
  rw [trans]
  exact congrArg (Option.bind · n.get) h

theorem Part.trans_set {m : Part α β} {x : α} {y : β} (h : m.get x = some y) (n : Part β γ)
    (z : γ) : (m.trans n).set z x = m.set (n.set z y) x := by
  rw [trans]
  exact congrArg (Option.elim · x fun y => m.set (n.set z y) x) h

def Part.self : Part α α := ⟨some, fun y _ => y⟩

def Part.item (i : Nat) : Part (List α) α where
  get xs := xs[i]?
  set y xs := xs.set i y

/-- What `p` reads has a place for its part `m`, which `q` reads there. -/
def Holds (p : Reader α) (q : Reader β) (m : Part α β) : Prop :=
  ∀ ⦃u x r y⦄, p u = .ok (x, r) → m.get x = some y →
    ∃ front text back, u = front ++ (text ++ (back ++ r)) ∧ Reads q text y ∧
      ∀ text' y', Reads q text' y' → Reads p (front ++ (text' ++ back)) (m.set y' x)

theorem Holds.trans {p : Reader α} {q : Reader β} {q' : Reader γ} {m : Part α β} {n : Part β γ}
    (hp : Holds p q m) (hq : Holds q q' n) : Holds p q' (m.trans n) := by
  intro u x r z hu hz
  obtain ⟨y, hy, hz⟩ := Option.bind_eq_some_iff.mp hz
  obtain ⟨front, text, back, rfl, htext, hset⟩ := hp hu hy
  obtain ⟨front', text', back', hsplit, htext', hset'⟩ := hq (htext [] ends_nil) hz
  rw [List.append_nil, List.append_nil] at hsplit
  refine ⟨front ++ front', text', back' ++ back, by simp [hsplit], htext', fun t z' ht => ?_⟩
  have hread := hset _ _ (hset' t z' ht)
  rw [Part.trans_set hy]
  simpa only [List.append_assoc] using hread

theorem Holds.congr {p : Reader α} {q : Reader β} {m m' : Part α β} (h : Holds p q m)
    (hget : ∀ ⦃x y⦄, m'.get x = some y → m.get x = some y)
    (hset : ∀ ⦃x y⦄, m'.get x = some y → ∀ v, m'.set v x = m.set v x) : Holds p q m' := by
  intro u x r y hu hy
  obtain ⟨front, text, back, hsplit, htext, hread⟩ := h hu (hget hy)
  refine ⟨front, text, back, hsplit, htext, fun text' y' h' => ?_⟩
  rw [hset hy]
  exact hread text' y' h'

structure Framed (q : Reader β) : Prop where
  trims : ∀ s, q (s.dropWhile isBlank) = q s
  inked : ∀ ⦃s x⦄, q s = .ok x → Inked .list s
  takes : Local Ends q

theorem Framed.reads {q : Reader β} {y : β} (hq : Framed q) (h : q u = .ok (y, r)) :
    ∃ s, u = s ++ r ∧ Reads q s y := by
  obtain ⟨s, rfl, hs⟩ := hq.takes h
  exact ⟨s, rfl, fun e he => hs e (.inr he)⟩

theorem framed_nextInk {c : Cause} {f : UInt8 → Reader β} (hf : ∀ s, ∃ x, f 0x5D s = .error x)
    (hlocal : Local Ends (nextInk c >>= f)) : Framed (nextInk c >>= f) where
  trims := nextInk_bind_dropWhile c f
  inked := by
    intro s x hs
    obtain ⟨b, t, hb, ht⟩ := bind_eq_ok hs
    refine ⟨b, t, nextInk_eq_ok_iff.mp hb, ?_⟩
    rintro rfl
    obtain ⟨x, hx⟩ := hf t
    have hfails : f 0x5D t = .error x := hx
    cases hfails.symm.trans ht
  takes := hlocal

theorem framed_value (d : Nat) : Framed (value d) := by
  cases d with
  | zero => exact framed_nextInk (fun s => ⟨_, rfl⟩) (local_value 0)
  | succ d => exact framed_nextInk (fun s => ⟨_, rfl⟩) (local_value (d + 1))

theorem framed_typedList {q : Reader β} (hq : Framed q) (h : Shrinks q) (d : Nat) :
    Framed (typedList q h d) :=
  framed_nextInk (mismatched_error .list 0x5D) (closed_typedList hq.takes h d).local

theorem Framed.bind_pure {q : Reader β} (h : Framed q) (g : β → γ) :
    Framed (q >>= fun v => pure (g v)) where
  trims s := bind_pure_dropWhile (h.trims s) g
  inked := by
    intro s x hs
    obtain ⟨y, t, hy, -⟩ := bind_eq_ok hs
    exact h.inked hy
  takes := h.takes.bind fun v => local_pure (g v)

section Items

variable {q : Reader β} {y : β} {xs : List β}

theorem ends_of_moreItems {more : Bool} (h : moreItems false u = .ok (more, r)) : Ends u := by
  cases more with
  | false =>
    obtain ⟨w, hw, rfl⟩ := blanks_of_moreItems h
    exact (ends_of_closing rfl _).of_blanks hw
  | true =>
    obtain ⟨g, hg, rfl⟩ := gap_of_moreItems h
    exact hg.ends r

theorem ends_of_items {h : Shrinks q} (hs : items q h false u = .ok (xs, r)) : Ends u := by
  obtain ⟨-, hm⟩ | ⟨t, v, m, ws, -, hm, -, -⟩ := items_cases hs
  · exact ends_of_moreItems hm
  · exact ends_of_moreItems hm

theorem Framed.moreItems (hq : Framed q) {g : Bytes} (hg : Gap first g) {x : β × Bytes}
    (h : q t = .ok x) : moreItems first (g ++ t) = .ok (true, t.dropWhile isBlank) := by
  have hmore := hg.moreItems (hq.inked h) []
  rwa [List.append_nil] at hmore

theorem Framed.items_cons (hq : Framed q) (h : Shrinks q) {g : Bytes} (hg : Gap first g)
    (hs : Reads q s y) (ht : items q h false t = .ok (xs, r)) :
    items q h first (g ++ (s ++ t)) = .ok (y :: xs, r) := by
  have hread := hs t (ends_of_items ht)
  rw [items_eq, bind_ok (hq.moreItems hg hread), if_pos rfl, bind_ok ((hq.trims _).trans hread),
    bind_ok ht]
  rfl

theorem items_place (hq : Framed q) (h : Shrinks q) {i : Nat}
    (hs : items q h first u = .ok (xs, r)) (hy : xs[i]? = some y) :
    ∃ front text back, u = front ++ (text ++ (back ++ r)) ∧ Reads q text y ∧
      ∀ text' y', Reads q text' y' → ∀ e,
        items q h first (front ++ (text' ++ (back ++ e))) = .ok (xs.set i y', e) := by
  induction i generalizing first u xs with
  | zero =>
    obtain ⟨rfl, -⟩ | ⟨t, v, m, ws, rfl, hm, hv, hws⟩ := items_cases hs
    · cases hy
    · cases hy
      obtain ⟨g, hg, rfl⟩ := gap_of_moreItems hm
      obtain ⟨text, rfl, htext⟩ := hq.reads hv
      obtain ⟨c, b, rfl, -, hc⟩ := closed_items hq.takes h false hws
      refine ⟨g, text, c ++ [b], by simp, htext, fun text' y' h' e => ?_⟩
      rw [List.append_assoc]
      exact hq.items_cons h hg h' (hc e)
  | succ i ih =>
    obtain ⟨rfl, -⟩ | ⟨t, v, m, ws, rfl, hm, hv, hws⟩ := items_cases hs
    · cases hy
    · obtain ⟨g, hg, rfl⟩ := gap_of_moreItems hm
      obtain ⟨s, rfl, hreads⟩ := hq.reads hv
      obtain ⟨front, text, back, rfl, htext, hset⟩ := ih hws hy
      refine ⟨g ++ (s ++ front), text, back, by simp, htext, fun text' y' h' e => ?_⟩
      rw [List.append_assoc, List.append_assoc]
      exact hq.items_cons h hg hreads (hset text' y' h' e)

theorem holds_typedList (hq : Framed q) (h : Shrinks q) (i d : Nat) :
    Holds (typedList q h d) q (.item i) := by
  intro u xs r y hu hy
  obtain ⟨b, t, hb, hlist⟩ := bind_eq_ok hu
  obtain ⟨w, hw, rfl⟩ := blanks_of_nextInk hb
  split_ifs at hlist with hopen hd
  · cases hlist
  · subst hopen
    obtain ⟨front, text, back, rfl, htext, hset⟩ := items_place hq h hlist hy
    refine ⟨w ++ 0x5B :: front, text, back, by simp, htext, fun text' y' h' e _ => ?_⟩
    simp only [List.append_assoc, List.cons_append]
    rw [typedList, bind_ok (nextInk_blanks hw rfl _ _), if_pos rfl, if_neg hd]
    exact hset text' y' h' e
  · obtain ⟨f, hf⟩ := mismatched_error (α := List β) .list b t
    rw [hf] at hlist
    cases hlist

theorem holds_readList {p : Nat → Reader β} (hp : ∀ d, Shrinks (p d))
    (hframed : ∀ d, Framed (p d)) (i d : Nat) : Holds (readList p hp (d + 1)) (p d) (.item i) :=
  holds_typedList (hframed d) (hp d) i (d + 1)

theorem framed_readList {p : Nat → Reader β} (hp : ∀ d, Shrinks (p d))
    (hframed : ∀ d, Framed (p d)) (d : Nat) : Framed (readList p hp d) :=
  framed_typedList (hframed (d - 1)) (hp (d - 1)) d

end Items

structure Field.Apart (g : Field σ) (d : Nat) (m : Part σ β) : Prop where
  given : ∀ v a, g.given (m.set v a) = g.given a
  read : ∀ v a, g.read d (m.set v a) = m.set v <$> g.read d a
  get : ∀ ⦃a s b r⦄, g.read d a s = .ok (b, r) → m.get b = m.get a

namespace Record

def FramedFields (l : Record σ α) : Prop := ∀ f ∈ l.fields, ∀ d a, Framed (f.read d a)

structure Seats (l : Record σ α) (f : Field σ) (d : Nat) (q : Reader β) (m : Part σ β) : Prop where
  mem : f ∈ l.fields
  nodup : l.keys.Nodup
  framed : l.FramedFields
  inner : Framed q
  given : ∀ a, f.given a = (m.get a).isSome
  read : ∀ a, f.read d a = q >>= fun v => pure (m.set v a)
  get_set : ∀ v a, m.get (m.set v a) = some v
  set_set : ∀ v w a, m.set v (m.set w a) = m.set v a
  apart : ∀ g ∈ l.fields, g.key ≠ f.key → g.Apart d m
  empty : m.get l.empty = none

variable {l : Record σ α} {f g : Field σ} {fs : List (Field σ)} {q : Reader β} {m : Part σ β}
  {a x c : σ} {y : β} {n : Nat}

theorem not_mem_keys (h : l.fields.find? (·.key = k) = none) : k ∉ l.keys := by
  intro hmem
  obtain ⟨f, -, hf, -⟩ := find?_of_mem_keys hmem
  rw [hf] at h
  cases h

theorem ends_of_members (hs : members (l.member d) (l.stays_member d) false a u = .ok (x, r)) :
    Ends u := by
  rw [members_eq] at hs
  obtain ⟨key, t, hk, -⟩ := bind_eq_ok hs
  obtain ⟨b, m, hdrop, ⟨rfl, -, -⟩ | ⟨-, hfirst, -⟩ | ⟨rfl, -, -⟩⟩ := nextKey?_cases hk
  · obtain ⟨w, hw, rfl⟩ := blanks_of_dropWhile hdrop
    exact (ends_of_closing rfl _).of_blanks hw
  · cases hfirst
  · obtain ⟨w, hw, rfl⟩ := blanks_of_dropWhile hdrop
    exact (ends_of_comma _).of_blanks hw

theorem ends_of_listed (hs : l.listed d (n + 1) a fs u = .ok (x, r)) : Ends u := by
  cases fs with
  | nil =>
    obtain ⟨_, t, hclose, -⟩ := bind_eq_ok hs
    obtain ⟨w, hw, rfl⟩ := blanks_of_closeList hclose
    exact (ends_of_closing rfl _).of_blanks hw
  | cons f fs =>
    obtain ⟨more, t, hmore, -⟩ := bind_eq_ok hs
    exact ends_of_moreItems hmore

theorem listed_apart (hfs : ∀ g ∈ fs, g.Apart d m) (hu : l.listed d n a fs u = .ok (x, r))
    (v : β) : m.get x = m.get a ∧ l.listed d n (m.set v a) fs u = .ok (m.set v x, r) := by
  induction fs generalizing n a u with
  | nil =>
    obtain ⟨_, t, hclose, hend⟩ := bind_eq_ok hu
    cases hend
    exact ⟨rfl, bind_ok hclose⟩
  | cons g fs ih =>
    obtain ⟨hg, hfs⟩ := List.forall_mem_cons.mp hfs
    obtain ⟨more, t, hmore, hbehind⟩ := bind_eq_ok hu
    rw [listed, bind_ok hmore]
    cases more with
    | false =>
      rw [if_neg Bool.false_ne_true] at hbehind ⊢
      split at hbehind
      · cases hbehind
      · next hrequired =>
        cases hbehind
        rw [if_neg hrequired]
        exact ⟨rfl, rfl⟩
    | true =>
      rw [if_pos rfl] at hbehind ⊢
      obtain ⟨c, w, hc, hlisted⟩ := bind_eq_ok hbehind
      obtain ⟨hx, hset⟩ := ih hfs hlisted
      rw [hg.read, bind_ok (map_ok hc), hset]
      exact ⟨hx.trans (hg.get hc), rfl⟩

theorem listed_field {p : Bytes} (hg : Framed (g.read d a)) (hp : Gap (n = 0) p)
    (hs : Reads (g.read d a) s c) (ht : l.listed d (n + 1) c fs t = .ok (x, r)) :
    l.listed d n a (g :: fs) (p ++ (s ++ t)) = .ok (x, r) := by
  have hread := hs t (ends_of_listed ht)
  rw [listed, bind_ok (hg.moreItems hp hread), if_pos rfl, bind_ok ((hg.trims _).trans hread), ht]

theorem finished_cases {z : α} (h : l.finished a u = .ok (z, r)) : l.finish a = .ok z ∧ r = u := by
  rw [finished] at h
  cases hz : l.finish a with
  | error c => rw [hz] at h; cases h
  | ok v => rw [hz] at h; cases h; exact ⟨rfl, rfl⟩

theorem finished_ok {z : α} (h : l.finish a = .ok z) (u : Bytes) : l.finished a u = .ok (z, u) := by
  rw [finished, h]
  rfl

namespace Seats

variable (h : l.Seats f d q m)
include h

theorem eq_of_key (hg : g ∈ l.fields) (hkey : g.key = f.key) : g = f :=
  List.inj_on_of_nodup_map h.nodup hg h.mem hkey

theorem find? : l.fields.find? (·.key = f.key) = some f := by
  obtain ⟨g, hg, hfind, hkey⟩ := find?_of_mem_keys (List.mem_map_of_mem h.mem)
  rw [hfind, h.eq_of_key hg hkey]

theorem localFields : l.LocalFields := fun g hg d a => (h.framed g hg d a).takes

theorem reads_field (hs : Reads q s y) (a : σ) : Reads (f.read d a) s (m.set y a) := by
  rw [h.read]
  exact fun e he => bind_ok (hs e he)

theorem member_seated (hu : l.member d k a u = .ok (c, t)) (hy : m.get a = some y) (v : β) :
    m.get c = some y ∧ l.member d k (m.set v a) u = .ok (m.set v c, t) := by
  obtain ⟨w, hcolon, ⟨hfind, rfl, hskip⟩ | ⟨g, hg, rfl, hfind, hgiven, hread⟩⟩ := member_cases hu
  · refine ⟨hy, ?_⟩
    rw [member, hfind]
    exact (bind_ok hcolon).trans (bind_ok hskip)
  · by_cases hkey : g.key = f.key
    · rw [h.eq_of_key hg hkey, h.given, hy] at hgiven
      cases hgiven
    · have hap := h.apart g hg hkey
      refine ⟨(hap.get hread).trans hy, ?_⟩
      rw [member, hfind]
      dsimp only
      rw [hap.given, hgiven, if_neg Bool.false_ne_true, bind_ok hcolon, hap.read]
      exact map_ok hread

theorem members_seated (hu : members (l.member d) (l.stays_member d) first a u = .ok (x, r))
    (hy : m.get a = some y) (v : β) : m.get x = some y ∧
      members (l.member d) (l.stays_member d) first (m.set v a) u = .ok (m.set v x, r) := by
  fun_induction members (l.member d) (l.stays_member d) first a u generalizing x r with
  | case1 | case3 => cases hu
  | case2 first a u t hk =>
    cases hu
    exact ⟨hy, by rw [members_eq, bind_ok hk]; rfl⟩
  | case4 first a u k t hk c w hm ih =>
    obtain ⟨hc, hmember⟩ := h.member_seated hm hy v
    obtain ⟨hx, hmembers⟩ := ih hu hc
    refine ⟨hx, ?_⟩
    rw [members_eq, bind_ok hk]
    exact (bind_ok hmember).trans hmembers

theorem members_place (hu : members (l.member d) (l.stays_member d) first a u = .ok (x, r))
    (hnone : m.get a = none) (hy : m.get x = some y) :
    ∃ front text back, u = front ++ (text ++ (back ++ r)) ∧ Reads q text y ∧
      ∀ text' y', Reads q text' y' → ∀ e, members (l.member d) (l.stays_member d) first a
        (front ++ (text' ++ (back ++ e))) = .ok (m.set y' x, e) := by
  fun_induction members (l.member d) (l.stays_member d) first a u generalizing x r with
  | case1 | case3 => cases hu
  | case2 first a u t hk =>
    cases hu
    rw [hnone] at hy
    cases hy
  | case4 first a u k t hk c w hm ih =>
    obtain ⟨z, hcolon, ⟨hfind, rfl, hskip⟩ | ⟨g, hg, rfl, hfind, hgiven, hread⟩⟩ := member_cases hm
    · obtain ⟨p, hp, rfl⟩ := named_of_nextKey? hk hcolon
      obtain ⟨v, rfl, hv⟩ := fits_of_skipValue hskip
      obtain ⟨front, text, back, rfl, htext, hset⟩ := ih hu hnone hy
      refine ⟨p ++ (v ++ front), text, back, by simp, htext, fun text' y' h' e => ?_⟩
      have hbehind := hset text' y' h' e
      rw [List.append_assoc, List.append_assoc,
        members_other (not_mem_keys hfind) hp hv (ends_of_members hbehind)]
      exact hbehind
    · obtain ⟨p, hp, rfl⟩ := named_of_nextKey? hk hcolon
      by_cases hkey : g.key = f.key
      -- The members behind the field leave its part, whatever it is.
      · obtain rfl := h.eq_of_key hg hkey
        rw [h.read] at hread
        obtain ⟨v, m', hv, hc⟩ := bind_eq_ok hread
        cases hc
        obtain ⟨text, rfl, htext⟩ := h.inner.reads hv
        obtain ⟨back, b, rfl, -, hback⟩ :=
          closed_members (l.local_member h.localFields d) (l.stays_member d) false _ hu
        obtain rfl : v = y :=
          Option.some.inj ((h.members_seated hu (h.get_set v a) v).1.symm.trans hy)
        refine ⟨p, text, back ++ [b], by simp, htext, fun text' y' h' e => ?_⟩
        obtain ⟨-, hbehind⟩ := h.members_seated (hback e) (h.get_set v a) y'
        rw [h.set_set] at hbehind
        rw [List.append_assoc]
        exact (members_field hfind hp).mpr
          ⟨hgiven, _, _, h.reads_field h' a _ (ends_of_members hbehind), hbehind⟩
      · have hap := h.apart g hg hkey
        obtain ⟨s, rfl, hs⟩ := (h.framed g hg d a).reads hread
        obtain ⟨front, text, back, rfl, htext, hset⟩ := ih hu ((hap.get hread).trans hnone) hy
        refine ⟨p ++ (s ++ front), text, back, by simp, htext, fun text' y' h' e => ?_⟩
        have hbehind := hset text' y' h' e
        rw [List.append_assoc, List.append_assoc]
        exact (members_field hfind hp).mpr
          ⟨hgiven, c, _, hs _ (ends_of_members hbehind), hbehind⟩

theorem listed_place (hfs : ∀ g ∈ fs, g ∈ l.fields) (hnodup : (fs.map (·.key)).Nodup)
    (hu : l.listed d n a fs u = .ok (x, r)) (hnone : m.get a = none) (hy : m.get x = some y) :
    ∃ front text back, u = front ++ (text ++ (back ++ r)) ∧ Reads q text y ∧
      ∀ text' y', Reads q text' y' → ∀ e,
        l.listed d n a fs (front ++ (text' ++ (back ++ e))) = .ok (m.set y' x, e) := by
  induction fs generalizing n a u with
  | nil =>
    obtain ⟨_, t, -, hend⟩ := bind_eq_ok hu
    cases hend
    rw [hnone] at hy
    cases hy
  | cons g fs ih =>
    obtain ⟨hg, hfs⟩ := List.forall_mem_cons.mp hfs
    obtain ⟨hfresh, hnodup⟩ := List.nodup_cons.mp hnodup
    obtain ⟨more, t, hmore, hbehind⟩ := bind_eq_ok hu
    cases more with
    | false =>
      rw [if_neg Bool.false_ne_true] at hbehind
      split at hbehind
      · cases hbehind
      · cases hbehind
        rw [hnone] at hy
        cases hy
    | true =>
      rw [if_pos rfl] at hbehind
      obtain ⟨c, w, hc, hlisted⟩ := bind_eq_ok hbehind
      obtain ⟨p, hp, rfl⟩ := gap_of_moreItems hmore
      by_cases hkey : g.key = f.key
      · obtain rfl := h.eq_of_key hg hkey
        rw [h.read] at hc
        obtain ⟨v, m', hv, hc⟩ := bind_eq_ok hc
        cases hc
        obtain ⟨text, rfl, htext⟩ := h.inner.reads hv
        have hlocal : ∀ g' ∈ fs, ∀ d a, Local Ends (g'.read d a) :=
          fun g' hg' => h.localFields g' (hfs g' hg')
        have hapart : ∀ g' ∈ fs, g'.Apart d m := fun g' hg' => h.apart g' (hfs g' hg') fun hkey =>
          hfresh (List.mem_map.mpr ⟨g', hg', hkey⟩)
        obtain ⟨back, b, rfl, -, hback⟩ := closed_listed d (n + 1) _ fs hlocal hlisted
        obtain rfl : v = y := by
          have hpart := (listed_apart hapart hlisted v).1
          rw [h.get_set, hy] at hpart
          exact (Option.some.inj hpart).symm
        refine ⟨p, text, back ++ [b], by simp, htext, fun text' y' h' e => ?_⟩
        obtain ⟨-, hbehind⟩ := listed_apart hapart (hback e) y'
        rw [h.set_set] at hbehind
        rw [List.append_assoc]
        exact listed_field (h.framed g hg d a) hp (h.reads_field h' a) hbehind
      · have hap := h.apart g hg hkey
        obtain ⟨s, rfl, hs⟩ := (h.framed g hg d a).reads hc
        obtain ⟨front, text, back, rfl, htext, hset⟩ :=
          ih hfs hnodup hlisted ((hap.get hc).trans hnone)
        refine ⟨p ++ (s ++ front), text, back, by simp, htext, fun text' y' h' e => ?_⟩
        rw [List.append_assoc, List.append_assoc]
        exact listed_field (h.framed g hg d a) hp hs (hset text' y' h' e)

theorem holds_read {p : Part α β} (hfinish : ∀ ⦃a x y⦄, l.finish a = .ok x → p.get x = some y →
      m.get a = some y ∧ ∀ v, l.finish (m.set v a) = .ok (p.set v x)) :
    Holds (l.read (d + 1)) q p := by
  intro u x r y hu hy
  obtain ⟨b, t, hb, hread⟩ := bind_eq_ok hu
  obtain ⟨w, hw, rfl⟩ := blanks_of_nextInk hb
  split_ifs at hread with hlist hzero hobject hzero
  · cases hzero
  · subst hlist
    obtain ⟨a, z, ha, hfinished⟩ := bind_eq_ok hread
    obtain ⟨hx, rfl⟩ := finished_cases hfinished
    obtain ⟨hya, hset⟩ := hfinish hx hy
    obtain ⟨front, text, back, rfl, htext, hplace⟩ :=
      h.listed_place (fun _ hg => hg) h.nodup ha h.empty hya
    refine ⟨w ++ 0x5B :: front, text, back, by simp, htext, fun text' y' h' e _ => ?_⟩
    simp only [List.append_assoc, List.cons_append]
    rw [Record.read, bind_ok (nextInk_blanks hw rfl _ _), if_pos rfl, if_neg (Nat.succ_ne_zero d)]
    exact (bind_ok (hplace text' y' h' e)).trans (finished_ok (hset y') e)
  · cases hzero
  · subst hobject
    obtain ⟨a, z, ha, hfinished⟩ := bind_eq_ok hread
    obtain ⟨hx, rfl⟩ := finished_cases hfinished
    obtain ⟨hya, hset⟩ := hfinish hx hy
    obtain ⟨front, text, back, rfl, htext, hplace⟩ := h.members_place ha h.empty hya
    refine ⟨w ++ 0x7B :: front, text, back, by simp, htext, fun text' y' h' e _ => ?_⟩
    simp only [List.append_assoc, List.cons_append]
    rw [Record.read, bind_ok (nextInk_blanks hw rfl _ _), if_neg (by decide), if_pos rfl,
      if_neg (Nat.succ_ne_zero d)]
    exact (bind_ok (hplace text' y' h' e)).trans (finished_ok (hset y') e)
  · obtain ⟨f, hf⟩ := mismatched_error (α := α) (.record l.name) b t
    rw [hf] at hread
    cases hread

end Seats

end Record

section Slots

variable {inner : Text → Value → Prop} {l : Record σ α} {xs : List (Slot σ inner)}
  {x : Slot σ inner}

def Slot.part (x : Slot σ inner) : Part σ x.β := ⟨x.get, x.set⟩

theorem Record.framed_read (h : l.FramedFields) (d : Nat) : Framed (l.read d) := by
  have hlocal : l.LocalFields := fun f hf d a => (h f hf d a).takes
  exact framed_nextInk (mismatched_error (.record l.name) 0x5D) (closed_read hlocal d).local

namespace Record.MadeOf

variable (h : l.MadeOf xs)
include h

theorem framedFields (hxs : ∀ x ∈ xs, ∀ d, Framed (x.read d)) : l.FramedFields := by
  rw [FramedFields, h.fields]
  intro f hf d a
  obtain ⟨x, hx, rfl⟩ := List.mem_map.mp hf
  exact (hxs x hx d).bind_pure fun v => x.set v a

theorem seats (hx : x ∈ xs) (hxs : ∀ x ∈ xs, ∀ d, Framed (x.read d))
    (hset : ∀ v w a, x.set v (x.set w a) = x.set v a)
    (hcomm : ∀ y ∈ xs, y.name ≠ x.name → ∀ w v a, y.set w (x.set v a) = x.set v (y.set w a))
    (d : Nat) : l.Seats x.field d (x.read d) x.part where
  mem := h.fields ▸ List.mem_map_of_mem hx
  nodup := by
    have hnodup := h.nodup
    rw [Record.keys, h.fields, List.map_map]
    exact hnodup
  framed := h.framedFields hxs
  inner := hxs x hx d
  given _ := rfl
  read _ := rfl
  get_set := h.get_set x hx
  set_set := hset
  apart := by
    rw [h.fields]
    intro g hg hkey
    obtain ⟨y, hy, rfl⟩ := List.mem_map.mp hg
    refine ⟨fun v a => congrArg Option.isSome (h.get_set_ne x hx y hy hkey v a), fun v a => ?_, ?_⟩
    · have hread (c : σ) : y.field.read d c = y.read d >>= fun w => pure (y.set w c) := rfl
      rw [hread, hread, map_bind]
      refine bind_congr fun w => ?_
      rw [map_pure]
      exact congrArg pure (hcomm y hy hkey w v a)
    · intro a s b r hread
      obtain ⟨w, m, hw, hb⟩ := bind_eq_ok hread
      cases hb
      exact h.get_set_ne y hy x hx (Ne.symm hkey) w a
  empty := h.empty x hx

end Record.MadeOf

end Slots

end CallStrip.Json

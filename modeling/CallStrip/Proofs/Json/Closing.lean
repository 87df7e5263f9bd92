import CallStrip.Proofs.Json.Extent

/-!
Readers that end with a bracket. A list, an object and a record are over once their closing bracket
is taken, so that nothing behind them has a say in what they are.
-/

namespace CallStrip.Json

open Reading (bind_eq_ok bind_ok bind_error map_eq_ok map_ok)
open Reader

variable {α β σ : Type} {P Q : Bytes → Prop} {s t u r m : Bytes} {b c : UInt8} {first : Bool}

def isClosing (b : UInt8) : Bool := b = 0x5D || b = 0x7D

namespace Reader

/-- From `u` a reader takes what is before `r`, a closing bracket last, and makes `v` of it. It does
the same before anything else. -/
def Closes (p : Reader α) (u : Bytes) (v : α) (r : Bytes) : Prop :=
  ∃ s b, u = s ++ b :: r ∧ isClosing b = true ∧ ∀ t, p (s ++ b :: t) = .ok (v, t)

def Closed (p : Reader α) : Prop := ∀ ⦃u v r⦄, p u = .ok (v, r) → Closes p u v r

section Rules

variable {p : Reader α} {f : α → Reader β} {v : α} {w : β}

theorem Closes.takes (h : Closes p u v r) : Takes P p u v r := by
  obtain ⟨s, b, rfl, -, hs⟩ := h
  exact ⟨s ++ [b], by simp, fun t _ => by simpa using hs t⟩

theorem Closed.local (h : Closed p) : Local P p := fun _ _ _ hu => (h hu).takes

theorem closed_fail (c : Cause) : Closed (fail c : Reader α) := by
  intro u v r hu
  cases hu

theorem Closed.bind_idle (hp : Closed p) (hf : ∀ a, Idle (f a)) : Closed (p >>= f) := by
  intro u w r hu
  obtain ⟨v, m, hv, hw⟩ := bind_eq_ok hu
  obtain ⟨rfl, hidle⟩ := hf v hw
  obtain ⟨s, b, rfl, hb, hs⟩ := hp hv
  exact ⟨s, b, rfl, hb, fun t => (bind_ok (hs t)).trans (hidle t)⟩

theorem Closed.map (g : α → β) (hp : Closed p) : Closed (g <$> p) :=
  hp.bind_idle fun a => idle_pure (g a)

theorem Takes.bind_closes (hp : Takes P p u v m) (hf : Closes (f v) m w r) :
    Closes (p >>= f) u w r := by
  obtain ⟨s, rfl, hs⟩ := hp
  obtain ⟨s', b, rfl, hb, hs'⟩ := hf
  refine ⟨s ++ s', b, (List.append_assoc s s' _).symm, hb, fun t => ?_⟩
  have hahead : (s' ++ b :: t).head? = (s' ++ b :: r).head? := by cases s' <;> rfl
  rw [List.append_assoc, bind_ok (hs _ (.inl hahead)), hs' t]

theorem Local.bind_closed (hp : Local P p) (hf : ∀ a, Closed (f a)) : Closed (p >>= f) := by
  intro u w r hu
  obtain ⟨v, m, hv, hw⟩ := bind_eq_ok hu
  exact (hp hv).bind_closes (hf v hw)

end Rules

end Reader

theorem moreItems_close (h : u.dropWhile isBlank = 0x5D :: r) :
    moreItems first u = .ok (false, r) := by
  have hblanks : blanks u = .ok ((), 0x5D :: r) := congrArg (fun s => Except.ok ((), s)) h
  exact bind_ok hblanks

theorem moreItems_first (h : u.dropWhile isBlank = b :: r) (hb : b ≠ 0x5D) :
    moreItems true u = .ok (true, b :: r) := by
  have hblanks : blanks u = .ok ((), b :: r) := congrArg (fun s => Except.ok ((), s)) h
  rw [moreItems, bind_ok hblanks]
  dsimp only
  rw [if_neg hb, if_pos rfl]

theorem moreItems_comma (h : u.dropWhile isBlank = 0x2C :: m) (hm : m.dropWhile isBlank = c :: r)
    (hc : c ≠ 0x5D) : moreItems false u = .ok (true, c :: r) := by
  have hblanks : blanks u = .ok ((), 0x2C :: m) := congrArg (fun s => Except.ok ((), s)) h
  rw [moreItems, bind_ok hblanks]
  dsimp only
  rw [if_neg (by decide), if_neg Bool.false_ne_true, if_pos rfl, hm]
  dsimp only
  rw [if_neg hc]

theorem moreItems_item (h : moreItems first u = .ok (true, r)) :
    ∃ b, r.head? = some b ∧ b ≠ 0x5D := by
  obtain ⟨b, m, hdrop, ⟨-, he, -⟩ | ⟨hb, -, -, rfl⟩ | ⟨rfl, rfl, -, rfl⟩⟩ := moreItems_cases h
  · cases he
  · exact ⟨b, rfl, hb⟩
  · have hblanks : blanks u = .ok ((), 0x2C :: m) := congrArg (fun s => Except.ok ((), s)) hdrop
    rw [moreItems, bind_ok hblanks] at h
    dsimp only at h
    rw [if_neg (by decide), if_neg Bool.false_ne_true, if_pos rfl] at h
    cases hm : m.dropWhile isBlank with
    | nil => rw [hm] at h; cases h
    | cons c w =>
      rw [hm] at h
      dsimp only at h
      split at h
      · cases h
      · next hc => exact ⟨c, rfl, hc⟩

theorem takes_moreItems (h : moreItems first u = .ok (true, r)) :
    Takes (fun _ => False) (moreItems first) u true r := by
  obtain ⟨a, ha, hne⟩ := moreItems_item h
  obtain ⟨b, m, hdrop, ⟨-, he, -⟩ | ⟨hb, rfl, -, rfl⟩ | ⟨rfl, rfl, -, rfl⟩⟩ := moreItems_cases h
  · cases he
  · obtain ⟨hsplit, hs⟩ := dropWhile_eq_cons hdrop
    refine ⟨u.takeWhile isBlank, hsplit, fun t ht => ?_⟩
    obtain ⟨t, rfl⟩ := List.head?_eq_some_iff.mp (ht.resolve_right id)
    exact moreItems_first (hs t) hb
  · obtain ⟨w, hw⟩ := List.head?_eq_some_iff.mp ha
    obtain ⟨hsplit, hs⟩ := dropWhile_eq_cons hdrop
    obtain ⟨hsplit', hs'⟩ := dropWhile_eq_cons hw
    refine ⟨u.takeWhile isBlank ++ 0x2C :: m.takeWhile isBlank, ?_, fun t ht => ?_⟩
    · rw [List.append_assoc, List.cons_append, List.takeWhile_append_dropWhile]
      exact hsplit
    · have ht := ht.resolve_right id
      rw [ha] at ht
      obtain ⟨t, rfl⟩ := List.head?_eq_some_iff.mp ht
      rw [List.append_assoc]
      exact moreItems_comma (hs _) (hs' t) hne

theorem closes_moreItems (h : moreItems first u = .ok (false, r)) :
    Closes (moreItems first) u false r := by
  obtain ⟨b, m, hdrop, ⟨rfl, -, rfl⟩ | ⟨-, -, he, -⟩ | ⟨-, -, he, -⟩⟩ := moreItems_cases h
  · obtain ⟨hsplit, hs⟩ := dropWhile_eq_cons hdrop
    exact ⟨_, _, hsplit, rfl, fun t => moreItems_close (hs t)⟩
  · cases he
  · cases he

theorem closes_more {f : Bool → Reader β} {w : β} {more : Bool}
    (h : moreItems first u = .ok (more, m)) (hend : Idle (f false)) (hw : f more m = .ok (w, r))
    (hf : more = true → Closes (f true) m w r) : Closes (moreItems first >>= f) u w r := by
  cases more with
  | false =>
    obtain ⟨rfl, hidle⟩ := hend hw
    obtain ⟨s, b, rfl, hb, hs⟩ := closes_moreItems h
    exact ⟨s, b, rfl, hb, fun t => (bind_ok (hs t)).trans (hidle t)⟩
  | true => exact ((takes_moreItems h).bind_closes (hf rfl))

theorem closed_items {item : Reader α} (hitem : Local Ends item) (h : Shrinks item)
    (first : Bool) : Closed (items item h first) := by
  intro u vs r hu
  have heq (first : Bool) := funext (items_eq item h first)
  fun_induction items item h first u generalizing vs r with
  | case1 | case3 | case4 => cases hu
  | case2 first u m hm =>
    cases hu
    rw [heq]
    exact closes_more hm (idle_pure []) rfl fun hmore => absurd hmore Bool.false_ne_true
  | case5 first u m hm v w hv vs x hvs ih =>
    cases hu
    rw [heq]
    refine (takes_moreItems hm).bind_closes ?_
    rw [if_pos rfl]
    refine (hitem hv).bind_closes ?_
    obtain ⟨s, b, rfl, hb, hs⟩ := ih hvs
    exact ⟨s, b, rfl, hb, fun t => bind_ok (hs t)⟩

theorem nextKey?_close (h : u.dropWhile isBlank = 0x7D :: r) :
    nextKey? first u = .ok (none, r) := by
  rw [nextKey?, bind_ok (nextInk_eq_ok_iff.mpr h), if_pos rfl]
  rfl

theorem nextKey?_first (h : u.dropWhile isBlank = 0x22 :: m) :
    nextKey? true u = (some <$> quoted) m := by
  rw [nextKey?, bind_ok (nextInk_eq_ok_iff.mpr h), if_neg (by decide), if_pos rfl, if_pos rfl]

theorem nextKey?_comma (h : u.dropWhile isBlank = 0x2C :: m)
    (hm : m.dropWhile isBlank = 0x22 :: r) : nextKey? false u = (some <$> quoted) r := by
  rw [nextKey?, bind_ok (nextInk_eq_ok_iff.mpr h), if_neg (by decide), if_neg Bool.false_ne_true,
    if_pos rfl, bind_ok (nextInk_eq_ok_iff.mpr hm), if_pos rfl]

theorem local_nextKey? (first : Bool) : Local P (nextKey? first) := by
  refine (local_nextInk _).bind fun b => ?_
  have hq : Local P (some <$> quoted) := local_quoted.map _
  split_ifs
  · exact local_pure _
  · exact hq
  · exact local_fail _
  · refine (local_nextInk _).bind fun c => ?_
    split_ifs
    · exact hq
    · exact local_fail _
    · exact local_fail _
  · exact local_fail _

theorem local_colon : Local P colon := by
  refine (local_nextInk _).bind fun b => ?_
  split
  · exact local_pure _
  · exact local_fail _

theorem closed_members {member : Text → σ → Reader σ} (hmember : ∀ k a, Local Ends (member k a))
    (h : ∀ k a, Stays (member k a)) (first : Bool) (a : σ) :
    Closed (members member h first a) := by
  intro u x r hu
  have heq (first : Bool) (a : σ) := funext (members_eq member h first a)
  fun_induction members member h first a u generalizing x r with
  | case1 | case3 => cases hu
  | case2 first a u m hk =>
    cases hu
    obtain ⟨b, m, hdrop, ⟨rfl, -, rfl⟩ | ⟨-, -, k, he, -⟩ | ⟨-, -, k, _, he, -⟩⟩ :=
      nextKey?_cases hk
    · obtain ⟨hsplit, hs⟩ := dropWhile_eq_cons hdrop
      refine ⟨_, _, hsplit, rfl, fun t => ?_⟩
      rw [heq, bind_ok (nextKey?_close (hs t))]
      rfl
    · cases he
    · cases he
  | case4 first a u k m hk b w hm ih =>
    rw [heq]
    exact (local_nextKey? (P := Ends) first hk).bind_closes ((hmember k a hm).bind_closes (ih hu))

theorem local_value (depth : Nat) : Local Ends (value depth) := by
  induction depth with
  | zero =>
    refine (local_nextInk _).bind fun b => ?_
    split
    · exact local_fail _
    · exact (local_scalar b).map _
  | succ depth ih =>
    refine (local_nextInk _).bind fun b => ?_
    split
    · exact ((closed_items ih _ true).map _).local
    · split
      · refine ((closed_members (fun k ms => ?_) _ true []).map _).local
        exact local_colon.bind fun _ => ih.bind fun _ => local_pure _
      · exact (local_scalar b).map _

theorem closed_mismatched (wanted : Wanted) (first : UInt8) :
    Closed (mismatched wanted first : Reader α) := by
  intro u v r hu
  obtain ⟨f, hf⟩ := mismatched_error (α := α) wanted first u
  rw [hf] at hu
  cases hu

theorem closed_typedList {item : Reader α} (hitem : Local Ends item) (h : Shrinks item)
    (depth : Nat) : Closed (typedList item h depth) := by
  refine (local_nextInk (P := Ends) _).bind_closed fun b => ?_
  split
  · split
    · exact closed_fail _
    · exact closed_items hitem h true
  · exact closed_mismatched _ _

theorem local_lead (k : Bracket) : Local P k.lead := by
  cases k with
  | list => exact local_pure ()
  | object =>
    refine (local_nextInk _).bind fun b => ?_
    split
    · exact (local_skipQuotedFrom .plain).bind fun _ => local_colon
    · exact local_fail _

theorem dropWhile_peek (hdrop : u.dropWhile isBlank = b :: m) (hsplit : u = s ++ r)
    (hle : r.length ≤ m.length) (t : Bytes) : ∃ w, (s ++ t).dropWhile isBlank = b :: w := by
  obtain ⟨hu, hs⟩ := dropWhile_eq_cons hdrop
  have heq : s ++ r = (u.takeWhile isBlank ++ [b]) ++ m := by
    rw [← hsplit, List.append_assoc]
    exact hu
  obtain ⟨w, hw⟩ : u.takeWhile isBlank ++ [b] <+: s := by
    refine List.prefix_of_prefix_length_le (heq ▸ List.prefix_append _ _)
      (List.prefix_append s r) ?_
    have hlen := congrArg List.length heq
    simp only [List.length_append] at hlen ⊢
    omega
  refine ⟨w ++ t, ?_⟩
  rw [← hw, List.append_assoc, List.append_assoc]
  exact hs (w ++ t)

theorem length_of_lead {k : Bracket} {ks : List Bracket} (hdrop : u.dropWhile isBlank = b :: m)
    (hl : k.lead u = .ok ((), t)) (hv : skipFrom .value ks t = .ok ((), r)) :
    r.length ≤ m.length := by
  rw [skipFrom_value] at hv
  obtain ⟨c, w, hc, hv⟩ := bind_eq_ok hv
  have hrest : r.length ≤ w.length := by
    cases hk : Bracket.opened? c with
    | some k =>
      rw [hk] at hv
      exact stays_skipFrom _ _ hv
    | none =>
      rw [hk] at hv
      exact (stays_skipScalar c).bind (fun _ => stays_skipFrom _ _) hv
  cases k with
  | list =>
    cases hl
    rw [nextInk_eq_ok_iff, hdrop] at hc
    obtain ⟨-, rfl⟩ := List.cons.inj hc
    exact hrest
  | object =>
    obtain ⟨d, x, hd, hl⟩ := bind_eq_ok hl
    rw [nextInk_eq_ok_iff, hdrop] at hd
    obtain ⟨-, rfl⟩ := List.cons.inj hd
    have ht : t.length ≤ m.length := by
      split at hl
      · exact (shrinks_skipQuotedFrom .plain).stays.bind (fun _ => shrinks_colon.stays) hl
      · cases hl
    have hw := shrinks_nextInk _ hc
    omega

theorem local_skipFrom (mode : SkipMode) (ks : List Bracket) : Local Ends (skipFrom mode ks) := by
  intro u v r hu
  have hvalue (ks : List Bracket) := funext (skipFrom_value ks)
  fun_induction skipFrom mode ks u generalizing v r with
  | case1 | case3 | case6 | case8 | case10 | case11 => cases hu
  | case2 u ks b m hb k hk ih =>
    rw [hvalue]
    refine (local_nextInk _ hb).bind ?_
    rw [hk]
    exact ih hu
  | case4 u ks b m hb hk v' w hskip ih =>
    rw [hvalue]
    refine (local_nextInk _ hb).bind ?_
    rw [hk]
    exact (local_skipScalar b hskip).bind (ih hu)
  | case5 u behindValue => cases hu; exact ⟨[], rfl, fun t _ => by rw [List.nil_append, skipFrom]⟩
  | case7 u behindValue k ks m hb ih =>
    obtain ⟨s, rfl, hs⟩ := local_nextInk (P := fun _ => True) _ hb
    obtain ⟨s', rfl, hs'⟩ := ih hu
    refine ⟨s ++ s', (List.append_assoc s s' r).symm, fun t ht => ?_⟩
    rw [List.append_assoc, skipFrom_closed (hs _ (.inr trivial)), hs' t ht]
  | case9 u k ks m v' w hl hb hne ih =>
    obtain ⟨s, rfl, hs⟩ := local_nextInk (P := fun _ => True) _ hb
    obtain ⟨s', rfl, hs'⟩ :=
      (local_lead k hl).bind (f := fun _ => skipFrom .value (k :: ks)) (ih hu)
    refine ⟨s ++ s', (List.append_assoc s s' r).symm, fun t ht => ?_⟩
    rw [List.append_assoc, skipFrom_inside, bind_ok (hs _ (.inr trivial)), if_neg hne, if_pos rfl,
      if_pos rfl, hs' t ht]
  | case12 u behindValue k ks b m hb hne hfirst v' w hl ih =>
    obtain ⟨s, hsplit, hs⟩ :=
      (local_lead k hl).bind (f := fun _ => skipFrom .value (k :: ks)) (ih hu)
    have hdrop := nextInk_eq_ok_iff.mp hb
    refine ⟨s, hsplit, fun t ht => ?_⟩
    obtain ⟨x, hx⟩ := dropWhile_peek hdrop hsplit (length_of_lead hdrop hl hu) t
    rw [skipFrom_inside, bind_ok (nextInk_eq_ok_iff.mpr hx), if_neg hne, if_neg hfirst]
    exact hs t ht

theorem closed_closeList : Closed closeList := by
  intro u v r hu
  obtain ⟨b, m, hb, hu⟩ := bind_eq_ok hu
  split at hu
  · next hclose =>
    cases hu
    obtain ⟨hsplit, hs⟩ := dropWhile_eq_cons (nextInk_eq_ok_iff.mp hb)
    refine ⟨_, b, hsplit, by rw [hclose]; rfl, fun t => ?_⟩
    rw [closeList, bind_ok (nextInk_eq_ok_iff.mpr (hs t)), if_pos hclose]
    rfl
  · split at hu
    · obtain ⟨c, x, -, hu⟩ := bind_eq_ok hu
      cases hu
    · cases hu

namespace Record

variable {l : Record σ α}

def LocalFields (l : Record σ α) : Prop := ∀ f ∈ l.fields, ∀ d a, Local Ends (f.read d a)

theorem idle_finished (l : Record σ α) (a : σ) : Idle (l.finished a) := by
  unfold finished
  split
  · exact idle_pure _
  · exact idle_fail _

theorem local_member (h : l.LocalFields) (depth : Nat) (k : Text) (a : σ) :
    Local Ends (l.member depth k a) := by
  unfold member
  split
  · exact local_colon.bind fun _ => (local_skipFrom .value []).bind fun _ => local_pure _
  · next f hf =>
    split
    · intro u v r hu
      obtain ⟨_, _, -, hu⟩ := bind_eq_ok hu
      cases hu
    · exact local_colon.bind fun _ => h f (List.mem_of_find?_eq_some hf) depth a

theorem closed_listed (depth count : Nat) (a : σ) (fs : List (Field σ))
    (h : ∀ f ∈ fs, ∀ d a, Local Ends (f.read d a)) : Closed (l.listed depth count a fs) := by
  induction fs generalizing count a with
  | nil => exact closed_closeList.bind_idle fun _ => idle_pure a
  | cons f fs ih =>
    obtain ⟨hf, hfs⟩ := List.forall_mem_cons.mp h
    intro u v r hu
    obtain ⟨more, m, hmore, hw⟩ := bind_eq_ok hu
    refine closes_more hmore ?_ hw fun hmore => ?_
    · rw [if_neg Bool.false_ne_true]
      split
      · exact idle_fail _
      · exact idle_pure a
    · subst hmore
      rw [if_pos rfl] at hw ⊢
      exact (hf depth a).bind_closed (fun b => ih _ b hfs) hw

theorem closed_read (h : l.LocalFields) (depth : Nat) : Closed (l.read depth) := by
  refine (local_nextInk (P := Ends) _).bind_closed fun b => ?_
  split_ifs
  · exact closed_fail _
  · exact (closed_listed _ _ _ _ h).bind_idle fun a => l.idle_finished a
  · exact closed_fail _
  · exact (closed_members (l.local_member h _) _ _ _).bind_idle fun a => l.idle_finished a
  · exact closed_mismatched _ _

end Record

theorem finish_eq_ok_iff : (∃ x, finish r = .ok x) ↔ ∀ b ∈ r, isBlank b = true := by
  have hblanks : blanks r = .ok ((), r.dropWhile isBlank) := rfl
  rw [← List.dropWhile_eq_nil_iff, finish, bind_ok hblanks]
  cases r.dropWhile isBlank with
  | nil => exact iff_of_true ⟨_, rfl⟩ rfl
  | cons b m => exact iff_of_false (fun ⟨x, hx⟩ => nomatch hx) fun h => nomatch h

theorem Reader.Closed.whole {p : Reader α} (hp : Closed p) {document : Bytes} {a : α}
    (h : Json.whole p document = .ok a) :
    ∃ body b z, document = body ++ b :: z ∧ isClosing b = true ∧ (∀ c ∈ z, isBlank c = true) ∧
      ∀ e, ((∀ c ∈ e, isBlank c = true) → Json.whole p (body ++ b :: e) = .ok a) ∧
        ∀ x, Json.whole p (body ++ b :: e) = .ok x → ∀ c ∈ e, isBlank c = true := by
  obtain ⟨r, x, hread, hfinish⟩ := whole_eq_ok h
  obtain ⟨body, b, rfl, hb, hs⟩ := hp hread
  refine ⟨body, b, r, rfl, hb, finish_eq_ok_iff.mp ⟨x, hfinish⟩, fun e => ⟨fun he => ?_, ?_⟩⟩
  · obtain ⟨y, hy⟩ := finish_eq_ok_iff.mpr he
    exact whole_ok (hs e) hy
  · intro y hy
    obtain ⟨r', z, hread', hfinish'⟩ := whole_eq_ok hy
    rw [hs e] at hread'
    cases hread'
    exact finish_eq_ok_iff.mp ⟨z, hfinish'⟩

end CallStrip.Json

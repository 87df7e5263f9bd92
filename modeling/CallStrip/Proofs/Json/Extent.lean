import CallStrip.Proofs.Json.Typed

/-!
How far a reader looks. What it makes of the bytes it takes does not depend on the bytes behind
them, save for a look at the first of these where a number may go on.
-/

namespace CallStrip.Json

open Reading (bind_eq_ok bind_ok map_eq_ok map_ok)

variable {α β σ : Type} {P Q : Bytes → Prop} {s t u r : Bytes} {b : UInt8}

namespace Reader

/-- From `u` a reader takes what is before `r`, and makes `v` of it. It does the same before any `t`
that begins as `r` does or keeps to `P`. -/
def Takes (P : Bytes → Prop) (p : Reader α) (u : Bytes) (v : α) (r : Bytes) : Prop :=
  ∃ s, u = s ++ r ∧ ∀ t, t.head? = r.head? ∨ P t → p (s ++ t) = .ok (v, t)

def Local (P : Bytes → Prop) (p : Reader α) : Prop :=
  ∀ ⦃u v r⦄, p u = .ok (v, r) → Takes P p u v r

def Idle (p : Reader α) : Prop := ∀ ⦃u v r⦄, p u = .ok (v, r) → r = u ∧ ∀ t, p t = .ok (v, t)

section Rules

variable {p : Reader α} {f : α → Reader β}

theorem idle_pure (a : α) : Idle (pure a : Reader α) := by
  intro u v r hu
  cases hu
  exact ⟨rfl, fun _ => rfl⟩

theorem idle_fail (c : Cause) : Idle (fail c : Reader α) := by
  intro u v r hu
  cases hu

theorem idle_failAhead (c : Cause) : Idle (failAhead c : Reader α) := by
  intro u v r hu
  cases hu

theorem Idle.local (h : Idle p) : Local P p := by
  intro u v r hu
  obtain ⟨rfl, hs⟩ := h hu
  exact ⟨[], rfl, fun t _ => hs t⟩

theorem Local.stays (h : Local P p) : Stays p := by
  intro u v r hu
  obtain ⟨s, rfl, -⟩ := h hu
  simp

theorem Local.congr {q : Reader α} (h : Local P q) (hpq : ∀ u x, p u = .ok x ↔ q u = .ok x) :
    Local P p := by
  intro u v r hu
  obtain ⟨s, rfl, hs⟩ := h ((hpq u _).mp hu)
  exact ⟨s, rfl, fun t ht => (hpq _ _).mpr (hs t ht)⟩

theorem local_pure (a : α) : Local P (pure a : Reader α) := (idle_pure a).local

theorem local_fail (c : Cause) : Local P (fail c : Reader α) := (idle_fail c).local

theorem local_next (c : Cause) : Local P (next c) := by
  intro u v r hu
  cases u with
  | nil => cases hu
  | cons b u => cases hu; exact ⟨[v], rfl, fun _ _ => rfl⟩

theorem Takes.bind {v : α} {w : β} {m : Bytes} (hp : Takes P p u v m) (hf : Takes P (f v) m w r) :
    Takes P (p >>= f) u w r := by
  obtain ⟨s, rfl, hs⟩ := hp
  obtain ⟨s', rfl, hs'⟩ := hf
  refine ⟨s ++ s', (List.append_assoc s s' r).symm, fun t ht => ?_⟩
  have hahead : (s' ++ t).head? = (s' ++ r).head? ∨ P (s' ++ t) := by
    cases s' with
    | nil => exact ht
    | cons b s' => exact .inl rfl
  rw [List.append_assoc, bind_ok (hs _ hahead), hs' t ht]

theorem Local.bind (hp : Local P p) (hf : ∀ a, Local P (f a)) : Local P (p >>= f) := by
  intro u w r hu
  obtain ⟨v, m, hv, hw⟩ := bind_eq_ok hu
  exact (hp hv).bind (hf v hw)

theorem Local.bind_shrinks (hp : Local Q p) (hf : ∀ a, Local P (f a)) (hs : ∀ a, Shrinks (f a)) :
    Local P (p >>= f) := by
  intro u w r hu
  obtain ⟨v, m, hv, hw⟩ := bind_eq_ok hu
  obtain ⟨s, rfl, hfirst⟩ := hp hv
  have hlt := hs v hw
  obtain ⟨s', rfl, hsecond⟩ := hf v hw
  refine ⟨s ++ s', (List.append_assoc s s' r).symm, fun t ht => ?_⟩
  have hahead : (s' ++ t).head? = (s' ++ r).head? := by
    cases s' with
    | nil => exact absurd hlt (Nat.lt_irrefl _)
    | cons b s' => rfl
  rw [List.append_assoc, bind_ok (hfirst _ (.inl hahead)), hsecond t ht]

theorem Local.bind_next {f : α → UInt8 → Reader β} (hp : Local Q p) (c : Cause)
    (hf : ∀ a b, Local P (f a b)) : Local P (p >>= fun a => next c >>= f a) :=
  hp.bind_shrinks (fun a => (local_next c).bind (hf a))
    fun a => (shrinks_next c).bind fun b => (hf a b).stays

theorem Local.map (g : α → β) (hp : Local P p) : Local P (g <$> p) :=
  hp.bind fun a => local_pure (g a)

end Rules

theorem dropWhile_eq_cons {q : UInt8 → Bool} {b : UInt8} (h : u.dropWhile q = b :: r) :
    u = u.takeWhile q ++ b :: r ∧ ∀ t, (u.takeWhile q ++ b :: t).dropWhile q = b :: t := by
  have hb : ¬ q b = true := by
    have hhead := List.head?_dropWhile_not q u
    rw [h] at hhead
    simpa using hhead
  refine ⟨by rw [← h, List.takeWhile_append_dropWhile], fun t => ?_⟩
  rw [List.dropWhile_append_of_pos fun a ha => List.mem_takeWhile_imp ha,
    List.dropWhile_cons_of_neg hb]

theorem local_nextInk (c : Cause) : Local P (nextInk c) := by
  intro u b r hu
  obtain ⟨hsplit, hdrop⟩ := dropWhile_eq_cons (nextInk_eq_ok_iff.mp hu)
  refine ⟨u.takeWhile isBlank ++ [b], by rw [List.append_assoc]; exact hsplit, fun t _ => ?_⟩
  rw [List.append_assoc]
  exact nextInk_eq_ok_iff.mpr (hdrop t)

end Reader

open Reader

theorem local_quotedBytes (q : QuoteState) : Local P (quotedBytes q) := by
  intro u v r hu
  induction u generalizing q v with
  | nil => cases hu
  | cons b u ih =>
    rw [quotedBytes] at hu
    split at hu
    · cases hu
    · next hstep =>
      cases hu
      refine ⟨[b], rfl, fun t _ => ?_⟩
      rw [List.singleton_append, quotedBytes, hstep]
    · next q' out hstep =>
      cases hrest : quotedBytes q' u with
      | error f => rw [hrest] at hu; cases hu
      | ok x =>
        rw [hrest] at hu
        cases hu
        obtain ⟨s, hsplit, hs⟩ := ih q' hrest
        refine ⟨b :: s, congrArg (b :: ·) hsplit, fun t ht => ?_⟩
        rw [List.cons_append, quotedBytes, hstep]
        dsimp only
        rw [hs t ht]
        rfl

theorem local_quoted : Local P quoted := by
  intro u v r hu
  rw [quoted] at hu
  split at hu
  · cases hu
  · next out m hbytes =>
    split at hu
    · next x hsplit =>
      cases hu
      obtain ⟨s, rfl, hs⟩ := local_quotedBytes .plain hbytes
      refine ⟨s, rfl, fun t ht => ?_⟩
      rw [quoted, hs t ht]
      dsimp only
      rw [hsplit]
    · cases hu

theorem local_skipQuotedFrom (q : SkipState) : Local P (skipQuotedFrom q) := by
  intro u v r hu
  induction u generalizing q with
  | nil => cases hu
  | cons b u ih =>
    rw [skipQuotedFrom] at hu
    split at hu
    · cases hu
    · next hstep =>
      cases hu
      refine ⟨[b], rfl, fun t _ => ?_⟩
      rw [List.singleton_append, skipQuotedFrom, hstep]
    · next q' hstep =>
      obtain ⟨s, rfl, hs⟩ := ih q' hu
      refine ⟨b :: s, rfl, fun t ht => ?_⟩
      rw [List.cons_append, skipQuotedFrom, hstep]
      exact hs t ht

def Ends (t : Bytes) : Prop :=
  ∀ b ∈ t.head?, isDigit b = false ∧ b ≠ 0x2E ∧ isPower b = false

theorem Ends.not_digit (h : Ends t) : ∀ b ∈ t.head?, isDigit b = false := fun b hb => (h b hb).1

theorem head?_dropWhile_isDigit (u : Bytes) :
    ∀ b ∈ (u.dropWhile isDigit).head?, isDigit b = false := by
  intro b hb
  have hhead := List.head?_dropWhile_not isDigit u
  rw [Option.mem_def.mp hb] at hhead
  simpa using hhead

def digits : Reader Bytes := fun s => .ok (s.takeWhile isDigit, s.dropWhile isDigit)

theorem digits_append {ds : Bytes} (hds : ∀ b ∈ ds, isDigit b = true)
    (ht : ∀ b ∈ t.head?, isDigit b = false) : digits (ds ++ t) = .ok (ds, t) := by
  have hstop : t.takeWhile isDigit = [] ∧ t.dropWhile isDigit = t := by
    cases t with
    | nil => exact ⟨rfl, rfl⟩
    | cons b t =>
      have hb : ¬ isDigit b = true := by simp [ht b rfl]
      exact ⟨List.takeWhile_cons_of_neg hb, List.dropWhile_cons_of_neg hb⟩
  rw [digits, List.takeWhile_append_of_pos hds, List.dropWhile_append_of_pos hds, hstop.1, hstop.2,
    List.append_nil]

theorem local_digits : Local Ends digits := by
  intro u v r hu
  cases hu
  refine ⟨u.takeWhile isDigit, List.takeWhile_append_dropWhile.symm, fun t ht => ?_⟩
  refine digits_append (fun b hb => List.mem_takeWhile_imp hb) ?_
  rcases ht with ht | ht
  · rw [ht]
    exact head?_dropWhile_isDigit u
  · exact ht.not_digit

theorem local_dropDigits : Local Ends dropDigits := by
  have hdrop : dropDigits = (fun _ => ()) <$> digits := rfl
  rw [hdrop]
  exact local_digits.map _

theorem local_powerSign : Local (fun _ => False) powerSign := by
  intro u v r hu
  cases u with
  | nil =>
    cases hu
    refine ⟨[], rfl, fun t ht => ?_⟩
    obtain rfl := List.head?_eq_none_iff.mp (ht.resolve_right id)
    rfl
  | cons b u =>
    rw [powerSign] at hu
    split at hu
    · next hb => cases hu; exact ⟨[b], rfl, fun t _ => by subst hb; rfl⟩
    · next hminus =>
      split at hu
      · next hb => cases hu; exact ⟨[b], rfl, fun t _ => by subst hb; rfl⟩
      · next hplus =>
        cases hu
        refine ⟨[], rfl, fun t ht => ?_⟩
        obtain ⟨t, rfl⟩ := List.head?_eq_some_iff.mp (ht.resolve_right id)
        rw [List.nil_append, powerSign, if_neg hminus, if_neg hplus]

theorem local_powerDigits (n : Nat) : Local Ends (powerDigits n) := by
  intro u v r hu
  rw [powerDigits, Except.ok.injEq] at hu
  suffices h : ∃ s, u = s ++ r ∧
      ∀ t, t.head? = r.head? ∨ Ends t → gatherPower n (s ++ t) = (v, t) by
    obtain ⟨s, hsplit, hs⟩ := h
    exact ⟨s, hsplit, fun t ht => congrArg Except.ok (hs t ht)⟩
  have hstop (n : Nat) (t : Bytes) (ht : ∀ b ∈ t.head?, isDigit b = false) :
      gatherPower n t = (some n, t) := by
    cases t with
    | nil => rfl
    | cons b t =>
      have hb : digit? b = none := by simpa [isDigit] using ht b rfl
      rw [gatherPower, hb]
  induction u generalizing n with
  | nil =>
    cases hu
    refine ⟨[], rfl, fun t ht => hstop n t ?_⟩
    rcases ht with ht | ht
    · rw [ht]
      simp
    · exact ht.not_digit
  | cons b u ih =>
    rw [gatherPower] at hu
    split at hu
    · next hb =>
      cases hu
      refine ⟨[], rfl, fun t ht => hstop n t ?_⟩
      rcases ht with ht | ht
      · rw [ht]
        rintro c ⟨⟩
        exact isDigit_eq_false hb
      · exact ht.not_digit
    · next d hd =>
      split at hu
      · next hlt =>
        obtain ⟨s, rfl, hs⟩ := ih _ hu
        refine ⟨b :: s, rfl, fun t ht => ?_⟩
        rw [List.cons_append, gatherPower, hd]
        dsimp only
        rw [if_pos hlt, hs t ht]
      · next hlt =>
        cases hu
        refine ⟨[b], rfl, fun t _ => ?_⟩
        rw [List.singleton_append, gatherPower, hd]
        dsimp only
        rw [if_neg hlt]

theorem idle_scaled (negative : Bool) (n : Nat) (e : Int) : Idle (scaled negative n e) := by
  unfold scaled
  split
  · exact idle_failAhead _
  · exact idle_pure _

theorem local_power (negative : Bool) (n : Nat) (e : Int) : Local Ends (power negative n e) := by
  refine local_powerSign.bind_next _ fun minus b => ?_
  split
  · exact local_fail _
  · next d _ =>
    refine (local_powerDigits d).bind fun k => ?_
    split
    · exact (idle_scaled _ _ _).local
    · split
      · exact local_fail _
      · exact local_dropDigits.bind fun _ => local_pure _

theorem local_of_head {p q : Reader α} {g : UInt8 → Option (Reader α)} (hnil : p [] = q [])
    (hcons : ∀ b u, p (b :: u) = (g b).elim (q (b :: u)) (· u))
    (hgo : ∀ b, ∀ x ∈ g b, Local P x) (hends : ∀ b u, P (b :: u) → g b = none)
    (hstop : Idle q) : Local P p := by
  have hstops (t : Bytes) (ht : ∀ b ∈ t.head?, g b = none) : p t = q t := by
    cases t with
    | nil => exact hnil
    | cons b t => rw [hcons, ht b rfl]; rfl
  intro u v r hu
  by_cases hhead : ∀ b ∈ u.head?, g b = none
  · rw [hstops u hhead] at hu
    obtain ⟨rfl, hs⟩ := hstop hu
    refine ⟨[], rfl, fun t ht => (hstops t ?_).trans (hs t)⟩
    intro b hb
    rcases ht with ht | ht
    · exact hhead b (ht ▸ hb)
    · obtain ⟨w, rfl⟩ := List.head?_eq_some_iff.mp hb
      exact hends b w ht
  · obtain ⟨b, hb, hne⟩ : ∃ b ∈ u.head?, g b ≠ none := by simpa using hhead
    obtain ⟨u, rfl⟩ := List.head?_eq_some_iff.mp hb
    obtain ⟨x, hx⟩ := Option.ne_none_iff_exists'.mp hne
    have hgoes (t : Bytes) : p (b :: t) = x t := by rw [hcons, hx]; rfl
    rw [hgoes] at hu
    obtain ⟨s, rfl, hs⟩ := hgo b x hx hu
    exact ⟨b :: s, rfl, fun t ht => (hgoes (s ++ t)).trans (hs t ht)⟩

theorem local_powered (negative : Bool) (n : Nat) (e : Int) :
    Local Ends (powered negative n e) := by
  refine local_of_head (q := scaled negative n e)
    (g := fun b => if isPower b then some (power negative n e) else none) rfl (fun b u => ?_)
    (fun b q hq => ?_) (fun b u h => ?_) (idle_scaled negative n e)
  · rw [powered]
    split <;> rfl
  · obtain ⟨-, rfl⟩ : _ ∧ power negative n e = q := by simpa using hq
    exact local_power negative n e
  · simp [(h b rfl).2.2]

theorem gather_append {ds : Bytes} (hds : ∀ b ∈ ds, isDigit b = true)
    (ht : ∀ b ∈ t.head?, isDigit b = false) (n : Nat) :
    gather n (ds ++ t) = ((gather n ds).1, (gather n ds).2.1, (gather n ds).2.2 ++ t) := by
  induction ds generalizing n with
  | nil =>
    cases t with
    | nil => rfl
    | cons b t =>
      have hb : digit? b = none := by simpa [isDigit] using ht b rfl
      simp [gather, hb]
  | cons b ds ih =>
    obtain ⟨hb, hds⟩ := List.forall_mem_cons.mp hds
    obtain ⟨d, hd⟩ := Option.isSome_iff_exists.mp hb
    rw [List.cons_append, gather, gather, hd]
    dsimp only
    split
    · rw [ih hds]
    · rfl

theorem gather_rest {ds : Bytes} (hds : ∀ b ∈ ds, isDigit b = true) (n : Nat) :
    ∀ b ∈ (gather n ds).2.2, isDigit b = true := by
  induction ds generalizing n with
  | nil => exact fun b hb => nomatch hb
  | cons b ds ih =>
    rw [gather]
    split
    · exact hds
    · dsimp only
      split
      · exact ih (List.forall_mem_cons.mp hds).2 _
      · exact hds

theorem fraction_append {ds : Bytes} (hds : ∀ b ∈ ds, isDigit b = true) (hne : ds ≠ [])
    (ht : ∀ b ∈ t.head?, isDigit b = false) (negative : Bool) (n : Nat) (e : Int) :
    fraction negative n e (ds ++ t) =
      powered negative (gather n ds).1 (e - (gather n ds).2.1) t := by
  have hdrop : ((gather n ds).2.2 ++ t).dropWhile isDigit = t := by
    have h := congrArg Prod.snd (Except.ok.inj (digits_append (gather_rest hds n) ht))
    exact h
  rw [fraction, gather_append hds ht]
  dsimp only
  cases hrest : (gather n ds).2.2 with
  | nil =>
    have hcount : (gather n ds).2.1 ≠ 0 := fun h => hne (gather_none h ▸ hrest)
    rw [hrest] at hdrop
    cases t with
    | nil => rw [List.append_nil, if_neg hcount]; rfl
    | cons b t =>
      rw [List.nil_append] at hdrop ⊢
      simp [hcount, hdrop]
  | cons d rest =>
    have hd : isDigit d = true := gather_rest hds n d (by rw [hrest]; exact List.mem_cons_self)
    rw [hrest] at hdrop
    rw [List.cons_append] at hdrop ⊢
    simp [hd, hdrop]

theorem fraction_error (ht : ∀ b ∈ t.head?, isDigit b = false) (negative : Bool) (n : Nat)
    (e : Int) : ∃ f, fraction negative n e t = .error f := by
  have hgather := gather_append (List.forall_mem_nil _) ht n
  rw [List.nil_append] at hgather
  rw [fraction, hgather]
  cases t with
  | nil => exact ⟨_, rfl⟩
  | cons b t => exact ⟨⟨.badNumber, t⟩, by simp [gather, ht b rfl]⟩

theorem local_fraction (negative : Bool) (n : Nat) (e : Int) :
    Local Ends (fraction negative n e) := by
  refine (local_digits.bind (f := fun ds => if ds = [] then fail .badNumber
    else powered negative (gather n ds).1 (e - (gather n ds).2.1)) fun ds => ?_).congr fun u x => ?_
  · split
    · exact local_fail _
    · exact local_powered _ _ _
  · have hds : ∀ b ∈ u.takeWhile isDigit, isDigit b = true := fun b hb => List.mem_takeWhile_imp hb
    have hdigits : digits u = .ok (u.takeWhile isDigit, u.dropWhile isDigit) := rfl
    have hsplit : u = u.takeWhile isDigit ++ u.dropWhile isDigit :=
      List.takeWhile_append_dropWhile.symm
    rw [bind_ok hdigits]
    by_cases hne : u.takeWhile isDigit = []
    · rw [hne, List.nil_append] at hsplit
      obtain ⟨f, hf⟩ := fraction_error (head?_dropWhile_isDigit u) negative n e
      rw [← hsplit] at hf
      rw [if_pos hne, hf]
      exact iff_of_false (fun h => nomatch h) fun h => nomatch h
    · have h := fraction_append hds hne (head?_dropWhile_isDigit u) negative n e
      rw [← hsplit] at h
      rw [if_neg hne, h]

def plain (negative : Bool) (n dropped : Nat) : Reader Number :=
  if dropped != 0 then scaled negative n dropped
  else if !negative then pure (.whole n)
  else if n = 0 || twoTo 63 < n then pure (signed true (.ofNat n))
  else pure (.whole (-n))

theorem idle_plain (negative : Bool) (n dropped : Nat) : Idle (plain negative n dropped) := by
  unfold plain
  split_ifs
  · exact idle_scaled _ _ _
  all_goals exact idle_pure _

theorem local_behindWhole (negative : Bool) (n dropped : Nat) :
    Local Ends (behindWhole negative n dropped) := by
  have hplain (t : Bytes) : plain negative n dropped t =
      if dropped != 0 then scaled negative n dropped t
      else if !negative then .ok (.whole n, t)
      else if n = 0 || twoTo 63 < n then .ok (signed true (.ofNat n), t)
      else .ok (.whole (-n), t) := by
    unfold plain
    split_ifs <;> rfl
  refine local_of_head (q := plain negative n dropped)
    (g := fun b => if b = 0x2E then some (fraction negative n dropped)
      else if isPower b then some (power negative n dropped) else none)
    (by rw [hplain]; rfl) (fun b u => ?_) (fun b q hq => ?_) (fun b u h => ?_)
    (idle_plain negative n dropped)
  · rw [behindWhole, hplain]
    split_ifs <;> rfl
  · split_ifs at hq
    · cases hq
      exact local_fraction negative n dropped
    · cases hq
      exact local_power negative n dropped
    · cases hq
  · simp [h b rfl]

theorem local_unless_digit {p q : Reader α} (hq : Local Ends q) (hnil : p [] = q [])
    (hcons : ∀ b u, p (b :: u) = if isDigit b then .error ⟨.badNumber, u⟩ else q (b :: u)) :
    Local Ends p := by
  have hsame (t : Bytes) (ht : ∀ b ∈ t.head?, isDigit b = false) : p t = q t := by
    cases t with
    | nil => exact hnil
    | cons b t => rw [hcons, if_neg (Bool.eq_false_iff.mp (ht b rfl))]
  intro u v r hu
  have hhead : ∀ b ∈ u.head?, isDigit b = false := by
    intro b hb
    obtain ⟨w, rfl⟩ := List.head?_eq_some_iff.mp hb
    rw [hcons] at hu
    split at hu
    · cases hu
    · next hb => exact Bool.eq_false_iff.mpr hb
  rw [hsame u hhead] at hu
  obtain ⟨s, rfl, hs⟩ := hq hu
  refine ⟨s, rfl, fun t ht => (hsame _ ?_).trans (hs t ht)⟩
  cases s with
  | nil =>
    rcases ht with ht | ht
    · rw [List.nil_append, ht]
      exact hhead
    · exact ht.not_digit
  | cons b s => exact hhead

theorem unsigned_succ {d : Nat} (hb : digit? b = some (d + 1)) (negative : Bool) :
    unsigned negative b = digits >>= fun ds =>
      behindWhole negative (gather (d + 1) ds).1 (gather (d + 1) ds).2.2.length := by
  funext u
  have hds : ∀ b ∈ u.takeWhile isDigit, isDigit b = true := fun b hb => List.mem_takeWhile_imp hb
  have hgather := gather_append hds (head?_dropWhile_isDigit u) (d + 1)
  rw [List.takeWhile_append_dropWhile] at hgather
  have hrest := digits_append (gather_rest hds (d + 1)) (head?_dropWhile_isDigit u)
  rw [digits, Except.ok.injEq, Prod.mk.injEq] at hrest
  have hdigits : digits u = .ok (u.takeWhile isDigit, u.dropWhile isDigit) := rfl
  have hunsigned : unsigned negative b u = behindWhole negative (gather (d + 1) u).1
      ((gather (d + 1) u).2.2.takeWhile isDigit).length
      ((gather (d + 1) u).2.2.dropWhile isDigit) := by
    rw [unsigned, hb]
    rfl
  rw [bind_ok hdigits, hunsigned, hgather]
  dsimp only
  rw [hrest.1, hrest.2]

theorem local_unsigned (negative : Bool) (first : UInt8) :
    Local Ends (unsigned negative first) := by
  cases hfirst : digit? first with
  | none =>
    rw [unsigned, hfirst]
    exact local_fail _
  | some d =>
    cases d with
    | zero =>
      rw [unsigned, hfirst]
      exact local_unless_digit (local_behindWhole negative 0 0) rfl fun b u => rfl
    | succ d =>
      rw [unsigned_succ hfirst]
      exact local_digits.bind fun ds => local_behindWhole _ _ _

theorem local_number (first : UInt8) : Local Ends (number first) := by
  unfold number
  split
  · exact (local_next _).bind fun b => local_unsigned true b
  · exact local_unsigned false first

theorem local_skipPower : Local Ends skipPower := by
  refine local_powerSign.bind_next _ fun _ b => ?_
  split
  · exact local_dropDigits
  · exact local_fail _

theorem local_skipBehindDigits : Local Ends skipBehindDigits := by
  refine local_of_head (q := pure ())
    (g := fun b => if isPower b then some skipPower else none) rfl (fun b u => ?_)
    (fun b q hq => ?_) (fun b u h => ?_) (idle_pure ())
  · rw [skipBehindDigits]
    split <;> rfl
  · obtain ⟨-, rfl⟩ : _ ∧ skipPower = q := by simpa using hq
    exact local_skipPower
  · simp [(h b rfl).2.2]

theorem local_skipFraction : Local Ends skipFraction := by
  have hbehind : Local Ends (dropDigits >>= fun _ => skipBehindDigits) :=
    local_dropDigits.bind fun _ => local_skipBehindDigits
  intro u v r hu
  cases u with
  | nil => cases hu
  | cons b u =>
    by_cases hb : isDigit b = true
    · have hskip (t : Bytes) :
          skipFraction (b :: t) = (dropDigits >>= fun _ => skipBehindDigits) t :=
        skipFraction_cons hb t
      rw [hskip] at hu
      obtain ⟨s, rfl, hs⟩ := hbehind hu
      exact ⟨b :: s, rfl, fun t ht => (hskip (s ++ t)).trans (hs t ht)⟩
    · simp [skipFraction, hb] at hu

theorem local_skipBehindWhole : Local Ends skipBehindWhole := by
  refine local_of_head (q := pure ())
    (g := fun b => if b = 0x2E then some skipFraction else if isPower b then some skipPower
      else none) rfl (fun b u => ?_) (fun b q hq => ?_) (fun b u h => ?_) (idle_pure ())
  · rw [skipBehindWhole]
    split_ifs <;> rfl
  · split_ifs at hq
    · cases hq
      exact local_skipFraction
    · cases hq
      exact local_skipPower
    · cases hq
  · simp [h b rfl]

theorem local_skipUnsigned (first : UInt8) : Local Ends (skipUnsigned first) := by
  unfold skipUnsigned
  split_ifs
  · exact local_unless_digit local_skipBehindWhole rfl fun b u => rfl
  · exact local_dropDigits.bind fun _ => local_skipBehindWhole
  · exact local_fail _

theorem local_word (w : List UInt8) : Local P (word w) := by
  induction w with
  | nil => exact local_pure ()
  | cons b w ih =>
    refine (local_next _).bind fun c => ?_
    split
    · exact ih
    · exact local_fail _

theorem local_scalar (first : UInt8) : Local Ends (Json.scalar first) := by
  unfold Json.scalar
  split_ifs
  · exact (local_word _).bind fun _ => local_pure _
  · exact (local_word _).bind fun _ => local_pure _
  · exact (local_word _).bind fun _ => local_pure _
  · exact local_quoted.map _
  · exact (local_number _).map _
  · exact local_fail _

theorem local_skipScalar (first : UInt8) : Local Ends (skipScalar first) := by
  unfold skipScalar
  split_ifs
  · exact local_word _
  · exact local_word _
  · exact local_word _
  · exact local_skipQuotedFrom .plain
  · exact (local_next _).bind fun b => local_skipUnsigned b
  · exact local_skipUnsigned first
  · exact local_fail _

end CallStrip.Json

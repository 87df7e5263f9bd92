import CallStrip.Proofs.Json.Grammar

/-!
Whole numbers of 64 bits. A reader makes of digits the number they write in tens, a minus before
them turned, as long as the number fits; and where it makes a whole number, it made it of nothing
else than such digits.
-/

namespace CallStrip.Json

open Reading (bind_eq_ok bind_ok)
open Reader

variable {s u r e ds : Bytes} {b : UInt8} {n d : Nat} {i : Int} {negative : Bool}

def decimal (n : Nat) (ds : Bytes) : Nat := ds.foldl (fun n b => n * 10 + (b.toNat - 0x30)) n

theorem toNat_of_digit? (h : digit? b = some d) : b.toNat - 0x30 = d := by
  unfold digit? at h
  split at h
  · exact Option.some.inj h
  · cases h

theorem decimal_cons (h : digit? b = some d) (n : Nat) (ds : Bytes) :
    decimal n (b :: ds) = decimal (n * 10 + d) ds := by
  rw [decimal, List.foldl_cons, toNat_of_digit? h, decimal]

theorem le_decimal (n : Nat) (ds : Bytes) : n ≤ decimal n ds := by
  induction ds generalizing n with
  | nil => exact Nat.le_refl n
  | cons b ds ih =>
    have hle : n ≤ n * 10 + (b.toNat - 0x30) := by omega
    exact Nat.le_trans hle (ih _)

theorem gather_of_lt (hds : ∀ b ∈ ds, isDigit b = true) (h : decimal n ds < twoTo 64) :
    gather n ds = (decimal n ds, ds.length, []) := by
  induction ds generalizing n with
  | nil => rfl
  | cons b ds ih =>
    obtain ⟨hb, hds⟩ := List.forall_mem_cons.mp hds
    obtain ⟨d, hd⟩ := Option.isSome_iff_exists.mp hb
    rw [decimal_cons hd] at h ⊢
    rw [gather, hd]
    dsimp only
    rw [if_pos (Nat.lt_of_le_of_lt (le_decimal _ ds) h), ih hds h]
    rfl

theorem decimal_of_gather (hds : ∀ b ∈ ds, isDigit b = true) (hn : n < twoTo 64)
    (h : (gather n ds).2.2 = []) : (gather n ds).1 = decimal n ds ∧ decimal n ds < twoTo 64 := by
  induction ds generalizing n with
  | nil => exact ⟨rfl, hn⟩
  | cons b ds ih =>
    obtain ⟨hb, hds⟩ := List.forall_mem_cons.mp hds
    obtain ⟨d, hd⟩ := Option.isSome_iff_exists.mp hb
    rw [gather, hd] at h ⊢
    dsimp only at h ⊢
    rw [decimal_cons hd]
    by_cases hlt : n * 10 + d < twoTo 64
    · rw [if_pos hlt] at h ⊢
      exact ih hds hlt h
    · rw [if_neg hlt] at h
      cases h

theorem digit?_lt (h : digit? b = some d) : d < twoTo 64 := by
  have hb : b.toNat < 0x100 := b.toNat_lt
  have hmax : 0x100 < twoTo 64 := by decide
  have hd := toNat_of_digit? h
  omega

theorem digit?_eq_zero (h : digit? b = some 0) : b = 0x30 := by
  unfold digit? at h
  split at h
  · next hb =>
    obtain ⟨hle, -⟩ := (Bool.and_eq_true _ _).mp hb
    have hle := UInt8.le_iff_toNat_le.mp (of_decide_eq_true hle)
    have hzero := Option.some.inj h
    refine UInt8.toNat_inj.mp ?_
    simp only [UInt8.reduceToNat] at hle ⊢
    omega
  · cases h

theorem behindWhole_eq_plain (h : ∀ b ∈ u.head?, b ≠ 0x2E ∧ isPower b = false) (negative : Bool)
    (n dropped : Nat) : behindWhole negative n dropped u = plain negative n dropped u := by
  have hplain : plain negative n dropped u =
      if dropped != 0 then scaled negative n dropped u
      else if !negative then .ok (.whole n, u)
      else if n = 0 || twoTo 63 < n then .ok (signed true (.ofNat n), u)
      else .ok (.whole (-n), u) := by
    unfold plain
    split_ifs <;> rfl
  rw [hplain]
  cases u with
  | nil => rfl
  | cons b u =>
    obtain ⟨hpoint, hpower⟩ := h b rfl
    simp only [behindWhole, if_neg hpoint, hpower, Bool.false_eq_true, if_false]

theorem unsigned_zero_cons (negative : Bool) (b : UInt8) (u : Bytes) :
    unsigned negative 0x30 (b :: u) =
      if isDigit b then .error ⟨.badNumber, u⟩ else behindWhole negative 0 0 (b :: u) :=
  rfl

theorem unsigned_zero (h : ∀ b ∈ u.head?, isDigit b = false) (negative : Bool) :
    unsigned negative 0x30 u = behindWhole negative 0 0 u := by
  cases u with
  | nil => rfl
  | cons b u => rw [unsigned_zero_cons, if_neg (Bool.eq_false_iff.mp (h b rfl))]

theorem unsigned_whole (hw : Whole (b :: ds)) (hlt : decimal 0 (b :: ds) < twoTo 64) (he : Ends e)
    (negative : Bool) :
    unsigned negative b (ds ++ e) = plain negative (decimal 0 (b :: ds)) 0 e := by
  obtain hzero | ⟨hds, hne⟩ := hw
  · obtain ⟨rfl, rfl⟩ := List.cons.inj hzero
    rw [List.nil_append, unsigned_zero he.not_digit]
    exact behindWhole_eq_plain (fun c hc => (he c hc).2) negative 0 0
  · obtain ⟨_, _, hcons, hb, hds⟩ := hds.eq_cons
    obtain ⟨rfl, rfl⟩ := List.cons.inj hcons
    obtain ⟨d, hd⟩ := Option.isSome_iff_exists.mp hb
    rw [decimal_cons hd, Nat.zero_mul, Nat.zero_add] at hlt ⊢
    cases d with
    | zero => exact absurd (congrArg some (digit?_eq_zero hd)) hne
    | succ d =>
      rw [unsigned_succ hd, bind_ok (digits_append hds he.not_digit), gather_of_lt hds hlt]
      exact behindWhole_eq_plain (fun c hc => (he c hc).2) negative _ 0

theorem number_whole (hw : Whole (b :: ds)) (hlt : decimal 0 (b :: ds) < twoTo 64) (he : Ends e) :
    number b (ds ++ e) = .ok (.whole (decimal 0 (b :: ds)), e) := by
  obtain ⟨_, _, hcons, hb⟩ := hw.eq_cons
  obtain ⟨rfl, -⟩ := List.cons.inj hcons
  rw [number, if_neg (ne_of_isDigit hb (by decide)), unsigned_whole hw hlt he]
  rfl

theorem number_negative (hw : Whole ds) (hpos : 0 < decimal 0 ds) (hle : decimal 0 ds ≤ twoTo 63)
    (he : Ends e) : number 0x2D (ds ++ e) = .ok (.whole (-(decimal 0 ds : Int)), e) := by
  have hlt : decimal 0 ds < twoTo 64 := Nat.lt_of_le_of_lt hle (by decide)
  obtain ⟨b, ds, rfl, hb⟩ := hw.eq_cons
  have hnext : next .endInValue (b :: ds ++ e) = .ok (b, ds ++ e) := rfl
  rw [number, if_pos rfl, bind_ok hnext, unsigned_whole hw hlt he, plain]
  have hsmall : ¬ (decide (decimal 0 (b :: ds) = 0) || decide (twoTo 63 < decimal 0 (b :: ds))) =
      true := by
    simp only [Bool.or_eq_true, decide_eq_true_eq]
    omega
  rw [if_neg (by decide), if_neg (by decide), if_neg hsmall]
  rfl

def Rounds (p : Reader Number) : Prop := ∀ ⦃s i r⦄, p s ≠ .ok (.whole i, r)

theorem rounds_fail (c : Cause) : Rounds (fail c) := by
  intro s i r h
  cases h

theorem rounds_signed (negative : Bool) (x : Binary64) : Rounds (pure (signed negative x)) := by
  intro s i r h
  cases h

theorem Rounds.bind {α : Type} {p : Reader α} {f : α → Reader Number} (h : ∀ a, Rounds (f a)) :
    Rounds (p >>= f) := by
  intro s i r hs
  obtain ⟨a, t, -, ha⟩ := bind_eq_ok hs
  exact h a ha

theorem rounds_scaled (negative : Bool) (n : Nat) (e : Int) : Rounds (scaled negative n e) := by
  unfold scaled
  split
  · intro s i r h
    cases h
  · exact rounds_signed _ _

theorem rounds_power (negative : Bool) (n : Nat) (e : Int) : Rounds (power negative n e) := by
  refine Rounds.bind fun minus => Rounds.bind fun b => ?_
  split
  · exact rounds_fail _
  · refine Rounds.bind fun k => ?_
    split
    · exact rounds_scaled _ _ _
    · split
      · exact rounds_fail _
      · exact Rounds.bind fun _ => rounds_signed _ _

theorem rounds_powered (negative : Bool) (n : Nat) (e : Int) : Rounds (powered negative n e) := by
  intro s i r h
  cases s with
  | nil => exact rounds_scaled _ _ _ h
  | cons b s =>
    rw [powered] at h
    split at h
    · exact rounds_power _ _ _ h
    · exact rounds_scaled _ _ _ h

theorem rounds_fraction (negative : Bool) (n : Nat) (e : Int) : Rounds (fraction negative n e) := by
  intro s i r h
  rw [fraction] at h
  split at h
  · split at h
    · cases h
    · exact rounds_scaled _ _ _ h
  · split at h
    · cases h
    · exact rounds_powered _ _ _ h

def Signed (negative : Bool) (n : Nat) (i : Int) : Prop :=
  negative = false ∧ i = n ∨ negative = true ∧ 0 < n ∧ n ≤ twoTo 63 ∧ i = -n

theorem behindWhole_eq_whole {dropped : Nat}
    (h : behindWhole negative n dropped u = .ok (.whole i, r)) :
    dropped = 0 ∧ r = u ∧ Signed negative n i := by
  have hhead : ∀ b ∈ u.head?, b ≠ 0x2E ∧ isPower b = false := by
    intro b hb
    obtain ⟨t, rfl⟩ := List.head?_eq_some_iff.mp hb
    rw [behindWhole] at h
    split at h
    · exact (rounds_fraction _ _ _ h).elim
    · next hpoint =>
      split at h
      · exact (rounds_power _ _ _ h).elim
      · next hpower => exact ⟨hpoint, Bool.eq_false_iff.mpr hpower⟩
  rw [behindWhole_eq_plain hhead] at h
  unfold plain at h
  split at h
  · exact (rounds_scaled _ _ _ h).elim
  · next hdropped =>
    have hdropped : dropped = 0 := by simpa using hdropped
    split at h
    · next hsign =>
      cases h
      exact ⟨hdropped, rfl, .inl ⟨by simpa using hsign, rfl⟩⟩
    · next hsign =>
      split at h
      · exact (rounds_signed _ _ h).elim
      · next hsmall =>
        cases h
        simp only [Bool.or_eq_true, decide_eq_true_eq, not_or, Nat.not_lt] at hsmall
        exact ⟨hdropped, rfl, .inr ⟨by simpa using hsign, Nat.pos_of_ne_zero hsmall.1, hsmall.2,
          rfl⟩⟩

theorem unsigned_eq_whole (h : unsigned negative b u = .ok (.whole i, r)) :
    ∃ ds, u = ds ++ r ∧ Whole (b :: ds) ∧ decimal 0 (b :: ds) < twoTo 64 ∧
      Signed negative (decimal 0 (b :: ds)) i := by
  cases hb : digit? b with
  | none =>
    rw [unsigned, hb] at h
    cases h
  | some d =>
    cases d with
    | zero =>
      obtain rfl := digit?_eq_zero hb
      have hhead : ∀ b ∈ u.head?, isDigit b = false := by
        intro b hb
        obtain ⟨t, rfl⟩ := List.head?_eq_some_iff.mp hb
        rw [unsigned_zero_cons] at h
        split at h
        · cases h
        · next hdigit => exact Bool.eq_false_iff.mpr hdigit
      rw [unsigned_zero hhead] at h
      obtain ⟨-, rfl, hi⟩ := behindWhole_eq_whole h
      exact ⟨[], rfl, .inl rfl, by decide, hi⟩
    | succ d =>
      rw [unsigned_succ hb] at h
      obtain ⟨ds, t, hds, h⟩ := bind_eq_ok h
      cases hds
      obtain ⟨hdropped, rfl, hi⟩ := behindWhole_eq_whole h
      have hdigits : ∀ b ∈ u.takeWhile isDigit, isDigit b = true :=
        fun b hb => List.mem_takeWhile_imp hb
      obtain ⟨hgather, hlt⟩ :=
        decimal_of_gather hdigits (digit?_lt hb) (List.length_eq_zero_iff.mp hdropped)
      rw [hgather] at hi
      have hdecimal : decimal 0 (b :: u.takeWhile isDigit) =
          decimal (d + 1) (u.takeWhile isDigit) := by
        rw [decimal_cons hb, Nat.zero_mul, Nat.zero_add]
      have hhead : (b :: u.takeWhile isDigit).head? ≠ some 0x30 := by
        rintro ⟨⟩
        cases hb
      refine ⟨u.takeWhile isDigit, List.takeWhile_append_dropWhile.symm,
        .inr ⟨digits_cons ?_ hdigits, hhead⟩, hdecimal ▸ hlt, hdecimal ▸ hi⟩
      rw [isDigit, hb]
      rfl

theorem number_eq_whole (h : number b u = .ok (.whole i, r)) :
    (∃ ds, u = ds ++ r ∧ Whole (b :: ds) ∧ decimal 0 (b :: ds) < twoTo 64 ∧
      i = decimal 0 (b :: ds)) ∨
    ∃ ds, b = 0x2D ∧ u = ds ++ r ∧ Whole ds ∧ 0 < decimal 0 ds ∧ decimal 0 ds ≤ twoTo 63 ∧
      i = -(decimal 0 ds : Int) := by
  rw [number] at h
  split at h
  · next hb =>
    obtain ⟨c, t, hc, h⟩ := bind_eq_ok h
    obtain ⟨ds, rfl, hw, -, ⟨hfalse, -⟩ | ⟨-, hpos, hle, hi⟩⟩ := unsigned_eq_whole h
    · cases hfalse
    · cases u with
      | nil => cases hc
      | cons d u =>
        cases hc
        exact .inr ⟨_ :: ds, hb, rfl, hw, hpos, hle, hi⟩
  · obtain ⟨ds, rfl, hw, hlt, ⟨-, hi⟩ | ⟨htrue, -⟩⟩ := unsigned_eq_whole h
    · exact .inl ⟨ds, rfl, hw, hlt, hi⟩
    · cases htrue

end CallStrip.Json

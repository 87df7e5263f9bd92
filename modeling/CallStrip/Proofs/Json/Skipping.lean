import CallStrip.Json.Skip
import CallStrip.Proofs.Json.Written
import Mathlib.Data.List.DropRight

/-!
What can be read can be skipped, up to the same place: a skip checks the same form and leaves out
what the form stands for.
-/

namespace CallStrip.Json

open Reading (bind_eq_ok bind_ok bind_error map_eq_ok)
open Reader

variable {s r : Bytes} {n : Nat} {e : Int} {negative : Bool} {x : Number} {b : UInt8}

theorem isDigit_of_digit? {d : Nat} (h : digit? b = some d) : isDigit b = true := by
  rw [isDigit, h]
  rfl

theorem isDigit_eq_false (h : digit? b = none) : isDigit b = false := by
  rw [isDigit, h]
  rfl

theorem dropWhile_gather (n : Nat) (s : Bytes) :
    (gather n s).2.2.dropWhile isDigit = s.dropWhile isDigit := by
  induction s generalizing n with
  | nil => rfl
  | cons b s ih =>
    rw [gather]
    split
    · rfl
    · next d hd =>
      split
      · rw [ih, List.dropWhile_cons_of_pos (isDigit_of_digit? hd)]
      · rfl

theorem gather_none (h : (gather n s).2.1 = 0) : (gather n s).2.2 = s := by
  cases s with
  | nil => rfl
  | cons b s =>
    rw [gather] at h ⊢
    split
    · rfl
    · next hd =>
      rw [hd] at h
      dsimp only at h
      split at h
      · exact absurd h (Nat.succ_ne_zero _)
      · next hlt => rw [if_neg hlt]

theorem gather_some (h : (gather n s).2.1 ≠ 0) : ∃ b t, s = b :: t ∧ isDigit b = true := by
  cases s with
  | nil => exact absurd rfl h
  | cons b s =>
    refine ⟨b, s, rfl, ?_⟩
    cases hd : digit? b with
    | none => simp [gather, hd] at h
    | some d => exact isDigit_of_digit? hd

theorem dropWhile_gatherPower (n : Nat) (s : Bytes) :
    (gatherPower n s).2.dropWhile isDigit = s.dropWhile isDigit := by
  induction s generalizing n with
  | nil => rfl
  | cons b s ih =>
    rw [gatherPower]
    split
    · rfl
    · next d hd =>
      rw [List.dropWhile_cons_of_pos (isDigit_of_digit? hd)]
      split
      · exact ih _
      · rfl

theorem gatherPower_some {k : Nat} (h : gatherPower n s = (some k, r)) :
    r = s.dropWhile isDigit := by
  induction s generalizing n with
  | nil => cases h; rfl
  | cons b s ih =>
    rw [gatherPower] at h
    split at h
    · next hd => cases h; rw [List.dropWhile_cons_of_neg (by simp [isDigit_eq_false hd])]
    · next d hd =>
      rw [List.dropWhile_cons_of_pos (isDigit_of_digit? hd)]
      split at h
      · exact ih h
      · cases h

theorem rest_of_scaled (h : scaled negative n e s = .ok (x, r)) : r = s := by
  rw [scaled] at h
  cases hx : (Binary64.ofNat n).scaledTen? e with
  | none => rw [hx] at h; cases h
  | some y => rw [hx] at h; cases h; rfl

theorem skipPower_of_power (h : power negative n e s = .ok (x, r)) : skipPower s = .ok ((), r) := by
  obtain ⟨minus, t, hsign, h⟩ := bind_eq_ok h
  obtain ⟨b, u, hnext, h⟩ := bind_eq_ok h
  have hnext' : next .badNumber t = .ok (b, u) := by
    cases t with
    | nil => cases hnext
    | cons c t => exact hnext
  have hskip (hb : isDigit b = true) (hr : r = u.dropWhile isDigit) :
      skipPower s = .ok ((), r) := by
    rw [skipPower, bind_ok hsign, bind_ok hnext', if_pos hb, hr]
    rfl
  cases hd : digit? b with
  | none => rw [hd] at h; cases h
  | some d =>
    rw [hd] at h
    obtain ⟨k, w, hdigits, h⟩ := bind_eq_ok h
    have hgather : gatherPower d u = (k, w) := Except.ok.inj hdigits
    refine hskip (isDigit_of_digit? hd) ?_
    cases k with
    | some k => exact (rest_of_scaled h).trans (gatherPower_some hgather)
    | none =>
      have hw : w.dropWhile isDigit = u.dropWhile isDigit := by
        rw [← dropWhile_gatherPower d u, hgather]
      dsimp only at h
      split at h
      · cases h
      · cases h
        exact hw

def skipBehindDigits : Reader Unit
  | [] => .ok ((), [])
  | b :: s => if isPower b then skipPower s else .ok ((), b :: s)

theorem skipFraction_cons (hb : isDigit b = true) (s : Bytes) :
    skipFraction (b :: s) = skipBehindDigits (s.dropWhile isDigit) := by
  rw [skipFraction, if_neg (by simp [hb])]
  cases s.dropWhile isDigit <;> rfl

theorem skipBehindDigits_of_powered (h : powered negative n e s = .ok (x, r)) :
    skipBehindDigits s = .ok ((), r) := by
  cases s with
  | nil =>
    obtain rfl := rest_of_scaled h
    rfl
  | cons b s =>
    rw [powered] at h
    rw [skipBehindDigits]
    split at h
    · next hb => rw [if_pos hb, skipPower_of_power h]
    · next hb =>
      obtain rfl := rest_of_scaled h
      rw [if_neg hb]

theorem skipFraction_of_fraction (h : fraction negative n e s = .ok (x, r)) :
    skipFraction s = .ok ((), r) := by
  have hdrop := dropWhile_gather n s
  have hdigit : ∃ b t, s = b :: t ∧ isDigit b = true := by
    by_cases hg : (gather n s).2.1 = 0
    · have hs := gather_none hg
      simp only [fraction, hs, hg] at h
      cases s with
      | nil => cases h
      | cons b s =>
        refine ⟨b, s, rfl, ?_⟩
        cases hb : isDigit b with
        | true => rfl
        | false => simp [hb] at h
    · exact gather_some hg
  obtain ⟨b, t, rfl, hb⟩ := hdigit
  rw [List.dropWhile_cons_of_pos hb] at hdrop
  rw [skipFraction_cons hb, ← hdrop]
  simp only [fraction] at h
  split at h
  · next hg =>
    rw [hg]
    split at h
    · cases h
    · obtain rfl := rest_of_scaled h
      rfl
  · next c u hg =>
    rw [hg]
    split at h
    · cases h
    · exact skipBehindDigits_of_powered h

theorem skipBehindWhole_of_behindWhole {dropped : Nat}
    (h : behindWhole negative n dropped s = .ok (x, r)) : skipBehindWhole s = .ok ((), r) := by
  have plain (h : (if dropped != 0 then scaled negative n dropped s
      else if !negative then .ok (.whole n, s)
      else if n = 0 || twoTo 63 < n then .ok (signed true (.ofNat n), s)
      else .ok (.whole (-n), s)) = .ok (x, r)) : r = s := by
    split at h
    · exact rest_of_scaled h
    · split at h
      · cases h; rfl
      · split at h <;> cases h <;> rfl
  cases s with
  | nil =>
    obtain rfl := plain h
    rfl
  | cons b s =>
    rw [behindWhole] at h
    rw [skipBehindWhole]
    split at h
    · next hb => rw [if_pos hb, skipFraction_of_fraction h]
    · next hb =>
      rw [if_neg hb]
      split at h
      · next hp => rw [if_pos hp, skipPower_of_power h]
      · next hp =>
        obtain rfl := plain h
        rw [if_neg hp]

theorem digit?_zero (h : digit? b = some 0) : b = 0x30 := by
  rw [digit?] at h
  split at h
  · next hb =>
    obtain ⟨hlow, -⟩ := (Bool.and_eq_true _ _).mp hb
    have hle : b.toNat ≤ 0x30 := Nat.sub_eq_zero_iff_le.mp (Option.some.inj h)
    exact UInt8.le_antisymm (UInt8.le_iff_toNat_le.mpr hle) (of_decide_eq_true hlow)
  · cases h

theorem skipUnsigned_of_unsigned (h : unsigned negative b s = .ok (x, r)) :
    skipUnsigned b s = .ok ((), r) := by
  rw [unsigned] at h
  cases hd : digit? b with
  | none => rw [hd] at h; cases h
  | some d =>
    rw [hd] at h
    cases d with
    | zero =>
      obtain rfl := digit?_zero hd
      rw [skipUnsigned, if_pos rfl]
      cases s with
      | nil => exact skipBehindWhole_of_behindWhole h
      | cons c s =>
        have h : (if isDigit c then .error ⟨.badNumber, s⟩ else behindWhole negative 0 0 (c :: s)) =
            .ok (x, r) := h
        split at h
        · cases h
        · next hc =>
          dsimp only
          rw [if_neg hc, skipBehindWhole_of_behindWhole h]
    | succ d =>
      have hb : b ≠ 0x30 := by
        rintro rfl
        cases hd
      have hrest := skipBehindWhole_of_behindWhole h
      rw [dropWhile_gather] at hrest
      rw [skipUnsigned, if_neg hb, if_pos (isDigit_of_digit? hd)]
      exact hrest

theorem skipScalar_minus (s : Bytes) :
    skipScalar 0x2D s = (next .badNumber >>= skipUnsigned) s :=
  rfl

theorem skipScalar_digit (hb : isDigit b = true) (s : Bytes) :
    skipScalar b s = skipUnsigned b s := by
  have hne (c : UInt8) (hc : isDigit c = false) : b ≠ c := by
    rintro rfl
    rw [hb] at hc
    cases hc
  rw [skipScalar, if_neg (hne 0x6E (by decide)), if_neg (hne 0x74 (by decide)),
    if_neg (hne 0x66 (by decide)), if_neg (hne 0x22 (by decide)), if_neg (hne 0x2D (by decide)),
    if_pos hb]

theorem skipScalar_of_number (hb : (b = 0x2D || isDigit b) = true)
    (h : number b s = .ok (x, r)) : skipScalar b s = .ok ((), r) := by
  rw [number] at h
  split at h
  · next hminus =>
    subst hminus
    obtain ⟨c, t, hnext, h⟩ := bind_eq_ok h
    have hnext' : next .badNumber s = .ok (c, t) := by
      cases s with
      | nil => cases hnext
      | cons c s => exact hnext
    rw [skipScalar_minus, bind_ok hnext', skipUnsigned_of_unsigned h]
  · next hminus =>
    have hdigit : isDigit b = true := by simpa [hminus] using hb
    rw [skipScalar_digit hdigit, skipUnsigned_of_unsigned h]

/-- Where a skip stands when a reader of the text stands at `q`. The halves of a pair of surrogates
are two escapes to it. -/
def QuoteState.skipped : QuoteState → SkipState
  | .plain | .betweenPair _ => .plain
  | .escape | .betweenPairEscape _ => .escape
  | .hex _ seen => .hex seen

theorem QuoteState.step_skipped {q : QuoteState} {q' : Option QuoteState} {out : Bytes}
    (h : q.step b = .ok (q', out)) : q.skipped.step b = .ok (q'.map skipped) := by
  cases q with
  | plain =>
    simp only [step] at h
    simp only [skipped, SkipState.step]
    split at h
    · next hb => cases h; rw [if_pos hb]; rfl
    · next hb =>
      rw [if_neg hb]
      split at h
      · next hb => cases h; rw [if_pos hb]; rfl
      · next hb =>
        rw [if_neg hb]
        split at h
        · cases h
        · next hb => cases h; rw [if_neg hb]; rfl
  | escape =>
    simp only [step] at h
    simp only [skipped, SkipState.step]
    split at h
    · next hb => cases h; rw [if_pos hb]; rfl
    · next hb =>
      rw [if_neg hb]
      split at h
      · next he => cases h; rw [he]; rfl
      · cases h
  | hex lead seen =>
    simp only [step] at h
    simp only [skipped, SkipState.step]
    split at h
    · next hlen => cases h; rw [if_pos hlen]; rfl
    · next hlen =>
      rw [if_neg hlen]
      split at h
      · cases h
      · next n hn =>
        rw [hn, Option.isSome_some, if_pos rfl]
        cases hr : resolveHex lead n with
        | error c => rw [hr] at h; cases h
        | ok p =>
          obtain ⟨l, o⟩ := p
          rw [hr] at h
          cases l <;> cases h <;> rfl
  | betweenPair lead =>
    simp only [step] at h
    split at h
    · next hb => cases h; subst hb; rfl
    · cases h
  | betweenPairEscape lead =>
    simp only [step] at h
    split at h
    · next hb => cases h; subst hb; rfl
    · cases h

theorem skipQuotedFrom_of_quotedBytes {q : QuoteState} {out : Bytes}
    (h : quotedBytes q s = .ok (out, r)) : skipQuotedFrom q.skipped s = .ok ((), r) := by
  induction s generalizing q out with
  | nil => cases h
  | cons b s ih =>
    rw [quotedBytes] at h
    rw [skipQuotedFrom]
    split at h
    · cases h
    · next hstep => cases h; rw [QuoteState.step_skipped hstep]; rfl
    · next q' o hstep =>
      rw [QuoteState.step_skipped hstep]
      cases hrest : quotedBytes q' s with
      | error f => rw [hrest] at h; cases h
      | ok w =>
        rw [hrest] at h
        cases h
        exact ih hrest

theorem skipQuoted_of_quoted {t : Text} (h : quoted s = .ok (t, r)) :
    skipQuoted s = .ok ((), r) := by
  rw [quoted] at h
  split at h
  · cases h
  · next out u hbytes =>
    split at h
    · cases h; exact skipQuotedFrom_of_quotedBytes hbytes
    · cases h

theorem skipScalar_of_scalar {x : Scalar} (h : scalar b s = .ok (x, r)) :
    skipScalar b s = .ok ((), r) := by
  have hword {w : Bytes} {y : Scalar} (h : (do word w; pure y : Reader Scalar) s = .ok (x, r)) :
      word w s = .ok ((), r) := by
    obtain ⟨_, t, hword, h⟩ := bind_eq_ok h
    cases h
    exact hword
  rw [scalar] at h
  split_ifs at h with hnull htrue hfalse hquote hnumber
  · subst hnull
    exact hword h
  · subst htrue
    exact hword h
  · subst hfalse
    exact hword h
  · subst hquote
    obtain ⟨t, hquoted, -⟩ := map_eq_ok h
    exact skipQuoted_of_quoted hquoted
  · obtain ⟨n, hn, -⟩ := map_eq_ok h
    exact skipScalar_of_number (by simpa using hnumber) hn
  · cases h

theorem nextInk_eq_ok_iff {c : Cause} {t : Bytes} :
    nextInk c s = .ok (b, t) ↔ s.dropWhile isBlank = b :: t := by
  have hink : nextInk c s = next c (s.dropWhile isBlank) := rfl
  rw [hink]
  cases s.dropWhile isBlank with
  | nil => simp [next]
  | cons d u => simp [next]

theorem nextInk_dropWhile (c : Cause) (s : Bytes) :
    nextInk c (s.dropWhile isBlank) = nextInk c s := by
  have hdrop : (s.dropWhile isBlank).dropWhile isBlank = s.dropWhile isBlank :=
    List.dropWhile_idempotent _ _
  have hink (u : Bytes) : nextInk c u = next c (u.dropWhile isBlank) := rfl
  rw [hink, hink, hdrop]

section Steps

variable {ks : List Bracket} {k : Bracket} {t u : Bytes} {behindValue : Bool}

theorem skipFrom_value (ks : List Bracket) (s : Bytes) :
    skipFrom .value ks s = (nextInk .endInValue >>= fun b =>
      match Bracket.opened? b with
      | some k => (skipFrom (.inside false) (k :: ks) : Reader Unit)
      | none => skipScalar b >>= fun _ => skipFrom (.inside true) ks) s := by
  rw [skipFrom]
  split
  · next hb => rw [bind_error hb]
  · next hb =>
    rw [bind_ok hb]
    split
    · next hk => rw [hk]
    · next hk =>
      rw [hk]
      dsimp only
      split
      · next hs => rw [bind_error hs]
      · next hs => rw [bind_ok hs]

theorem skipFrom_inside (behindValue : Bool) (k : Bracket) (ks : List Bracket) (s : Bytes) :
    skipFrom (.inside behindValue) (k :: ks) s = (nextInk k.ended >>= fun b =>
      if b = k.close then (skipFrom (.inside true) ks : Reader Unit)
      else if behindValue then
        if b = 0x2C then k.lead >>= fun _ => skipFrom .value (k :: ks) else fail k.notContinued
      else fun _ => (k.lead >>= fun _ => skipFrom .value (k :: ks) : Reader Unit) s) s := by
  conv => lhs; rw [skipFrom]
  split
  · next hb => rw [bind_error hb]
  · next hb =>
    rw [bind_ok hb]
    split
    · rfl
    · split
      · split
        · split
          · next hl => rw [bind_error hl]
          · next hl => rw [bind_ok hl]
        · rfl
      · split
        · next hl => rw [bind_error hl]
        · next hl => rw [bind_ok hl]

theorem skipFrom_opened (hb : nextInk .endInValue s = .ok (b, t))
    (hk : Bracket.opened? b = some k) :
    skipFrom .value ks s = skipFrom (.inside false) (k :: ks) t := by
  rw [skipFrom_value, bind_ok hb, hk]

theorem skipFrom_scalar (hb : nextInk .endInValue s = .ok (b, t)) (hk : Bracket.opened? b = none)
    (hs : skipScalar b t = .ok ((), u)) :
    skipFrom .value ks s = skipFrom (.inside true) ks u := by
  rw [skipFrom_value, bind_ok hb, hk]
  exact bind_ok hs

theorem skipFrom_closed (hb : nextInk k.ended s = .ok (k.close, t)) :
    skipFrom (.inside behindValue) (k :: ks) s = skipFrom (.inside true) ks t := by
  rw [skipFrom_inside, bind_ok hb, if_pos rfl]

theorem skipFrom_first (hb : nextInk k.ended s = .ok (b, t)) (hne : b ≠ k.close)
    (hl : k.lead s = .ok ((), u)) :
    skipFrom (.inside false) (k :: ks) s = skipFrom .value (k :: ks) u := by
  rw [skipFrom_inside, bind_ok hb, if_neg hne, if_neg Bool.false_ne_true, bind_ok hl]

theorem skipFrom_next (hb : nextInk k.ended s = .ok (0x2C, t)) (hl : k.lead t = .ok ((), u)) :
    skipFrom (.inside true) (k :: ks) s = skipFrom .value (k :: ks) u := by
  have hne : (0x2C : UInt8) ≠ k.close := by cases k <;> decide
  rw [skipFrom_inside, bind_ok hb, if_neg hne, if_pos rfl, if_pos rfl, bind_ok hl]

theorem skipFrom_dropWhile (ks : List Bracket) (s : Bytes) :
    skipFrom .value ks (s.dropWhile isBlank) = skipFrom .value ks s := by
  rw [skipFrom_value, skipFrom_value]
  cases hb : nextInk .endInValue s with
  | error e => rw [bind_error hb, bind_error ((nextInk_dropWhile _ s).trans hb)]
  | ok p => rw [bind_ok hb, bind_ok ((nextInk_dropWhile _ s).trans hb)]

end Steps

theorem moreItems_cases {first more : Bool} (h : moreItems first s = .ok (more, r)) :
    ∃ b t, s.dropWhile isBlank = b :: t ∧
      (b = 0x5D ∧ more = false ∧ r = t ∨
        b ≠ 0x5D ∧ first = true ∧ more = true ∧ r = b :: t ∨
        b = 0x2C ∧ first = false ∧ more = true ∧ r = t.dropWhile isBlank) := by
  obtain ⟨_, u, hblanks, h⟩ := bind_eq_ok h
  obtain rfl : s.dropWhile isBlank = u := congrArg Prod.snd (Except.ok.inj hblanks)
  cases hs : s.dropWhile isBlank with
  | nil => rw [hs] at h; cases h
  | cons b t =>
    refine ⟨b, t, rfl, ?_⟩
    rw [hs] at h
    dsimp only at h
    split at h
    · next hb => cases h; exact .inl ⟨hb, rfl, rfl⟩
    · next hb =>
      split at h
      · next hfirst => cases h; exact .inr (.inl ⟨hb, hfirst, rfl, rfl⟩)
      · next hfirst =>
        split at h
        · next hcomma =>
          refine .inr (.inr ⟨hcomma, Bool.not_eq_true first ▸ hfirst, ?_⟩)
          split at h
          · cases h
          · next c w hc =>
            split at h
            · cases h
            · cases h; exact ⟨rfl, hc.symm⟩
        · cases h

theorem nextKey?_cases {first : Bool} {key : Option Text} (h : nextKey? first s = .ok (key, r)) :
    ∃ b t, s.dropWhile isBlank = b :: t ∧
      (b = 0x7D ∧ key = none ∧ r = t ∨
        b = 0x22 ∧ first = true ∧ (∃ k, key = some k ∧ quoted t = .ok (k, r)) ∨
        b = 0x2C ∧ first = false ∧
          ∃ k u, key = some k ∧ t.dropWhile isBlank = 0x22 :: u ∧ quoted u = .ok (k, r)) := by
  obtain ⟨b, t, hb, h⟩ := bind_eq_ok h
  refine ⟨b, t, nextInk_eq_ok_iff.mp hb, ?_⟩
  split at h
  · next hend => cases h; exact .inl ⟨hend, rfl, rfl⟩
  · split at h
    · next hfirst =>
      split at h
      · next hquote =>
        obtain ⟨k, hk, rfl⟩ := map_eq_ok h
        exact .inr (.inl ⟨hquote, hfirst, k, rfl, hk⟩)
      · cases h
    · next hfirst =>
      split at h
      · next hcomma =>
        obtain ⟨c, u, hc, h⟩ := bind_eq_ok h
        split at h
        · next hquote =>
          subst hquote
          obtain ⟨k, hk, rfl⟩ := map_eq_ok h
          exact .inr (.inr ⟨hcomma, Bool.not_eq_true first ▸ hfirst, k, u, rfl,
            nextInk_eq_ok_iff.mp hc, hk⟩)
        · split at h <;> cases h
      · cases h

section Values

variable {p : Reader Value} {t u : Bytes} {first : Bool}

def Skips (p : Reader Value) : Prop :=
  ∀ ⦃s v r⦄, p s = .ok (v, r) → ∀ ks, skipFrom .value ks s = skipFrom (.inside true) ks r

theorem Skips.items (hp : Skips p) (h : Shrinks p) {vs : List Value}
    (hs : items p h first s = .ok (vs, r)) (ks : List Bracket) :
    skipFrom (.inside !first) (.list :: ks) s = skipFrom (.inside true) ks r := by
  fun_induction Json.items p h first s generalizing vs r with
  | case1 | case3 | case4 => cases hs
  | case2 first s t hm =>
    cases hs
    obtain ⟨b, u, hdrop, ⟨rfl, -, rfl⟩ | ⟨-, -, he, -⟩ | ⟨-, -, he, -⟩⟩ := moreItems_cases hm
    · exact skipFrom_closed (k := .list) (nextInk_eq_ok_iff.mpr hdrop)
    · cases he
    · cases he
  | case5 first s t hm v u hv vs w hvs ih =>
    cases hs
    have hrest := (hp hv (.list :: ks)).trans (ih hvs)
    obtain ⟨b, x, hdrop, ⟨-, he, -⟩ | ⟨hb, rfl, -, rfl⟩ | ⟨rfl, rfl, -, rfl⟩⟩ := moreItems_cases hm
    · cases he
    · rw [← hdrop, skipFrom_dropWhile] at hrest
      exact (skipFrom_first (k := .list) (nextInk_eq_ok_iff.mpr hdrop) hb rfl).trans hrest
    · rw [skipFrom_dropWhile] at hrest
      exact (skipFrom_next (k := .list) (nextInk_eq_ok_iff.mpr hdrop) rfl).trans hrest

theorem lead_object (hdrop : s.dropWhile isBlank = 0x22 :: t) {k : Text}
    (hk : quoted t = .ok (k, u)) (hcolon : colon u = .ok ((), r)) :
    Bracket.lead .object s = .ok ((), r) := by
  have hink : nextInk .endInObject s = .ok (0x22, t) := nextInk_eq_ok_iff.mpr hdrop
  rw [Bracket.lead, bind_ok hink, if_pos rfl, bind_ok (skipQuoted_of_quoted hk), hcolon]

theorem Skips.members (hp : Skips p) (h : Stays p) {ms : List (Text × Value)}
    {acc : List (Text × Value)}
    (hs : members (appendMember p) (stays_appendMember h) first acc s = .ok (ms, r))
    (ks : List Bracket) :
    skipFrom (.inside !first) (.object :: ks) s = skipFrom (.inside true) ks r := by
  fun_induction Json.members (appendMember p) (stays_appendMember h) first acc s
    generalizing ms r with
  | case1 | case3 => cases hs
  | case2 first acc s t hk =>
    cases hs
    obtain ⟨b, u, hdrop, ⟨rfl, -, rfl⟩ | ⟨-, -, k, he, -⟩ | ⟨-, -, k, _, he, -⟩⟩ :=
      nextKey?_cases hk
    · exact skipFrom_closed (k := .object) (nextInk_eq_ok_iff.mpr hdrop)
    · cases he
    · cases he
  | case4 first acc s k t hk b u hm ih =>
    obtain ⟨_, x, hcolon, hm⟩ := bind_eq_ok hm
    obtain ⟨v, y, hv, hm⟩ := bind_eq_ok hm
    cases hm
    have hrest := (hp hv (.object :: ks)).trans (ih hs)
    obtain ⟨c, z, hdrop, ⟨-, he, -⟩ | ⟨rfl, rfl, l, he, hl⟩ | ⟨rfl, rfl, l, w, he, hw, hl⟩⟩ :=
      nextKey?_cases hk
    · cases he
    · exact (skipFrom_first (k := .object) (nextInk_eq_ok_iff.mpr hdrop) (by decide)
        (lead_object hdrop hl hcolon)).trans hrest
    · exact (skipFrom_next (k := .object) (nextInk_eq_ok_iff.mpr hdrop)
        (lead_object hw hl hcolon)).trans hrest

theorem opened?_eq_none (hlist : b ≠ 0x5B) (hobject : b ≠ 0x7B) : Bracket.opened? b = none := by
  rw [Bracket.opened?, if_neg hlist, if_neg hobject]

theorem skips_written (depth : Nat) : Skips (written depth) := by
  induction depth using Nat.strongRecOn with
  | ind depth ih =>
    -- A reader goes down by depth, a skip by a stack of brackets: what is open stays below in `ks`.
    intro s v r h ks
    obtain ⟨b, t, hb, ⟨x, -, hlist, hobject, hx⟩ | ⟨d, vs, rfl, -, rfl, hvs⟩ |
      ⟨d, ms, rfl, -, rfl, hms⟩⟩ := written_cases h
    · exact skipFrom_scalar hb (opened?_eq_none hlist hobject) (skipScalar_of_scalar hx)
    · have hitems := (ih d (Nat.lt_succ_self d)).items (shrinks_written d) hvs ks
      exact (skipFrom_opened hb rfl).trans hitems
    · have hmembers := (ih d (Nat.lt_succ_self d)).members (shrinks_written d).stays hms ks
      exact (skipFrom_opened hb rfl).trans hmembers

theorem skipValue_of_written {depth : Nat} {v : Value} (h : written depth s = .ok (v, r)) :
    skipValue s = .ok ((), r) := by
  rw [skipValue, skips_written depth h, skipFrom]

end Values

end CallStrip.Json

import CallStrip.Proofs.Json.Closing

/-!
The grammar of JSON, and that a skip takes one value of the grammar: no less and no more, however
deep its brackets stand in each other, however large its numbers are and whatever its texts stand
for.
-/

namespace CallStrip.Json

open Reading (bind_eq_ok bind_ok map_eq_ok map_ok)
open Reader

variable {s t u r w e : Bytes} {b c : UInt8} {k : Bracket} {ks : List Bracket}

def Blanks (s : Bytes) : Prop := ∀ b ∈ s, isBlank b = true

theorem blanks_nil : Blanks [] := List.forall_mem_nil _

def Digits (s : Bytes) : Prop := s ≠ [] ∧ ∀ b ∈ s, isDigit b = true

inductive Body : Bytes → Prop
  | nil : Body []
  | plain {b : UInt8} {s : Bytes} : b ≠ 0x22 → b ≠ 0x5C → ¬ b < 0x20 → Body s → Body (b :: s)
  | escape {b : UInt8} {s : Bytes} :
    (shortEscape? b).isSome = true → Body s → Body (0x5C :: b :: s)
  | hex {w x y z : UInt8} {s : Bytes} : (hexValue? [z, y, x, w]).isSome = true → Body s →
    Body (0x5C :: 0x75 :: w :: x :: y :: z :: s)

def Whole (s : Bytes) : Prop := s = [0x30] ∨ Digits s ∧ s.head? ≠ some 0x30

def Fraction (s : Bytes) : Prop := s = [] ∨ ∃ ds, Digits ds ∧ s = 0x2E :: ds

def Exponent (s : Bytes) : Prop :=
  s = [] ∨ ∃ b sign ds, isPower b = true ∧ (sign = [] ∨ sign = [0x2B] ∨ sign = [0x2D]) ∧
    Digits ds ∧ s = b :: (sign ++ ds)

inductive IsScalar : Bytes → Prop
  | null : IsScalar [0x6E, 0x75, 0x6C, 0x6C]
  | yes : IsScalar [0x74, 0x72, 0x75, 0x65]
  | no : IsScalar [0x66, 0x61, 0x6C, 0x73, 0x65]
  | text {s : Bytes} : Body s → IsScalar (0x22 :: (s ++ [0x22]))
  | number {sign whole fraction exponent : Bytes} : sign = [] ∨ sign = [0x2D] → Whole whole →
    Fraction fraction → Exponent exponent → IsScalar (sign ++ (whole ++ (fraction ++ exponent)))

def Bracket.opening : Bracket → UInt8
  | .list => 0x5B
  | .object => 0x7B

inductive Lead : Bracket → Bytes → Prop
  | item : Lead .list []
  | key {w s c : Bytes} : Blanks w → Body s → Blanks c →
    Lead .object (w ++ 0x22 :: (s ++ 0x22 :: (c ++ [0x3A])))

inductive Form where
  | value
  | rest (k : Bracket)

inductive Fits : Form → Bytes → Prop
  | scalar {w s : Bytes} : Blanks w → IsScalar s → Fits .value (w ++ s)
  | empty {k : Bracket} {w i : Bytes} : Blanks w → Blanks i →
    Fits .value (w ++ k.opening :: (i ++ [k.close]))
  | full {k : Bracket} {w s : Bytes} : Blanks w → Fits (.rest k) s →
    Fits .value (w ++ k.opening :: s)
  | last {k : Bracket} {l v w : Bytes} : Lead k l → Fits .value v → Blanks w →
    Fits (.rest k) (l ++ (v ++ (w ++ [k.close])))
  | more {k : Bracket} {l v w s : Bytes} : Lead k l → Fits .value v → Blanks w →
    Fits (.rest k) s → Fits (.rest k) (l ++ (v ++ (w ++ 0x2C :: s)))

theorem skipQuoted_body (h : Body s) (e : Bytes) :
    skipQuoted (s ++ 0x22 :: e) = .ok ((), e) := by
  rw [skipQuoted]
  induction h with
  | nil => rfl
  | plain hquote hescape hlow _ ih =>
    rw [List.cons_append, skipQuotedFrom, SkipState.step, if_neg hquote, if_neg hescape,
      if_neg hlow]
    exact ih
  | @escape b s hb _ ih =>
    have hb' : b ≠ 0x75 := by
      rintro rfl
      exact absurd hb (by decide)
    have hstep : SkipState.escape.step b = .ok (some .plain) := by
      rw [SkipState.step, if_neg hb', if_pos hb]
    rw [List.cons_append, List.cons_append, skipQuotedFrom]
    change skipQuotedFrom .escape (b :: (s ++ 0x22 :: e)) = _
    rw [skipQuotedFrom, hstep]
    exact ih
  | @hex w x y z s hx _ ih =>
    have hstep : (SkipState.hex [y, x, w]).step z = .ok (some .plain) := by
      rw [SkipState.step, if_neg (show ¬ [y, x, w].length < 3 from Nat.lt_irrefl 3), if_pos hx]
    change skipQuotedFrom (.hex [y, x, w]) (z :: (s ++ 0x22 :: e)) = _
    rw [skipQuotedFrom, hstep]
    exact ih

theorem Ends.of_blanks (hw : Blanks w) (h : Ends e) : Ends (w ++ e) := by
  cases w with
  | nil => exact h
  | cons b w =>
    rintro c ⟨⟩
    have hb := (List.forall_mem_cons.mp hw).1
    simp only [isBlank, Bool.or_eq_true, beq_iff_eq] at hb
    rcases hb with ((rfl | rfl) | rfl) | rfl <;> decide

theorem Digits.eq_cons (h : Digits s) :
    ∃ d ds, s = d :: ds ∧ isDigit d = true ∧ ∀ b ∈ ds, isDigit b = true := by
  obtain ⟨hne, hs⟩ := h
  cases s with
  | nil => exact absurd rfl hne
  | cons d ds => exact ⟨d, ds, rfl, List.forall_mem_cons.mp hs⟩

theorem dropDigits_append (hs : ∀ b ∈ s, isDigit b = true) (ht : ∀ b ∈ t.head?, isDigit b = false) :
    dropDigits (s ++ t) = .ok ((), t) := by
  have hdrop := congrArg Prod.snd (Except.ok.inj (digits_append hs ht))
  exact congrArg (fun r => Except.ok ((), r)) hdrop

theorem ne_of_isDigit (hb : isDigit b = true) (hc : isDigit c = false) : b ≠ c := by
  rintro rfl
  rw [hb] at hc
  cases hc

theorem skipPower_append {sign ds : Bytes} (hsign : sign = [] ∨ sign = [0x2B] ∨ sign = [0x2D])
    (hds : Digits ds) (he : Ends e) : skipPower (sign ++ ds ++ e) = .ok ((), e) := by
  obtain ⟨d, ds, rfl, hd, hds⟩ := hds.eq_cons
  have hdrop := dropDigits_append hds he.not_digit
  have hdigit : powerSign (d :: ds ++ e) = .ok (false, d :: ds ++ e) := by
    rw [List.cons_append, powerSign, if_neg (ne_of_isDigit hd (by decide)),
      if_neg (ne_of_isDigit hd (by decide))]
  have hbehind (minus : Bool) : powerSign (sign ++ (d :: ds) ++ e) = .ok (minus, d :: ds ++ e) →
      skipPower (sign ++ (d :: ds) ++ e) = .ok ((), e) := by
    intro h
    have hnext : next .badNumber (d :: ds ++ e) = .ok (d, ds ++ e) := rfl
    rw [skipPower, bind_ok h, bind_ok hnext, if_pos hd, hdrop]
  rcases hsign with rfl | rfl | rfl
  · exact hbehind false hdigit
  · exact hbehind false rfl
  · exact hbehind true rfl

theorem skipBehindDigits_append (hs : Exponent s) (he : Ends e) :
    skipBehindDigits (s ++ e) = .ok ((), e) := by
  obtain rfl | ⟨b, sign, ds, hb, hsign, hds, rfl⟩ := hs
  · cases e with
    | nil => rfl
    | cons b e =>
      have hb : ¬ isPower b = true := Bool.eq_false_iff.mp (he b rfl).2.2
      rw [List.nil_append, skipBehindDigits, if_neg hb]
  · rw [List.cons_append, skipBehindDigits, if_pos hb, skipPower_append hsign hds he]

theorem Exponent.head (hs : Exponent s) (he : Ends e) :
    ∀ b ∈ (s ++ e).head?, isDigit b = false ∧ b ≠ 0x2E := by
  obtain rfl | ⟨b, sign, ds, hb, -, -, rfl⟩ := hs
  · exact fun b hb => ⟨(he b hb).1, (he b hb).2.1⟩
  · rintro c ⟨⟩
    simp only [isPower, Bool.or_eq_true, beq_iff_eq] at hb
    rcases hb with rfl | rfl <;> decide

theorem skipBehindWhole_eq (ht : ∀ b ∈ t.head?, b ≠ 0x2E) :
    skipBehindWhole t = skipBehindDigits t := by
  cases t with
  | nil => rfl
  | cons b t => rw [skipBehindWhole, if_neg (ht b rfl), skipBehindDigits]

theorem skipBehindWhole_append {f : Bytes} (hf : Fraction f) (hs : Exponent s) (he : Ends e) :
    skipBehindWhole (f ++ (s ++ e)) = .ok ((), e) := by
  have hexponent := skipBehindDigits_append hs he
  obtain rfl | ⟨ds, hds, rfl⟩ := hf
  · rw [List.nil_append, skipBehindWhole_eq fun b hb => (hs.head he b hb).2, hexponent]
  · obtain ⟨d, ds, rfl, hd, hds⟩ := hds.eq_cons
    have hdrop := dropDigits_append hds fun b hb => (hs.head he b hb).1
    have hrest : (ds ++ (s ++ e)).dropWhile isDigit = s ++ e :=
      congrArg Prod.snd (Except.ok.inj hdrop)
    rw [List.cons_append, List.cons_append, skipBehindWhole, if_pos rfl, skipFraction_cons hd,
      hrest, hexponent]

theorem Fraction.head {f : Bytes} (hf : Fraction f) (hs : Exponent s) (he : Ends e) :
    ∀ b ∈ (f ++ (s ++ e)).head?, isDigit b = false := by
  obtain rfl | ⟨ds, -, rfl⟩ := hf
  · exact fun b hb => (hs.head he b hb).1
  · rintro c ⟨⟩
    decide

theorem skipUnsigned_append {d : UInt8} {ds f : Bytes} (hw : Whole (d :: ds)) (hf : Fraction f)
    (hs : Exponent s) (he : Ends e) :
    skipUnsigned d (ds ++ (f ++ (s ++ e))) = .ok ((), e) := by
  have hbehind := skipBehindWhole_append hf hs he
  have hhead := hf.head hs he
  obtain hzero | ⟨hds, hne⟩ := hw
  · obtain ⟨rfl, rfl⟩ := List.cons.inj hzero
    rw [skipUnsigned, if_pos rfl, List.nil_append]
    cases ht : f ++ (s ++ e) with
    | nil => rw [ht] at hbehind; exact hbehind
    | cons b t =>
      rw [ht] at hbehind hhead
      dsimp only
      rw [if_neg (Bool.eq_false_iff.mp (hhead b rfl)), hbehind]
  · obtain ⟨d', ds', heq, hd, hds'⟩ := hds.eq_cons
    obtain ⟨rfl, rfl⟩ := List.cons.inj heq
    have hzero : d ≠ 0x30 := fun h => hne (congrArg some h)
    rw [skipUnsigned, if_neg hzero, if_pos hd, bind_ok (dropDigits_append hds' hhead), hbehind]

theorem Whole.eq_cons (hw : Whole s) : ∃ d ds, s = d :: ds ∧ isDigit d = true := by
  obtain rfl | ⟨hds, -⟩ := hw
  · exact ⟨0x30, [], rfl, by decide⟩
  · obtain ⟨d, ds, rfl, hd, -⟩ := hds.eq_cons
    exact ⟨d, ds, rfl, hd⟩

theorem word_append (w e : Bytes) : word w (w ++ e) = .ok ((), e) := by
  induction w with
  | nil => rfl
  | cons b w ih =>
    have hnext : next .endInValue (b :: w ++ e) = .ok (b, w ++ e) := rfl
    rw [word, bind_ok hnext, if_pos rfl, ih]

def startsScalar (b : UInt8) : Bool := (Bracket.opened? b).isNone && !isBlank b && !isClosing b

theorem startsScalar_of_digit (h : isDigit b = true) : startsScalar b = true := by
  have hne (c : UInt8) (hc : isDigit c = false) : b ≠ c := ne_of_isDigit h hc
  simp [startsScalar, Bracket.opened?, isBlank, isClosing, hne 0x5B (by decide),
    hne 0x7B (by decide), hne 0x20 (by decide), hne 0x0A (by decide), hne 0x09 (by decide),
    hne 0x0D (by decide), hne 0x5D (by decide), hne 0x7D (by decide)]

theorem of_startsScalar (h : startsScalar b = true) :
    Bracket.opened? b = none ∧ isBlank b = false ∧ isClosing b = false := by
  simpa [startsScalar, and_assoc] using h

theorem IsScalar.skipped (h : IsScalar s) (he : Ends e) :
    ∃ b t, s = b :: t ∧ startsScalar b = true ∧ skipScalar b (t ++ e) = .ok ((), e) := by
  cases h with
  | null => exact ⟨_, _, rfl, by decide, word_append _ e⟩
  | yes => exact ⟨_, _, rfl, by decide, word_append _ e⟩
  | no => exact ⟨_, _, rfl, by decide, word_append _ e⟩
  | @text s hs =>
    refine ⟨_, _, rfl, by decide, ?_⟩
    rw [List.append_assoc]
    exact skipQuoted_body hs e
  | @number sign whole f x hsign hw hf hx =>
    obtain ⟨d, ds, rfl, hd⟩ := hw.eq_cons
    have hunsigned := skipUnsigned_append hw hf hx he
    obtain rfl | rfl := hsign
    · refine ⟨d, ds ++ (f ++ x), rfl, startsScalar_of_digit hd, ?_⟩
      rw [skipScalar_digit hd, List.append_assoc, List.append_assoc, hunsigned]
    · refine ⟨0x2D, d :: (ds ++ (f ++ x)), rfl, by decide, ?_⟩
      have hnext : next .badNumber (d :: (ds ++ (f ++ x)) ++ e) =
          .ok (d, ds ++ (f ++ x) ++ e) := rfl
      rw [skipScalar_minus, bind_ok hnext, List.append_assoc, List.append_assoc, hunsigned]

theorem dropWhile_blanks (hw : Blanks w) (hb : isBlank b = false) (t : Bytes) :
    (w ++ b :: t).dropWhile isBlank = b :: t := by
  rw [List.dropWhile_append_of_pos hw, List.dropWhile_cons_of_neg (Bool.eq_false_iff.mp hb)]

theorem nextInk_blanks (hw : Blanks w) (hb : isBlank b = false) (t : Bytes) (c : Cause) :
    nextInk c (w ++ b :: t) = .ok (b, t) :=
  nextInk_eq_ok_iff.mpr (dropWhile_blanks hw hb t)

theorem colon_blanks (hw : Blanks w) (t : Bytes) : colon (w ++ 0x3A :: t) = .ok ((), t) := by
  rw [colon, bind_ok (nextInk_blanks hw rfl t _), if_pos rfl]
  rfl

theorem Lead.read (h : Lead k s) (e : Bytes) : k.lead (s ++ e) = .ok ((), e) := by
  cases h with
  | item => rfl
  | @key w s c hw hs hc =>
    simp only [List.append_assoc, List.cons_append, List.nil_append]
    rw [Bracket.lead, bind_ok (nextInk_blanks hw rfl _ _), if_pos rfl,
      bind_ok (skipQuoted_body hs _), colon_blanks hc]

def Inked (k : Bracket) (s : Bytes) : Prop := ∃ b t, s.dropWhile isBlank = b :: t ∧ b ≠ k.close

theorem ends_nil : Ends [] := by
  intro b hb
  cases hb

theorem ends_of_blanks (hw : Blanks w) : Ends w := by
  have h := Ends.of_blanks hw ends_nil
  rwa [List.append_nil] at h

theorem ends_of_closing (h : isClosing b = true) (e : Bytes) : Ends (b :: e) := by
  rintro c ⟨⟩
  rcases (Bool.or_eq_true _ _).mp h with h | h
  · rw [of_decide_eq_true h]
    decide
  · rw [of_decide_eq_true h]
    decide

theorem ends_of_comma (e : Bytes) : Ends (0x2C :: e) := by
  rintro c ⟨⟩
  decide

namespace Bracket

theorem isBlank_opening (k : Bracket) : isBlank k.opening = false := by cases k <;> rfl

theorem isBlank_close (k : Bracket) : isBlank k.close = false := by cases k <;> rfl

theorem isClosing_close (k : Bracket) : isClosing k.close = true := by cases k <;> rfl

theorem opened?_opening (k : Bracket) : opened? k.opening = some k := by cases k <;> rfl

theorem opening_ne_close (k j : Bracket) : k.opening ≠ j.close := by cases k <;> cases j <;> decide

end Bracket

theorem Lead.inked {v : Bytes} (h : Lead k s) (hv : ∀ e, Inked .list (v ++ e)) (e : Bytes) :
    Inked k (s ++ (v ++ e)) := by
  cases h with
  | item => exact hv e
  | @key w s c hw hs hc =>
    refine ⟨0x22, s ++ 0x22 :: (c ++ [0x3A]) ++ (v ++ e), ?_, by decide⟩
    rw [List.append_assoc]
    exact dropWhile_blanks hw rfl _

def Form.bracket : Form → Bracket
  | .value => .list
  | .rest k => k

theorem Fits.inked {form : Form} (h : Fits form s) (e : Bytes) : Inked form.bracket (s ++ e) := by
  induction h generalizing e with
  | @scalar w s hw hs =>
    obtain ⟨b, t, rfl, hb, -⟩ := hs.skipped ends_nil
    obtain ⟨-, hblank, hclosing⟩ := of_startsScalar hb
    refine ⟨b, t ++ e, ?_, ?_⟩
    · rw [List.append_assoc]
      exact dropWhile_blanks hw hblank _
    · rintro rfl
      cases hclosing
  | @empty k w i hw hi =>
    refine ⟨k.opening, i ++ [k.close] ++ e, ?_, k.opening_ne_close .list⟩
    rw [List.append_assoc]
    exact dropWhile_blanks hw k.isBlank_opening _
  | @full k w s hw hs ih =>
    refine ⟨k.opening, s ++ e, ?_, k.opening_ne_close .list⟩
    rw [List.append_assoc]
    exact dropWhile_blanks hw k.isBlank_opening _
  | @last k l v w hl hv hw ih => simpa [Form.bracket] using hl.inked ih (w ++ k.close :: e)
  | @more k l v w s hl hv hw hs ihv ihs =>
    simpa [Form.bracket] using hl.inked ihv (w ++ 0x2C :: (s ++ e))

def Form.Skipped (ks : List Bracket) (s e : Bytes) : Form → Prop
  | .value => Ends e → skipFrom .value ks (s ++ e) = skipFrom (.inside true) ks e
  | .rest k => ∃ u, k.lead (s ++ e) = .ok ((), u) ∧
      skipFrom .value (k :: ks) u = skipFrom (.inside true) ks e

theorem Fits.skipped {form : Form} (h : Fits form s) (ks : List Bracket) (e : Bytes) :
    form.Skipped ks s e := by
  induction h generalizing ks e with
  | @scalar w s hw hs =>
    intro he
    obtain ⟨b, t, rfl, hb, hskip⟩ := hs.skipped he
    obtain ⟨hopened, hblank, -⟩ := of_startsScalar hb
    rw [List.append_assoc]
    exact skipFrom_scalar (nextInk_blanks hw hblank _ _) hopened hskip
  | @empty k w i hw hi =>
    intro he
    have hopened := nextInk_blanks hw k.isBlank_opening (i ++ k.close :: e) .endInValue
    simp only [List.append_assoc, List.cons_append, List.nil_append]
    rw [skipFrom_opened hopened k.opened?_opening,
      skipFrom_closed (nextInk_blanks hi k.isBlank_close e _)]
  | @full k w s hw hs ih =>
    intro he
    have hopened := nextInk_blanks hw k.isBlank_opening (s ++ e) .endInValue
    obtain ⟨b, t, hdrop, hne⟩ := hs.inked e
    obtain ⟨u, hlead, hskip⟩ := ih ks e
    rw [List.append_assoc]
    exact (skipFrom_opened hopened k.opened?_opening).trans
      ((skipFrom_first (nextInk_eq_ok_iff.mpr hdrop) hne hlead).trans hskip)
  | @last k l v w hl hv hw ih =>
    have hclose := ends_of_closing k.isClosing_close e
    refine ⟨v ++ (w ++ k.close :: e), ?_, ?_⟩
    · simpa using hl.read (v ++ (w ++ k.close :: e))
    · rw [ih (k :: ks) _ (hclose.of_blanks hw),
        skipFrom_closed (nextInk_blanks hw k.isBlank_close e _)]
  | @more k l v w s hl hv hw hs ihv ihs =>
    obtain ⟨u, hlead, hskip⟩ := ihs ks e
    refine ⟨v ++ (w ++ 0x2C :: (s ++ e)), ?_, ?_⟩
    · simpa using hl.read (v ++ (w ++ 0x2C :: (s ++ e)))
    · rw [ihv (k :: ks) _ ((ends_of_comma _).of_blanks hw),
        skipFrom_next (nextInk_blanks hw rfl (s ++ e) _) hlead, hskip]

theorem Fits.skipValue (h : Fits .value s) (he : Ends e) :
    skipValue (s ++ e) = .ok ((), e) := by
  rw [Json.skipValue, h.skipped [] e he, skipFrom]

theorem exists_hex (h : skipQuotedFrom (.hex []) u = .ok ((), r)) :
    ∃ w x y z t, u = w :: x :: y :: z :: t ∧ (hexValue? [z, y, x, w]).isSome = true ∧
      skipQuotedFrom .plain t = .ok ((), r) := by
  match u, h with
  | w :: x :: y :: z :: t, h =>
    refine ⟨w, x, y, z, t, rfl, ?_⟩
    change skipQuotedFrom (.hex [y, x, w]) (z :: t) = _ at h
    rw [skipQuotedFrom, SkipState.step,
      if_neg (show ¬ [y, x, w].length < 3 from Nat.lt_irrefl 3)] at h
    split_ifs at h with hx
    exact ⟨hx, h⟩

theorem body_of_skipQuoted (h : skipQuotedFrom .plain u = .ok ((), r)) :
    ∃ s, Body s ∧ u = s ++ 0x22 :: r := by
  induction hn : u.length using Nat.strongRecOn generalizing u with
  | ind n ih =>
    subst hn
    cases u with
    | nil => cases h
    | cons b u =>
      rw [skipQuotedFrom, SkipState.step] at h
      split_ifs at h with hquote hescape hlow
      · subst hquote
        cases h
        exact ⟨[], .nil, rfl⟩
      · subst hescape
        cases u with
        | nil => cases h
        | cons c u =>
          change skipQuotedFrom .escape (c :: u) = _ at h
          rw [skipQuotedFrom, SkipState.step] at h
          split_ifs at h with hhex hshort
          · subst hhex
            obtain ⟨w, x, y, z, t, rfl, hx, ht⟩ := exists_hex h
            obtain ⟨s, hs, rfl⟩ := ih t.length (by simp only [List.length_cons]; omega) ht rfl
            exact ⟨_, .hex hx hs, rfl⟩
          · obtain ⟨s, hs, rfl⟩ := ih u.length (by simp only [List.length_cons]; omega) h rfl
            exact ⟨_, .escape hshort hs, rfl⟩
      · obtain ⟨s, hs, rfl⟩ := ih u.length (Nat.lt_succ_self _) h rfl
        exact ⟨_, .plain hquote hescape hlow hs, rfl⟩

theorem rest_of_word (h : word w u = .ok ((), r)) : u = w ++ r := by
  induction w generalizing u with
  | nil => cases h; rfl
  | cons b w ih =>
    obtain ⟨c, t, hc, hrest⟩ := bind_eq_ok h
    cases u with
    | nil => cases hc
    | cons d u =>
      cases hc
      split at hrest
      · next hb =>
        subst hb
        exact congrArg (c :: ·) (ih hrest)
      · cases hrest

theorem exists_digits (u : Bytes) :
    ∃ ds t, u = ds ++ t ∧ (∀ b ∈ ds, isDigit b = true) ∧ dropDigits u = .ok ((), t) :=
  ⟨u.takeWhile isDigit, u.dropWhile isDigit, List.takeWhile_append_dropWhile.symm,
    fun _ hb => List.mem_takeWhile_imp hb, rfl⟩

theorem digits_cons {ds : Bytes} (hb : isDigit b = true) (hds : ∀ c ∈ ds, isDigit c = true) :
    Digits (b :: ds) :=
  ⟨List.cons_ne_nil b ds, List.forall_mem_cons.mpr ⟨hb, hds⟩⟩

theorem exponent_of_skipPower (hb : isPower b = true) (h : skipPower u = .ok ((), r)) :
    ∃ x, Exponent (b :: x) ∧ u = x ++ r := by
  obtain ⟨minus, t, hminus, hbehind⟩ := bind_eq_ok h
  obtain ⟨d, m, hd, hrest⟩ := bind_eq_ok hbehind
  obtain ⟨sign, hsign, rfl⟩ :
      ∃ sign : Bytes, (sign = [] ∨ sign = [0x2B] ∨ sign = [0x2D]) ∧ u = sign ++ t := by
    cases u with
    | nil => cases hminus; exact ⟨[], .inl rfl, rfl⟩
    | cons c u =>
      rw [powerSign] at hminus
      split_ifs at hminus with hc hc'
      · cases hminus; exact ⟨[0x2D], .inr (.inr rfl), by rw [hc]; rfl⟩
      · cases hminus; exact ⟨[0x2B], .inr (.inl rfl), by rw [hc']; rfl⟩
      · cases hminus; exact ⟨[], .inl rfl, rfl⟩
  cases t with
  | nil => cases hd
  | cons d t =>
    cases hd
    split at hrest
    · next hdigit =>
      obtain ⟨ds, w, rfl, hds, hdrop⟩ := exists_digits m
      rw [hdrop] at hrest
      cases hrest
      exact ⟨sign ++ d :: ds, .inr ⟨b, sign, d :: ds, hb, hsign, digits_cons hdigit hds, rfl⟩,
        by simp⟩
    · cases hrest

theorem exponent_of_skipBehindDigits (h : skipBehindDigits u = .ok ((), r)) :
    ∃ x, Exponent x ∧ u = x ++ r := by
  cases u with
  | nil => cases h; exact ⟨[], .inl rfl, rfl⟩
  | cons b u =>
    rw [skipBehindDigits] at h
    split at h
    · next hb =>
      obtain ⟨x, hx, rfl⟩ := exponent_of_skipPower hb h
      exact ⟨b :: x, hx, rfl⟩
    · cases h; exact ⟨[], .inl rfl, rfl⟩

theorem fits_of_skipBehindWhole (h : skipBehindWhole u = .ok ((), r)) :
    ∃ f x, Fraction f ∧ Exponent x ∧ u = f ++ (x ++ r) := by
  by_cases hpoint : ∃ t, u = 0x2E :: t
  · obtain ⟨t, rfl⟩ := hpoint
    rw [skipBehindWhole, if_pos rfl] at h
    cases t with
    | nil => cases h
    | cons d t =>
      by_cases hd : isDigit d = true
      · rw [skipFraction_cons hd] at h
        obtain ⟨ds, w, rfl, hds, hdrop⟩ := exists_digits t
        have hw : (ds ++ w).dropWhile isDigit = w := congrArg Prod.snd (Except.ok.inj hdrop)
        rw [hw] at h
        obtain ⟨x, hx, rfl⟩ := exponent_of_skipBehindDigits h
        exact ⟨0x2E :: d :: ds, x, .inr ⟨d :: ds, digits_cons hd hds, rfl⟩, hx, by simp⟩
      · simp [skipFraction, hd] at h
  · have hhead : ∀ b ∈ u.head?, b ≠ 0x2E := by
      rintro b hb rfl
      exact hpoint (List.head?_eq_some_iff.mp hb)
    rw [skipBehindWhole_eq hhead] at h
    obtain ⟨x, hx, rfl⟩ := exponent_of_skipBehindDigits h
    exact ⟨[], x, .inl rfl, hx, rfl⟩

theorem fits_of_skipUnsigned (h : skipUnsigned b u = .ok ((), r)) :
    isDigit b = true ∧ ∃ ds f x, Whole (b :: ds) ∧ Fraction f ∧ Exponent x ∧
      u = ds ++ (f ++ (x ++ r)) := by
  rw [skipUnsigned] at h
  split_ifs at h with hzero hdigit
  · subst hzero
    have h : skipBehindWhole u = .ok ((), r) := by
      cases u with
      | nil => exact h
      | cons c u =>
        dsimp only at h
        split at h
        · cases h
        · exact h
    obtain ⟨f, x, hf, hx, rfl⟩ := fits_of_skipBehindWhole h
    exact ⟨by decide, [], f, x, .inl rfl, hf, hx, rfl⟩
  · obtain ⟨ds, w, rfl, hds, hdrop⟩ := exists_digits u
    rw [bind_ok hdrop] at h
    obtain ⟨f, x, hf, hx, rfl⟩ := fits_of_skipBehindWhole h
    refine ⟨hdigit, ds, f, x, .inr ⟨digits_cons hdigit hds, ?_⟩, hf, hx, rfl⟩
    exact fun h => hzero (Option.some.inj h)
  · cases h

theorem scalar_of_skipScalar (h : skipScalar b u = .ok ((), r)) :
    ∃ s, IsScalar (b :: s) ∧ u = s ++ r := by
  rw [skipScalar] at h
  split_ifs at h with hnull hyes hno hquote hminus hdigit
  · subst hnull
    exact ⟨_, .null, rest_of_word h⟩
  · subst hyes
    exact ⟨_, .yes, rest_of_word h⟩
  · subst hno
    exact ⟨_, .no, rest_of_word h⟩
  · subst hquote
    obtain ⟨s, hs, rfl⟩ := body_of_skipQuoted h
    exact ⟨s ++ [0x22], .text hs, by simp⟩
  · subst hminus
    obtain ⟨d, t, hd, h⟩ := bind_eq_ok h
    cases u with
    | nil => cases hd
    | cons d u =>
      cases hd
      obtain ⟨-, ds, f, x, hw, hf, hx, rfl⟩ := fits_of_skipUnsigned h
      exact ⟨d :: (ds ++ (f ++ x)), .number (.inr rfl) hw hf hx, by simp⟩
  · obtain ⟨-, ds, f, x, hw, hf, hx, rfl⟩ := fits_of_skipUnsigned h
    exact ⟨ds ++ (f ++ x), .number (.inl rfl) hw hf hx, by simp⟩
  · cases h

inductive Tail : List Bracket → Bytes → Bytes → Prop
  | done {r : Bytes} : Tail [] r r
  | close {k : Bracket} {ks : List Bracket} {w s r : Bytes} : Blanks w → Tail ks s r →
    Tail (k :: ks) (w ++ k.close :: s) r
  | more {k : Bracket} {ks : List Bracket} {w m s r : Bytes} : Blanks w → Fits (.rest k) m →
    Tail ks s r → Tail (k :: ks) (w ++ 0x2C :: (m ++ s)) r

theorem Tail.rest {l v : Bytes} (hl : Lead k l) (hv : Fits .value v) (h : Tail (k :: ks) t r) :
    ∃ m s, l ++ (v ++ t) = m ++ s ∧ Fits (.rest k) m ∧ Tail ks s r := by
  cases h with
  | @close _ _ w s _ hw hs => exact ⟨_, s, by simp, .last hl hv hw, hs⟩
  | @more _ _ w m s _ hw hm hs => exact ⟨_, s, by simp, .more hl hv hw hm, hs⟩

theorem blanks_of_dropWhile (h : u.dropWhile isBlank = b :: t) :
    ∃ w, Blanks w ∧ u = w ++ b :: t :=
  ⟨u.takeWhile isBlank, fun _ hb => List.mem_takeWhile_imp hb, (dropWhile_eq_cons h).1⟩

theorem blanks_of_nextInk {c : Cause} (h : nextInk c u = .ok (b, t)) :
    ∃ w, Blanks w ∧ u = w ++ b :: t :=
  blanks_of_dropWhile (nextInk_eq_ok_iff.mp h)

theorem blanks_of_colon (h : colon u = .ok ((), r)) : ∃ w, Blanks w ∧ u = w ++ 0x3A :: r := by
  obtain ⟨b, t, hb, hend⟩ := bind_eq_ok h
  split at hend
  · next hcolon =>
    subst hcolon
    cases hend
    exact blanks_of_nextInk hb
  · cases hend

theorem lead_of_read (h : k.lead u = .ok ((), r)) : ∃ l, Lead k l ∧ u = l ++ r := by
  cases k with
  | list => cases h; exact ⟨[], .item, rfl⟩
  | object =>
    obtain ⟨b, t, hb, hrest⟩ := bind_eq_ok h
    split at hrest
    · next hquote =>
      subst hquote
      obtain ⟨_, m, hbody, hcolon⟩ := bind_eq_ok hrest
      obtain ⟨w, hw, rfl⟩ := blanks_of_nextInk hb
      obtain ⟨s, hs, rfl⟩ := body_of_skipQuoted hbody
      obtain ⟨c, hc, rfl⟩ := blanks_of_colon hcolon
      exact ⟨_, .key hw hs hc, by simp⟩
    · cases hrest

def SkipMode.Fitting (ks : List Bracket) (u r : Bytes) : SkipMode → Prop
  | .value => ∃ v t, u = v ++ t ∧ Fits .value v ∧ Tail ks t r
  | .inside true => Tail ks u r
  | .inside false => ∀ k js, ks = k :: js →
    (∃ i t, u = i ++ k.close :: t ∧ Blanks i ∧ Tail js t r) ∨
      ∃ m t, u = m ++ t ∧ Fits (.rest k) m ∧ Tail js t r

theorem opening_of_opened? (h : Bracket.opened? b = some k) : b = k.opening := by
  rw [Bracket.opened?] at h
  split_ifs at h with hlist hobject
  · cases h; exact hlist
  · cases h; exact hobject

theorem fitting_of_skipFrom {mode : SkipMode} (h : skipFrom mode ks u = .ok ((), r)) :
    mode.Fitting ks u r := by
  -- What a skip has yet to do is known from behind: the tail it leaves is taken up by the value
  -- before it.
  fun_induction skipFrom mode ks u with
  | case1 | case3 | case6 | case8 | case10 | case11 => cases h
  | case2 u ks b m hb k hk ih =>
    obtain rfl := opening_of_opened? hk
    obtain ⟨w, hw, rfl⟩ := blanks_of_nextInk hb
    obtain ⟨i, t, rfl, hi, ht⟩ | ⟨s, t, rfl, hs, ht⟩ := ih h k ks rfl
    · exact ⟨w ++ k.opening :: (i ++ [k.close]), t, by simp, .empty hw hi, ht⟩
    · exact ⟨w ++ k.opening :: s, t, by simp, .full hw hs, ht⟩
  | case4 u ks b m hb hk v' x hskip ih =>
    obtain ⟨w, hw, rfl⟩ := blanks_of_nextInk hb
    obtain ⟨s, hs, rfl⟩ := scalar_of_skipScalar hskip
    exact ⟨_, x, by simp, .scalar hw hs, ih h⟩
  | case5 u behindValue =>
    cases h
    cases behindValue with
    | false =>
      intro k js hks
      cases hks
    | true => exact .done
  | case7 u behindValue k ks m hb ih =>
    obtain ⟨w, hw, rfl⟩ := blanks_of_nextInk hb
    cases behindValue with
    | false =>
      rintro k js ⟨⟩
      exact .inl ⟨w, m, rfl, hw, ih h⟩
    | true => exact .close hw (ih h)
  | case9 u k ks m v' x hl hb hne ih =>
    obtain ⟨w, hw, rfl⟩ := blanks_of_nextInk hb
    obtain ⟨l, hlead, rfl⟩ := lead_of_read hl
    obtain ⟨v, t, rfl, hv, ht⟩ := ih h
    obtain ⟨n, s, hsplit, hn, hs⟩ := ht.rest hlead hv
    rw [hsplit]
    exact .more hw hn hs
  | case12 u behindValue k ks b m hb hne hfirst v' x hl ih =>
    obtain rfl : behindValue = false := Bool.eq_false_iff.mpr hfirst
    obtain ⟨l, hlead, rfl⟩ := lead_of_read hl
    obtain ⟨v, t, rfl, hv, ht⟩ := ih h
    obtain ⟨n, s, hsplit, hn, hs⟩ := ht.rest hlead hv
    rintro k js ⟨⟩
    exact .inr ⟨n, s, hsplit, hn, hs⟩

theorem fits_of_skipValue (h : skipValue u = .ok ((), r)) : ∃ v, u = v ++ r ∧ Fits .value v := by
  have hskip : skipFrom .value [] u = .ok ((), r) := h
  obtain ⟨v, t, rfl, hv, ht⟩ := fitting_of_skipFrom hskip
  cases ht
  exact ⟨v, rfl, hv⟩

end CallStrip.Json

import CallStrip.Text.Utf8

/-!
Bytes and texts match: reading accepts exactly what writing produces.
-/

namespace CallStrip.Utf8

open String (utf8EncodeChar)

variable {w x y z : UInt8} {c : Char} {n least : Nat} {s : Bytes}

theorem tail?_eq_some_iff : tail? x = some n ↔ x.toNat = 0x80 + n ∧ n < 0x40 := by
  simp only [tail?, Bool.and_eq_true, decide_eq_true_eq, UInt8.le_iff_toNat_le,
    Option.ite_none_right_eq_some, Option.some.injEq, UInt8.reduceToNat]
  omega

theorem char?_eq_some_iff : char? least n = some c ↔ c.toNat = n ∧ least ≤ n := by
  constructor
  · intro h
    rw [char?, Option.dite_none_right_eq_some] at h
    obtain ⟨hvalid, h⟩ := h
    rw [Option.ite_none_right_eq_some, Option.some.injEq] at h
    obtain ⟨hle, rfl⟩ := h
    exact ⟨rfl, hle⟩
  · rintro ⟨rfl, hle⟩
    have hvalid : c.toNat.isValidChar := c.valid
    rw [char?, dif_pos hvalid, if_pos hle]
    rfl

theorem two?_eq_some_iff :
    two? w x = some c ↔ ∃ i, x.toNat = 0x80 + i ∧ i < 0x40 ∧
      c.toNat = (w.toNat - 0xC0) * 0x40 + i ∧ 0x80 ≤ c.toNat := by
  simp only [two?, Option.bind_eq_bind, Option.bind_eq_some_iff, tail?_eq_some_iff,
    char?_eq_some_iff]
  constructor
  · rintro ⟨i, ⟨hx, hi⟩, hc, hle⟩
    exact ⟨i, hx, hi, hc, hc ▸ hle⟩
  · rintro ⟨i, hx, hi, hc, hle⟩
    exact ⟨i, ⟨hx, hi⟩, hc, hc ▸ hle⟩

theorem three?_eq_some_iff :
    three? w x y = some c ↔ ∃ i j, x.toNat = 0x80 + i ∧ i < 0x40 ∧ y.toNat = 0x80 + j ∧ j < 0x40 ∧
      c.toNat = ((w.toNat - 0xE0) * 0x40 + i) * 0x40 + j ∧ 0x800 ≤ c.toNat := by
  simp only [three?, Option.bind_eq_bind, Option.bind_eq_some_iff, tail?_eq_some_iff,
    char?_eq_some_iff]
  constructor
  · rintro ⟨i, ⟨hx, hi⟩, j, ⟨hy, hj⟩, hc, hle⟩
    exact ⟨i, j, hx, hi, hy, hj, hc, hc ▸ hle⟩
  · rintro ⟨i, j, hx, hi, hy, hj, hc, hle⟩
    exact ⟨i, ⟨hx, hi⟩, j, ⟨hy, hj⟩, hc, hc ▸ hle⟩

theorem four?_eq_some_iff :
    four? w x y z = some c ↔ ∃ i j k, x.toNat = 0x80 + i ∧ i < 0x40 ∧ y.toNat = 0x80 + j ∧
      j < 0x40 ∧ z.toNat = 0x80 + k ∧ k < 0x40 ∧
      c.toNat = (((w.toNat - 0xF0) * 0x40 + i) * 0x40 + j) * 0x40 + k ∧ 0x10000 ≤ c.toNat := by
  simp only [four?, Option.bind_eq_bind, Option.bind_eq_some_iff, tail?_eq_some_iff,
    char?_eq_some_iff]
  constructor
  · rintro ⟨i, ⟨hx, hi⟩, j, ⟨hy, hj⟩, k, ⟨hz, hk⟩, hc, hle⟩
    exact ⟨i, j, k, hx, hi, hy, hj, hz, hk, hc, hc ▸ hle⟩
  · rintro ⟨i, j, k, hx, hi, hy, hj, hz, hk, hc, hle⟩
    exact ⟨i, ⟨hx, hi⟩, j, ⟨hy, hj⟩, k, ⟨hz, hk⟩, hc, hc ▸ hle⟩

theorem toNat_lt (c : Char) : c.toNat < 0x110000 := by
  have hvalid : c.toNat.isValidChar := c.valid
  unfold Nat.isValidChar at hvalid
  omega

theorem toNat_ofNat (hn : n < 0x100) : (UInt8.ofNat n).toNat = n := UInt8.toNat_ofNat_of_lt' hn

theorem eq_ofNat_iff (hn : n < 0x100) : x = UInt8.ofNat n ↔ x.toNat = n := by
  rw [← UInt8.toNat_inj, toNat_ofNat hn]

theorem encodeChar_one (hc : c.toNat < 0x80) : utf8EncodeChar c = [UInt8.ofNat c.toNat] := by
  have h1 : c.val.toNat ≤ 127 := Nat.le_of_lt_succ hc
  simp only [utf8EncodeChar, h1, if_true]
  rfl

theorem encodeChar_two (hle : 0x80 ≤ c.toNat) (hlt : c.toNat < 0x800) :
    utf8EncodeChar c =
      [UInt8.ofNat (c.toNat / 64 + 0xC0), UInt8.ofNat (c.toNat % 64 + 0x80)] := by
  have h1 : ¬ c.val.toNat ≤ 127 := Nat.not_le.mpr hle
  have h2 : c.val.toNat ≤ 2047 := Nat.le_of_lt_succ hlt
  have htop : c.val.toNat / 64 % 32 = c.val.toNat / 64 := by omega
  simp only [utf8EncodeChar, h1, h2, if_true, if_false, htop]
  rfl

theorem encodeChar_three (hle : 0x800 ≤ c.toNat) (hlt : c.toNat < 0x10000) :
    utf8EncodeChar c =
      [UInt8.ofNat (c.toNat / 4096 + 0xE0), UInt8.ofNat (c.toNat / 64 % 64 + 0x80),
        UInt8.ofNat (c.toNat % 64 + 0x80)] := by
  have h1 : ¬ c.val.toNat ≤ 127 := by change ¬ c.toNat ≤ 127; omega
  have h2 : ¬ c.val.toNat ≤ 2047 := Nat.not_le.mpr hle
  have h3 : c.val.toNat ≤ 65535 := Nat.le_of_lt_succ hlt
  have htop : c.val.toNat / 4096 % 16 = c.val.toNat / 4096 := by omega
  simp only [utf8EncodeChar, h1, h2, h3, if_true, if_false, htop]
  rfl

theorem encodeChar_four (hle : 0x10000 ≤ c.toNat) :
    utf8EncodeChar c =
      [UInt8.ofNat (c.toNat / 262144 + 0xF0), UInt8.ofNat (c.toNat / 4096 % 64 + 0x80),
        UInt8.ofNat (c.toNat / 64 % 64 + 0x80), UInt8.ofNat (c.toNat % 64 + 0x80)] := by
  have h1 : ¬ c.val.toNat ≤ 127 := by change ¬ c.toNat ≤ 127; omega
  have h2 : ¬ c.val.toNat ≤ 2047 := by change ¬ c.toNat ≤ 2047; omega
  have h3 : ¬ c.val.toNat ≤ 65535 := Nat.not_le.mpr hle
  have htop : c.val.toNat / 262144 % 8 = c.val.toNat / 262144 := by
    have := toNat_lt c
    change c.toNat / 262144 % 8 = c.toNat / 262144
    omega
  simp only [utf8EncodeChar, h1, h2, h3, if_false, htop]
  rfl

theorem split_one (hw : w.toNat < 0x80) :
    split (w :: s) = (Char.ofNat w.toNat :: (split s).1, (split s).2) := by
  have h : w < 0x80 := hw
  rw [split.eq_def (w :: s)]
  simp only [h, if_true]

theorem split_two (hle : 0xC0 ≤ w.toNat) (hlt : w.toNat < 0xE0) (hc : two? w x = some c) :
    split (w :: x :: s) = (c :: (split s).1, (split s).2) := by
  have h1 : ¬ w < 0x80 := Nat.not_lt.mpr (show 0x80 ≤ w.toNat by omega)
  have h2 : ¬ w < 0xC0 := Nat.not_lt.mpr (show 0xC0 ≤ w.toNat by omega)
  have h3 : w < 0xE0 := hlt
  rw [split.eq_def (w :: x :: s)]
  simp only [h1, h2, h3, if_true, if_false, hc]

theorem split_three (hle : 0xE0 ≤ w.toNat) (hlt : w.toNat < 0xF0) (hc : three? w x y = some c) :
    split (w :: x :: y :: s) = (c :: (split s).1, (split s).2) := by
  have h1 : ¬ w < 0x80 := Nat.not_lt.mpr (show 0x80 ≤ w.toNat by omega)
  have h2 : ¬ w < 0xC0 := Nat.not_lt.mpr (show 0xC0 ≤ w.toNat by omega)
  have h3 : ¬ w < 0xE0 := Nat.not_lt.mpr (show 0xE0 ≤ w.toNat by omega)
  have h4 : w < 0xF0 := hlt
  rw [split.eq_def (w :: x :: y :: s)]
  simp only [h1, h2, h3, h4, if_true, if_false, hc]

theorem split_four (hle : 0xF0 ≤ w.toNat) (hlt : w.toNat < 0xF8) (hc : four? w x y z = some c) :
    split (w :: x :: y :: z :: s) = (c :: (split s).1, (split s).2) := by
  have h1 : ¬ w < 0x80 := Nat.not_lt.mpr (show 0x80 ≤ w.toNat by omega)
  have h2 : ¬ w < 0xC0 := Nat.not_lt.mpr (show 0xC0 ≤ w.toNat by omega)
  have h3 : ¬ w < 0xE0 := Nat.not_lt.mpr (show 0xE0 ≤ w.toNat by omega)
  have h4 : ¬ w < 0xF0 := Nat.not_lt.mpr (show 0xF0 ≤ w.toNat by omega)
  have h5 : ¬ 0xF8 ≤ w := Nat.not_le.mpr hlt
  rw [split.eq_def (w :: x :: y :: z :: s)]
  simp only [h1, h2, h3, h4, h5, if_false, hc]

theorem split_encodeChar_append (c : Char) (s : Bytes) :
    split (utf8EncodeChar c ++ s) = (c :: (split s).1, (split s).2) := by
  have hmax := toNat_lt c
  -- The bytes of a character are told apart by how many there are.
  rcases Nat.lt_or_ge c.toNat 0x80 with h1 | h1
  · have hw : (UInt8.ofNat c.toNat).toNat = c.toNat := toNat_ofNat (by omega)
    rw [encodeChar_one h1, List.singleton_append, split_one (by omega), hw, Char.ofNat_toNat]
  rcases Nat.lt_or_ge c.toNat 0x800 with h2 | h2
  · have hw : (UInt8.ofNat (c.toNat / 64 + 0xC0)).toNat = c.toNat / 64 + 0xC0 :=
      toNat_ofNat (by omega)
    have hx : (UInt8.ofNat (c.toNat % 64 + 0x80)).toNat = c.toNat % 64 + 0x80 :=
      toNat_ofNat (by omega)
    rw [encodeChar_two h1 h2]
    refine split_two (by omega) (by omega) (two?_eq_some_iff.mpr ⟨c.toNat % 64, ?_⟩)
    omega
  rcases Nat.lt_or_ge c.toNat 0x10000 with h3 | h3
  · have hw : (UInt8.ofNat (c.toNat / 4096 + 0xE0)).toNat = c.toNat / 4096 + 0xE0 :=
      toNat_ofNat (by omega)
    have hx : (UInt8.ofNat (c.toNat / 64 % 64 + 0x80)).toNat = c.toNat / 64 % 64 + 0x80 :=
      toNat_ofNat (by omega)
    have hy : (UInt8.ofNat (c.toNat % 64 + 0x80)).toNat = c.toNat % 64 + 0x80 :=
      toNat_ofNat (by omega)
    rw [encodeChar_three h2 h3]
    refine split_three (by omega) (by omega)
      (three?_eq_some_iff.mpr ⟨c.toNat / 64 % 64, c.toNat % 64, ?_⟩)
    omega
  · have hw : (UInt8.ofNat (c.toNat / 262144 + 0xF0)).toNat = c.toNat / 262144 + 0xF0 :=
      toNat_ofNat (by omega)
    have hx : (UInt8.ofNat (c.toNat / 4096 % 64 + 0x80)).toNat = c.toNat / 4096 % 64 + 0x80 :=
      toNat_ofNat (by omega)
    have hy : (UInt8.ofNat (c.toNat / 64 % 64 + 0x80)).toNat = c.toNat / 64 % 64 + 0x80 :=
      toNat_ofNat (by omega)
    have hz : (UInt8.ofNat (c.toNat % 64 + 0x80)).toNat = c.toNat % 64 + 0x80 :=
      toNat_ofNat (by omega)
    rw [encodeChar_four h3]
    refine split_four (by omega) (by omega)
      (four?_eq_some_iff.mpr ⟨c.toNat / 4096 % 64, c.toNat / 64 % 64, c.toNat % 64, ?_⟩)
    omega

theorem encodeChar_of_one (hw : w.toNat < 0x80) : utf8EncodeChar (Char.ofNat w.toNat) = [w] := by
  have hvalid : w.toNat.isValidChar := .inl (by omega)
  have hc : (Char.ofNat w.toNat).toNat = w.toNat := by
    rw [Char.ofNat, dif_pos hvalid]
    rfl
  rw [encodeChar_one (by omega), hc, UInt8.ofNat_toNat]

theorem encodeChar_of_two (hle : 0xC0 ≤ w.toNat) (hlt : w.toNat < 0xE0) (h : two? w x = some c) :
    utf8EncodeChar c = [w, x] := by
  obtain ⟨i, hx, hi, hc, hmin⟩ := two?_eq_some_iff.mp h
  have hw : UInt8.ofNat (c.toNat / 64 + 0xC0) = w := ((eq_ofNat_iff (by omega)).mpr (by omega)).symm
  have hx : UInt8.ofNat (c.toNat % 64 + 0x80) = x := ((eq_ofNat_iff (by omega)).mpr (by omega)).symm
  rw [encodeChar_two hmin (by omega), hw, hx]

theorem encodeChar_of_three (hle : 0xE0 ≤ w.toNat) (hlt : w.toNat < 0xF0)
    (h : three? w x y = some c) : utf8EncodeChar c = [w, x, y] := by
  obtain ⟨i, j, hx, hi, hy, hj, hc, hmin⟩ := three?_eq_some_iff.mp h
  have hw : UInt8.ofNat (c.toNat / 4096 + 0xE0) = w :=
    ((eq_ofNat_iff (by omega)).mpr (by omega)).symm
  have hx : UInt8.ofNat (c.toNat / 64 % 64 + 0x80) = x :=
    ((eq_ofNat_iff (by omega)).mpr (by omega)).symm
  have hy : UInt8.ofNat (c.toNat % 64 + 0x80) = y := ((eq_ofNat_iff (by omega)).mpr (by omega)).symm
  rw [encodeChar_three hmin (by omega), hw, hx, hy]

theorem encodeChar_of_four (hle : 0xF0 ≤ w.toNat) (h : four? w x y z = some c) :
    utf8EncodeChar c = [w, x, y, z] := by
  obtain ⟨i, j, k, hx, hi, hy, hj, hz, hk, hc, hmin⟩ := four?_eq_some_iff.mp h
  have hmax := toNat_lt c
  have hw : UInt8.ofNat (c.toNat / 262144 + 0xF0) = w :=
    ((eq_ofNat_iff (by omega)).mpr (by omega)).symm
  have hx : UInt8.ofNat (c.toNat / 4096 % 64 + 0x80) = x :=
    ((eq_ofNat_iff (by omega)).mpr (by omega)).symm
  have hy : UInt8.ofNat (c.toNat / 64 % 64 + 0x80) = y :=
    ((eq_ofNat_iff (by omega)).mpr (by omega)).symm
  have hz : UInt8.ofNat (c.toNat % 64 + 0x80) = z := ((eq_ofNat_iff (by omega)).mpr (by omega)).symm
  rw [encodeChar_four hmin, hw, hx, hy, hz]

theorem encode_cons (c : Char) (t : Text) : encode (c :: t) = utf8EncodeChar c ++ encode t :=
  List.flatMap_cons

theorem length_le_length_encode (t : Text) : t.length ≤ (encode t).length := by
  induction t with
  | nil => exact Nat.le_refl 0
  | cons c t ih =>
    have hc : 0 < (utf8EncodeChar c).length := by
      rw [String.length_utf8EncodeChar]
      exact c.utf8Size_pos
    rw [encode_cons, List.length_append, List.length_cons]
    omega

theorem split_encode (t : Text) : split (encode t) = (t, []) := by
  induction t with
  | nil => rfl
  | cons c t ih => rw [encode_cons, split_encodeChar_append, ih]

theorem encode_split (s : Bytes) : encode (split s).1 ++ (split s).2 = s := by
  fun_induction split s with
  | case1 => rfl
  | case2 w s hw ih =>
    rw [encode_cons, encodeChar_of_one hw, List.append_assoc, ih, List.singleton_append]
  | case3 | case4 | case5 | case7 | case8 | case10 | case11 | case12 => rfl
  | case6 w _ h2 x s h3 c hc ih =>
    rw [encode_cons, encodeChar_of_two (Nat.not_lt.mp h2) h3 hc, List.append_assoc, ih]
    rfl
  | case9 w _ _ x h3 y s h4 c hc ih =>
    rw [encode_cons, encodeChar_of_three (Nat.not_lt.mp h3) h4 hc, List.append_assoc, ih]
    rfl
  | case13 w _ _ x _ y h4 z s _ c hc ih =>
    rw [encode_cons, encodeChar_of_four (Nat.not_lt.mp h4) hc, List.append_assoc, ih]
    rfl

theorem decode_eq_some_iff {t : Text} : decode s = some t ↔ s = encode t := by
  constructor
  · intro h
    unfold decode at h
    split at h
    · next t' ht =>
      obtain rfl := Option.some.inj h
      have hs := encode_split s
      rw [ht, List.append_nil] at hs
      exact hs.symm
    · exact absurd h (by simp)
  · rintro rfl
    rw [decode, split_encode]

theorem decode_encode (t : Text) : decode (encode t) = some t := decode_eq_some_iff.mpr rfl

theorem encode_injective {t u : Text} (h : encode t = encode u) : t = u :=
  Option.some.inj ((decode_encode t).symm.trans (h ▸ decode_encode u))

example : decode (encode "é€😀".toList) = some "é€😀".toList := by decide

theorem encode_append (t u : Text) : encode (t ++ u) = encode t ++ encode u := List.flatMap_append

theorem split_encode_append (t : Text) (s : Bytes) :
    split (encode t ++ s) = (t ++ (split s).1, (split s).2) := by
  induction t with
  | nil => rfl
  | cons c t ih =>
    rw [encode_cons, List.append_assoc, split_encodeChar_append, ih]
    rfl

theorem prefix_of_encode {t u : Text} (h : encode t <+: encode u) : t <+: u := by
  obtain ⟨s, hs⟩ := h
  have hsplit := congrArg split hs
  rw [split_encode_append, split_encode] at hsplit
  exact ⟨_, (Prod.mk.inj hsplit).1⟩

theorem not_isFirstByte_of_encodeChar {a b : Bytes} (h : utf8EncodeChar c = a ++ x :: b)
    (ha : a ≠ []) : ¬ x.IsUTF8FirstByte := by
  have hlt : a.length < (utf8EncodeChar c).length := by simp [h]
  have hx : (utf8EncodeChar c)[a.length] = x := by simp [h]
  rw [← hx, UInt8.isUTF8FirstByte_getElem_utf8EncodeChar]
  exact fun hzero => ha (List.eq_nil_of_length_eq_zero hzero)

theorem exists_isFirstByte {t : Text} (ht : t ≠ []) :
    ∃ b s, encode t = b :: s ∧ b.IsUTF8FirstByte := by
  cases t with
  | nil => exact absurd rfl ht
  | cons c t =>
    rw [encode_cons]
    cases hc : utf8EncodeChar c with
    | nil => exact absurd hc String.utf8EncodeChar_ne_nil
    | cons b s =>
      have hb := UInt8.isUTF8FirstByte_getElem_zero_utf8EncodeChar (c := c)
      simp only [hc, List.getElem_cons_zero] at hb
      exact ⟨b, s ++ encode t, rfl, hb⟩

theorem infix_of_encode {t u : Text} (ht : t ≠ []) (h : encode t <:+: encode u) : t <:+: u := by
  obtain ⟨a, b, hab⟩ := h
  rw [List.append_assoc] at hab
  induction u generalizing a with
  | nil =>
    obtain ⟨x, s, hx, -⟩ := exists_isFirstByte ht
    rw [hx] at hab
    exact absurd hab (by simp [encode])
  | cons c u ih =>
    rw [encode_cons] at hab
    rcases List.append_eq_append_iff.mp hab with ⟨inner, hchar, htail⟩ | ⟨front, rfl, htail⟩
    · by_cases ha : a = []
      · subst ha
        refine (prefix_of_encode ⟨b, ?_⟩).isInfix
        rw [encode_cons, ← hab, List.nil_append]
      · -- A text does not begin inside the bytes of a character.
        cases inner with
        | nil => exact List.infix_cons (ih [] htail)
        | cons x inner =>
          obtain ⟨y, s, hy, hfirst⟩ := exists_isFirstByte ht
          rw [hy] at htail
          obtain rfl := (List.cons.inj htail).1
          exact absurd hfirst (not_isFirstByte_of_encodeChar hchar ha)
    · exact List.infix_cons (ih front htail.symm)

theorem infix_encode_iff {t u : Text} (ht : t ≠ []) : encode t <:+: encode u ↔ t <:+: u := by
  refine ⟨infix_of_encode ht, ?_⟩
  rintro ⟨a, b, rfl⟩
  exact ⟨encode a, encode b, by rw [encode_append, encode_append]⟩

end CallStrip.Utf8

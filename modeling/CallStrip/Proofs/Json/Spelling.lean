import CallStrip.Proofs.Json.Grammar
import CallStrip.Proofs.Text.Utf8

/-!
How a text is spelled between quotes: characters stand for themselves or are escaped, and those
above `0xFFFF` may be escaped as a pair of surrogates. A reader makes of a spelling the text it
spells, and takes nothing else for one.
-/

namespace CallStrip.Json

open Reading (bind_ok)
open Reader

variable {s t u r out rest : Bytes} {b : UInt8} {n : Nat} {q q' : QuoteState} {lead : Option Nat}

def IsHigh (n : Nat) : Prop := 0xD800 ≤ n ∧ n ≤ 0xDBFF

def IsLow (n : Nat) : Prop := 0xDC00 ≤ n ∧ n ≤ 0xDFFF

def paired (high low : Nat) : Bytes :=
  String.utf8EncodeChar (Char.ofNat ((high - 0xD800) * 0x400 + (low - 0xDC00) + 0x10000))

/-- What stands between the quotes, and the bytes that it spells. -/
inductive Spells : Bytes → Bytes → Prop
  | nil : Spells [] []
  | plain {b : UInt8} {s t : Bytes} : b ≠ 0x22 → b ≠ 0x5C → ¬ b < 0x20 → Spells s t →
    Spells (b :: s) (b :: t)
  | escape {b c : UInt8} {s t : Bytes} : shortEscape? b = some c → Spells s t →
    Spells (0x5C :: b :: s) (c :: t)
  | hex {w x y z : UInt8} {n : Nat} {s t : Bytes} : hexValue? [z, y, x, w] = some n → ¬ IsHigh n →
    ¬ IsLow n → Spells s t →
    Spells (0x5C :: 0x75 :: w :: x :: y :: z :: s) (String.utf8EncodeChar (Char.ofNat n) ++ t)
  | pair {w x y z w' x' y' z' : UInt8} {n m : Nat} {s t : Bytes} :
    hexValue? [z, y, x, w] = some n → IsHigh n → hexValue? [z', y', x', w'] = some m → IsLow m →
    Spells s t →
    Spells (0x5C :: 0x75 :: w :: x :: y :: z :: 0x5C :: 0x75 :: w' :: x' :: y' :: z' :: s)
      (paired n m ++ t)

theorem resolveHex_low (h : IsLow n) : resolveHex none n = .error .loneSurrogate := by
  simp [resolveHex, h.1, h.2]

theorem resolveHex_high (h : IsHigh n) : resolveHex none n = .ok (some n, []) := by
  have hlow : ¬ 0xDC00 ≤ n := Nat.not_le.mpr (Nat.lt_of_le_of_lt h.2 (by decide))
  simp [resolveHex, hlow, h.1, h.2]

theorem resolveHex_char (hhigh : ¬ IsHigh n) (hlow : ¬ IsLow n) :
    resolveHex none n = .ok (none, String.utf8EncodeChar (Char.ofNat n)) := by
  simp only [IsHigh, IsLow] at hhigh hlow
  simp [resolveHex, hhigh, hlow]

theorem resolveHex_pair {l : Nat} (h : IsLow n) :
    resolveHex (some l) n = .ok (none, paired l n) := by
  simp [resolveHex, paired, h.1, h.2]

theorem resolveHex_unpaired {l : Nat} (h : ¬ IsLow n) :
    resolveHex (some l) n = .error .loneSurrogate := by
  simp only [IsLow] at h
  simp [resolveHex, h]

theorem quotedBytes_next (hstep : q.step b = .ok (some q', out))
    (h : quotedBytes q' s = .ok (rest, r)) : quotedBytes q (b :: s) = .ok (out ++ rest, r) := by
  rw [quotedBytes, hstep]
  dsimp only
  rw [h]
  rfl

theorem quotedBytes_silent (hstep : q.step b = .ok (some q', []))
    (h : quotedBytes q' s = .ok (rest, r)) : quotedBytes q (b :: s) = .ok (rest, r) :=
  quotedBytes_next hstep h

theorem step_last {w x y z : UInt8} (hn : hexValue? [z, y, x, w] = some n) :
    (QuoteState.hex lead [y, x, w]).step z = (resolveHex lead n).map fun p =>
      (some (p.1.elim .plain .betweenPair), p.2) := by
  rw [QuoteState.step, if_neg (show ¬ [y, x, w].length < 3 from Nat.lt_irrefl 3), hn]
  dsimp only
  cases resolveHex lead n with
  | error c => rfl
  | ok p => obtain ⟨_ | l, o⟩ := p <;> rfl

theorem quotedBytes_hex {w x y z : UInt8} {l : Option Nat} (hn : hexValue? [z, y, x, w] = some n)
    (hl : resolveHex lead n = .ok (l, out))
    (h : quotedBytes (l.elim .plain .betweenPair) s = .ok (rest, r)) :
    quotedBytes (.hex lead []) (w :: x :: y :: z :: s) = .ok (out ++ rest, r) := by
  have hstep : (QuoteState.hex lead [y, x, w]).step z =
      .ok (some (l.elim .plain .betweenPair), out) := by rw [step_last hn, hl]; rfl
  exact quotedBytes_silent rfl <| quotedBytes_silent rfl <|
    quotedBytes_silent rfl <| quotedBytes_next hstep h

theorem quotedBytes_high {w x y z : UInt8} (hn : hexValue? [z, y, x, w] = some n)
    (hhigh : IsHigh n) (h : quotedBytes (.betweenPair n) s = .ok (rest, r)) :
    quotedBytes (.hex none []) (w :: x :: y :: z :: s) = .ok (rest, r) :=
  quotedBytes_hex hn (resolveHex_high hhigh) h

theorem Spells.quotedBytes (h : Spells s t) (r : Bytes) :
    quotedBytes .plain (s ++ 0x22 :: r) = .ok (t, r) := by
  induction h with
  | nil => rfl
  | @plain b s t hquote hescape hlow _ ih =>
    have hstep : QuoteState.plain.step b = .ok (some .plain, [b]) := by
      rw [QuoteState.step, if_neg hquote, if_neg hescape, if_neg hlow]
    exact quotedBytes_next hstep ih
  | @escape b c s t hb _ ih =>
    have hne : b ≠ 0x75 := by
      rintro rfl
      cases hb
    have hstep : QuoteState.escape.step b = .ok (some .plain, [c]) := by
      rw [QuoteState.step, if_neg hne, hb]
    exact quotedBytes_silent rfl (quotedBytes_next hstep ih)
  | hex hn hhigh hlow _ ih =>
    exact quotedBytes_silent rfl <| quotedBytes_silent rfl <|
      quotedBytes_hex hn (resolveHex_char hhigh hlow) ih
  | pair hn hhigh hm hlow _ ih =>
    exact quotedBytes_silent rfl <| quotedBytes_silent rfl <| quotedBytes_high hn hhigh <|
      quotedBytes_silent rfl <| quotedBytes_silent rfl <|
      quotedBytes_hex hm (resolveHex_pair hlow) ih

theorem Spells.quoted {k : Text} (h : Spells s (Utf8.encode k)) (r : Bytes) :
    quoted (s ++ 0x22 :: r) = .ok (k, r) := by
  rw [Json.quoted, h.quotedBytes r]
  dsimp only
  rw [Utf8.split_encode]

theorem quotedBytes_cases (h : quotedBytes q u = .ok (t, r)) : ∃ b s, u = b :: s ∧
    (q.step b = .ok (none, t) ∧ s = r ∨ ∃ q' out rest, q.step b = .ok (some q', out) ∧
      Json.quotedBytes q' s = .ok (rest, r) ∧ t = out ++ rest) := by
  cases u with
  | nil => cases h
  | cons b s =>
    refine ⟨b, s, rfl, ?_⟩
    rw [quotedBytes] at h
    split at h
    · cases h
    · next hstep => cases h; exact .inl ⟨hstep, rfl⟩
    · next q' out hstep =>
      cases hrest : Json.quotedBytes q' s with
      | error f => rw [hrest] at h; cases h
      | ok p =>
        rw [hrest] at h
        cases h
        exact .inr ⟨q', out, p.1, hstep, hrest, rfl⟩

theorem step_early {seen : List UInt8} (h : seen.length < 3) (b : UInt8) :
    (QuoteState.hex lead seen).step b = .ok (some (.hex lead (b :: seen)), []) := by
  rw [QuoteState.step, if_pos h]

theorem quotedBytes_early {seen : List UInt8} (hseen : seen.length < 3)
    (h : quotedBytes (.hex lead seen) u = .ok (t, r)) :
    ∃ b s, u = b :: s ∧ quotedBytes (.hex lead (b :: seen)) s = .ok (t, r) := by
  obtain ⟨b, s, rfl, ⟨hstep, -⟩ | ⟨q', out, rest, hstep, hrest, rfl⟩⟩ := quotedBytes_cases h
  · rw [step_early hseen] at hstep
    cases hstep
  · rw [step_early hseen] at hstep
    cases hstep
    exact ⟨b, s, rfl, hrest⟩

theorem exists_quotedHex (h : quotedBytes (.hex lead []) u = .ok (t, r)) :
    ∃ w x y z s n l out rest, u = w :: x :: y :: z :: s ∧ hexValue? [z, y, x, w] = some n ∧
      resolveHex lead n = .ok (l, out) ∧
      quotedBytes (l.elim .plain .betweenPair) s = .ok (rest, r) ∧ t = out ++ rest := by
  obtain ⟨w, s, rfl, hw⟩ := quotedBytes_early (by simp) h
  obtain ⟨x, s, rfl, hx⟩ := quotedBytes_early (by simp) hw
  obtain ⟨y, s, rfl, hy⟩ := quotedBytes_early (by simp) hx
  obtain ⟨z, s, rfl, hz⟩ := quotedBytes_cases hy
  cases hn : hexValue? [z, y, x, w] with
  | none =>
    have hstep : (QuoteState.hex lead [y, x, w]).step z = .error .badEscape := by
      rw [QuoteState.step, if_neg (show ¬ [y, x, w].length < 3 from Nat.lt_irrefl 3), hn]
    simp [hstep] at hz
  | some n =>
    rw [step_last hn] at hz
    cases hl : resolveHex lead n with
    | error c => simp [hl, Except.map] at hz
    | ok p =>
      rw [hl] at hz
      obtain ⟨hstep, -⟩ | ⟨q', out, rest, hstep, hrest, rfl⟩ := hz
      · cases hstep
      · cases hstep
        exact ⟨w, x, y, z, s, n, p.1, p.2, rest, rfl, hn, hl, hrest, rfl⟩

theorem exists_secondHalf {l : Nat} (h : quotedBytes (.betweenPair l) u = .ok (t, r)) :
    ∃ w x y z s n rest, u = 0x5C :: 0x75 :: w :: x :: y :: z :: s ∧
      hexValue? [z, y, x, w] = some n ∧ IsLow n ∧ quotedBytes .plain s = .ok (rest, r) ∧
      t = paired l n ++ rest := by
  obtain ⟨b, u, rfl, ⟨hb, -⟩ | ⟨q', out, rest, hb, hrest, ht⟩⟩ := quotedBytes_cases h
  all_goals rw [QuoteState.step] at hb; split_ifs at hb with hescape
  · cases hb
  cases hb
  subst hescape
  rw [List.nil_append] at ht
  subst ht
  obtain ⟨c, u, rfl, ⟨hc, -⟩ | ⟨q', out, rest, hc, hhex, ht⟩⟩ := quotedBytes_cases hrest
  all_goals rw [QuoteState.step] at hc; split_ifs at hc with hletter
  · cases hc
  cases hc
  subst hletter
  rw [List.nil_append] at ht
  subst ht
  obtain ⟨w, x, y, z, s, n, l', out, rest, rfl, hn, hl, hs, rfl⟩ := exists_quotedHex hhex
  by_cases hlow : IsLow n
  · rw [resolveHex_pair hlow] at hl
    cases hl
    exact ⟨w, x, y, z, s, n, rest, rfl, hn, hlow, hs, rfl⟩
  · rw [resolveHex_unpaired hlow] at hl
    cases hl

def Spelled (p out : Bytes) : Prop := ∀ ⦃s t⦄, Spells s t → Spells (p ++ s) (out ++ t)

theorem exists_spelledHex (h : quotedBytes (.hex none []) u = .ok (t, r)) :
    ∃ p out s rest, u = p ++ s ∧ t = out ++ rest ∧ quotedBytes .plain s = .ok (rest, r) ∧
      Spelled (0x5C :: 0x75 :: p) out := by
  obtain ⟨w, x, y, z, s, n, l, out, rest, rfl, hn, hl, hs, rfl⟩ := exists_quotedHex h
  by_cases hlow : IsLow n
  · rw [resolveHex_low hlow] at hl
    cases hl
  by_cases hhigh : IsHigh n
  · rw [resolveHex_high hhigh] at hl
    cases hl
    obtain ⟨w', x', y', z', s, m, rest, rfl, hm, hlow, hplain, ht⟩ := exists_secondHalf hs
    exact ⟨[w, x, y, z, 0x5C, 0x75, w', x', y', z'], paired n m, s, rest, rfl, ht, hplain,
      fun _ _ => .pair hn hhigh hm hlow⟩
  · rw [resolveHex_char hhigh hlow] at hl
    cases hl
    exact ⟨[w, x, y, z], _, s, rest, rfl, rfl, hs, fun _ _ => .hex hn hhigh hlow⟩

theorem exists_spelledEscape (h : quotedBytes .escape u = .ok (t, r)) :
    ∃ p out s rest, u = p ++ s ∧ t = out ++ rest ∧ quotedBytes .plain s = .ok (rest, r) ∧
      Spelled (0x5C :: p) out := by
  obtain ⟨b, u, rfl, hb⟩ := quotedBytes_cases h
  by_cases hhex : b = 0x75
  · subst hhex
    obtain ⟨hb, -⟩ | ⟨q', out, rest, hb, hrest, rfl⟩ := hb
    · cases hb
    · cases hb
      obtain ⟨p, out, s, rest, rfl, rfl, hs, hp⟩ := exists_spelledHex hrest
      exact ⟨0x75 :: p, out, s, rest, rfl, rfl, hs, hp⟩
  · rw [QuoteState.step, if_neg hhex] at hb
    cases hshort : shortEscape? b with
    | none => simp [hshort] at hb
    | some c =>
      rw [hshort] at hb
      obtain ⟨hb, -⟩ | ⟨q', out, rest, hb, hrest, rfl⟩ := hb
      · cases hb
      · cases hb
        exact ⟨[b], [c], u, rest, rfl, rfl, hrest, fun _ _ => .escape hshort⟩

theorem step_plain_cases {o : Option QuoteState} (h : QuoteState.plain.step b = .ok (o, out)) :
    b = 0x22 ∧ o = none ∧ out = [] ∨ b = 0x5C ∧ o = some .escape ∧ out = [] ∨
      (b ≠ 0x22 ∧ b ≠ 0x5C ∧ ¬ b < 0x20) ∧ o = some .plain ∧ out = [b] := by
  rw [QuoteState.step] at h
  split_ifs at h with hquote hescape hlow
  · cases h
    exact .inl ⟨hquote, rfl, rfl⟩
  · cases h
    exact .inr (.inl ⟨hescape, rfl, rfl⟩)
  · cases h
    exact .inr (.inr ⟨⟨hquote, hescape, hlow⟩, rfl, rfl⟩)

theorem exists_spelled (h : quotedBytes .plain u = .ok (t, r)) :
    t = [] ∧ u = 0x22 :: r ∨ ∃ p out s rest, p ≠ [] ∧ u = p ++ s ∧ t = out ++ rest ∧
      quotedBytes .plain s = .ok (rest, r) ∧ Spelled p out := by
  obtain ⟨b, u, rfl, ⟨hb, rfl⟩ | ⟨q', out, rest, hb, hrest, ht⟩⟩ := quotedBytes_cases h
  · obtain ⟨rfl, -, rfl⟩ | ⟨-, ho, -⟩ | ⟨-, ho, -⟩ := step_plain_cases hb
    · exact .inl ⟨rfl, rfl⟩
    · cases ho
    · cases ho
  · refine .inr ?_
    obtain ⟨-, ho, -⟩ | ⟨rfl, ho, rfl⟩ | ⟨⟨hquote, hescape, hlow⟩, ho, rfl⟩ :=
      step_plain_cases hb
    · cases ho
    · cases ho
      obtain ⟨p, out, s, rest, rfl, rfl, hs, hp⟩ := exists_spelledEscape hrest
      exact ⟨0x5C :: p, out, s, rest, by simp, rfl, ht, hs, hp⟩
    · cases ho
      exact ⟨[b], [b], u, rest, by simp, rfl, ht, hrest, fun _ _ => .plain hquote hescape hlow⟩

theorem spells_of_quotedBytes (h : quotedBytes .plain u = .ok (t, r)) :
    ∃ s, Spells s t ∧ u = s ++ 0x22 :: r := by
  -- One step of a spelling is up to twelve bytes long.
  induction hlen : u.length using Nat.strongRecOn generalizing u t with
  | ind len ih =>
    obtain ⟨rfl, rfl⟩ | ⟨p, out, s, rest, hne, rfl, rfl, hs, hp⟩ := exists_spelled h
    · exact ⟨[], .nil, rfl⟩
    · have hlt : s.length < len := by
        have hpos := List.length_pos_iff.mpr hne
        rw [← hlen, List.length_append]
        omega
      obtain ⟨s, hspells, rfl⟩ := ih s.length hlt hs rfl
      exact ⟨p ++ s, hp hspells, (List.append_assoc p s _).symm⟩

theorem spells_of_quoted {k : Text} (h : quoted u = .ok (k, r)) :
    ∃ s, Spells s (Utf8.encode k) ∧ u = s ++ 0x22 :: r := by
  rw [quoted] at h
  split at h
  · cases h
  · next out u' hbytes =>
    split at h
    · next k' hsplit =>
      cases h
      have hout := Utf8.encode_split out
      rw [hsplit, List.append_nil] at hout
      rw [← hout] at hbytes
      exact spells_of_quotedBytes hbytes
    · cases h

end CallStrip.Json

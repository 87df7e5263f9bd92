import CallStrip.Proofs.Json.Meaning
import CallStrip.Proofs.Text.Pieces
import CallStrip.Workspace.Basic

/-!
Values written again. The text of a value without rounded numbers denotes the value, with no more
room than the value was read with, so that no two such values have one text.
-/

namespace CallStrip.Json

open Reader
open String (utf8EncodeChar)

variable {s t : Bytes} {d m n : Nat} {b : UInt8} {c : Char} {v v' : Value} {vs : List Value}
  {ms : List (Text × Value)} {x : Scalar} {R : Bytes → Value → Prop}

theorem decimal_concat (n : Nat) (ds : Bytes) (b : UInt8) :
    decimal n (ds ++ [b]) = decimal n ds * 10 + (b.toNat - 0x30) := by
  rw [decimal, List.foldl_append]
  rfl

theorem encode_digitChar : ∀ d < 10, Utf8.encode [d.digitChar] = [UInt8.ofNat (0x30 + d)] := by
  decide +kernel

theorem isDigit_ofNat : ∀ d < 10, isDigit (UInt8.ofNat (0x30 + d)) = true := by decide

theorem toNat_digit (hd : d < 10) : (UInt8.ofNat (0x30 + d)).toNat - 0x30 = d := by
  rw [Utf8.toNat_ofNat (by omega)]
  omega

theorem encode_ofNat_of_lt (h : n < 10) : Utf8.encode (Text.ofNat n) = [UInt8.ofNat (0x30 + n)] := by
  rw [Text.ofNat, Nat.toDigits_of_lt_base h, encode_digitChar n h]

theorem encode_ofNat_of_le (h : 10 ≤ n) : Utf8.encode (Text.ofNat n) =
    Utf8.encode (Text.ofNat (n / 10)) ++ [UInt8.ofNat (0x30 + n % 10)] := by
  rw [Text.ofNat, Nat.toDigits_of_base_le (by decide) h, Utf8.encode_append,
    encode_digitChar _ (Nat.mod_lt n (by decide)), Text.ofNat]

theorem decimal_ofNat (n : Nat) : decimal 0 (Utf8.encode (Text.ofNat n)) = n := by
  induction n using Nat.strongRecOn with
  | ind n ih =>
    by_cases hn : n < 10
    · rw [encode_ofNat_of_lt hn, ← List.nil_append [_], decimal_concat, toNat_digit hn]
      exact Nat.zero_add n
    · have hle := Nat.not_lt.mp hn
      rw [encode_ofNat_of_le hle, decimal_concat, ih _ (by omega),
        toNat_digit (Nat.mod_lt n (by decide))]
      exact Nat.div_add_mod' n 10

theorem digits_ofNat (n : Nat) : Digits (Utf8.encode (Text.ofNat n)) := by
  induction n using Nat.strongRecOn with
  | ind n ih =>
    by_cases hn : n < 10
    · rw [encode_ofNat_of_lt hn]
      exact digits_cons (isDigit_ofNat n hn) (List.forall_mem_nil _)
    · have hle := Nat.not_lt.mp hn
      obtain ⟨-, hdigits⟩ := ih (n / 10) (by omega)
      rw [encode_ofNat_of_le hle]
      refine ⟨by simp, fun b hb => ?_⟩
      rcases List.mem_append.mp hb with hb | hb
      · exact hdigits b hb
      · rw [List.mem_singleton.mp hb]
        exact isDigit_ofNat _ (Nat.mod_lt n (by decide))

theorem head?_ofNat (hn : 0 < n) : (Utf8.encode (Text.ofNat n)).head? ≠ some 0x30 := by
  induction n using Nat.strongRecOn with
  | ind n ih =>
    by_cases hlt : n < 10
    · rw [encode_ofNat_of_lt hlt, List.head?_cons]
      intro h
      have hzero := congrArg (fun b => b.toNat - 0x30) (Option.some.inj h)
      simp only [toNat_digit hlt] at hzero
      exact absurd hzero (Nat.ne_of_gt hn)
    · have hle := Nat.not_lt.mp hlt
      rw [encode_ofNat_of_le hle, List.head?_append_of_ne_nil _ (digits_ofNat (n / 10)).1]
      exact ih _ (by omega) (by omega)

theorem whole_ofNat (n : Nat) : Whole (Utf8.encode (Text.ofNat n)) := by
  cases n with
  | zero => exact .inl (encode_ofNat_of_lt (by decide))
  | succ n => exact .inr ⟨digits_ofNat _, head?_ofNat n.succ_pos⟩

theorem means_ofNat (h : n < twoTo 64) :
    Means (Utf8.encode (Number.whole n).render) (.number (.whole n)) := by
  have hdecimal := decimal_ofNat n
  have hmeans := Means.whole (whole_ofNat n) (hdecimal.symm ▸ h)
  rw [hdecimal] at hmeans
  have hrender : (Number.whole n).render = Text.ofNat n := by
    rw [Number.render, Text.ofInt, if_neg (Int.not_lt.mpr (Int.natCast_nonneg n))]
    rfl
  rwa [hrender]

theorem means_neg_ofNat (hpos : 0 < n) (hle : n ≤ twoTo 63) :
    Means (Utf8.encode (Number.whole (-n)).render) (.number (.whole (-n))) := by
  have hdecimal := decimal_ofNat n
  have hmeans := Means.negative (whole_ofNat n) (hdecimal.symm ▸ hpos) (hdecimal.symm ▸ hle)
  rw [hdecimal] at hmeans
  have hrender : (Number.whole (-n)).render = '-' :: Text.ofNat n := by
    rw [Number.render, Text.ofInt, if_pos (by omega), Int.natAbs_neg]
    rfl
  rwa [hrender]

theorem Spelled.of_plain (h : ∀ b ∈ s, b ≠ 0x22 ∧ b ≠ 0x5C ∧ ¬ b < 0x20) : Spelled s s := by
  intro r t hr
  induction s with
  | nil => exact hr
  | cons b s ih =>
    obtain ⟨⟨hquote, hescape, hlow⟩, hs⟩ := List.forall_mem_cons.mp h
    exact .plain hquote hescape hlow (ih hs)

theorem high_of_mem_encodeChar (hc : 0x80 ≤ c.toNat) (hb : b ∈ utf8EncodeChar c) :
    0x80 ≤ b.toNat := by
  have hmax := Utf8.toNat_lt c
  by_cases h2 : c.toNat < 0x800
  · rw [Utf8.encodeChar_two hc h2] at hb
    simp only [List.mem_cons, List.not_mem_nil, or_false] at hb
    rcases hb with rfl | rfl <;> rw [Utf8.toNat_ofNat (by omega)] <;> omega
  by_cases h3 : c.toNat < 0x10000
  · rw [Utf8.encodeChar_three (Nat.not_lt.mp h2) h3] at hb
    simp only [List.mem_cons, List.not_mem_nil, or_false] at hb
    rcases hb with rfl | rfl | rfl <;> rw [Utf8.toNat_ofNat (by omega)] <;> omega
  · rw [Utf8.encodeChar_four (Nat.not_lt.mp h3)] at hb
    simp only [List.mem_cons, List.not_mem_nil, or_false] at hb
    rcases hb with rfl | rfl | rfl | rfl <;> rw [Utf8.toNat_ofNat (by omega)] <;> omega

theorem spelled_self (hquote : c ≠ '"') (hescape : c ≠ '\\') (hlow : 0x20 ≤ c.toNat) :
    Spelled (utf8EncodeChar c) (utf8EncodeChar c) := by
  refine .of_plain fun b hb => ?_
  have hne (a : Char) (ha : a.toNat < 0x80) (hc : c ≠ a) : b ≠ UInt8.ofNat a.toNat := by
    rintro rfl
    by_cases hone : c.toNat < 0x80
    · rw [Utf8.encodeChar_one hone, List.mem_singleton] at hb
      have heq := congrArg UInt8.toNat hb
      rw [Utf8.toNat_ofNat (by omega), Utf8.toNat_ofNat (by omega)] at heq
      exact hc (Char.toNat_inj.mp heq.symm)
    · have hhigh := high_of_mem_encodeChar (Nat.not_lt.mp hone) hb
      rw [Utf8.toNat_ofNat (by omega)] at hhigh
      omega
  refine ⟨hne '"' (by decide) hquote, hne '\\' (by decide) hescape, ?_⟩
  rw [UInt8.not_lt, UInt8.le_iff_toNat_le]
  by_cases hone : c.toNat < 0x80
  · rw [Utf8.encodeChar_one hone, List.mem_singleton] at hb
    rw [hb, Utf8.toNat_ofNat (by omega)]
    exact hlow
  · exact Nat.le_trans (by decide) (high_of_mem_encodeChar (Nat.not_lt.mp hone) hb)

def hexByte (n : Nat) : UInt8 := UInt8.ofNat (hexDigit n).toNat

theorem encode_control : ∀ n < 0x20,
    Utf8.encode ("\\u00".toList ++ [hexDigit (n / 16), hexDigit (n % 16)]) =
      [0x5C, 0x75, 0x30, 0x30, hexByte (n / 16), hexByte (n % 16)] := by
  decide +kernel

theorem hexValue?_control : ∀ n < 0x20,
    hexValue? [hexByte (n % 16), hexByte (n / 16), 0x30, 0x30] = some n := by
  decide

theorem spelled_control (h : c.toNat < 0x20) :
    Spelled (Utf8.encode ("\\u00".toList ++ [hexDigit (c.toNat / 16), hexDigit (c.toNat % 16)]))
      (utf8EncodeChar c) := by
  intro s t hs
  have hhigh : ¬ IsHigh c.toNat := fun hhigh => absurd hhigh.1 (by omega)
  have hlow : ¬ IsLow c.toNat := fun hlow => absurd hlow.1 (by omega)
  have hspells := Spells.hex (hexValue?_control _ h) hhigh hlow hs
  rw [Char.ofNat_toNat] at hspells
  rw [encode_control _ h]
  exact hspells

theorem spelled_escape (c : Char) : Spelled (Utf8.encode (escape c)) (utf8EncodeChar c) := by
  unfold escape
  split_ifs with hquote hslash hback htab hline hfeed hreturn hcontrol
  · subst hquote
    exact fun _ _ => Spells.escape rfl
  · subst hslash
    exact fun _ _ => Spells.escape rfl
  · subst hback
    exact fun _ _ => Spells.escape rfl
  · subst htab
    exact fun _ _ => Spells.escape rfl
  · subst hline
    exact fun _ _ => Spells.escape rfl
  · subst hfeed
    exact fun _ _ => Spells.escape rfl
  · subst hreturn
    exact fun _ _ => Spells.escape rfl
  · exact spelled_control hcontrol
  · have hencode : Utf8.encode [c] = utf8EncodeChar c := List.append_nil _
    rw [hencode]
    exact spelled_self hquote hslash (Nat.not_lt.mp hcontrol)

theorem spells_flatMap_escape (t : Text) :
    Spells (Utf8.encode (t.flatMap escape)) (Utf8.encode t) := by
  induction t with
  | nil => exact .nil
  | cons c t ih =>
    rw [List.flatMap_cons, Utf8.encode_append, Utf8.encode_cons]
    exact spelled_escape c ih

theorem encode_quote (t : Text) :
    Utf8.encode (quote t) = 0x22 :: (Utf8.encode (t.flatMap escape) ++ [0x22]) := by
  rw [quote, List.cons_append, Utf8.encode_cons, Utf8.encode_append]
  rfl

theorem means_quote (t : Text) : Means (Utf8.encode (quote t)) (.text t) := by
  rw [encode_quote]
  exact .text (spells_flatMap_escape t)

def Number.Exact : Number → Prop
  | .whole i => -(twoTo 63 : Int) ≤ i ∧ i < twoTo 64
  | .real _ => False

inductive Value.Exact : Value → Prop
  | scalar {x : Scalar} : (∀ n, x = .number n → n.Exact) → Exact (.scalar x)
  | list {vs : List Value} : (∀ v ∈ vs, Exact v) → Exact (.list vs)
  | object {ms : List (Text × Value)} : (∀ m ∈ ms, Exact m.2) → Exact (.object ms)

theorem Means.render (h : Means s x) (hx : ∀ n, x = .number n → n.Exact) :
    Means (Utf8.encode x.render) x := by
  cases h with
  | null => exact .null
  | yes => exact .yes
  | no => exact .no
  | @text s t _ => exact means_quote t
  | whole _ hlt => exact means_ofNat hlt
  | negative _ hpos hle => exact means_neg_ofNat hpos hle
  | real _ _ => exact (hx _ rfl).elim

theorem ItemsDenote.mem {first : Bool} (h : ItemsDenote R first s vs) (hv : v ∈ vs) :
    ∃ s, R s v := by
  induction h with
  | close => cases hv
  | @item first g s t v' vs _ hv' _ ih =>
    rcases List.mem_cons.mp hv with rfl | hv
    · exact ⟨s, hv'⟩
    · exact ih hv

theorem MembersDenote.mem {first : Bool} (h : MembersDenote R first s ms) {m : Text × Value}
    (hm : m ∈ ms) : ∃ s, R s m.2 := by
  induction h with
  | close => cases hm
  | @member first k l s t v ms _ hv _ ih =>
    rcases List.mem_cons.mp hm with rfl | hm
    · exact ⟨s, hv⟩
    · exact ih hm

theorem renderItems_eq (vs : List Value) : renderItems vs = vs.map Value.render := by
  induction vs with
  | nil => rw [renderItems]; rfl
  | cons v vs ih => rw [renderItems, ih]; rfl

theorem renderMembers_eq (ms : List (Text × Value)) :
    renderMembers ms = ms.map fun m => quote m.1 ++ ':' :: m.2.render := by
  induction ms with
  | nil => rw [renderMembers]; rfl
  | cons m ms ih => rw [renderMembers, ih]; rfl

theorem itemsDenote_render (h : ∀ v ∈ vs, R (Utf8.encode v.render) v) :
    ItemsDenote R true (Utf8.encode (Text.join [','] (renderItems vs) ++ [']'])) vs := by
  rw [renderItems_eq]
  cases vs with
  | nil => exact .close blanks_nil
  | cons v vs =>
    obtain ⟨hv, hvs⟩ := List.forall_mem_cons.mp h
    rw [List.map_cons, Text.join_eq_flatMap, List.append_assoc, Utf8.encode_append]
    refine .item (g := []) (.first blanks_nil) hv ?_
    clear h hv
    induction vs with
    | nil => exact .close blanks_nil
    | cons w vs ih =>
      obtain ⟨hw, hvs⟩ := List.forall_mem_cons.mp hvs
      rw [List.map_cons, List.flatMap_cons, List.append_assoc, List.append_assoc,
        Utf8.encode_append, Utf8.encode_append]
      exact .item (.later (w := []) blanks_nil blanks_nil) hw (ih hvs)

theorem named_quote {first : Bool} {g : Bytes} (hg : Gap first g) (k : Text) :
    Named first k (g ++ Utf8.encode (quote k ++ [':'])) := by
  refine ⟨g, _, [], hg, spells_flatMap_escape k, blanks_nil, ?_⟩
  rw [Utf8.encode_append, encode_quote, List.cons_append, List.append_assoc]
  rfl

theorem membersDenote_render (h : ∀ m ∈ ms, R (Utf8.encode m.2.render) m.2) :
    MembersDenote R true (Utf8.encode (Text.join [','] (renderMembers ms) ++ ['\x7d'])) ms := by
  have hsplit (m : Text × Value) (t : Text) : Utf8.encode ((quote m.1 ++ ':' :: m.2.render) ++ t) =
      Utf8.encode (quote m.1 ++ [':']) ++ (Utf8.encode m.2.render ++ Utf8.encode t) := by
    rw [← Utf8.encode_append, ← Utf8.encode_append]
    simp
  rw [renderMembers_eq]
  cases ms with
  | nil => exact .close blanks_nil
  | cons m ms =>
    obtain ⟨hm, hms⟩ := List.forall_mem_cons.mp h
    rw [List.map_cons, Text.join_eq_flatMap, List.append_assoc, hsplit]
    refine .member (named_quote (g := []) (.first blanks_nil) m.1) hm ?_
    clear h hm
    induction ms with
    | nil => exact .close blanks_nil
    | cons l ms ih =>
      obtain ⟨hl, hms⟩ := List.forall_mem_cons.mp hms
      rw [List.map_cons, List.flatMap_cons, List.append_assoc, List.append_assoc,
        Utf8.encode_append, hsplit, ← List.append_assoc]
      exact .member (named_quote (.later (w := []) blanks_nil blanks_nil) l.1) hl (ih hms)

theorem denotes_render_scalar (h : Denotes d s (.scalar x)) (hx : (Value.scalar x).Exact) :
    Denotes d (Utf8.encode (Value.scalar x).render) (.scalar x) := by
  obtain ⟨w, t, -, -, ht⟩ := denotes_scalar.mp h
  cases hx with
  | scalar hx =>
    rw [Value.render]
    exact denotes_scalar.mpr ⟨[], _, rfl, blanks_nil, ht.render hx⟩

theorem Denotes.render (h : Denotes d s v) (hv : v.Exact) : Denotes d (Utf8.encode v.render) v := by
  induction d generalizing s v with
  | zero =>
    cases v with
    | scalar x => exact denotes_render_scalar h hv
    | list vs => cases h
    | object ms => cases h
  | succ d ih =>
    cases v with
    | scalar x => exact denotes_render_scalar h hv
    | list vs =>
      obtain ⟨w, t, rfl, -, ht⟩ := h
      cases hv with
      | list hvs =>
        have hitems : ∀ v ∈ vs, Denotes d (Utf8.encode v.render) v := by
          intro v hv
          obtain ⟨s, hs⟩ := ht.mem hv
          exact ih hs (hvs v hv)
        rw [Value.render, List.append_assoc]
        exact ⟨[], _, rfl, blanks_nil, itemsDenote_render hitems⟩
    | object ms =>
      obtain ⟨w, t, written, rfl, -, ht, hms⟩ := h
      cases hv with
      | object hall =>
        have hmembers : ∀ m ∈ ms, Denotes d (Utf8.encode m.2.render) m.2 := by
          intro m hm
          obtain ⟨s, hs⟩ := ht.mem (hms.mem hm)
          exact ih hs (hall m hm)
        rw [Value.render, List.append_assoc]
        exact ⟨[], _, ms, rfl, blanks_nil, membersDenote_render hmembers, hms.1.settles⟩

/-- The values that are reported as they stand in a document: numbers, lists and objects. -/
def Value.Formal : Value → Prop
  | .scalar (.number _) => True
  | .scalar _ => False
  | _ => True

theorem Value.Formal.plain_eq (h : v.Formal) : v.plain = v.render := by
  cases v with
  | scalar x => cases x <;> first | rfl | cases h
  | list vs => rfl
  | object ms => rfl

theorem Denotes.eq_of_plain (h : Denotes d s v) (h' : Denotes m t v') (hv : v.Exact)
    (hv' : v'.Exact) (hf : v.Formal) (hf' : v'.Formal) (heq : v.plain = v'.plain) : v = v' := by
  rw [hf.plain_eq, hf'.plain_eq] at heq
  have hrender := h.render hv
  rw [heq] at hrender
  exact hrender.unique (h'.render hv')

end CallStrip.Json

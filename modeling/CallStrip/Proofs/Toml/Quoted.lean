import CallStrip.Toml.Printer
import CallStrip.Toml.Reader

/-!
Quoted texts are read back: whatever a text holds, its quoted form is read as that text, up to the
last of its marks.
-/

namespace CallStrip.Toml

open Reader

namespace Quoting

variable {k : Quoting} {q q' q'' : QuoteState} {c : Char} {m : Nat} {r s t u v w out : Text}

def Holds (k : Quoting) (m : Nat) : Prop := m < 3 ∧ (k.block = false → m = 0)

def Reads (k : Quoting) (q : QuoteState) (w : Text) (q' : QuoteState) (out : Text) : Prop :=
  ∀ ⦃s t r⦄, k.readFrom q' s = .ok (t, r) → k.readFrom q (w ++ s) = .ok (out ++ t, r)

theorem Reads.nil (k : Quoting) (q : QuoteState) : k.Reads q [] q [] := fun _ _ _ h => h

theorem Reads.append (h : k.Reads q v q' t) (h' : k.Reads q' w q'' u) :
    k.Reads q (v ++ w) q'' (t ++ u) := by
  intro s x r hs
  rw [List.append_assoc, List.append_assoc]
  exact h (h' hs)

theorem reads_of_step (hends : k.ends q (some c) = false) (hstep : k.step q c = some (q', out)) :
    k.Reads q [c] q' out := by
  intro s t r hs
  rw [List.singleton_append, readFrom, if_neg (by simp [hends]), hstep]
  simp only [hs]
  rfl

theorem Holds.ends (h : k.Holds m) (c : Option Char) : k.ends (.plain m) c = false := by
  obtain ⟨hlt, hzero⟩ := h
  cases hb : k.block with
  | false => simp [Quoting.ends, hb, hzero hb]
  | true =>
    simp [Quoting.ends, hb]
    omega

theorem holds_zero (k : Quoting) : k.Holds 0 := ⟨by omega, fun _ => rfl⟩

theorem Holds.reads_step (h : k.Holds m) (hstep : k.stepPlain m c = some (q, out)) :
    k.Reads (.plain m) [c] q out :=
  reads_of_step (h.ends _) hstep

theorem isPlain_of_not_needsEscape (hline : c ≠ '\n') (h : needsEscape c = false) :
    isPlain c = true := by
  by_cases htab : c = '\t'
  · simp [isPlain, htab]
  · have hcontrol : isControl c = false := by simpa [needsEscape, htab, hline] using h
    simp only [isControl, Bool.or_eq_false_iff, decide_eq_false_iff_not, Nat.not_lt] at hcontrol
    simpa [isPlain, htab] using hcontrol

theorem ne_return_of_not_needsEscape (h : needsEscape c = false) : c ≠ '\r' := by
  rintro rfl
  exact absurd h (by decide)

theorem Holds.reads_self (h : k.Holds m) (hmark : c ≠ k.mark) (hslash : k.escapes = true → c ≠ '\\')
    (hline : c = '\n' → k.block = true) (hplain : needsEscape c = false) :
    k.Reads (.plain m) [c] (.plain 0) (List.replicate m k.mark ++ [c]) := by
  refine h.reads_step ?_
  have hslash' : (decide (c = '\\') && k.escapes) = false := by
    rw [Bool.and_eq_false_iff, decide_eq_false_iff_not]
    cases he : k.escapes with
    | false => exact .inr rfl
    | true => exact .inl (hslash he)
  rw [stepPlain, if_neg hmark, hslash']
  by_cases hc : c = '\n'
  · simp [hc, hline hc]
  · simp [hc, ne_return_of_not_needsEscape hplain, isPlain_of_not_needsEscape hc hplain]

theorem Holds.reads_mark (h : k.Holds m) : k.Reads (.plain m) [k.mark] (.plain (m + 1)) [] :=
  h.reads_step (by rw [stepPlain, if_pos rfl])

theorem Holds.reads_escape (h : k.Holds m) (hk : k.mark = '"') :
    k.Reads (.plain m) ['\\'] .escape (List.replicate m k.mark) := by
  refine h.reads_step ?_
  simp [stepPlain, hk, escapes]

theorem reads_short {e : Char} (h : shortEscape? c = some e) : k.Reads .escape [c] (.plain 0) [e] :=
  reads_of_step rfl (by simp only [step, h])

theorem hexDigit?_digitChar :
    ∀ d < 16, hexDigit? (Nat.digitChar d).toUpper = some d := by decide

theorem reads_hex {left value d : Nat} (hleft : left ≠ 1) (h : hexDigit? c = some d) :
    k.Reads (.hex left value) [c] (.hex (left - 1) (value * 16 + d)) [] :=
  reads_of_step rfl (by simp [step, h, hleft])

theorem reads_hex_last {value d : Nat} {x : Char} (h : hexDigit? c = some d)
    (hx : char? (value * 16 + d) = some x) : k.Reads (.hex 1 value) [c] (.plain 0) [x] :=
  reads_of_step rfl (by simp [step, h, hx])

theorem char?_toNat (c : Char) : char? c.toNat = some c := by
  have hvalid : c.toNat.isValidChar := c.valid
  rw [char?, dif_pos hvalid]
  rfl

theorem reads_control (h : isControl c = true) :
    k.Reads .escape ("u00".toList ++ hexPair c.toNat) (.plain 0) [c] := by
  have hlt : c.toNat < 0x80 := by
    simp only [isControl, Bool.or_eq_true, decide_eq_true_eq, beq_iff_eq] at h
    omega
  have hu : k.Reads .escape ['u'] (.hex 4 0) [] := reads_of_step rfl rfl
  have h0 : hexDigit? '0' = some 0 := by decide
  have hhigh := hexDigit?_digitChar (c.toNat / 16) (by omega)
  have hlow := hexDigit?_digitChar (c.toNat % 16) (by omega)
  have hvalue : ((0 * 16 + 0) * 16 + 0) * 16 + c.toNat / 16 = c.toNat / 16 := by omega
  have hchar : char? (c.toNat / 16 * 16 + c.toNat % 16) = some c := by
    rw [Nat.div_add_mod']
    exact char?_toNat c
  have hhex : k.Reads (.hex 4 0) _ (.plain 0) _ :=
    (reads_hex (by decide) h0).append <| (reads_hex (by decide) h0).append <|
      (reads_hex (by decide) hhigh).append <| reads_hex_last hlow (by rw [hvalue, hchar])
  exact hu.append hhex

theorem Holds.reads_escapeChar (h : k.Holds m) (hk : k.mark = '"') (c : Char) :
    k.Reads (.plain m) (escapeChar c) (.plain 0) (List.replicate m k.mark ++ [c]) := by
  have short {e : Char} (he : shortEscape? e = some c) :
      k.Reads (.plain m) ['\\', e] (.plain 0) (List.replicate m k.mark ++ [c]) :=
    (h.reads_escape hk).append (reads_short he)
  unfold escapeChar
  split
  · next hc =>
    have hself : c = '"' ∨ c = '\\' := by simpa using hc
    exact short (by rcases hself with rfl | rfl <;> rfl)
  split
  · next hc => exact short (by rw [hc]; rfl)
  split
  · next hc => exact short (by rw [hc]; rfl)
  split
  · next hc => exact short (by rw [hc]; rfl)
  split
  · next hc => exact short (by rw [hc]; rfl)
  split
  · next hc => exact short (by rw [hc]; rfl)
  split
  · next hc => exact (h.reads_escape hk).append (reads_control hc)
  · next hself _ _ _ _ _ hc =>
    obtain ⟨hmark, hslash⟩ : c ≠ '"' ∧ c ≠ '\\' := by simpa using hself
    have hneeds : needsEscape c = false := by simp [needsEscape, hc]
    have hline : c ≠ '\n' := by rintro rfl; exact hc rfl
    exact h.reads_self (hk ▸ hmark) (fun _ => hslash) (fun h => absurd h hline) hneeds

def ReadsAll (k : Quoting) (m : Nat) (w t : Text) : Prop :=
  ∃ m' out, k.Holds m' ∧ k.Reads (.plain m) w (.plain m') out ∧
    out ++ List.replicate m' k.mark = List.replicate m k.mark ++ t

theorem Holds.readsAll_nil (h : k.Holds m) : k.ReadsAll m [] [] :=
  ⟨m, [], h, .nil k _, by simp⟩

theorem ReadsAll.self (h : k.ReadsAll 0 w t)
    (hc : k.Reads (.plain m) v (.plain 0) (List.replicate m k.mark ++ [c])) :
    k.ReadsAll m (v ++ w) (c :: t) := by
  obtain ⟨m', out, hm', hreads, hout⟩ := h
  refine ⟨m', _, hm', hc.append hreads, ?_⟩
  rw [List.append_assoc, hout]
  simp

theorem ReadsAll.mark (h : k.ReadsAll (m + 1) w t)
    (hc : k.Reads (.plain m) [k.mark] (.plain (m + 1)) []) :
    k.ReadsAll m (k.mark :: w) (k.mark :: t) := by
  obtain ⟨m', out, hm', hreads, hout⟩ := h
  refine ⟨m', out, hm', hc.append hreads, ?_⟩
  rw [hout, List.replicate_succ', List.append_assoc]
  rfl

theorem Holds.readsAll_escapeFrom (h : k.Holds m) (hk : k.mark = '"') (t : Text) :
    k.ReadsAll m (escapeFrom k.block m t) t := by
  induction t generalizing m with
  | nil => exact h.readsAll_nil
  | cons c t ih =>
    rw [escapeFrom]
    split
    -- A mark stands bare while fewer than two do in front of it.
    · next hc =>
      simp only [Bool.and_eq_true, decide_eq_true_eq] at hc
      obtain ⟨⟨hblock, rfl⟩, hm⟩ := hc
      have hnext : k.Holds (m + 1) := ⟨by omega, fun hb => by simp [hblock] at hb⟩
      exact hk ▸ (ih hnext).mark h.reads_mark
    split
    · next hc =>
      simp only [Bool.and_eq_true, decide_eq_true_eq] at hc
      obtain ⟨hblock, rfl⟩ := hc
      refine (ih k.holds_zero).self (v := ['\n']) ?_
      exact h.reads_self (by rw [hk]; decide) (fun _ => by decide) (fun _ => hblock) rfl
    · exact (ih k.holds_zero).self (h.reads_escapeChar hk c)

def Bare (k : Quoting) (m : Nat) (t : Text) : Prop :=
  (∀ c ∈ t, needsEscape c = false) ∧ (k.block = false → '\n' ∉ t ∧ k.mark ∉ t) ∧
    (k.block = true → ¬ List.replicate 3 k.mark <:+: List.replicate m k.mark ++ t)

theorem Holds.readsAll_bare (h : k.Holds m) (hk : k.escapes = false) (ht : k.Bare m t) :
    k.ReadsAll m t t := by
  induction t generalizing m with
  | nil => exact h.readsAll_nil
  | cons c t ih =>
    obtain ⟨hneeds, hline, hmarks⟩ := ht
    obtain ⟨hc, hrest⟩ := List.forall_mem_cons.mp hneeds
    by_cases hmark : c = k.mark
    · subst hmark
      have hblock : k.block = true := by
        cases hb : k.block with
        | true => rfl
        | false => exact absurd List.mem_cons_self (hline hb).2
      have hjoin : List.replicate m k.mark ++ k.mark :: t = List.replicate (m + 1) k.mark ++ t := by
        rw [List.replicate_succ', List.append_assoc]
        rfl
      have hnext : k.Holds (m + 1) := by
        refine ⟨Nat.lt_of_not_le fun hm => hmarks hblock ?_, fun hb => by simp [hblock] at hb⟩
        have hthree : m + 1 = 3 := by have := h.1; omega
        rw [hjoin, hthree]
        exact List.infix_append' [] _ _
      refine (ih hnext ⟨hrest, fun hb => by simp [hblock] at hb, fun _ => ?_⟩).mark h.reads_mark
      exact hjoin ▸ hmarks hblock
    · refine (ih k.holds_zero ⟨hrest, fun hb => ?_, fun hb hi => hmarks hb ?_⟩).self (v := [c]) ?_
      · exact ⟨fun hn => (hline hb).1 (List.mem_cons_of_mem c hn),
          fun hn => (hline hb).2 (List.mem_cons_of_mem c hn)⟩
      · exact hi.trans ((List.suffix_cons c t).isInfix.trans (List.suffix_append _ _).isInfix)
      · refine h.reads_self hmark (fun he => by simp [hk] at he) (fun hn => ?_) hc
        cases hb : k.block with
        | true => rfl
        | false => exact absurd (hn ▸ List.mem_cons_self) (hline hb).1

theorem readFrom_of_ends (h : k.ends q r.head? = true) : k.readFrom q r = .ok (k.left q, r) := by
  cases r with
  | nil => exact if_pos h
  | cons c r => exact if_pos h

theorem reads_end_mark (hblock : k.block = true) (hm : m < 5) :
    k.Reads (.plain m) [k.mark] (.plain (m + 1)) [] := by
  refine reads_of_step ?_ (by rw [step, stepPlain, if_pos rfl])
  simp [Quoting.ends, hblock]
  omega

theorem Holds.readFrom_marks (h : k.Holds m) (hr : r.head? ≠ some k.mark) :
    k.readFrom (.plain m) (k.marks ++ r) = .ok (List.replicate m k.mark, r) := by
  cases hb : k.block with
  | false =>
    obtain rfl := h.2 hb
    have hend : k.readFrom (.plain 1) r = .ok ([], r) := by
      rw [readFrom_of_ends (by simp [Quoting.ends, hb])]
      simp [left, hb]
    rw [marks, hb]
    exact h.reads_mark hend
  | true =>
    have hlt := h.1
    have hend : k.readFrom (.plain (m + 3)) r = .ok (List.replicate m k.mark, r) := by
      rw [readFrom_of_ends (by simp [Quoting.ends, hb, hr])]
      simp [left, hb]
    have hthree := (h.reads_mark.append (reads_end_mark hb (by omega))).append
      (reads_end_mark hb (by omega : m + 1 + 1 < 5)) hend
    rw [marks, hb]
    exact hthree

theorem ReadsAll.readFrom (h : k.ReadsAll 0 w t) (hr : r.head? ≠ some k.mark) :
    k.readFrom (.plain 0) (w ++ (k.marks ++ r)) = .ok (t, r) := by
  obtain ⟨m, out, hm, hreads, hout⟩ := h
  rw [hreads (hm.readFrom_marks hr), hout]
  simp

def body (k : Quoting) (t : Text) : Text := if k.escapes then escapeFrom k.block 0 t else t

theorem write_eq (k : Quoting) (t : Text) :
    k.write t =
      k.marks ++ (if k.block && t.contains '\n' then ['\n'] else []) ++ k.body t ++ k.marks :=
  rfl

def Fits (k : Quoting) (t : Text) : Prop := k.mark = '"' ∨ k.mark = '\'' ∧ k.Bare 0 t

theorem Fits.readsAll (h : k.Fits t) : k.ReadsAll 0 (k.body t) t := by
  rcases h with hk | ⟨hk, ht⟩
  · rw [body, if_pos (by simp [escapes, hk])]
    exact k.holds_zero.readsAll_escapeFrom hk t
  · have hescapes : k.escapes = false := by simp [escapes, hk]
    rw [body, hescapes]
    exact k.holds_zero.readsAll_bare hescapes ht

def Inside (c : Char) : Prop := c ≠ '\n' ∧ c ≠ '\r'

instance (c : Char) : Decidable (Inside c) := inferInstanceAs (Decidable (_ ∧ _))

theorem head?_escapeChar_append {d : Char} (h : (escapeChar c ++ s).head? = some d) :
    d = '\\' ∨ d = c ∧ c ≠ '"' ∧ Inside c := by
  unfold escapeChar at h
  repeat' split at h
  case isFalse hself _ _ _ _ _ hcontrol =>
    obtain rfl : c = d := by simpa using h
    have hquote : c ≠ '"' := by
      rintro rfl
      exact hself rfl
    exact .inr ⟨rfl, hquote, by constructor <;> rintro rfl <;> exact hcontrol rfl⟩
  all_goals exact .inl (by simpa using h.symm)

theorem Fits.inside_body (h : k.Fits t) (ht : '\n' ∉ t) : ∀ c ∈ (k.body t).head?, Inside c := by
  intro c hc
  rcases h with hk | ⟨hk, hbare, -, -⟩
  · rw [body, if_pos (by simp [escapes, hk])] at hc
    cases t with
    | nil => simp [escapeFrom] at hc
    | cons d t =>
      obtain ⟨hd, -⟩ : '\n' ≠ d ∧ '\n' ∉ t := by simpa using ht
      rw [escapeFrom] at hc
      split at hc
      · next hmark =>
        obtain rfl : d = c := by simpa using hc
        have hquote : d = '"' := by simp at hmark; exact hmark.2
        rw [hquote]
        decide
      · rw [if_neg (by simp [Ne.symm hd])] at hc
        obtain rfl | ⟨rfl, -, hinside⟩ := head?_escapeChar_append hc
        · decide
        · exact hinside
  · rw [body, if_neg (by simp [escapes, hk])] at hc
    have hmem : c ∈ t := List.mem_of_mem_head? hc
    exact ⟨fun hn => ht (hn ▸ hmem), ne_return_of_not_needsEscape (hbare c hmem)⟩

theorem Fits.head_body_ne (h : k.Fits t) (hb : k.block = false) :
    (k.body t).head? ≠ some k.mark := by
  intro hmark
  rcases h with hk | ⟨hk, -, hbare, -⟩
  · rw [body, if_pos (by simp [escapes, hk]), hb, hk] at hmark
    cases t with
    | nil => simp [escapeFrom] at hmark
    | cons c t =>
      simp only [escapeFrom, Bool.false_and, Bool.false_eq_true, if_false] at hmark
      obtain hslash | ⟨rfl, hne, -⟩ := head?_escapeChar_append hmark
      · exact absurd hslash (by decide)
      · exact hne rfl
  · rw [body, if_neg (by simp [escapes, hk])] at hmark
    exact (hbare hb).2 (List.mem_of_mem_head? hmark)

end Quoting

theorem dropLineEnd_of_inside {s : Text} (h : ∀ c ∈ s.head?, Quoting.Inside c) :
    dropLineEnd s = s := by
  unfold dropLineEnd
  split
  · exact absurd rfl (h _ rfl).1
  · exact absurd rfl (h _ rfl).2
  · rfl

theorem quoted_of_single {mark : Char} {s : Text}
    (h : s.head? = some mark → s.tail.head? ≠ some mark) :
    quoted mark true s = Quoting.readFrom ⟨mark, false⟩ (.plain 0) s := by
  unfold quoted
  split
  · next a b r =>
    have hne : ¬ (true && decide (a = mark) && decide (b = mark)) = true := by simpa using h
    rw [if_neg hne]
  · rfl

theorem quoted_block (mark : Char) (s : Text) :
    quoted mark true (mark :: mark :: s) =
      Quoting.readFrom ⟨mark, true⟩ (.plain 0) (dropLineEnd s) := by
  simp [quoted]

variable {k : Quoting} {t : Text}

theorem quoted_write (h : k.Fits t) :
    ∃ s, k.write t = k.mark :: s ∧
      ∀ r, r.head? ≠ some k.mark → quoted k.mark true (s ++ r) = .ok (t, r) := by
  obtain ⟨mark, block⟩ := k
  rw [Quoting.write_eq]
  cases block with
  | false =>
    refine ⟨Quoting.body ⟨mark, false⟩ t ++ [mark], by simp [Quoting.marks], fun r hr => ?_⟩
    have hread := h.readsAll.readFrom hr
    rw [List.append_assoc, quoted_of_single]
    · exact hread
    · have hhead := h.head_body_ne rfl
      cases hbody : Quoting.body ⟨mark, false⟩ t with
      | nil => simpa using hr
      | cons c s => rw [hbody] at hhead; simp_all
  | true =>
    refine ⟨mark :: mark :: ((if t.contains '\n' then ['\n'] else []) ++
      Quoting.body ⟨mark, true⟩ t ++ Quoting.marks ⟨mark, true⟩), by simp [Quoting.marks],
      fun r hr => ?_⟩
    have hread := h.readsAll.readFrom hr
    have hdrop : dropLineEnd ((if t.contains '\n' then ['\n'] else []) ++
        Quoting.body ⟨mark, true⟩ t ++ Quoting.marks ⟨mark, true⟩ ++ r) =
          Quoting.body ⟨mark, true⟩ t ++ (Quoting.marks ⟨mark, true⟩ ++ r) := by
      split
      · simp [dropLineEnd]
      · next hline =>
        rw [List.nil_append, List.append_assoc]
        have hbody := h.inside_body (by simpa using hline)
        refine dropLineEnd_of_inside fun c hc => ?_
        cases hs : Quoting.body ⟨mark, true⟩ t with
        | nil =>
          obtain rfl : mark = c := by simpa [hs, Quoting.marks, List.replicate] using hc
          rcases h with hk | ⟨hk, -⟩ <;> rw [show mark = _ from hk] <;> decide
        | cons d s =>
          obtain rfl : d = c := by simpa [hs] using hc
          exact hbody d (by rw [hs]; rfl)
    rw [List.cons_append, List.cons_append, quoted_block, hdrop]
    exact hread

theorem fits_quotingFor (t : Text) : (quotingFor t).Fits t := by
  unfold quotingFor
  extract_lets plain broken slash
  have hplain (h : plain = true) : ∀ c ∈ t, needsEscape c = false := by simpa [plain] using h
  split
  · exact .inl rfl
  split
  · next h =>
    simp only [Bool.and_eq_true, Bool.not_eq_true'] at h
    obtain ⟨⟨hp, hb⟩, hm⟩ := h
    refine .inr ⟨rfl, hplain hp, fun _ => ⟨?_, ?_⟩, by simp⟩
    · simpa [broken] using hb
    · simpa using hm
  split
  · exact .inl rfl
  split
  · next h =>
    simp only [Bool.and_eq_true, Bool.not_eq_true'] at h
    obtain ⟨hp, hm⟩ := h
    refine .inr ⟨rfl, hplain hp, by simp, fun _ hi => ?_⟩
    exact Bool.false_ne_true (hm.symm.trans (Text.occurs_iff.mpr hi))
  · exact .inl rfl

end CallStrip.Toml

import CallStrip.Proofs.Toml.Quoted

/-!
Documents of plain assignments and headers: the values, the lines and the statements that are
written are read back.
-/

namespace CallStrip.Toml

open Reading (bind_ok map_ok)
open Reader

variable {item : Reader Item} {h : Reading.Shrinks item} {s t u r field : Text} {c d : Char}
  {v : Item} {vs : List Item}

def Solid (c : Char) : Prop := isBlank c = false ∧ c ≠ '\n' ∧ c ≠ '\r' ∧ c ≠ '#'

instance (c : Char) : Decidable (Solid c) := inferInstanceAs (Decidable (_ ∧ _))

theorem dropGap_solid (h : Solid c) (s : Text) : dropGap false (c :: s) = some (c :: s) := by
  obtain ⟨hblank, hline, hreturn, hcomment⟩ := h
  rw [dropGap.eq_def]
  split <;> simp_all

theorem gap_solid (h : Solid c) (s : Text) : gap (c :: s) = .ok ((), c :: s) := by
  rw [gap, dropGap_solid h]

theorem gap_line (s : Text) : gap ('\n' :: s) = gap s := by
  rw [gap, gap, dropGap]

theorem gap_indent (h : Solid c) (s : Text) :
    gap ('\n' :: ' ' :: ' ' :: ' ' :: ' ' :: c :: s) = .ok ((), c :: s) := by
  have hblank : isBlank ' ' = true := rfl
  simp [gap, dropGap, hblank, dropGap_solid h]

def Unquoted (r : Text) : Prop := r.head? ≠ some '"' ∧ r.head? ≠ some '\''

theorem exists_quote (t : Text) :
    ∃ mark s, quote t = mark :: s ∧ (mark = '"' ∨ mark = '\'') ∧
      ∀ r, Unquoted r → quoted mark true (s ++ r) = .ok (t, r) := by
  have hfits := fits_quotingFor t
  obtain ⟨s, hs, hread⟩ := quoted_write hfits
  have hmark : (quotingFor t).mark = '"' ∨ (quotingFor t).mark = '\'' := hfits.imp_right And.left
  refine ⟨_, s, hs, hmark, fun r hr => hread r ?_⟩
  rcases hmark with hmark | hmark
  · exact hmark ▸ hr.1
  · exact hmark ▸ hr.2

theorem valueReader_quote (depth : Nat) (t : Text) (hr : Unquoted r) :
    (valueReader depth).1 (quote t ++ r) = .ok (.text t, r) := by
  obtain ⟨mark, s, hs, hmark, hread⟩ := exists_quote t
  have hsimple : simple (mark :: (s ++ r)) = .ok (.text t, r) := by
    have hm : (decide (mark = '"') || decide (mark = '\'')) = true := by simpa using hmark
    rw [simple, if_pos hm]
    exact map_ok (hread r hr)
  rw [hs, List.cons_append]
  cases depth with
  | zero => exact hsimple
  | succ depth => rcases hmark with rfl | rfl <;> exact hsimple

theorem solid_of_mark (h : c = '"' ∨ c = '\'') : Solid c := by
  rcases h with rfl | rfl <;> decide

theorem listItems_end (hend : listEnds s = .ok (true, r)) : listItems item h s = .ok ([], r) := by
  rw [listItems]
  split <;> simp_all

theorem listItems_step (hend : listEnds s = .ok (false, t))
    (hitem : itemStep item t = .ok ((v, c), u)) :
    listItems item h s =
      if c = ']' then .ok ([v], u)
      else if c = ',' then
        match listItems item h u with
        | .error e => .error e
        | .ok (vs, r) => .ok (v :: vs, r)
      else .error () := by
  rw [listItems]
  split
  · next he => rw [hend] at he; cases he
  · next he => rw [hend] at he; cases he
  · next ht =>
    rw [hend] at ht
    cases ht
    split
    · next he => rw [hitem] at he; cases he
    · next hv => rw [hitem] at hv; cases hv; rfl

theorem listEnds_solid (hc : Solid c) (hne : c ≠ ']') (s : Text) :
    listEnds (c :: s) = .ok (false, c :: s) := by
  rw [listEnds, bind_ok (gap_solid hc s), takes, if_neg hne]

theorem listEnds_indent (hc : Solid c) (hne : c ≠ ']') (s : Text) :
    listEnds ('\n' :: ' ' :: ' ' :: ' ' :: ' ' :: c :: s) = .ok (false, c :: s) := by
  rw [listEnds, bind_ok (gap_indent hc s), takes, if_neg hne]

theorem itemStep_quote (depth : Nat) (t : Text) (hd : Solid d) (hunquoted : Unquoted (d :: r)) :
    itemStep (valueReader depth).1 (quote t ++ d :: r) = .ok ((.text t, d), r) := by
  rw [itemStep, bind_ok (valueReader_quote depth t hunquoted), bind_ok (gap_solid hd r)]
  rfl

theorem listEnds_quote (t r : Text) : listEnds (quote t ++ r) = .ok (false, quote t ++ r) := by
  obtain ⟨mark, s, hs, hmark, -⟩ := exists_quote t
  have hne : mark ≠ ']' := by rcases hmark with rfl | rfl <;> decide
  rw [hs]
  exact listEnds_solid (solid_of_mark hmark) hne _

theorem listEnds_indent_quote (t r : Text) :
    listEnds ('\n' :: ("    ".toList ++ (quote t ++ r))) = .ok (false, quote t ++ r) := by
  obtain ⟨mark, s, hs, hmark, -⟩ := exists_quote t
  have hne : mark ≠ ']' := by rcases hmark with rfl | rfl <;> decide
  rw [hs]
  exact listEnds_indent (solid_of_mark hmark) hne _

theorem listEnds_line (s : Text) : listEnds ('\n' :: s) = listEnds s := by
  simp only [listEnds, bind, StateT.bind, gap_line]

theorem listEnds_bracket (r : Text) : listEnds (']' :: r) = .ok (true, r) := by
  rw [listEnds, bind_ok (gap_solid (by decide) r)]
  rfl

def listLines (ts : List Text) : Text :=
  ts.flatMap fun t => "    ".toList ++ quote t ++ ",\n".toList

theorem listLines_cons (t : Text) (ts : List Text) (s : Text) :
    listLines (t :: ts) ++ s = "    ".toList ++ (quote t ++ ',' :: '\n' :: (listLines ts ++ s)) := by
  simp [listLines]

theorem listItems_lines (depth : Nat) (ts : List Text) (r : Text) :
    listItems (valueReader depth).1 (valueReader depth).2 ('\n' :: (listLines ts ++ ']' :: r)) =
      .ok (ts.map .text, r) := by
  induction ts with
  | nil => exact listItems_end ((listEnds_line _).trans (listEnds_bracket r))
  | cons t ts ih =>
    have hstep := itemStep_quote depth t (d := ',') (r := '\n' :: (listLines ts ++ ']' :: r))
      (by decide) ⟨by simp, by simp⟩
    rw [listLines_cons, listItems_step (listEnds_indent_quote t _) hstep, if_neg (by decide),
      if_pos rfl, ih]
    rfl

theorem listItems_writeList (depth : Nat) (ts : List Text) (r : Text) :
    ∃ s, writeList ts = '[' :: s ∧
      listItems (valueReader depth).1 (valueReader depth).2 (s ++ r) = .ok (ts.map .text, r) := by
  match ts with
  | [] => exact ⟨[']'], rfl, listItems_end (listEnds_bracket r)⟩
  | [t] =>
    refine ⟨quote t ++ [']'], rfl, ?_⟩
    have hstep := itemStep_quote depth t (d := ']') (r := r) (by decide) ⟨by simp, by simp⟩
    rw [List.append_assoc, List.singleton_append, listItems_step (listEnds_quote t _) hstep,
      if_pos rfl]
    rfl
  | t :: u :: ts =>
    refine ⟨'\n' :: (listLines (t :: u :: ts) ++ [']']), rfl, ?_⟩
    rw [List.cons_append, List.append_assoc]
    exact listItems_lines depth (t :: u :: ts) r

theorem valueReader_writeList (depth : Nat) (ts : List Text) (r : Text) :
    (valueReader (depth + 1)).1 (writeList ts ++ r) = .ok (.list (ts.map .text), r) := by
  obtain ⟨s, hs, hread⟩ := listItems_writeList depth ts r
  rw [hs]
  exact map_ok hread

def IsKey (field : Text) : Prop := field ≠ [] ∧ ∀ c ∈ field, isKeyChar c = true

instance (field : Text) : Decidable (IsKey field) :=
  decidable_of_iff ((!field.isEmpty && field.all isKeyChar) = true) (by simp [IsKey])

theorem solid_of_isKeyChar (h : isKeyChar c = true) : Solid c := by
  refine ⟨?_, ?_, ?_, ?_⟩
  · rw [← Bool.not_eq_true]
    intro hblank
    have hc : c = ' ' ∨ c = '\t' := by simpa [isBlank] using hblank
    rcases hc with rfl | rfl <;> exact absurd h (by decide)
  all_goals rintro rfl; exact absurd h (by decide)

theorem keyPart_field (hf : IsKey field) (hr : ∀ c ∈ r.head?, isKeyChar c = false) :
    keyPart (field ++ r) = .ok (field, r) := by
  obtain ⟨hne, hkey⟩ := hf
  cases field with
  | nil => exact absurd rfl hne
  | cons c field =>
    obtain ⟨hc, hfield⟩ := List.forall_mem_cons.mp hkey
    have hquote : ¬ (decide (c = '"') || decide (c = '\'')) = true := by
      intro hquote
      have hmark : c = '"' ∨ c = '\'' := by simpa using hquote
      rcases hmark with rfl | rfl <;> exact absurd hc (by decide)
    have hnext : next (c :: field ++ r) = .ok (c, field ++ r) := rfl
    have htake : (field ++ r).takeWhile isKeyChar = field := by
      rw [List.takeWhile_append_of_pos hfield]
      cases r with
      | nil => simp
      | cons d r => simp [hr d rfl]
    have hdrop : (field ++ r).dropWhile isKeyChar = r := by
      rw [List.dropWhile_append_of_pos hfield]
      cases r with
      | nil => rfl
      | cons d r => simp [hr d rfl]
    rw [keyPart, bind_ok hnext, if_neg hquote, if_pos hc]
    simp only [htake, hdrop]

theorem IsKey.head (hf : IsKey field) : ∃ c s, field = c :: s ∧ isKeyChar c = true := by
  obtain ⟨hne, hkey⟩ := hf
  cases field with
  | nil => exact absurd rfl hne
  | cons c s => exact ⟨c, s, rfl, hkey c List.mem_cons_self⟩

theorem blanks_of_head (h : ∀ c ∈ r.head?, isBlank c = false) : blanks r = .ok ((), r) := by
  cases r with
  | nil => rfl
  | cons c r => rw [blanks, List.dropWhile_cons_of_neg (by simp [h c rfl])]

theorem keyStep_field (hf : IsKey field) (hr : ∀ c ∈ r.head?, isKeyChar c = false)
    (hdrop : r.dropWhile isBlank = d :: s) (hd : d ≠ '.') :
    keyStep (field ++ r) = .ok ((field, false), d :: s) := by
  have hhead : ∀ c ∈ (field ++ r).head?, isBlank c = false := by
    obtain ⟨c, t, rfl, hc⟩ := hf.head
    simpa using (solid_of_isKeyChar hc).1
  have hblanks : blanks r = .ok ((), d :: s) := by rw [blanks, hdrop]
  rw [keyStep, bind_ok (blanks_of_head hhead), bind_ok (keyPart_field hf hr), bind_ok hblanks,
    bind_ok (v := false) (t := d :: s) (by rw [takes, if_neg hd])]
  rfl

theorem key_field (hf : IsKey field) (hr : ∀ c ∈ r.head?, isKeyChar c = false)
    (hdrop : r.dropWhile isBlank = d :: s) (hd : d ≠ '.') :
    key (field ++ r) = .ok (([], field), d :: s) := by
  have hparts : (keyParts : Reader (List Text)) (field ++ r) = .ok ([field], d :: s) := by
    rw [keyParts]
    split <;> simp_all [keyStep_field hf hr hdrop hd]
  rw [key, bind_ok hparts]
  rfl

theorem lineEnd_line (s : Text) : lineEnd ('\n' :: s) = .ok ((), s) := rfl

def Spells (v : Item) (w : Text) : Prop :=
  (∃ c t, w = c :: t ∧ isBlank c = false) ∧ ∀ s, value (w ++ '\n' :: s) = .ok (v, '\n' :: s)

theorem spells_quote (t : Text) : Spells (.text t) (quote t) := by
  obtain ⟨mark, s, hs, hmark, -⟩ := exists_quote t
  exact ⟨⟨mark, s, hs, (solid_of_mark hmark).1⟩,
    fun s => valueReader_quote depthLimit t ⟨by simp, by simp⟩⟩

theorem spells_writeList (ts : List Text) : Spells (.list (ts.map .text)) (writeList ts) := by
  obtain ⟨s, hs, -⟩ := listItems_writeList 0 ts []
  exact ⟨⟨'[', s, hs, rfl⟩, fun s => valueReader_writeList 78 ts ('\n' :: s)⟩

theorem statement_assignment {w : Text} (hf : IsKey field) (hw : Spells v w) (s : Text) :
    statement (field ++ " = ".toList ++ w ++ ['\n'] ++ s) = .ok (.assign ⟨[], field, v⟩, s) := by
  have hsplit : field ++ " = ".toList ++ w ++ ['\n'] ++ s =
      field ++ ' ' :: '=' :: ' ' :: (w ++ '\n' :: s) := by simp
  have htakes : takes '[' (field ++ ' ' :: '=' :: ' ' :: (w ++ '\n' :: s)) =
      .ok (false, field ++ ' ' :: '=' :: ' ' :: (w ++ '\n' :: s)) := by
    obtain ⟨c, t, rfl, hc⟩ := hf.head
    have hopen : c ≠ '[' := by rintro rfl; exact absurd hc (by decide)
    rw [List.cons_append, takes, if_neg hopen]
  have hkey := key_field (r := ' ' :: '=' :: ' ' :: (w ++ '\n' :: s)) (d := '=')
    (s := ' ' :: (w ++ '\n' :: s)) hf (by simpa using (by decide : isKeyChar ' ' = false)) rfl
    (by decide)
  have hexpect :
      expect '=' ('=' :: ' ' :: (w ++ '\n' :: s)) = .ok ((), ' ' :: (w ++ '\n' :: s)) := rfl
  have hblanks : blanks (' ' :: (w ++ '\n' :: s)) = .ok ((), w ++ '\n' :: s) := by
    obtain ⟨⟨c, t, rfl, hc⟩, -⟩ := hw
    exact blanks_of_head (r := c :: t ++ '\n' :: s) (by simpa using hc)
  have hassign : assignment value (field ++ ' ' :: '=' :: ' ' :: (w ++ '\n' :: s)) =
      .ok (⟨[], field, v⟩, '\n' :: s) := by
    rw [assignment, bind_ok hkey]
    dsimp only
    rw [bind_ok hexpect, bind_ok hblanks, bind_ok (hw.2 s)]
    rfl
  rw [hsplit, statement, bind_ok htakes, if_neg Bool.false_ne_true, bind_ok hassign,
    bind_ok (lineEnd_line s)]
  rfl

theorem statement_header (hf : IsKey field) (s : Text) :
    statement ('[' :: (field ++ "]\n".toList ++ s)) = .ok (.header ⟨[], field, false⟩, s) := by
  have hsplit : field ++ "]\n".toList ++ s = field ++ ']' :: '\n' :: s := by simp
  have htakes : takes '[' ('[' :: (field ++ ']' :: '\n' :: s)) =
      .ok (true, field ++ ']' :: '\n' :: s) := rfl
  have hrow : takes '[' (field ++ ']' :: '\n' :: s) = .ok (false, field ++ ']' :: '\n' :: s) := by
    obtain ⟨c, t, rfl, hc⟩ := hf.head
    have hopen : c ≠ '[' := by rintro rfl; exact absurd hc (by decide)
    rw [List.cons_append, takes, if_neg hopen]
  have hkey := key_field (r := ']' :: '\n' :: s) (d := ']') (s := '\n' :: s) hf
    (by simpa using (by decide : isKeyChar ']' = false)) rfl (by decide)
  have hexpect : expect ']' (']' :: '\n' :: s) = .ok ((), '\n' :: s) := rfl
  have hheader : header (field ++ ']' :: '\n' :: s) = .ok (⟨[], field, false⟩, '\n' :: s) := by
    rw [header, bind_ok hrow, bind_ok hkey]
    dsimp only
    rw [bind_ok hexpect]
    rfl
  rw [hsplit, statement, bind_ok htakes, if_pos rfl, bind_ok hheader, bind_ok (lineEnd_line s)]
  rfl

def Writes (xs : List Statement) (w : Text) : Prop :=
  ∀ ⦃s ys⦄, statements s = .ok ys → statements (w ++ s) = .ok (xs ++ ys)

theorem statements_nil : statements [] = .ok [] := by
  rw [statements]
  split <;> simp_all [gap, dropGap]

theorem statements_cons {x : Statement} {xs : List Statement} (hgap : gap s = .ok ((), c :: t))
    (hx : statement (c :: t) = .ok (x, r)) (hxs : statements r = .ok xs) :
    statements s = .ok (x :: xs) := by
  rw [statements]
  split
  · next he => rw [hgap] at he; cases he
  · next he => rw [hgap] at he; cases he
  · next hr =>
    rw [hgap] at hr
    cases hr
    split
    · next he => rw [hx] at he; cases he
    · next hy =>
      rw [hx] at hy
      cases hy
      rw [hxs]

theorem Writes.nil : Writes [] [] := fun _ _ hs => hs

theorem Writes.append {xs zs : List Statement} {w x : Text} (hw : Writes xs w) (hx : Writes zs x) :
    Writes (xs ++ zs) (w ++ x) := by
  intro s ys hs
  rw [List.append_assoc, List.append_assoc]
  exact hw (hx hs)

theorem Writes.flatMap {α : Type} {l : List α} {f : α → List Statement} {g : α → Text}
    (h : ∀ a ∈ l, Writes (f a) (g a)) : Writes (l.flatMap f) (l.flatMap g) := by
  induction l with
  | nil => exact .nil
  | cons a l ih =>
    obtain ⟨ha, hl⟩ := List.forall_mem_cons.mp h
    exact ha.append (ih hl)

theorem writes_assignment {w : Text} (hf : IsKey field) (hw : Spells v w) :
    Writes [.assign ⟨[], field, v⟩] (field ++ " = ".toList ++ w ++ ['\n']) := by
  intro s ys hs
  have hstatement := statement_assignment hf hw s
  obtain ⟨c, t, rfl, hc⟩ := hf.head
  exact statements_cons (gap_solid (solid_of_isKeyChar hc) _) hstatement hs

theorem writes_header (hf : IsKey field) :
    Writes [.header ⟨[], field, false⟩] ("\n[".toList ++ field ++ "]\n".toList) := by
  intro s ys hs
  have hgap : gap ('\n' :: '[' :: (field ++ "]\n".toList ++ s)) =
      .ok ((), '[' :: (field ++ "]\n".toList ++ s)) := by
    rw [gap_line, gap_solid (by decide)]
  have hread := statements_cons hgap (statement_header hf s) hs
  simpa using hread

variable {es : Entries} {as : List Assignment} {k : Text}

theorem lookup_of_not_mem (hk : k ∉ es.map (·.1)) : es.lookup k = none := by
  refine List.lookup_eq_none_iff.mpr fun e he => bne_iff_ne.mpr ?_
  rintro rfl
  exact hk (List.mem_map_of_mem he)

theorem assoc_of_not_mem (hk : k ∉ es.map (·.1)) (v : Item) : assoc k v es = es ++ [(k, v)] := by
  induction es with
  | nil => rfl
  | cons e es ih =>
    obtain ⟨he, hes⟩ : k ≠ e.1 ∧ k ∉ es.map (·.1) := by
      rwa [List.map_cons, List.mem_cons, not_or] at hk
    rw [assoc, if_neg (Ne.symm he), ih hes]
    rfl

def Assignment.entry (a : Assignment) : Text × Item := (a.key, a.item)

def Plain (as : List Assignment) : Prop := (∀ a ∈ as, a.path = []) ∧ (as.map (·.key)).Nodup

theorem enterAll_of_nodup (hpath : ∀ a ∈ as, a.path = [])
    (hnodup : (es.map (·.1) ++ as.map (·.key)).Nodup) :
    enterAll es as = some (es ++ as.map Assignment.entry) := by
  induction as generalizing es with
  | nil => simp [enterAll]
  | cons a as ih =>
    obtain ⟨ha, has⟩ := List.forall_mem_cons.mp hpath
    have hnew : a.key ∉ es.map (·.1) := fun hmem =>
      (List.nodup_append.mp hnodup).2.2 _ hmem _ List.mem_cons_self rfl
    have henter : enter a.key a.item a.path es = some (es ++ [a.entry]) := by
      rw [ha, enter, lookup_of_not_mem hnew]
      rfl
    have hrest : enterAll (es ++ [a.entry]) as = some (es ++ [a.entry] ++ as.map Assignment.entry) :=
      ih has (by simpa [Assignment.entry] using hnodup)
    rw [enterAll] at hrest ⊢
    rw [List.foldlM_cons, henter, Option.bind_eq_bind, Option.bind_some, hrest]
    simp

theorem Plain.enterAll (h : Plain as) : enterAll [] as = some (as.map Assignment.entry) :=
  enterAll_of_nodup h.1 h.2

def tableStatements (b : Text × List Assignment) : List Statement :=
  .header ⟨[], b.1, false⟩ :: b.2.map .assign

def tableEntry (b : Text × List Assignment) : Text × Item :=
  (b.1, .table .headed (b.2.map Assignment.entry))

variable {bs : List (Text × List Assignment)}

theorem sections_assign_append (as : List Assignment) (ss : List Statement) :
    sections (as.map .assign ++ ss) = (as ++ (sections ss).1, (sections ss).2) := by
  induction as with
  | nil => rfl
  | cons a as ih => rw [List.map_cons, List.cons_append, sections, ih]; rfl

theorem sections_tables (bs : List (Text × List Assignment)) :
    sections (bs.flatMap tableStatements) =
      ([], bs.map fun b => (⟨[], b.1, false⟩, b.2)) := by
  induction bs with
  | nil => rfl
  | cons b bs ih =>
    rw [List.flatMap_cons, tableStatements, List.cons_append, sections, sections_assign_append, ih,
      List.append_nil]
    rfl

def addTable (es : Entries) (s : Header × List Assignment) : Option Entries :=
  place s.1.key (fill s.1 s.2) s.1.path es

theorem foldlM_place (hplain : ∀ b ∈ bs, Plain b.2)
    (hnodup : (es.map (·.1) ++ bs.map (·.1)).Nodup) :
    (bs.map fun b => ((⟨[], b.1, false⟩ : Header), b.2)).foldlM addTable es =
      some (es ++ bs.map tableEntry) := by
  induction bs generalizing es with
  | nil => simp
  | cons b bs ih =>
    obtain ⟨hb, hbs⟩ := List.forall_mem_cons.mp hplain
    have hnew : b.1 ∉ es.map (·.1) := fun hmem =>
      (List.nodup_append.mp hnodup).2.2 _ hmem _ List.mem_cons_self rfl
    have hplace : addTable es (⟨[], b.1, false⟩, b.2) = some (es ++ [tableEntry b]) := by
      have hfill : fill ⟨[], b.1, false⟩ b.2 none =
          some (.table .headed (b.2.map Assignment.entry)) := by
        simp only [fill, hb.enterAll]
        rfl
      rw [addTable, place, lookup_of_not_mem hnew, hfill]
      exact congrArg some (assoc_of_not_mem hnew _)
    have hrest : (bs.map fun b => ((⟨[], b.1, false⟩ : Header), b.2)).foldlM addTable
        (es ++ [tableEntry b]) = some (es ++ [tableEntry b] ++ bs.map tableEntry) :=
      ih hbs (by simpa [tableEntry] using hnodup)
    rw [List.map_cons, List.foldlM_cons, hplace, Option.bind_eq_bind, Option.bind_some, hrest]
    simp

theorem build_tables (has : ∀ a ∈ as, a.path = []) (hplain : ∀ b ∈ bs, Plain b.2)
    (hnodup : (as.map (·.key) ++ bs.map (·.1)).Nodup) :
    build (as.map .assign ++ bs.flatMap tableStatements) =
      some (as.map Assignment.entry ++ bs.map tableEntry) := by
  have hroot : Plain as := ⟨has, (List.nodup_append.mp hnodup).1⟩
  have hsections : sections (as.map .assign ++ bs.flatMap tableStatements) =
      (as, bs.map fun b => (⟨[], b.1, false⟩, b.2)) := by
    rw [sections_assign_append, sections_tables, List.append_nil]
  rw [build, hsections, hroot.enterAll]
  refine foldlM_place hplain ?_
  simpa [Assignment.entry, Function.comp_def] using hnodup

end CallStrip.Toml

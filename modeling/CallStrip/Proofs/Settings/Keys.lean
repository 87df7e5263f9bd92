import CallStrip.Proofs.Text.Pieces
import CallStrip.Proofs.Text.Trimmed
import CallStrip.Settings.Basic

/-!
The keys of settings. Under a key stands the normal form of the last value that it took, whatever
was set under the others.
-/

namespace CallStrip

theorem ClosingRule.ofName?_eq_some_iff {t : Text} {r : ClosingRule} :
    ofName? t = some r ↔ r.name = t := by
  constructor
  · intro h
    simpa using List.find?_some h
  · rintro rfl
    exact ofName?_name r

theorem ClosingRule.mem_all (r : ClosingRule) : r ∈ all := by cases r <;> decide

namespace Key

def normal : Key → Text → Text
  | .target, value => value
  | .guards, value => Text.join [','] (Settings.splitList value)
  | .rule, value => value.trim.lowered
  | .files, value => Text.join [','] (Settings.splitList value)
  | .discoverRoot, value => value
  | .discoverExtension, value => value.dropWhile (· = '.')

def Takes : Key → Text → Prop
  | .target, value => value ≠ []
  | .rule, value => ∃ r ∈ ClosingRule.all, r.name = value.trim.lowered
  | .guards, _ | .files, _ | .discoverRoot, _ | .discoverExtension, _ => True

instance : (k : Key) → (value : Text) → Decidable (k.Takes value)
  | .target, value => inferInstanceAs (Decidable (value ≠ []))
  | .rule, value =>
    inferInstanceAs (Decidable (∃ r ∈ ClosingRule.all, r.name = value.trim.lowered))
  | .guards, _ | .files, _ | .discoverRoot, _ | .discoverExtension, _ => .isTrue trivial

theorem ofName?_eq_some_iff {t : Text} {k : Key} : ofName? t = some k ↔ k.name = t := by
  constructor
  · intro h
    simpa using List.find?_some h
  · rintro rfl
    exact ofName?_name k

theorem mem_all (k : Key) : k ∈ all := by cases k <;> decide

theorem takes_rule_iff {v : Text} :
    Key.rule.Takes v ↔ ∃ r, ClosingRule.ofName? v.trim.lowered = some r := by
  simp only [Takes, ClosingRule.ofName?_eq_some_iff, ClosingRule.mem_all, true_and]

end Key

namespace Settings

variable {s s' : Settings} {k k' : Key} {v v' name : Text} {ts : List Text}

def update (s : Settings) : Key → Text → Settings
  | .target, v => { s with target := v }
  | .guards, v => { s with guards := splitList v }
  | .rule, v => { s with rule := (ClosingRule.ofName? v.trim.lowered).getD s.rule }
  | .files, v => { s with files := splitList v }
  | .discoverRoot, v => { s with discoverRoot := v }
  | .discoverExtension, v => { s with discoverExtension := v.dropWhile (· = '.') }

theorem set_eq_ok_iff : s.set k v = .ok s' ↔ k.Takes v ∧ s' = s.update k v := by
  cases k with
  | target =>
    rw [set, Key.Takes, update]
    split <;> simp [*, eq_comm]
  | rule =>
    rw [Key.takes_rule_iff, update, set, ClosingRule.parse]
    cases ClosingRule.ofName? v.trim.lowered with
    | none => simp [bind, Except.bind]
    | some r => simp [bind, Except.bind, pure, Except.pure, eq_comm]
  | _ => simp [set, Key.Takes, update, eq_comm]

@[simp] theorem version_update (s : Settings) (k : Key) (v : Text) :
    (s.update k v).version = s.version := by
  cases k <;> rfl

theorem get_update (h : k.Takes v) : (s.update k v).get k = k.normal v := by
  cases k with
  | rule =>
    obtain ⟨r, hr⟩ := Key.takes_rule_iff.mp h
    rw [update, get, hr]
    exact ClosingRule.ofName?_eq_some_iff.mp hr
  | _ => rfl

theorem get_update_of_ne (h : k' ≠ k) : (s.update k v).get k' = s.get k' := by
  cases k <;> cases k' <;> first | rfl | exact absurd rfl h

theorem update_comm (h : k ≠ k') :
    (s.update k v).update k' v' = (s.update k' v').update k v := by
  cases k <;> cases k' <;> first | rfl | exact absurd rfl h

def Takes (name value : Text) : Prop := ∃ k ∈ Key.all, k.name = name ∧ k.Takes value

instance (name value : Text) : Decidable (Takes name value) :=
  inferInstanceAs (Decidable (∃ k ∈ Key.all, k.name = name ∧ k.Takes value))

theorem takes_name_iff (k : Key) (v : Text) : Takes k.name v ↔ k.Takes v := by
  constructor
  · rintro ⟨k', -, hk, h⟩
    have hsome := Key.ofName?_eq_some_iff.mpr hk
    rw [Key.ofName?_name] at hsome
    exact Option.some.inj hsome ▸ h
  · exact fun h => ⟨k, k.mem_all, rfl, h⟩

def store (s : Settings) (name value : Text) : Settings :=
  match Key.ofName? name with
  | some k => if k.Takes value then s.update k value else s
  | none => s

theorem store_name (s : Settings) (k : Key) (v : Text) :
    s.store k.name v = if k.Takes v then s.update k v else s := by
  rw [store, Key.ofName?_name]

theorem store_of_ofName?_eq_none (h : Key.ofName? name = none) (s : Settings) (v : Text) :
    s.store name v = s := by
  rw [store, h]

theorem setNamed_of_takes (h : Takes name v) (s : Settings) :
    s.setNamed name v = .ok (s.store name v) := by
  obtain ⟨k, -, rfl, htakes⟩ := h
  rw [setNamed, key, Key.ofName?_name, store_name, if_pos htakes]
  exact set_eq_ok_iff.mpr ⟨htakes, rfl⟩

theorem setNamed_of_not_takes (h : ¬ Takes name v) (s : Settings) :
    ∃ e, s.setNamed name v = .error e := by
  cases he : s.setNamed name v with
  | error e => exact ⟨e, rfl⟩
  | ok s' =>
    refine absurd ?_ h
    rw [setNamed, key] at he
    cases hk : Key.ofName? name with
    | none => rw [hk] at he; cases he
    | some k =>
      rw [hk] at he
      obtain rfl := Key.ofName?_eq_some_iff.mp hk
      exact (takes_name_iff k v).mpr (set_eq_ok_iff.mp he).1

theorem error_of_setNamed {e : SettingsFault} (h : s.setNamed name v = .error e) :
    e = .unknownKey name ∨ ∃ shown, e = .badValue name shown := by
  rw [setNamed, key] at h
  cases hk : Key.ofName? name with
  | none =>
    rw [hk] at h
    exact .inl (Except.error.inj h).symm
  | some k =>
    rw [hk] at h
    obtain rfl := Key.ofName?_eq_some_iff.mp hk
    refine .inr ?_
    cases k with
    | target =>
      by_cases hv : v = []
      · simp only [bind, Except.bind, set, if_pos hv, Except.error.injEq] at h
        exact ⟨v, h.symm⟩
      · simp [bind, Except.bind, set, hv] at h
    | rule =>
      simp only [bind, Except.bind, set, ClosingRule.parse] at h
      cases hr : ClosingRule.ofName? v.trim.lowered with
      | none =>
        rw [hr] at h
        exact ⟨v.trim.lowered, (Except.error.inj h).symm⟩
      | some r => rw [hr] at h; cases h
    | guards | files | discoverRoot | discoverExtension => cases h

theorem version_store (s : Settings) (name v : Text) : (s.store name v).version = s.version := by
  unfold store
  split
  · split <;> simp
  · rfl

theorem get_store (s : Settings) (name v : Text) (k : Key) :
    (s.store name v).get k = if name = k.name ∧ Takes name v then k.normal v else s.get k := by
  by_cases hk : name = k.name
  · subst hk
    simp only [store_name, takes_name_iff, true_and]
    split
    · next h => exact get_update h
    · rfl
  · rw [if_neg fun h => hk h.1]
    unfold store
    split
    · next k' hk' =>
      have hne : k ≠ k' := by
        rintro rfl
        exact hk (Key.ofName?_eq_some_iff.mp hk').symm
      split
      · exact get_update_of_ne hne
      · rfl
    · rfl

theorem store_comm {name' : Text} (h : name ≠ name') (s : Settings) (v v' : Text) :
    (s.store name v).store name' v' = (s.store name' v').store name v := by
  cases hk : Key.ofName? name with
  | none => simp only [store_of_ofName?_eq_none hk]
  | some k =>
    cases hk' : Key.ofName? name' with
    | none => simp only [store_of_ofName?_eq_none hk']
    | some k' =>
      obtain rfl := Key.ofName?_eq_some_iff.mp hk
      obtain rfl := Key.ofName?_eq_some_iff.mp hk'
      have hne : k ≠ k' := fun he => h (congrArg Key.name he)
      simp only [store_name]
      split <;> split <;> first | rfl | exact update_comm hne

def IsItem (t : Text) : Prop := t ≠ [] ∧ ',' ∉ t ∧ t.Trimmed

instance (t : Text) : Decidable (IsItem t) :=
  inferInstanceAs (Decidable (t ≠ [] ∧ ',' ∉ t ∧ t.Trimmed))

theorem isItem_of_mem_splitList {item : Text} (h : item ∈ splitList v) : IsItem item := by
  obtain ⟨hmem, hne⟩ := List.mem_filter.mp h
  obtain ⟨piece, hpiece, rfl⟩ := List.mem_map.mp hmem
  obtain ⟨front, behind, -, -, hcut⟩ := Text.exists_trim piece
  refine ⟨of_decide_eq_true hne, fun hcomma => Text.not_mem_pieces hpiece ?_, Text.trimmed_trim piece⟩
  rw [hcut]
  exact List.mem_append_left _ (List.mem_append_right _ hcomma)

theorem splitList_join (h : ∀ t ∈ ts, IsItem t) : splitList (Text.join [','] ts) = ts := by
  by_cases hnil : ts = []
  · subst hnil
    rfl
  · have htrim : ts.map Text.trim = ts :=
      (List.map_congr_left fun t ht => (h t ht).2.2.trim_eq).trans (List.map_id ts)
    rw [splitList, Text.pieces_join hnil fun t ht => (h t ht).2.1, htrim]
    exact List.filter_eq_self.mpr fun t ht => decide_eq_true (h t ht).1

/-- Settings in which every key keeps something in its normal form. -/
structure Tidy (s : Settings) : Prop where
  target : s.target ≠ []
  guards : ∀ t ∈ s.guards, IsItem t
  files : ∀ t ∈ s.files, IsItem t
  discoverExtension : s.discoverExtension.head? ≠ some '.'

theorem tidy_initial : Tidy initial where
  target := by decide
  guards := by decide
  files := by decide +kernel
  discoverExtension := by decide

theorem Tidy.update (h : s.Tidy) (htakes : k.Takes v) : (s.update k v).Tidy := by
  obtain ⟨htarget, hguards, hfiles, hext⟩ := h
  cases k with
  | target => exact ⟨htakes, hguards, hfiles, hext⟩
  | guards => exact ⟨htarget, fun t => isItem_of_mem_splitList, hfiles, hext⟩
  | files => exact ⟨htarget, hguards, fun t => isItem_of_mem_splitList, hext⟩
  | discoverExtension =>
    refine ⟨htarget, hguards, hfiles, fun hpoint => ?_⟩
    have hnot := List.head?_dropWhile_not (fun c : Char => c = '.') v
    rw [show (v.dropWhile fun c : Char => c = '.').head? = some '.' from hpoint] at hnot
    exact absurd hnot (by decide)
  | rule | discoverRoot => exact ⟨htarget, hguards, hfiles, hext⟩

theorem Tidy.store (h : s.Tidy) (name v : Text) : (s.store name v).Tidy := by
  unfold Settings.store
  split
  · split
    · next htakes => exact h.update htakes
    · exact h
  · exact h

theorem Tidy.set_get (h : s.Tidy) (k : Key) : s.set k (s.get k) = .ok s := by
  rw [set_eq_ok_iff]
  cases k with
  | target => exact ⟨h.target, rfl⟩
  | guards => exact ⟨trivial, by rw [Settings.update, get, splitList_join h.guards]⟩
  | files => exact ⟨trivial, by rw [Settings.update, get, splitList_join h.files]⟩
  | rule =>
    have hname : s.rule.name.trim.lowered = s.rule.name := by cases s.rule <;> decide
    refine ⟨⟨s.rule, s.rule.mem_all, hname.symm⟩, ?_⟩
    rw [Settings.update, get, hname, ClosingRule.ofName?_name]
    rfl
  | discoverRoot => exact ⟨trivial, rfl⟩
  | discoverExtension =>
    have hext : s.discoverExtension.dropWhile (· = '.') = s.discoverExtension := by
      cases he : s.discoverExtension with
      | nil => rfl
      | cons c t =>
        have hc : c ≠ '.' := fun hc => h.discoverExtension (by rw [he, hc]; rfl)
        rw [List.dropWhile_cons_of_neg (by simpa using hc)]
    exact ⟨trivial, by rw [Settings.update, get, hext]⟩

end Settings

end CallStrip

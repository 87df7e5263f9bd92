import CallStrip.Proofs.FileTree.Alike
import CallStrip.Proofs.Path.Components

/-!
What is written at a path is what is read there afterwards, be it a file that was there, one behind
links, or a new one. Whether there is room for it does not depend on what is written.
-/

namespace CallStrip

def Nameable (steps : List Step) : Prop := ∀ n, Step.name n ∈ steps → IsName n

theorem Path.nameable_steps (p : Path) : Nameable p.steps := by
  intro n hn
  -- The final separator adds no name.
  have hmem : Step.name n ∈ ((Text.pieces 0x2F p.bytes).filter (· ≠ [])).map fun t =>
      if t = [0x2E] then Step.stay else if t = [0x2E, 0x2E] then .up else .name t := by
    simp only [steps] at hn
    split at hn
    · split at hn
      · simpa using hn
      · exact hn
    · exact hn
  obtain ⟨t, ht, he⟩ := List.mem_map.mp hmem
  obtain ⟨hpiece, hne⟩ := List.mem_filter.mp ht
  split at he
  · cases he
  · next hstay =>
    split at he
    · cases he
    · next hup =>
      cases he
      exact ⟨of_decide_eq_true hne, hstay, hup, Text.not_mem_pieces hpiece⟩

namespace FileTree

variable {t u : FileTree} {l f : Location} {p : Path} {n : Name} {c c' : Bytes} {slash : Bool}
  {steps : List Step} {links : Nat} {follow : Bool} {e : Entry}

def Vacant (t : FileTree) (f : Location) (n : Name) : Prop :=
  t.get? f = some .folder ∧ IsName n ∧ t.get? (f ++ [n]) = none

theorem Vacant.admits (h : t.Vacant f n) : t.Admits (f ++ [n]) := by
  obtain ⟨hfolder, hn, hnone⟩ := h
  have hf : ∀ m ∈ f, IsName m := isName_of_get? (l := []) hfolder
  refine ⟨by simp, ?_, by simpa using hfolder, by simp [hnone]⟩
  intro m hm
  rcases List.mem_append.mp hm with hm | hm
  · exact hf m hm
  · exact List.mem_singleton.mp hm ▸ hn

section Stretch

variable {onward onward' : Location → Path → List Step → Except IoCause Spot}

theorem vacant_of_stretch
    (honward : ∀ l target rest, Nameable rest → onward l target rest = .ok (.free f n slash) →
      t.Vacant f n) (hsteps : Nameable steps)
    (h : t.stretch follow onward l steps = .ok (.free f n slash)) : t.Vacant f n := by
  fun_induction stretch t follow onward l steps with
  | case1 | case2 | case3 | case7 | case10 | case11 => cases h
  | case4 _ _ _ ih | case5 _ _ _ ih | case6 _ _ _ ih | case13 _ _ _ _ _ _ _ _ ih =>
    exact ih (fun m hm => hsteps m (List.mem_cons_of_mem _ hm)) h
  | case8 l hfolder m _ hnone | case9 l hfolder m _ hnone =>
    cases h
    exact ⟨Decidable.of_not_not hfolder, hsteps _ List.mem_cons_self, hnone⟩
  | case12 l rest => exact honward _ _ _ (fun m hm => hsteps m (List.mem_cons_of_mem _ hm)) h

theorem entry_of_stretch (hgrow : ∀ k e, t.get? k = some e → u.get? k = some e)
    (hnew : u.get? (f ++ [n]) = some e) (he : ∀ target, e ≠ .link target)
    (hslash : slash = true → e = .folder)
    (honward : ∀ l target rest, onward l target rest = .ok (.free f n slash) →
      onward' l target rest = .ok (.entry (f ++ [n])))
    (h : t.stretch follow onward l steps = .ok (.free f n slash)) :
    u.stretch true onward' l steps = .ok (.entry (f ++ [n])) := by
  fun_induction stretch t follow onward l steps with
  | case1 | case2 | case3 | case7 | case10 | case11 => cases h
  | case4 l _ hfolder ih | case5 l _ hfolder ih | case6 l _ hfolder ih =>
    have hfolder' := hgrow l _ (Decidable.of_not_not hfolder)
    simp only [stretch, ne_eq, hfolder', not_true_eq_false, if_false, ih h]
  | case8 l hfolder m hlength hnone =>
    cases h
    have hfolder' := hgrow f _ (Decidable.of_not_not hfolder)
    cases e with
    | link target => exact absurd rfl (he target)
    | _ => simp [stretch, hfolder', hlength, hnew]
  | case9 l hfolder m hlength hnone =>
    cases h
    obtain rfl := hslash rfl
    have hfolder' := hgrow f _ (Decidable.of_not_not hfolder)
    simp [stretch, hfolder', hlength, hnew]
  | case12 l rest hfolder m hlength target hlink =>
    have hfolder' := hgrow l _ (Decidable.of_not_not hfolder)
    simp [stretch, hfolder', hlength, hgrow _ _ hlink, honward _ _ _ h]
  | case13 l rest hfolder m hlength e hother hentry ih =>
    have hfolder' := hgrow l _ (Decidable.of_not_not hfolder)
    cases e with
    | link target => exact absurd rfl (hother target)
    | _ => simp [stretch, hfolder', hlength, hgrow _ _ hentry, ih h]

end Stretch

theorem vacant_of_walk (hsteps : Nameable steps)
    (h : t.walk follow links l steps = .ok (.free f n slash)) : t.Vacant f n := by
  induction links generalizing l steps with
  | zero => exact vacant_of_stretch (fun _ _ _ _ h => by cases h) hsteps h
  | succ links ih =>
    -- Behind a link the steps of its target come first, and those of a path have names, too.
    refine vacant_of_stretch (fun l target rest hrest h => ?_) hsteps h
    split at h
    · cases h
    · refine ih (fun m hm => ?_) h
      exact (List.mem_append.mp hm).elim (target.nameable_steps m) (hrest m)

theorem entry_of_walk (hgrow : ∀ k e, t.get? k = some e → u.get? k = some e)
    (hnew : u.get? (f ++ [n]) = some e) (he : ∀ target, e ≠ .link target)
    (hslash : slash = true → e = .folder)
    (h : t.walk follow links l steps = .ok (.free f n slash)) :
    u.walk true links l steps = .ok (.entry (f ++ [n])) := by
  induction links generalizing l steps with
  | zero => exact entry_of_stretch hgrow hnew he hslash (fun _ _ _ h => by cases h) h
  | succ links ih =>
    refine entry_of_stretch hgrow hnew he hslash (fun l target rest h => ?_) h
    split at h
    · cases h
    · next hne => rw [if_neg hne, ih h]

theorem Vacant.get?_put (h : t.Vacant f n) (e : Entry) (k : Location) :
    (t.put (f ++ [n]) e).get? k = if k = f ++ [n] then some e else t.get? k :=
  FileTree.get?_put h.admits e k

theorem Vacant.kept (h : t.Vacant f n) (e : Entry) {k : Location} {x : Entry}
    (hk : t.get? k = some x) : (t.put (f ++ [n]) e).get? k = some x := by
  have hne : k ≠ f ++ [n] := by
    rintro rfl
    rw [h.2.2] at hk
    cases hk
  rw [h.get?_put, if_neg hne, hk]

theorem vacant_of_spot (h : t.spot follow p = .ok (.free f n slash)) : t.Vacant f n := by
  rw [spot] at h
  split at h
  · cases h
  · exact vacant_of_walk p.nameable_steps h

theorem find_put_of_free (h : t.spot true p = .ok (.free f n false)) (c : Bytes) :
    (t.put (f ++ [n]) (.file c)).find p = .ok (f ++ [n]) ∧
      (t.put (f ++ [n]) (.file c)).get? (f ++ [n]) = some (.file c) := by
  have hvacant := vacant_of_spot h
  rw [spot] at h
  split at h
  · cases h
  · next hrefused =>
    have hnew : (t.put (f ++ [n]) (.file c)).get? (f ++ [n]) = some (.file c) := by
      rw [hvacant.get?_put, if_pos rfl]
    refine ⟨?_, hnew⟩
    rw [find_eq_ok_iff, spot, hrefused, here_put]
    exact entry_of_walk (fun _ _ => hvacant.kept _) hnew (by simp) (by simp) h

theorem find_put_of_file {s : Bytes} (hf : t.find p = .ok l) (hl : t.get? l = some (.file s))
    (c : Bytes) :
    (t.put l (.file c)).find p = .ok l ∧ (t.put l (.file c)).get? l = some (.file c) := by
  have hadmits := admits_of_file hl
  have halike : t.Alike (t.put l (.file c)) := by
    refine ⟨here_put t l _, fun k => ?_⟩
    rw [get?_put hadmits]
    split
    · next hk => exact .inr ⟨s, c, hk ▸ hl, rfl⟩
    · exact .inl rfl
  refine ⟨(halike.find p).trans hf, ?_⟩
  rw [get?_put hadmits, if_pos rfl]

theorem write_of_read (h : t.read p = .ok c) (c' : Bytes) :
    ∃ u, t.write p c' = .ok u ∧ u.read p = .ok c' := by
  obtain ⟨l, hf, hl⟩ := read_eq_ok_iff.mp h
  exact ⟨_, write_of_file hf hl c', read_eq_ok_iff.mpr ⟨l, find_put_of_file hf hl c'⟩⟩

theorem write_of_write (h : t.write p c = .ok u) (c' : Bytes) :
    ∃ u', t.write p c' = .ok u' ∧ u'.read p = .ok c' := by
  rw [write] at h
  cases hspot : t.spot true p with
  | error e => rw [hspot] at h; cases h
  | ok spot =>
    rw [hspot] at h
    cases spot with
    | noFolder l => cases h
    | entry l =>
      simp only [bind, Except.bind] at h
      split at h
      · next s hl => exact write_of_read (read_eq_ok_iff.mpr ⟨l, find_eq_ok_iff.mpr hspot, hl⟩) c'
      · cases h
    | free f n slash =>
      cases slash with
      | true => cases h
      | false =>
        refine ⟨t.put (f ++ [n]) (.file c'), ?_,
          read_eq_ok_iff.mpr ⟨f ++ [n], find_put_of_free hspot c'⟩⟩
        rw [write, hspot]
        rfl

theorem exists_of_write (h : t.write p c = .ok u) :
    ∃ l, u.find p = .ok l ∧ u.get? l = some (.file c) ∧ (∀ k, k ≠ l → u.get? k = t.get? k) ∧
      (t.find p = .ok l ∨ t.get? l = none) := by
  rw [write] at h
  cases hspot : t.spot true p with
  | error e => rw [hspot] at h; cases h
  | ok spot =>
    rw [hspot] at h
    cases spot with
    | noFolder l => cases h
    | entry l =>
      simp only [bind, Except.bind] at h
      split at h
      · next s hl =>
        obtain rfl := Except.ok.inj h
        have hfind := find_eq_ok_iff.mpr hspot
        obtain ⟨hnew, hfile⟩ := find_put_of_file hfind hl c
        exact ⟨l, hnew, hfile, fun k hk => by rw [get?_put (admits_of_file hl), if_neg hk],
          .inl hfind⟩
      · cases h
    | free f n slash =>
      cases slash with
      | true => cases h
      | false =>
        obtain rfl := Except.ok.inj h
        obtain ⟨hnew, hfile⟩ := find_put_of_free hspot c
        have hvacant := vacant_of_spot hspot
        exact ⟨f ++ [n], hnew, hfile, fun k hk => by rw [hvacant.get?_put, if_neg hk],
          .inr hvacant.2.2⟩

end FileTree

end CallStrip

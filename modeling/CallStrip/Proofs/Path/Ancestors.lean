import CallStrip.Disk
import CallStrip.Proofs.Path.Parent
import Mathlib.Data.List.Chain

/-!
The folders above a path that never goes up. Each of them is reached by the steps of the next one and
one name more.
-/

namespace CallStrip.Path

variable {cs : List Component} {p q : Path} {front : List Name} {n m : Name}

inductive Descends : List Component → Prop
  | nil : Descends []
  | root : Descends [.root]
  | here : Descends [.here]
  | name {cs : List Component} {n : Name} (h : Descends cs) (hn : IsName n) :
    Descends (cs ++ [.name n])

theorem component?_eq_name {t : Name} (ht : 0x2F ∉ t) {c : Component} (hc : component? t = some c)
    (hup : c ≠ .up) : ∃ n, c = .name n ∧ IsName n := by
  rw [component?] at hc
  split at hc
  · cases hc
  · next hne =>
    simp only [Bool.or_eq_true, decide_eq_true_eq, not_or] at hne
    split at hc
    · cases hc
      exact absurd rfl hup
    · next hup' =>
      cases hc
      exact ⟨t, rfl, hne.1, hne.2, hup', ht⟩

theorem Descends.append (h : Descends cs) {ts : List Name} (ht : ∀ t ∈ ts, 0x2F ∉ t)
    (hup : Component.up ∉ ts.filterMap component?) :
    Descends (cs ++ ts.filterMap component?) := by
  induction ts generalizing cs with
  | nil => simpa using h
  | cons t ts ih =>
    have hts : ∀ u ∈ ts, 0x2F ∉ u := fun u hu => ht u (List.mem_cons_of_mem t hu)
    rw [List.filterMap_cons] at hup ⊢
    cases hc : component? t with
    | none =>
      rw [hc] at hup
      exact ih h hts hup
    | some c =>
      simp only [hc, List.mem_cons, not_or] at hup
      obtain ⟨n, rfl, hn⟩ := component?_eq_name (ht t List.mem_cons_self) hc (Ne.symm hup.1)
      have hnext := ih (h.name hn) hts hup.2
      rwa [List.append_assoc] at hnext

theorem descends_components (h : Component.up ∉ p.components) : Descends p.components := by
  rw [components_eq] at h ⊢
  have hstart : Descends p.start := by
    rw [start]
    split
    · exact .root
    · split
      · exact .here
      · exact .nil
  exact hstart.append (fun t ht => Text.not_mem_pieces ht) fun hmem =>
    h (List.mem_append_right _ hmem)

theorem ofComponents_concat (cs : List Component) (n : Name) :
    ofComponents (cs ++ [.name n]) = ⟨Text.join [0x2F] (cs.map Component.bytes ++ [n])⟩ := by
  have hroot : cs ++ [.name n] ≠ [.root] := by
    intro h
    have hlast := congrArg List.getLast? h
    rw [List.getLast?_concat] at hlast
    cases hlast
  rw [ofComponents, if_neg hroot, List.map_append]
  rfl

theorem Descends.ofComponents_name (h : Descends cs) (hn : IsName n) :
    ofComponents (cs ++ [.name n]) = (ofComponents cs).join ⟨n⟩ := by
  induction h generalizing n with
  | nil =>
    rw [ofComponents_concat, join, isAbsolute_of_isName hn]
    rfl
  | root =>
    rw [ofComponents_concat, join, isAbsolute_of_isName hn]
    rfl
  | here =>
    rw [ofComponents_concat, join, isAbsolute_of_isName hn]
    rfl
  | @name cs m h hm ih =>
    obtain ⟨front, hends⟩ := exists_ends_join (ofComponents cs) hm
    rw [ih hm, hends.join_name hn, ← ih hm, ofComponents_concat, ofComponents_concat,
      List.map_append, List.map_singleton, Text.join_concat _ _ (by simp), List.append_assoc]
    rfl

theorem Descends.components (h : Descends cs) : (ofComponents cs).components = cs := by
  induction h with
  | nil | root | here => rfl
  | name h hn ih => rw [h.ofComponents_name hn, components_join_name _ hn, ih]

def Above (p q : Path) : Prop :=
  q.bytes = [] ∨ p.isAbsolute = q.isAbsolute ∧ ∃ n, p.steps = q.steps ++ [.name n]

theorem steps_slash_name {t : Name} (ht : 0x2F ∉ t) (hn : IsName n) :
    (⟨t ++ 0x2F :: n⟩ : Path).steps = Step.ofParts [t] ++ [.name n] := by
  have hpieces : Text.pieces 0x2F (t ++ 0x2F :: n) = [t] ++ [n] := by
    rw [Text.pieces_append_sep, Text.pieces_of_not_mem ht, Text.pieces_of_not_mem hn.2.2.2]
  have hends : Ends ⟨t ++ 0x2F :: n⟩ [t] n := ⟨hpieces, hn⟩
  rw [hends.steps, Step.ofParts_append, Step.ofParts_of_isName hn]

theorem Descends.above (h : Descends cs) (hn : IsName n) :
    Above (ofComponents (cs ++ [.name n])) (ofComponents cs) := by
  rw [h.ofComponents_name hn]
  cases h with
  | nil => exact .inl rfl
  | root =>
    have hslash : (ofComponents [.root]).join ⟨n⟩ = ⟨[] ++ 0x2F :: n⟩ := by
      rw [Path.join, isAbsolute_of_isName hn]
      rfl
    rw [hslash]
    exact .inr ⟨rfl, n, steps_slash_name (by simp) hn⟩
  | here =>
    have hdot : (ofComponents [.here]).join ⟨n⟩ = ⟨[0x2E] ++ 0x2F :: n⟩ := by
      rw [Path.join, isAbsolute_of_isName hn]
      rfl
    rw [hdot]
    exact .inr ⟨rfl, n, steps_slash_name (by decide) hn⟩
  | @name cs m h hm =>
    obtain ⟨front, hends⟩ := exists_ends_join (ofComponents cs) hm
    rw [h.ofComponents_name hm]
    exact .inr ⟨hends.isAbsolute_join hn, n, hends.steps_join_name hn⟩

theorem Descends.isChain_above (h : Descends cs) :
    (ofComponents cs :: Disk.ancestors.above cs.reverse).IsChain Above := by
  induction h with
  | nil | root => exact .singleton _
  | here => exact .cons_cons (.inl rfl) (.singleton _)
  | @name cs n h hn ih =>
    rw [List.reverse_append, List.reverse_singleton, List.singleton_append]
    have habove : Disk.ancestors.above (.name n :: cs.reverse) =
        ofComponents cs :: Disk.ancestors.above cs.reverse := by
      rw [Disk.ancestors.above, List.reverse_reverse]
      simp
    rw [habove]
    exact .cons_cons (h.above hn) ih

theorem isChain_ancestors (h : Component.up ∉ p.components) :
    (Disk.ancestors p.tidy).IsChain Above := by
  have hdescends := descends_components h
  rw [Disk.ancestors, tidy, hdescends.components]
  exact hdescends.isChain_above

end CallStrip.Path

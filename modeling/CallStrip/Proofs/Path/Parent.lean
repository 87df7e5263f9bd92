import CallStrip.FileTree.Walk
import CallStrip.Proofs.Path.Components

/-!
The folder of a file by its path. The path of that folder is tidied up, which takes nothing from the
steps to it but some that stay where they are.
-/

namespace CallStrip

namespace Step

def ofPart (t : Name) : Step :=
  if t = [0x2E] then .stay else if t = [0x2E, 0x2E] then .up else .name t

def ofParts (ts : List Name) : List Step := (ts.filter (· ≠ [])).map ofPart

theorem ofParts_append (ts us : List Name) : ofParts (ts ++ us) = ofParts ts ++ ofParts us := by
  simp only [ofParts, List.filter_append, List.map_append]

theorem ofParts_of_isName {n : Name} (hn : IsName n) : ofParts [n] = [.name n] := by
  simp [ofParts, ofPart, hn.1, hn.2.1, hn.2.2.1]

end Step

/-- Steps, and the same ones without some of those that stay. -/
inductive Fewer : List Step → List Step → Prop
  | nil : Fewer [] []
  | stay {a b : List Step} : Fewer a b → Fewer (.stay :: a) b
  | cons (s : Step) {a b : List Step} : Fewer a b → Fewer (s :: a) (s :: b)

namespace Fewer

theorem refl (a : List Step) : Fewer a a := by
  induction a with
  | nil => exact .nil
  | cons s a ih => exact .cons s ih

theorem append_left {a b : List Step} (h : Fewer a b) (c : List Step) : Fewer (c ++ a) (c ++ b) := by
  induction c with
  | nil => exact h
  | cons s c ih => exact .cons s ih

end Fewer

namespace Path

variable {ts front rest : List Name} {x n : Name} {p : Path}

def solid (ts : List Name) : List Name := ts.filter fun t => t ≠ [] && t ≠ [0x2E]

theorem map_bytes_components (ts : List Name) :
    (ts.filterMap component?).map Component.bytes = solid ts := by
  induction ts with
  | nil => rfl
  | cons t ts ih =>
    rw [solid, List.filter_cons, ← solid, ← ih, List.filterMap_cons]
    by_cases hnil : t = []
    · simp [component?, hnil]
    by_cases hhere : t = [0x2E]
    · simp [component?, hhere]
    by_cases hup : t = [0x2E, 0x2E]
    · simp [component?, hup, Component.bytes]
    · simp [component?, hnil, hhere, hup, Component.bytes]

theorem fewer_solid (ts : List Name) : Fewer (Step.ofParts ts) (Step.ofParts (solid ts)) := by
  induction ts with
  | nil => exact .nil
  | cons t ts ih =>
    by_cases hnil : t = []
    · subst hnil
      exact ih
    by_cases hhere : t = [0x2E]
    · subst hhere
      exact .stay ih
    · have hsolid : solid (t :: ts) = t :: solid ts := by simp [solid, hnil, hhere]
      have hparts (us : List Name) : Step.ofParts (t :: us) = Step.ofPart t :: Step.ofParts us := by
        simp [Step.ofParts, hnil]
      rw [hsolid, hparts, hparts]
      exact .cons _ ih

theorem isAbsolute_iff_head? (hp : p.bytes ≠ []) :
    p.isAbsolute = true ↔ (Text.pieces 0x2F p.bytes).head? = some [] := by
  obtain ⟨t⟩ := p
  cases t with
  | nil => exact absurd rfl hp
  | cons c t =>
    have habs : (⟨c :: t⟩ : Path).isAbsolute = true ↔ c = 0x2F := by
      rw [isAbsolute, List.isPrefixOf_iff_prefix, List.cons_prefix_cons]
      exact ⟨fun h => h.1.symm, fun h => ⟨h.symm, List.nil_prefix⟩⟩
    rw [habs, Text.pieces]
    split
    · next hc => simp [hc]
    · next hc =>
      cases Text.pieces 0x2F t with
      | nil => simp [hc]
      | cons q qs => simp [hc]

theorem not_slash_suffix_join (h : ∀ t ∈ ts ++ [x], 0x2F ∉ t) (hx : x ≠ []) :
    [0x2F].isSuffixOf (Text.join [0x2F] (ts ++ [x])) = false := by
  rw [← Bool.not_eq_true, List.isSuffixOf_iff_suffix]
  intro hs
  have hslash : [0x2F] <:+ x :=
    List.suffix_of_suffix_length_le hs (Text.suffix_join_concat _ x ts)
      (List.length_pos_iff.mpr hx)
  exact h x (by simp) (hslash.subset (List.mem_singleton.mpr rfl))

theorem steps_join (h : ∀ t ∈ ts ++ [x], 0x2F ∉ t) (hx : x ≠ []) :
    (⟨Text.join [0x2F] (ts ++ [x])⟩ : Path).steps = Step.ofParts (ts ++ [x]) := by
  have hpieces := Text.pieces_join (by simp) h
  simp only [steps, hpieces, not_slash_suffix_join h hx, Bool.false_eq_true, if_false]
  split <;> rfl

theorem solid_of_isName (hn : IsName n) : solid [n] = [n] := by
  simp [solid, hn.1, hn.2.1]

structure Ends (p : Path) (front : List Name) (n : Name) : Prop where
  pieces : Text.pieces 0x2F p.bytes = front ++ [n]
  isName : IsName n

namespace Ends

theorem eq_join (h : p.Ends front n) : p = ⟨Text.join [0x2F] (front ++ [n])⟩ := by
  rw [← h.pieces, Text.join_pieces]

theorem not_mem (h : p.Ends front n) {t : Name} (ht : t ∈ front ++ [n]) : 0x2F ∉ t :=
  Text.not_mem_pieces (h.pieces ▸ ht)

theorem steps (h : p.Ends front n) : p.steps = Step.ofParts (front ++ [n]) := by
  rw [h.eq_join, steps_join (fun _ => h.not_mem) h.isName.1]

theorem bytes_ne_nil (h : p.Ends front n) : p.bytes ≠ [] := by
  intro hnil
  have hpieces := h.pieces
  rw [hnil] at hpieces
  cases front with
  | nil => exact h.isName.1 (List.cons.inj hpieces).1.symm
  | cons t front => simp [Text.pieces] at hpieces

theorem join_name (h : p.Ends front n) {m : Name} (hm : IsName m) :
    p.join ⟨m⟩ = ⟨p.bytes ++ 0x2F :: m⟩ := by
  have hslash : [0x2F].isSuffixOf p.bytes = false := by
    rw [h.eq_join]
    exact not_slash_suffix_join (fun _ => h.not_mem) h.isName.1
  rw [Path.join, isAbsolute_of_isName hm, if_neg Bool.false_ne_true,
    if_neg (by simp [h.bytes_ne_nil, hslash])]

theorem join (h : p.Ends front n) {m : Name} (hm : IsName m) :
    (p.join ⟨m⟩).Ends (front ++ [n]) m := by
  refine ⟨?_, hm⟩
  rw [h.join_name hm, Text.pieces_append_sep, Text.pieces_of_not_mem hm.2.2.2, h.pieces]

theorem steps_join_name (h : p.Ends front n) {m : Name} (hm : IsName m) :
    (p.join ⟨m⟩).steps = p.steps ++ [.name m] := by
  rw [(h.join hm).steps, Step.ofParts_append, Step.ofParts_of_isName hm, h.steps]

end Ends

theorem bytes_join_name (p : Path) (hn : IsName n) :
    (p.join ⟨n⟩).bytes = p.bytes ++ n ∧ (p.bytes = [] ∨ [0x2F] <:+ p.bytes) ∨
      (p.join ⟨n⟩).bytes = p.bytes ++ 0x2F :: n := by
  rw [join, isAbsolute_of_isName hn, if_neg Bool.false_ne_true]
  split
  · next hend =>
    rcases (Bool.or_eq_true _ _).mp hend with hnil | hslash
    · exact .inl ⟨rfl, .inl (of_decide_eq_true hnil)⟩
    · exact .inl ⟨rfl, .inr (List.isSuffixOf_iff_suffix.mp hslash)⟩
  · exact .inr rfl

theorem exists_ends_join (p : Path) (hn : IsName n) : ∃ front, (p.join ⟨n⟩).Ends front n := by
  have hpiece := Text.pieces_of_not_mem hn.2.2.2
  rcases p.bytes_join_name hn with ⟨hbytes, hnil | ⟨u, hu⟩⟩ | hbytes
  · exact ⟨[], by rw [hbytes, hnil]; exact hpiece, hn⟩
  · refine ⟨Text.pieces 0x2F u, ?_, hn⟩
    rw [hbytes, ← hu, List.append_assoc, List.singleton_append, Text.pieces_append_sep, hpiece]
  · refine ⟨Text.pieces 0x2F p.bytes, ?_, hn⟩
    rw [hbytes, Text.pieces_append_sep, hpiece]

theorem ofParts_pieces_join (p : Path) (hn : IsName n) :
    Step.ofParts (Text.pieces 0x2F (p.join ⟨n⟩).bytes) =
      Step.ofParts (Text.pieces 0x2F p.bytes) ++ [.name n] := by
  have hname := Step.ofParts_of_isName hn
  have hpiece := Text.pieces_of_not_mem hn.2.2.2
  have hempty : Step.ofParts (Text.pieces 0x2F []) = [] := rfl
  rcases p.bytes_join_name hn with ⟨hbytes, hnil | ⟨u, hu⟩⟩ | hbytes
  · rw [hbytes, hnil, List.nil_append, hpiece, hname, hempty, List.nil_append]
  · rw [hbytes, ← hu, List.append_assoc, List.singleton_append, Text.pieces_append_sep,
      Text.pieces_append_sep, Step.ofParts_append, Step.ofParts_append, hpiece, hname, hempty,
      List.append_nil]
  · rw [hbytes, Text.pieces_append_sep, Step.ofParts_append, hpiece, hname]

theorem exists_steps_join (p : Path) (hn : IsName n) :
    ∃ steps, (p.join ⟨n⟩).steps = steps ++ [.name n] ∧
      (p.steps = steps ∨ p.steps = steps ++ [.slash]) := by
  obtain ⟨front, hends⟩ := exists_ends_join p hn
  refine ⟨Step.ofParts (Text.pieces 0x2F p.bytes), ?_, ?_⟩
  · rw [hends.steps, ← hends.pieces, ofParts_pieces_join p hn]
  · rw [Path.steps]
    split
    · split
      · exact .inr rfl
      · exact .inl rfl
    · exact .inl rfl

theorem isAbsolute_join_name (hp : p.bytes ≠ []) (hn : IsName n) :
    (p.join ⟨n⟩).isAbsolute = p.isAbsolute := by
  obtain ⟨c, u, hu⟩ := List.exists_cons_of_ne_nil hp
  rcases p.bytes_join_name hn with ⟨hbytes, -⟩ | hbytes
  · rw [isAbsolute, isAbsolute, hbytes, hu]
    rfl
  · rw [isAbsolute, isAbsolute, hbytes, hu]
    rfl

theorem sublist_join (p : Path) (hn : IsName n) : p.bytes.Sublist (p.join ⟨n⟩).bytes := by
  rcases p.bytes_join_name hn with ⟨hbytes, -⟩ | hbytes <;>
    exact hbytes ▸ List.sublist_append_left _ _

theorem Ends.isAbsolute_join (h : p.Ends front n) {m : Name} (hm : IsName m) :
    (p.join ⟨m⟩).isAbsolute = p.isAbsolute :=
  isAbsolute_join_name h.bytes_ne_nil hm

theorem Ends.exists_lead (h : p.Ends front n) :
    ∃ rest, front = p.start.map Component.bytes ++ rest ∧
      front.filterMap component? = rest.filterMap component? ∧
      (p.start = [.root] ∧ p.isAbsolute = true ∨
        (p.start = [.here] ∨ p.start = []) ∧ p.isAbsolute = false) := by
  cases habs : p.isAbsolute with
  | true =>
    have hstart : p.start = [.root] := by rw [start, habs, if_pos rfl]
    have hempty := (isAbsolute_iff_head? h.bytes_ne_nil).mp habs
    rw [h.pieces] at hempty
    cases front with
    | nil => exact absurd (Option.some.inj hempty) h.isName.1
    | cons t front =>
      obtain rfl : t = [] := Option.some.inj hempty
      exact ⟨front, by rw [hstart]; rfl, rfl, .inl ⟨hstart, rfl⟩⟩
  | false =>
    by_cases hhere : (Text.pieces 0x2F p.bytes).head? = some [0x2E]
    · have hstart : p.start = [.here] := by
        rw [start, habs, if_neg Bool.false_ne_true, if_pos hhere]
      rw [h.pieces] at hhere
      cases front with
      | nil => exact absurd (Option.some.inj hhere) h.isName.2.1
      | cons t front =>
        obtain rfl : t = [0x2E] := Option.some.inj hhere
        exact ⟨front, by rw [hstart]; rfl, rfl, .inr ⟨.inl hstart, rfl⟩⟩
    · have hstart : p.start = [] := by
        rw [start, habs, if_neg Bool.false_ne_true, if_neg hhere]
      exact ⟨front, by rw [hstart]; rfl, rfl, .inr ⟨.inr hstart, rfl⟩⟩

def tidy (p : Path) : Path := ofComponents p.components

theorem parent?_join_name (p : Path) (hn : IsName n) : (p.join ⟨n⟩).parent? = some p.tidy := by
  have hcomponents := components_join_name p hn
  rw [parent?, hcomponents]
  split
  · next he => exact absurd he (by simp)
  · next he =>
    have hlast := congrArg List.getLast? he
    rw [List.getLast?_concat] at hlast
    exact absurd hlast (by simp)
  · rw [List.dropLast_concat]
    rfl

theorem Ends.tidy_bytes (h : p.Ends front n)
    (hrest : front.filterMap component? = rest.filterMap component?) :
    p.tidy.bytes = Text.join [0x2F] (p.start.map Component.bytes ++ solid rest ++ [n]) := by
  have hcomponents : p.components = p.start ++ rest.filterMap component? ++ [.name n] := by
    rw [components_eq, h.pieces, List.filterMap_append, hrest, List.filterMap_cons,
      component?_of_isName h.isName, List.filterMap_nil, List.append_assoc]
  have hroot : p.components ≠ [.root] := by
    intro he
    have hlast := congrArg List.getLast? (hcomponents.symm.trans he)
    rw [List.getLast?_concat] at hlast
    cases hlast
  rw [tidy, ofComponents, if_neg hroot, hcomponents, List.map_append, List.map_append,
    map_bytes_components]
  rfl

theorem solid_sublist (ts : List Name) : (solid ts).Sublist ts := List.filter_sublist

theorem Ends.exists_tidy (h : p.Ends front n) :
    ∃ lead rest, front = lead ++ rest ∧ p.tidy.Ends (lead ++ solid rest) n ∧
      p.tidy.isAbsolute = p.isAbsolute := by
  obtain ⟨rest, hfront, hrest, hstart⟩ := h.exists_lead
  have hparts : (p.start.map Component.bytes ++ solid rest ++ [n]).Sublist (front ++ [n]) := by
    rw [hfront]
    exact ((solid_sublist rest).append_left _).append_right _
  have hends : p.tidy.Ends (p.start.map Component.bytes ++ solid rest) n := by
    refine ⟨?_, h.isName⟩
    rw [h.tidy_bytes hrest]
    exact Text.pieces_join (by simp) fun t ht => h.not_mem (hparts.subset ht)
  refine ⟨_, rest, hfront, hends, Bool.eq_iff_iff.mpr ?_⟩
  rw [isAbsolute_iff_head? hends.bytes_ne_nil, hends.pieces]
  rcases hstart with ⟨hroot, habs⟩ | ⟨hhere | hnothing, habs⟩
  · simp [hroot, habs, Component.bytes]
  · simp [hhere, habs, Component.bytes]
  -- The first part that is left is not empty.
  · have hsolid : ∀ t ∈ solid rest, t ≠ [] := fun t ht =>
      of_decide_eq_true (Bool.and_eq_true_iff.mp (List.mem_filter.mp ht).2).1
    rw [hnothing, habs, List.map_nil, List.nil_append]
    cases hs : solid rest with
    | nil => simp [h.isName.1]
    | cons t ts => simp [hsolid t (hs ▸ List.mem_cons_self)]

theorem Ends.fewer_tidy (h : p.Ends front n) : Fewer p.steps p.tidy.steps := by
  obtain ⟨lead, rest, rfl, htidy, -⟩ := h.exists_tidy
  rw [h.steps, htidy.steps, List.append_assoc, List.append_assoc, Step.ofParts_append lead,
    Step.ofParts_append lead]
  refine .append_left ?_ _
  have hsolid : solid (rest ++ [n]) = solid rest ++ [n] := by
    rw [solid, List.filter_append]
    exact congrArg (solid rest ++ ·) (solid_of_isName h.isName)
  exact hsolid ▸ fewer_solid (rest ++ [n])

theorem Ends.tidy_sublist (h : p.Ends front n) : p.tidy.bytes.Sublist p.bytes := by
  obtain ⟨lead, rest, rfl, htidy, -⟩ := h.exists_tidy
  rw [congrArg Path.bytes htidy.eq_join, congrArg Path.bytes h.eq_join]
  exact Text.join_sublist _ (((solid_sublist rest).append_left _).append_right _)

end Path

end CallStrip

import CallStrip.Text.Basic

/-!
Pieces of texts and of bytes. Those without the separator in them are found again in what they are
joined to.
-/

namespace CallStrip.Text

variable {α : Type} {ts us : List (List α)}

theorem join_cons (sep x : List α) (hts : ts ≠ []) : join sep (x :: ts) = x ++ sep ++ join sep ts := by
  cases ts with
  | nil => exact absurd rfl hts
  | cons t ts => rfl

theorem join_concat (sep x : List α) (hts : ts ≠ []) :
    join sep (ts ++ [x]) = join sep ts ++ sep ++ x := by
  induction ts with
  | nil => exact absurd rfl hts
  | cons t ts ih =>
    by_cases hnil : ts = []
    · subst hnil
      rfl
    · rw [List.cons_append, join_cons _ _ (by simp), ih hnil, join_cons _ _ hnil]
      simp only [List.append_assoc]

theorem join_eq_flatMap (sep x : List α) (ts : List (List α)) :
    join sep (x :: ts) = x ++ ts.flatMap (sep ++ ·) := by
  induction ts generalizing x with
  | nil => exact (List.append_nil x).symm
  | cons t ts ih => rw [join_cons sep x (List.cons_ne_nil t ts), ih, List.flatMap_cons,
      List.append_assoc, List.append_assoc]

theorem join_sublist (sep : List α) (h : ts.Sublist us) : (join sep ts).Sublist (join sep us) := by
  induction h with
  | slnil => exact .slnil
  | @cons ts us u hs ih =>
    by_cases hus : us = []
    · subst hus
      obtain rfl := List.sublist_nil.mp hs
      exact List.nil_sublist _
    · rw [join_cons _ _ hus]
      exact ih.trans (List.sublist_append_right _ _)
  | @cons_cons ts us t hs ih =>
    by_cases hus : us = []
    · subst hus
      obtain rfl := List.sublist_nil.mp hs
      exact .refl _
    · rw [join_cons _ _ hus]
      by_cases hts : ts = []
      · subst hts
        exact (List.sublist_append_left _ _).trans (List.sublist_append_left _ _)
      · rw [join_cons _ _ hts]
        exact (List.Sublist.refl _).append ih

theorem suffix_join_concat (sep x : List α) (ts : List (List α)) : x <:+ join sep (ts ++ [x]) := by
  induction ts with
  | nil => exact List.suffix_refl x
  | cons t ts ih =>
    rw [List.cons_append, join_cons _ _ (by simp)]
    exact ih.trans (List.suffix_append _ _)

variable [DecidableEq α] {sep : α} {t : List α}

theorem pieces_of_not_mem (h : sep ∉ t) : pieces sep t = [t] := by
  induction t with
  | nil => rfl
  | cons c t ih =>
    obtain ⟨hc, ht⟩ : sep ≠ c ∧ sep ∉ t := by simpa using h
    simp only [pieces, if_neg (Ne.symm hc), ih ht]

theorem pieces_append_sep (sep : α) (t u : List α) :
    pieces sep (t ++ sep :: u) = pieces sep t ++ pieces sep u := by
  induction t with
  | nil => simp [pieces]
  | cons c t ih =>
    simp only [List.cons_append, pieces, ih]
    split
    · rfl
    · cases hp : pieces sep t with
      | nil => exact absurd hp (pieces_ne_nil sep t)
      | cons p ps => rfl

theorem not_mem_pieces {piece : List α} (h : piece ∈ pieces sep t) : sep ∉ piece := by
  induction t generalizing piece with
  | nil =>
    obtain rfl := List.mem_singleton.mp h
    exact List.not_mem_nil
  | cons c t ih =>
    rw [pieces] at h
    split at h
    · rcases List.mem_cons.mp h with rfl | h
      · exact List.not_mem_nil
      · exact ih h
    · next hc =>
      cases hp : pieces sep t with
      | nil => exact absurd hp (pieces_ne_nil sep t)
      | cons q qs =>
        rw [hp] at h ih
        rcases List.mem_cons.mp h with rfl | h
        · exact List.not_mem_cons_of_ne_of_not_mem (Ne.symm hc) (ih List.mem_cons_self)
        · exact ih (List.mem_cons_of_mem q h)

theorem pieces_join (hne : ts ≠ []) (h : ∀ t ∈ ts, sep ∉ t) : pieces sep (join [sep] ts) = ts := by
  induction ts with
  | nil => exact absurd rfl hne
  | cons t ts ih =>
    obtain ⟨ht, hts⟩ := List.forall_mem_cons.mp h
    by_cases hnil : ts = []
    · subst hnil
      exact pieces_of_not_mem ht
    · rw [join_cons _ _ hnil, List.append_assoc, List.singleton_append, pieces_append_sep,
        pieces_of_not_mem ht, ih hnil hts, List.singleton_append]

end CallStrip.Text

import CallStrip.Path

/-!
A tree of files, folders and symbolic links. Every entry has one location, the names from the root
down to it, and lies in a folder of the tree.
-/

namespace CallStrip

abbrev Location := List Name

inductive Entry where
  | file (content : Bytes)
  | link (target : Path)
  | folder
  deriving DecidableEq, Repr

inductive EntryKind where
  | file
  | folder
  | other
  deriving DecidableEq, Repr

structure Child where
  name : Name
  kind : EntryKind
  deriving DecidableEq, Repr

def Entry.kind : Entry → EntryKind
  | .file _ => .file
  | .folder => .folder
  | .link _ => .other

def IsName (n : Name) : Prop := n ≠ [] ∧ n ≠ [0x2E] ∧ n ≠ [0x2E, 0x2E] ∧ 0x2F ∉ n

instance (n : Name) : Decidable (IsName n) :=
  inferInstanceAs (Decidable (n ≠ [] ∧ n ≠ [0x2E] ∧ n ≠ [0x2E, 0x2E] ∧ 0x2F ∉ n))

/-- What stands at a location. The root is a folder without being an entry. -/
def entryAt (es : List (Location × Entry)) (l : Location) : Option Entry :=
  if l = [] then some .folder else es.lookup l

structure FileTree where
  entries : List (Location × Entry)
  here : Location
  nodup : (entries.map (·.1)).Nodup
  placed : ∀ e ∈ entries,
    e.1 ≠ [] ∧ (∀ n ∈ e.1, IsName n) ∧ entryAt entries e.1.dropLast = some .folder
  here_folder : entryAt entries here = some .folder
  deriving DecidableEq

namespace FileTree

def get? (t : FileTree) (l : Location) : Option Entry := entryAt t.entries l

def without (l : Location) (es : List (Location × Entry)) : List (Location × Entry) :=
  es.filter (·.1 ≠ l)

theorem lookup_without {l k : Location} (h : k ≠ l) (es : List (Location × Entry)) :
    (without l es).lookup k = es.lookup k := by
  induction es with
  | nil => rfl
  | cons e es ih =>
    obtain ⟨m, x⟩ := e
    by_cases hm : m = l
    · have hk : (k == m) = false := beq_eq_false_iff_ne.mpr (hm ▸ h)
      simpa [without, hm, List.lookup_cons, hm ▸ hk] using ih
    · simp only [without, List.filter_cons, ne_eq, hm, not_false_eq_true, decide_true, ite_true,
        List.lookup_cons] at ih ⊢
      rw [ih]

theorem entryAt_without {l k : Location} (h : k ≠ l) (es : List (Location × Entry)) :
    entryAt (without l es) k = entryAt es k := by
  unfold entryAt
  rw [lookup_without h]

theorem entryAt_put {l k : Location} (e : Entry) (hl : l ≠ []) (es : List (Location × Entry)) :
    entryAt (without l es ++ [(l, e)]) k = if k = l then some e else entryAt es k := by
  by_cases h : k = l
  · subst h
    have : (without k es).lookup k = none :=
      List.lookup_eq_none_iff.mpr fun p hp => by
        have hp := of_decide_eq_true (List.mem_filter.mp hp).2
        exact bne_iff_ne.mpr (Ne.symm hp)
    rw [entryAt, if_neg hl, List.lookup_append, this]
    simp
  · have hb : (k == l) = false := beq_eq_false_iff_ne.mpr h
    simp only [entryAt, List.lookup_append, lookup_without h, List.lookup_cons, hb, List.lookup_nil,
      Option.or_none, if_neg h]

theorem nodup_without (l : Location) {es : List (Location × Entry)} (h : (es.map (·.1)).Nodup) :
    ((without l es).map (·.1)).Nodup :=
  h.sublist (List.filter_sublist.map _)

theorem ne_of_folder {es : List (Location × Entry)} {l k : Location}
    (hk : entryAt es k = some .folder) (hl : entryAt es l ≠ some .folder) : k ≠ l := by
  rintro rfl
  exact hl hk

def Admits (t : FileTree) (l : Location) : Prop :=
  l ≠ [] ∧ (∀ n ∈ l, IsName n) ∧ t.get? l.dropLast = some .folder ∧ t.get? l ≠ some .folder

instance (t : FileTree) (l : Location) : Decidable (t.Admits l) :=
  inferInstanceAs (Decidable (l ≠ [] ∧ (∀ n ∈ l, IsName n) ∧ _ ∧ _))

def put (t : FileTree) (l : Location) (e : Entry) : FileTree :=
  if h : t.Admits l then
    { entries := without l t.entries ++ [(l, e)]
      here := t.here
      nodup := by
        rw [List.map_append, List.nodup_append]
        refine ⟨nodup_without l t.nodup, by simp, fun k hk m hm hkm => ?_⟩
        obtain ⟨x, hx, rfl⟩ := List.mem_map.mp hk
        rw [List.map_singleton, List.mem_singleton] at hm
        have := (List.mem_filter.mp hx).2
        simp [hkm, hm] at this
      placed := by
        intro x hx
        rw [entryAt_put e h.1]
        have kept (k : Location) (hk : entryAt t.entries k = some .folder) :
            (if k = l then some e else entryAt t.entries k) = some .folder := by
          rw [if_neg (ne_of_folder hk h.2.2.2), hk]
        rcases List.mem_append.mp hx with hx | hx
        · obtain ⟨h₁, h₂, h₃⟩ := t.placed x (List.mem_filter.mp hx).1
          exact ⟨h₁, h₂, kept _ h₃⟩
        · rw [List.mem_singleton.mp hx]
          exact ⟨h.1, h.2.1, kept _ h.2.2.1⟩
      here_folder := by
        rw [entryAt_put e h.1, if_neg (ne_of_folder t.here_folder h.2.2.2)]
        exact t.here_folder }
  else t

def erase (t : FileTree) (l : Location) : FileTree :=
  if h : t.get? l = some .folder then t
  else
    have kept (k : Location) (hk : entryAt t.entries k = some .folder) :
        entryAt (without l t.entries) k = some .folder := by
      rw [entryAt_without (ne_of_folder hk h), hk]
    { entries := without l t.entries
      here := t.here
      nodup := nodup_without l t.nodup
      placed := fun x hx =>
        have hx := t.placed x (List.mem_filter.mp hx).1
        ⟨hx.1, hx.2.1, kept _ hx.2.2⟩
      here_folder := kept _ t.here_folder }

theorem get?_put {t : FileTree} {l : Location} (h : t.Admits l) (e : Entry) (k : Location) :
    (t.put l e).get? k = if k = l then some e else t.get? k := by
  unfold put
  rw [dif_pos h]
  exact entryAt_put e h.1 t.entries

theorem here_put (t : FileTree) (l : Location) (e : Entry) : (t.put l e).here = t.here := by
  unfold put
  split <;> rfl

def fresh (n : Name) (h : IsName n) : FileTree where
  entries := [([n], .folder)]
  here := [n]
  nodup := by simp
  placed := by simp [h, entryAt]
  here_folder := by simp [entryAt]

end FileTree

end CallStrip

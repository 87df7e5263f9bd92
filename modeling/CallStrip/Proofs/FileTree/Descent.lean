import CallStrip.Proofs.FileTree.Arrival

/-!
Descents: names that lead down from a folder. Behind a path that leads to the folder they lead to
the same place, unless the path gets too long with them or is none that may be asked for.
-/

namespace CallStrip

namespace FileTree

variable {t : FileTree} {l k : Location} {e : Entry} {n : Name}

/-- The names that lead from a location to an entry, each one standing in a folder; a link leads
nowhere. -/
inductive Leads (t : FileTree) : Location → List Name → Entry → Prop
  | here {l : Location} {e : Entry} : t.get? l = some e → Leads t l [] e
  | into {l : Location} {n : Name} {ns : List Name} {e : Entry} :
      t.get? l = some .folder → Leads t (l ++ [n]) ns e → Leads t l (n :: ns) e

theorem leads_iff : t.Leads l k e ↔ t.get? (l ++ k) = some e := by
  constructor
  · intro h
    induction h with
    | here he => rwa [List.append_nil]
    | into _ _ ih => rwa [List.append_assoc] at ih
  · intro h
    induction k generalizing l with
    | nil => exact .here (by rwa [List.append_nil] at h)
    | cons n k ih =>
      have hfolder := folder_of_get?_append (List.cons_ne_nil n k) h
      exact .into hfolder (ih (by rwa [List.append_assoc]))

end FileTree

namespace Path

variable {p root : Path} {k k' : Location} {n : Name} {b : UInt8}

def below (p : Path) (names : List Name) : Path := names.foldl (fun p n => p.join ⟨n⟩) p

theorem below_concat (p : Path) (k : Location) (n : Name) :
    p.below (k ++ [n]) = (p.below k).join ⟨n⟩ := by
  rw [below, List.foldl_append]
  rfl

/-- Whether the path with some names behind it is short enough, and so is each name. -/
def Opens (p : Path) (names : List Name) : Prop :=
  (p.below names).bytes.length ≤ FileTree.pathLimit ∧
    ∀ n ∈ names, 0 ∉ n ∧ n.length ≤ FileTree.nameLimit

/-- The components of a path as bytes, by which paths are ordered. -/
def key (p : Path) : List Bytes := p.components.map Component.bytes

theorem components_below (root : Path) (h : ∀ n ∈ k, IsName n) :
    (root.below k).components = root.components ++ k.map .name := by
  induction k using List.reverseRecOn with
  | nil => simp [below]
  | append_singleton k n ih =>
    have hn : IsName n := h n (by simp)
    rw [below_concat, components_join_name _ hn, ih fun m hm => h m (by simp [hm])]
    simp

theorem key_below (root : Path) (h : ∀ n ∈ k, IsName n) : (root.below k).key = root.key ++ k := by
  have hbytes : Component.bytes ∘ Component.name = id := rfl
  rw [key, components_below root h, List.map_append, List.map_map, hbytes, List.map_id, key]

theorem key_below_lt_iff (h : ∀ n ∈ k, IsName n) (h' : ∀ n ∈ k', IsName n) :
    (root.below k).key < (root.below k').key ↔ k < k' := by
  rw [key_below root h, key_below root h']
  induction root.key with
  | nil => rfl
  | cons b bs ih =>
    rw [List.cons_append, List.cons_append, List.cons_lt_cons_iff, ih]
    simp [List.lt_irrefl]

theorem mem_bytes_join_iff (hn : IsName n) (hb : b ≠ 0x2F) :
    b ∈ (p.join ⟨n⟩).bytes ↔ b ∈ p.bytes ∨ b ∈ n := by
  rcases p.bytes_join_name hn with ⟨hbytes, -⟩ | hbytes <;> simp [hbytes, hb]

theorem length_join_name_lt (p : Path) (hn : IsName n) :
    p.bytes.length < (p.join ⟨n⟩).bytes.length := by
  have hlength := List.length_pos_iff.mpr hn.1
  rcases p.bytes_join_name hn with ⟨hbytes, -⟩ | hbytes <;> simp [hbytes, hlength]

theorem mem_steps_below (p : Path) (h : ∀ n ∈ k, IsName n) :
    ∀ n ∈ k, .name n ∈ (p.below k).steps := by
  induction k using List.reverseRecOn with
  | nil => simp
  | append_singleton k m ih =>
    obtain ⟨steps, hjoin, hsteps⟩ := (p.below k).exists_steps_join (h m (by simp))
    intro n hn
    rw [below_concat, hjoin]
    rcases List.mem_append.mp hn with hn | hn
    · have hmem := ih (fun m hm => h m (by simp [hm])) n hn
      rcases hsteps with hsteps | hsteps <;> simpa [hsteps] using Or.inl hmem
    · simp [List.mem_singleton.mp hn]

end Path

namespace FileTree

variable {t : FileTree} {p : Path} {l g k : Location} {e : Entry} {n : Name}

theorem find_join (hp : t.find p = .ok l) (he : t.get? (l ++ [n]) = some e)
    (hlink : ∀ target, e ≠ .link target) (hlength : n.length ≤ nameLimit)
    (hrefused : refused? (p.join ⟨n⟩) = none) : t.find (p.join ⟨n⟩) = .ok (l ++ [n]) := by
  have hn : IsName n := isName_of_get? he n List.mem_cons_self
  have hbytes := (refused?_eq_none_iff.mp (spot_eq_ok (find_eq_ok_iff.mp hp)).1).2.1
  have harrives := arrives_of_find hp
  obtain ⟨steps, hjoin, hsteps⟩ := p.exists_steps_join hn
  -- The steps of the joined path are those of the path, less a separator at its end, and the name.
  have hbefore : t.Arrives linkLimit (t.origin p) steps l := by
    rcases hsteps with hsteps | hsteps
    · exact hsteps ▸ harrives
    · exact (hsteps ▸ harrives).init_of_slash
  have hname := hbefore.append_name (folder_of_get?_concat he) hlength he hlink
  obtain ⟨g, hwalk, hg⟩ := hname.walk true
  rw [find_eq_ok_iff, spot, hrefused, hjoin, Path.isAbsolute_join_name hbytes hn, ← hg rfl]
  exact hwalk

theorem length_name_le_of_find (h : t.find (p.below k) = .ok g) (hk : ∀ n ∈ k, IsName n) :
    ∀ n ∈ k, n.length ≤ nameLimit :=
  fun n hn => (arrives_of_find h).length_name_le (p.mem_steps_below hk n hn)

theorem find_join_or (hp : t.find p = .ok l) (he : t.get? (l ++ [n]) = some e)
    (hlink : ∀ target, e ≠ .link target) :
    t.find (p.join ⟨n⟩) = .ok (l ++ [n]) ∨ ∃ c, t.find (p.join ⟨n⟩) = .error c := by
  cases h : t.find (p.join ⟨n⟩) with
  | error c => exact .inr ⟨c, rfl⟩
  | ok g =>
    refine .inl (h ▸ find_join hp he hlink ?_ (spot_eq_ok (find_eq_ok_iff.mp h)).1)
    exact length_name_le_of_find (k := [n]) h (isName_of_get? he) n List.mem_cons_self

theorem opens_of_find (h : t.find (p.below k) = .ok g) (hk : ∀ n ∈ k, IsName n) : p.Opens k := by
  obtain ⟨hzero, -, hlength⟩ := refused?_eq_none_iff.mp (spot_eq_ok (find_eq_ok_iff.mp h)).1
  refine ⟨hlength, fun n hn => ⟨fun hmem => hzero ?_, length_name_le_of_find h hk n hn⟩⟩
  clear h hzero hlength
  induction k using List.reverseRecOn with
  | nil => cases hn
  | append_singleton k m ih =>
    rw [Path.below_concat, Path.mem_bytes_join_iff (hk m (by simp)) (by decide)]
    rcases List.mem_append.mp hn with hn | hn
    · exact .inl (ih (fun m hm => hk m (by simp [hm])) hn)
    · exact .inr (List.mem_singleton.mp hn ▸ hmem)

theorem find_below (hp : t.find p = .ok l) (hk : t.get? (l ++ k) = some .folder)
    (hopens : p.Opens k) : t.find (p.below k) = .ok (l ++ k) := by
  induction k using List.reverseRecOn with
  | nil => rwa [List.append_nil]
  | append_singleton k n ih =>
    have hn : IsName n := isName_of_get? hk n (by simp)
    rw [Path.Opens, Path.below_concat] at hopens
    obtain ⟨hlength, hnames⟩ := hopens
    rw [← List.append_assoc] at hk
    have hfind := ih (folder_of_get?_concat hk)
      ⟨Nat.le_trans ((p.below k).length_join_name_lt hn).le hlength,
        fun m hm => hnames m (by simp [hm])⟩
    obtain ⟨hzero, -, -⟩ := refused?_eq_none_iff.mp (spot_eq_ok (find_eq_ok_iff.mp hfind)).1
    obtain ⟨hzero', hlength'⟩ := hnames n (by simp)
    rw [Path.below_concat, ← List.append_assoc]
    refine find_join hfind hk (by simp) hlength' (refused?_eq_none_iff.mpr ⟨?_, ?_, hlength⟩)
    · rw [Path.mem_bytes_join_iff hn (by decide)]
      exact not_or.mpr ⟨hzero, hzero'⟩
    · exact List.ne_nil_of_length_pos (Nat.zero_lt_of_lt ((p.below k).length_join_name_lt hn))

end FileTree

end CallStrip

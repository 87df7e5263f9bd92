import CallStrip.FileTree.Files
import CallStrip.Proofs.FileTree.Entries

/-!
Trees that differ in nothing but what their files hold. Every path leads to the same place in both,
and putting content into a file never makes any other difference.
-/

namespace CallStrip.FileTree

/-- The same entries at the same locations; a file may hold something else. -/
structure Alike (t u : FileTree) : Prop where
  here : u.here = t.here
  entry : ∀ l, u.get? l = t.get? l ∨
    ∃ s s', t.get? l = some (.file s) ∧ u.get? l = some (.file s')

variable {t u : FileTree} {l k : Location} {p : Path} {s s' : Bytes}

namespace Alike

theorem refl (t : FileTree) : t.Alike t := ⟨rfl, fun _ => .inl rfl⟩

theorem file_iff (h : t.Alike u) :
    (∃ s, u.get? l = some (.file s)) ↔ ∃ s, t.get? l = some (.file s) := by
  rcases h.entry l with he | ⟨s, s', hs, hs'⟩
  · rw [he]
  · simp [hs, hs']

theorem folder_iff (h : t.Alike u) : u.get? l = some .folder ↔ t.get? l = some .folder := by
  rcases h.entry l with he | ⟨s, s', hs, hs'⟩
  · rw [he]
  · simp [hs, hs']

theorem isSome (h : t.Alike u) (l : Location) : (u.get? l).isSome = (t.get? l).isSome := by
  rcases h.entry l with he | ⟨s, s', hs, hs'⟩
  · rw [he]
  · rw [hs, hs']
    rfl

theorem stretch (h : t.Alike u) (follow : Bool)
    (onward : Location → Path → List Step → Except IoCause Spot) (l : Location)
    (steps : List Step) : u.stretch follow onward l steps = t.stretch follow onward l steps := by
  induction steps generalizing l with
  | nil => rfl
  | cons step rest ih =>
    simp only [FileTree.stretch, ne_eq, h.folder_iff, ih]
    cases step with
    | name n =>
      rcases h.entry (l ++ [n]) with he | ⟨s, s', hs, hs'⟩
      · simp only [he]
      · simp only [hs, hs']
    | _ => rfl

theorem walk (h : t.Alike u) (follow : Bool) (links : Nat) (l : Location) (steps : List Step) :
    u.walk follow links l steps = t.walk follow links l steps := by
  induction links generalizing l steps with
  | zero => exact h.stretch follow _ l steps
  | succ links ih =>
    simp only [FileTree.walk, ih]
    exact h.stretch follow _ l steps

theorem spot (h : t.Alike u) (follow : Bool) (p : Path) : u.spot follow p = t.spot follow p := by
  unfold FileTree.spot
  simp only [h.here, h.walk]

theorem find (h : t.Alike u) (p : Path) : u.find p = t.find p := by
  unfold FileTree.find
  rw [h.spot]

theorem present (h : t.Alike u) (p : Path) : u.present p = t.present p := by
  unfold FileTree.present
  rw [h.find]

end Alike

theorem find_eq_ok_iff : t.find p = .ok l ↔ t.spot true p = .ok (.entry l) := by
  unfold find
  cases t.spot true p with
  | error c => simp [bind, Except.bind]
  | ok spot => cases spot <;> simp [bind, Except.bind]

theorem read_eq_ok_iff : t.read p = .ok s ↔ ∃ l, t.find p = .ok l ∧ t.get? l = some (.file s) := by
  unfold read
  cases t.find p with
  | error c => simp [bind, Except.bind]
  | ok l =>
    simp only [bind, Except.bind, Except.ok.injEq, exists_eq_left']
    split
    · next s' hs => simp [hs]
    · next hn => simpa using hn s

theorem Alike.read_error_iff (h : t.Alike u) {c : IoCause} :
    u.read p = .error c ↔ t.read p = .error c := by
  unfold FileTree.read
  rw [h.find]
  cases t.find p with
  | error c' => rfl
  | ok l =>
    simp only [bind, Except.bind]
    rcases h.entry l with he | ⟨s, s', hs, hs'⟩
    · rw [he]
    · simp [hs, hs']

theorem Alike.read_of_get? (h : t.Alike u) (hl : ∀ l, t.find p = .ok l → u.get? l = t.get? l) :
    u.read p = t.read p := by
  unfold FileTree.read
  rw [h.find]
  cases hf : t.find p with
  | error c => rfl
  | ok l => simp only [bind, Except.bind, hl l hf]

theorem write_of_file (hf : t.find p = .ok l) (h : t.get? l = some (.file s)) (s' : Bytes) :
    t.write p s' = .ok (t.put l (.file s')) := by
  unfold write
  rw [find_eq_ok_iff.mp hf]
  simp only [bind, Except.bind, h]

end CallStrip.FileTree

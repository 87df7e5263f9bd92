import CallStrip.Project
import CallStrip.Proofs.Project.Rewrites

/-!
A run as a sequence of visits. Each visit finds its file missing or strips it in place, and a run
that nothing stopped has made one visit for each of its paths.
-/

namespace CallStrip

theorem run_bind {σ α β : Type} {x : StateM σ α} {f : α → StateM σ β} {s s' : σ} {a : α}
    (h : x.run s = (a, s')) : (x >>= f).run s = (f a).run s' := by
  rw [StateT.run_bind, h]
  rfl

namespace FileTree

def readText (t : FileTree) (p : Path) : Except IoCause Text :=
  match t.read p with
  | .error c => .error c
  | .ok s =>
    match Utf8.decode s with
    | some x => .ok x
    | none => .error .notUtf8

def misses (t : FileTree) (p : Path) : Bool :=
  match t.read p with
  | .error c => c.kind = .notFound
  | .ok _ => false

def visited (t : FileTree) (paths : List Path) : Finset Location :=
  (paths.filterMap fun p => (t.find p).toOption).toFinset

variable {t u : FileTree} {p : Path} {paths : List Path} {l : Location} {x : Text} {c : IoCause}

theorem readText_eq_ok_iff :
    t.readText p = .ok x ↔ ∃ l, t.find p = .ok l ∧ t.get? l = some (.file (Utf8.encode x)) := by
  rw [← read_eq_ok_iff]
  unfold readText
  cases t.read p with
  | error c => simp
  | ok s =>
    simp only [Except.ok.injEq, ← Utf8.decode_eq_some_iff]
    cases Utf8.decode s <;> simp

theorem misses_iff : t.misses p = true ↔ ∃ c, t.readText p = .error c ∧ c.kind = .notFound := by
  unfold misses readText
  cases t.read p with
  | error c => simp
  | ok s => cases hd : Utf8.decode s <;> simp [hd, IoCause.kind]

theorem misses_eq_false (h : t.readText p = .ok x) : t.misses p = false := by
  rw [← Bool.not_eq_true, misses_iff]
  rintro ⟨c, hc, -⟩
  rw [h] at hc
  cases hc

theorem find_ne_ok_of_misses (h : t.misses p = true) (l : Location) : t.find p ≠ .ok l := by
  intro hf
  unfold misses read at h
  simp only [hf, bind, Except.bind] at h
  split at h
  · next c hc =>
    split at hc
    · cases hc
    · cases hc
      simp [IoCause.kind] at h
  · cases h

theorem mem_visited : l ∈ t.visited paths ↔ ∃ p ∈ paths, t.find p = .ok l := by
  simp only [visited, List.mem_toFinset, List.mem_filterMap]
  refine exists_congr fun p => and_congr_right fun _ => ?_
  cases t.find p <;> simp [Except.toOption]

theorem visited_cons (t : FileTree) (p : Path) (paths : List Path) :
    t.visited (p :: paths) = t.visited [p] ∪ t.visited paths := by
  ext l
  simp [mem_visited]

theorem visited_of_find (h : t.find p = .ok l) : t.visited [p] = {l} := by
  ext k
  simp [mem_visited, h, eq_comm]

theorem visited_of_misses (h : t.misses p = true) : t.visited [p] = ∅ := by
  ext k
  simp [mem_visited, find_ne_ok_of_misses h]

theorem visited_perm {paths' : List Path} (h : paths'.Perm paths) :
    t.visited paths' = t.visited paths := by
  ext l
  simp only [mem_visited, h.mem_iff]

theorem Alike.misses (h : t.Alike u) (p : Path) : u.misses p = t.misses p := by
  unfold FileTree.misses
  cases ht : t.read p with
  | error c => rw [h.read_error_iff.mpr ht]
  | ok s =>
    obtain ⟨l, hf, hl⟩ := read_eq_ok_iff.mp ht
    obtain ⟨s', hs'⟩ := h.file_iff.mpr ⟨s, hl⟩
    rw [read_eq_ok_iff.mpr ⟨l, (h.find p).trans hf, hs'⟩]

theorem Alike.visited (h : t.Alike u) (paths : List Path) : u.visited paths = t.visited paths := by
  ext l
  simp only [mem_visited, h.find]

end FileTree

theorem Disk.run_readText (t : FileTree) (p : Path) :
    (Disk.readText p : StateM FileTree (Except IoCause Text)).run t = (t.readText p, t) := by
  have hread : (Disk.read p : StateM FileTree (Except IoCause Bytes)).run t = (t.read p, t) := rfl
  rw [Disk.readText, run_bind hread, FileTree.readText]
  cases t.read p with
  | error c => rfl
  | ok s => cases hd : Utf8.decode s <;> simp only [hd] <;> rfl

namespace Stripper

def visit (p : Stripper) (x : Text) : Visit :=
  if (p.strip x).changed then .modified (p.strip x).removed true else .unchanged

variable {p : Stripper} {t u : FileTree} {path : Path} {l : Location} {x : Text} {c : IoCause}

theorem changed_eq_false_iff (p : Stripper) (x : Text) :
    (p.strip x).changed = false ↔ (p.strip x).content = x := by
  rw [p.content_strip_eq_iff, Stripped.changed]
  simp

theorem removed_visit (p : Stripper) (x : Text) : (p.visit x).removed = (p.strip x).removed := by
  unfold visit
  split
  · rfl
  · next h =>
    rw [Bool.not_eq_true, changed_eq_false_iff, content_strip_eq_iff] at h
    exact h.symm

theorem run_stripFile_missing (h : t.readText path = .error c) (hc : c.kind = .notFound) :
    (p.stripFile false path : Action (StateM FileTree) Visit).run.run t = (.ok .missing, t) := by
  rw [stripFile, ExceptT.run_mk, run_bind (Disk.run_readText t path), h]
  simp only [if_pos hc]
  rfl

theorem run_stripFile_unread (h : t.readText path = .error c) (hc : c.kind ≠ .notFound) :
    (p.stripFile false path : Action (StateM FileTree) Visit).run.run t =
      (.error (.io ((IoError.ofCause c).within ("Failed to read ".toList ++ path.text))), t) := by
  rw [stripFile, ExceptT.run_mk, run_bind (Disk.run_readText t path), h]
  simp only [if_neg hc]
  rfl

theorem run_stripFile_unchanged (h : t.readText path = .ok x)
    (hx : (p.strip x).changed = false) :
    (p.stripFile false path : Action (StateM FileTree) Visit).run.run t = (.ok .unchanged, t) := by
  rw [stripFile, ExceptT.run_mk, run_bind (Disk.run_readText t path), h]
  simp only [hx, Bool.not_false, if_true]
  rfl

theorem run_stripFile_modified (h : t.readText path = .ok x) (hx : (p.strip x).changed = true)
    (hu : t.write path (Utf8.encode (p.strip x).content) = .ok u) :
    (p.stripFile false path : Action (StateM FileTree) Visit).run.run t =
      (.ok (.modified (p.strip x).removed true), u) := by
  have hwrite : (Disk.write path (Utf8.encode (p.strip x).content) :
      StateM FileTree (Except IoCause Unit)).run t = (.ok (), u) := by
    change FileTree.change (fun t => t.write path (Utf8.encode (p.strip x).content)) t = _
    rw [FileTree.change, hu]
  rw [stripFile, ExceptT.run_mk, run_bind (Disk.run_readText t path), h]
  simp only [hx, Bool.not_true, Bool.false_eq_true, if_false]
  rw [run_bind hwrite]
  rfl

theorem rewrites_put (p : Stripper) (hl : t.get? l = some (.file (Utf8.encode x))) :
    p.Rewrites t {l} (t.put l (.file (Utf8.encode (p.strip x).content))) := by
  have hadmits := FileTree.admits_of_file hl
  refine ⟨FileTree.here_put t l _, fun k hk => ?_, fun k hk => ?_⟩
  · obtain rfl := Finset.mem_singleton.mp hk
    exact ⟨x, hl, by rw [FileTree.get?_put hadmits, if_pos rfl]⟩
  · rw [FileTree.get?_put hadmits, if_neg (mt Finset.mem_singleton.mpr hk)]

theorem run_stripFile_found (hf : t.find path = .ok l)
    (hl : t.get? l = some (.file (Utf8.encode x))) :
    ∃ u, (p.stripFile false path : Action (StateM FileTree) Visit).run.run t =
      (.ok (p.visit x), u) ∧ p.Rewrites t {l} u := by
  have hread := FileTree.readText_eq_ok_iff.mpr ⟨l, hf, hl⟩
  cases hx : (p.strip x).changed with
  | false =>
    refine ⟨t, ?_, rfl, fun k hk => ?_, fun _ _ => rfl⟩
    · rw [run_stripFile_unchanged hread hx, visit, hx]
      rfl
    · rw [Finset.mem_singleton.mp hk]
      refine ⟨x, hl, ?_⟩
      rw [(changed_eq_false_iff p x).mp hx]
      exact hl
  | true =>
    refine ⟨t.put l (.file (Utf8.encode (p.strip x).content)), ?_, p.rewrites_put hl⟩
    rw [run_stripFile_modified hread hx (FileTree.write_of_file hf hl _), visit, hx]
    rfl

/-- Visits of some paths one after the other, each on the tree that the one before left. -/
inductive Visits (p : Stripper) : FileTree → List (Path × Visit) → FileTree → Prop
  | done {t : FileTree} : Visits p t [] t
  | missing {t u : FileTree} {path : Path} {vs : List (Path × Visit)} :
      t.misses path = true → Visits p t vs u → Visits p t ((path, .missing) :: vs) u
  | found {t t' u : FileTree} {path : Path} {l : Location} {x : Text} {vs : List (Path × Visit)} :
      t.find path = .ok l → t.get? l = some (.file (Utf8.encode x)) → p.Rewrites t {l} t' →
      Visits p t' vs u → Visits p t ((path, p.visit x) :: vs) u

end Stripper

/-- Whether a path can be visited: if it cannot be read as text, nothing is there. -/
def FileTree.Fits (t : FileTree) (path : Path) : Prop :=
  ∀ c, t.readText path = .error c → c.kind = .notFound

theorem FileTree.fits_iff {t : FileTree} {path : Path} :
    t.Fits path ↔ t.misses path = true ∨ ∃ x, t.readText path = .ok x := by
  rw [misses_iff, Fits]
  cases t.readText path <;> simp

theorem Stripper.Rewrites.fits {p : Stripper} {t u : FileTree} {ls : Finset Location} {path : Path}
    (h : p.Rewrites t ls u) : u.Fits path ↔ t.Fits path := by
  have hread : (∃ x, u.readText path = .ok x) ↔ ∃ x, t.readText path = .ok x := by
    simp only [FileTree.readText_eq_ok_iff, h.alike.find]
    constructor
    · rintro ⟨x, l, hf, hx⟩
      obtain ⟨y, hy⟩ := h.text_iff.mp ⟨x, hx⟩
      exact ⟨y, l, hf, hy⟩
    · rintro ⟨x, l, hf, hx⟩
      obtain ⟨y, hy⟩ := h.text_iff.mpr ⟨x, hx⟩
      exact ⟨y, l, hf, hy⟩
  rw [FileTree.fits_iff, FileTree.fits_iff, h.alike.misses, hread]

namespace Project

variable {p : Project} {t u : FileTree} {path : Path} {paths : List Path} {v : Visit}

section Cons

variable {σ : Type} [Disk (StateM σ)] {dry : Bool} {s s' : σ}

theorem run_cons_ok (h : (p.stripper.stripFile dry path : Action (StateM σ) Visit).run.run s =
    (.ok v, s')) :
    (p.run dry (path :: paths) : StateM σ Run).run s =
      (let next := (p.run dry paths : StateM σ Run).run s'
      ({ next.1 with visits := (path, v) :: next.1.visits }, next.2)) := by
  rw [Project.run, run_bind h]
  rfl

theorem run_cons_error {f : Failure}
    (h : (p.stripper.stripFile dry path : Action (StateM σ) Visit).run.run s = (.error f, s')) :
    (p.run dry (path :: paths) : StateM σ Run).run s = (⟨[], some f⟩, s') := by
  rw [Project.run, run_bind h]
  rfl

end Cons

theorem run_of_fits (h : ∀ path ∈ paths, t.Fits path) :
    ∃ vs u, (p.run false paths : StateM FileTree Run).run t = (⟨vs, none⟩, u) ∧
      p.stripper.Visits t vs u ∧ vs.map (·.1) = paths := by
  induction paths generalizing t with
  | nil => exact ⟨[], t, rfl, .done, rfl⟩
  | cons path paths ih =>
    obtain ⟨hpath, hpaths⟩ := List.forall_mem_cons.mp h
    rcases FileTree.fits_iff.mp hpath with hmiss | ⟨x, hx⟩
    · obtain ⟨c, hc, hkind⟩ := FileTree.misses_iff.mp hmiss
      obtain ⟨vs, u, hrun, hvs, hmap⟩ := ih hpaths
      refine ⟨(path, .missing) :: vs, u, ?_, .missing hmiss hvs, by simp [hmap]⟩
      rw [run_cons_ok (Stripper.run_stripFile_missing hc hkind), hrun]
    · obtain ⟨l, hf, hl⟩ := FileTree.readText_eq_ok_iff.mp hx
      obtain ⟨t', hstrip, hrewrites⟩ := p.stripper.run_stripFile_found hf hl
      obtain ⟨vs, u, hrun, hvs, hmap⟩ := ih fun q hq => hrewrites.fits.mpr (hpaths q hq)
      refine ⟨(path, p.stripper.visit x) :: vs, u, ?_, .found hf hl hrewrites hvs, by simp [hmap]⟩
      rw [run_cons_ok hstrip, hrun]

theorem fits_of_run
    (h : ((p.run false paths : StateM FileTree Run).run t).1.failure = none) :
    ∀ path ∈ paths, t.Fits path := by
  induction paths generalizing t with
  | nil => simp
  | cons path paths ih =>
    by_cases hpath : t.Fits path
    · refine List.forall_mem_cons.mpr ⟨hpath, ?_⟩
      rcases FileTree.fits_iff.mp hpath with hmiss | ⟨x, hx⟩
      · obtain ⟨c, hc, hkind⟩ := FileTree.misses_iff.mp hmiss
        rw [run_cons_ok (Stripper.run_stripFile_missing hc hkind)] at h
        exact ih h
      · obtain ⟨l, hf, hl⟩ := FileTree.readText_eq_ok_iff.mp hx
        obtain ⟨t', hstrip, hrewrites⟩ := p.stripper.run_stripFile_found hf hl
        rw [run_cons_ok hstrip] at h
        exact fun q hq => hrewrites.fits.mp (ih h q hq)
    · obtain ⟨c, hc, hkind⟩ : ∃ c, t.readText path = .error c ∧ c.kind ≠ .notFound := by
        simpa [FileTree.Fits] using hpath
      rw [run_cons_error (Stripper.run_stripFile_unread hc hkind)] at h
      cases h

end Project

end CallStrip

import CallStrip.Proofs.Project.Effect

/-!
Runs that a file stops. The files before it are visited as if they were all there is, the file
itself and those behind it are left alone, and the failure says what was being done to which file.
-/

namespace CallStrip

/-- A tree on a disk that may refuse to read or to change it. It is laid down which of the uses to
come are refused, and why; those behind the last are not. -/
structure FailingDisk where
  tree : FileTree
  ahead : List (Option IoCause)
  deriving DecidableEq

namespace FailingDisk

variable {α : Type}

def use (x : StateM FileTree (Except IoCause α)) : StateM FailingDisk (Except IoCause α) := fun d =>
  match d.ahead with
  | some c :: ahead => (.error c, ⟨d.tree, ahead⟩)
  | ahead => ((x.run d.tree).1, ⟨(x.run d.tree).2, ahead.tail⟩)

def ask (x : StateM FileTree α) : StateM FailingDisk α := fun d =>
  ((x.run d.tree).1, ⟨(x.run d.tree).2, d.ahead⟩)

instance : Disk (StateM FailingDisk) where
  read p := use (Disk.read p)
  write p content := use (Disk.write p content)
  makeFolder p := use (Disk.makeFolder p)
  isFolder p := ask (Disk.isFolder p)
  present p := ask (Disk.present p)
  readFolder p := use (Disk.readFolder p)

theorem run_use (x : StateM FileTree (Except IoCause α)) (d : FailingDisk) :
    (∃ c ahead, d.ahead = some c :: ahead ∧ (use x).run d = (.error c, ⟨d.tree, ahead⟩)) ∨
      (use x).run d = ((x.run d.tree).1, ⟨(x.run d.tree).2, d.ahead.tail⟩) := by
  obtain ⟨tree, ahead⟩ := d
  cases ahead with
  | nil => exact .inr rfl
  | cons a ahead =>
    cases a with
    | none => exact .inr rfl
    | some c => exact .inl ⟨c, ahead, rfl, rfl⟩

theorem run_readText (d : FailingDisk) (path : Path) :
    ∃ r ahead, (Disk.readText path : StateM FailingDisk (Except IoCause Text)).run d =
        (r, ⟨d.tree, ahead⟩) ∧
      (∀ x, r = .ok x → d.tree.readText path = .ok x) ∧
      (d.ahead = [] → r = d.tree.readText path ∧ ahead = []) := by
  rcases run_use (Disk.read path) d with ⟨c, ahead, hd, hread⟩ | hread
  · refine ⟨.error c, ahead, ?_, by simp, by simp [hd]⟩
    rw [Disk.readText]
    exact run_bind hread
  · refine ⟨d.tree.readText path, d.ahead.tail, ?_, fun x hx => hx, fun hd => ⟨rfl, by simp [hd]⟩⟩
    have hread : (Disk.read path : StateM FailingDisk (Except IoCause Bytes)).run d =
        (d.tree.read path, ⟨d.tree, d.ahead.tail⟩) := hread
    rw [Disk.readText, run_bind hread, FileTree.readText]
    cases d.tree.read path with
    | error c => rfl
    | ok s => cases hs : Utf8.decode s <;> simp only [hs] <;> rfl

theorem run_write (d : FailingDisk) (path : Path) (content : Bytes) :
    ∃ r d', (Disk.write path content : StateM FailingDisk (Except IoCause Unit)).run d = (r, d') ∧
      (∀ c, r = .error c → d'.tree = d.tree) ∧
      (r = .ok () → d.tree.write path content = .ok d'.tree) ∧
      (d.ahead = [] → d'.ahead = [] ∧ ∀ c, r = .error c → d.tree.write path content = .error c) := by
  have htree : (Disk.write path content : StateM FileTree (Except IoCause Unit)).run d.tree =
      FileTree.change (fun t => t.write path content) d.tree := rfl
  rcases run_use (Disk.write path content) d with ⟨c, ahead, hd, hwrite⟩ | hwrite
  · exact ⟨_, _, hwrite, fun _ _ => rfl, by simp, by simp [hd]⟩
  · rw [htree, FileTree.change] at hwrite
    refine ⟨_, _, hwrite, ?_, ?_, fun hd => ⟨by simp [hd], ?_⟩⟩
    all_goals cases d.tree.write path content <;> simp

def Sure (x : StateM FailingDisk α) (y : StateM FileTree α) : Prop :=
  ∀ t, x.run ⟨t, []⟩ = ((y.run t).1, ⟨(y.run t).2, []⟩)

namespace Sure

variable {β : Type} {x : StateM FailingDisk α} {y : StateM FileTree α}

protected theorem pure (a : α) : Sure (pure a) (pure a) := fun _ => rfl

protected theorem bind {f : α → StateM FailingDisk β} {g : α → StateM FileTree β} (hx : Sure x y)
    (hf : ∀ a, Sure (f a) (g a)) : Sure (x >>= f) (y >>= g) := by
  intro t
  have hy : (y >>= g).run t = (g (y.run t).1).run (y.run t).2 := run_bind rfl
  rw [run_bind (hx t), hf, hy]

theorem readText (path : Path) : Sure (Disk.readText path) (Disk.readText path) := by
  refine .bind (fun _ => rfl) fun r => ?_
  cases r with
  | error c => exact .pure _
  | ok s => cases hs : Utf8.decode s <;> simp only [hs] <;> exact .pure _

theorem stripFile (p : Stripper) (dry : Bool) (path : Path) :
    Sure (p.stripFile dry path : Action (StateM FailingDisk) Visit).run
      (p.stripFile dry path : Action (StateM FileTree) Visit).run := by
  refine .bind (readText path) fun r => ?_
  cases r with
  | error c => by_cases hc : c.kind = .notFound <;> simp only [hc, if_true, if_false] <;> exact .pure _
  | ok x =>
    cases hx : (p.strip x).changed with
    | false =>
      simp only [hx, Bool.not_false, if_true]
      exact .pure _
    | true =>
      simp only [hx, Bool.not_true, Bool.false_eq_true, if_false]
      cases dry with
      | true => exact .pure _
      | false =>
        refine .bind (fun _ => rfl) fun r => ?_
        cases r <;> exact .pure _

theorem run (p : Project) (dry : Bool) (paths : List Path) :
    Sure (p.run dry paths) (p.run dry paths) := by
  induction paths with
  | nil => exact .pure _
  | cons path paths ih =>
    refine .bind (stripFile p.stripper dry path) fun r => ?_
    cases r with
    | error f => exact .pure _
    | ok v => exact .bind ih fun _ => .pure _

end Sure

end FailingDisk

/-- What was being done to a file when it could not be stripped, and what the disk said. A file that
is missing is not among them. -/
inductive Stripper.Stops (p : Stripper) (dry : Bool) (path : Path) (d : FailingDisk) :
    Text → IoCause → Prop
  | unread {c : IoCause} {d' : FailingDisk} :
      (Disk.readText path : StateM FailingDisk _).run d = (.error c, d') → c.kind ≠ .notFound →
      Stops p dry path d ("Failed to read ".toList ++ path.text) c
  | unwritten {x : Text} {c : IoCause} {d' d'' : FailingDisk} :
      (Disk.readText path : StateM FailingDisk _).run d = (.ok x, d') → dry = false →
      (p.strip x).changed = true →
      (Disk.write path (Utf8.encode (p.strip x).content) : StateM FailingDisk _).run d' =
        (.error c, d'') →
      Stops p dry path d ("Failed to write ".toList ++ path.text) c

inductive Stripper.Passes (p : Stripper) (dry : Bool) :
    FailingDisk → List (Path × Visit) → FailingDisk → Prop
  | done {d : FailingDisk} : Passes p dry d [] d
  | visit {d d' d'' : FailingDisk} {path : Path} {v : Visit} {vs : List (Path × Visit)} :
      (p.stripFile dry path : Action (StateM FailingDisk) Visit).run.run d = (.ok v, d') →
      Passes p dry d' vs d'' → Passes p dry d ((path, v) :: vs) d''

def FileTree.Aliases (t : FileTree) (p q : Path) : Prop := ∃ l, t.find p = .ok l ∧ t.find q = .ok l

namespace Stripper

variable {p : Stripper} {dry : Bool} {path : Path} {d d' : FailingDisk} {f : Failure} {v : Visit}
  {vs : List (Path × Visit)}

theorem run_writeBack {x : Text} (p : Stripper) (hx : d.tree.readText path = .ok x) :
    ∃ r d', (Disk.write path (Utf8.encode (p.strip x).content) : StateM FailingDisk _).run d =
        (r, d') ∧
      ((r = .ok () ∧ p.Rewrites d.tree (d.tree.visited [path]) d'.tree ∧
          (d.ahead = [] → d'.ahead = [])) ∨
        ∃ c, r = .error c ∧ d'.tree = d.tree ∧ d.ahead ≠ []) := by
  obtain ⟨l, hf, hl⟩ := FileTree.readText_eq_ok_iff.mp hx
  have hput := FileTree.write_of_file hf hl (Utf8.encode (p.strip x).content)
  obtain ⟨r, d', hwrite, herror, hdone, hsure⟩ :=
    FailingDisk.run_write d path (Utf8.encode (p.strip x).content)
  refine ⟨r, d', hwrite, ?_⟩
  cases r with
  | ok u =>
    have htree := hdone rfl
    rw [hput, Except.ok.injEq] at htree
    refine .inl ⟨rfl, ?_, fun hd => (hsure hd).1⟩
    rw [FileTree.visited_of_find hf, ← htree]
    exact p.rewrites_put hl
  | error c =>
    refine .inr ⟨c, rfl, herror c rfl, fun hd => ?_⟩
    have hnone := (hsure hd).2 c rfl
    rw [hput] at hnone
    cases hnone

theorem run_stripFile (p : Stripper) (dry : Bool) (path : Path) (d : FailingDisk) :
    (∃ v d' ls, (p.stripFile dry path : Action (StateM FailingDisk) Visit).run.run d = (.ok v, d') ∧
      ls ⊆ d.tree.visited [path] ∧ p.Rewrites d.tree ls d'.tree ∧ (d.ahead = [] → d'.ahead = [])) ∨
    (∃ what c d', (p.stripFile dry path : Action (StateM FailingDisk) Visit).run.run d =
        (.error (.io ((IoError.ofCause c).within what)), d') ∧
      p.Stops dry path d what c ∧ d'.tree = d.tree ∧
      (d.ahead = [] → d.tree.readText path = .error c)) := by
  obtain ⟨r, ahead, hread, hok, hsure⟩ := FailingDisk.run_readText d path
  have hsame : ∀ v, (pure (.ok v) : StateM FailingDisk (Except Failure Visit)).run ⟨d.tree, ahead⟩ =
      (.ok v, ⟨d.tree, ahead⟩) := fun _ => rfl
  rw [stripFile, ExceptT.run_mk, run_bind hread]
  cases r with
  | error c =>
    by_cases hc : c.kind = .notFound
    · simp only [if_pos hc]
      exact .inl ⟨_, _, ∅, hsame .missing, Finset.empty_subset _, .refl p _, fun hd => (hsure hd).2⟩
    · simp only [if_neg hc]
      exact .inr ⟨_, c, _, rfl, .unread hread hc, rfl, fun hd => (hsure hd).1.symm⟩
  | ok x =>
    cases hx : (p.strip x).changed with
    | false =>
      simp only [hx, Bool.not_false, if_true]
      exact .inl ⟨_, _, ∅, hsame .unchanged, Finset.empty_subset _, .refl p _,
        fun hd => (hsure hd).2⟩
    | true =>
      simp only [hx, Bool.not_true, Bool.false_eq_true, if_false]
      cases dry with
      | true =>
        exact .inl ⟨_, _, ∅, hsame _, Finset.empty_subset _, .refl p _, fun hd => (hsure hd).2⟩
      | false =>
        simp only [Bool.false_eq_true, if_false]
        obtain ⟨r, d', hwrite, ⟨rfl, hr, hahead⟩ | ⟨c, rfl, htree, hne⟩⟩ :=
          p.run_writeBack (d := ⟨d.tree, ahead⟩) (hok x rfl)
        · rw [run_bind hwrite]
          exact .inl ⟨_, _, _, rfl, Finset.Subset.refl _, hr, fun hd => hahead (hsure hd).2⟩
        · rw [run_bind hwrite]
          exact .inr ⟨_, c, _, rfl, .unwritten hread rfl hx hwrite, htree,
            fun hd => absurd (hsure hd).2 hne⟩

theorem Passes.rewrites (h : p.Passes dry d vs d') :
    ∃ ls ⊆ d.tree.visited (vs.map (·.1)),
      p.Rewrites d.tree ls d'.tree ∧ (d.ahead = [] → d'.ahead = []) := by
  induction h with
  | @done d => exact ⟨∅, Finset.empty_subset _, .refl p _, id⟩
  | @visit d d' d'' path v vs hv _ ih =>
    obtain ⟨ls', hls', hr', hahead'⟩ := ih
    rcases run_stripFile p dry path d with ⟨w, u, ls, hw, hls, hr, hahead⟩ | ⟨_, _, _, hw, -⟩
    · rw [hv, Prod.mk.injEq] at hw
      obtain rfl := hw.2
      rw [hr.alike.visited] at hls'
      refine ⟨ls ∪ ls', ?_, hr.trans hr', hahead' ∘ hahead⟩
      rw [List.map_cons, FileTree.visited_cons]
      exact Finset.union_subset_union hls hls'
    · rw [hv] at hw
      cases hw

end Stripper

namespace Project

variable {p : Project} {dry : Bool} {d d₁ d₂ : FailingDisk} {vs : List (Path × Visit)} {path : Path}
  {f : Failure}

theorem run_append_of_passes {paths : List Path} {r : Run} (h : p.stripper.Passes dry d vs d₁)
    (hr : (p.run dry paths : StateM FailingDisk Run).run d₁ = (r, d₂)) :
    (p.run dry (vs.map (·.1) ++ paths) : StateM FailingDisk Run).run d =
      (⟨vs ++ r.visits, r.failure⟩, d₂) := by
  induction h with
  | done => exact hr
  | visit hv _ ih =>
    rw [List.map_cons, List.cons_append, run_cons_ok hv, ih hr]
    rfl

/-- A run ends at the first file that cannot be stripped, with the failure of that file. It has made
the visits before it and nothing else. -/
theorem run_aborts (hvs : p.stripper.Passes dry d vs d₁)
    (hf : (p.stripper.stripFile dry path : Action (StateM FailingDisk) Visit).run.run d₁ =
      (.error f, d₂)) (behind : List Path) :
    (p.run dry (vs.map (·.1) ++ path :: behind) : StateM FailingDisk Run).run d =
        (⟨vs, some f⟩, d₂) ∧
      (p.run dry (vs.map (·.1)) : StateM FailingDisk Run).run d = (⟨vs, none⟩, d₁) ∧
      d₂.tree = d₁.tree ∧
      (∃ what c e, p.stripper.Stops dry path d₁ what c ∧ f = .io e ∧ e.kind = c.kind ∧
        e.text = what ++ ": ".toList ++ c.text) ∧
      (∀ q ∈ path :: behind, (∀ v ∈ vs, ¬ d.tree.Aliases q v.1) →
        d₂.tree.read q = d.tree.read q) ∧
      (d.ahead = [] →
        (p.run dry (vs.map (·.1) ++ path :: behind) : StateM FileTree Run).run d.tree =
            (⟨vs, some f⟩, d₂.tree) ∧
          d₂.tree.read path = d.tree.read path) := by
  obtain ⟨ls, hls, hr, hahead⟩ := hvs.rewrites
  obtain ⟨what, c, htold, hstops, htree, hsure⟩ : ∃ what c,
      f = .io ((IoError.ofCause c).within what) ∧ p.stripper.Stops dry path d₁ what c ∧
        d₂.tree = d₁.tree ∧ (d₁.ahead = [] → d₁.tree.readText path = .error c) := by
    rcases p.stripper.run_stripFile dry path d₁ with
      ⟨_, _, _, hv, -⟩ | ⟨what, c, d', he, hstops, htree, hsure⟩
    · rw [hf] at hv
      cases hv
    · rw [hf, Prod.mk.injEq, Except.error.injEq] at he
      obtain ⟨rfl, rfl⟩ := he
      exact ⟨what, c, rfl, hstops, htree, hsure⟩
  have hstop : (p.run dry (path :: behind) : StateM FailingDisk Run).run d₁ =
      (⟨[], some f⟩, d₂) := run_cons_error hf
  have hdone : (p.run dry [] : StateM FailingDisk Run).run d₁ = (⟨[], none⟩, d₁) := rfl
  have hrun := run_append_of_passes hvs hstop
  have hfront := run_append_of_passes hvs hdone
  rw [List.append_nil] at hrun hfront
  refine ⟨hrun, ?_, htree, ⟨what, c, _, hstops, htold, rfl, IoError.text_within what _⟩, ?_, ?_⟩
  · rw [hfront, List.append_nil]
  · intro q _ hq
    rw [htree]
    refine hr.alike.read_of_get? fun l hl => hr.outside l fun hmem => ?_
    obtain ⟨q', hq', hl'⟩ := FileTree.mem_visited.mp (hls hmem)
    obtain ⟨v, hv, rfl⟩ := List.mem_map.mp hq'
    exact hq v hv ⟨l, hl, hl'⟩
  · intro hd
    constructor
    · have hsame := FailingDisk.Sure.run p dry (vs.map (·.1) ++ path :: behind) d.tree
      have hwhole : d = ⟨d.tree, []⟩ := by rw [← hd]
      rw [← hwhole, hrun, Prod.mk.injEq] at hsame
      exact Prod.ext hsame.1.symm (congrArg FailingDisk.tree hsame.2).symm
    · -- A file that was stripped before could be read again.
      rw [htree]
      refine hr.alike.read_of_get? fun l hl => hr.outside l fun hmem => ?_
      obtain ⟨x, -, hx⟩ := hr.inside l hmem
      have hread := FileTree.readText_eq_ok_iff.mpr ⟨l, (hr.alike.find path).trans hl, hx⟩
      rw [hsure (hahead hd)] at hread
      cases hread

def refusal : IoCause := .reported .permissionDenied "Permission denied (os error 13)".toList

def refusingDisk : FailingDisk := ⟨sampleTree, [none, none, some refusal]⟩

theorem run_aborts_unwritten :
    usual.stripper.Passes false refusingDisk [(.ofString "c.ts", .missing)]
        ⟨sampleTree, [none, some refusal]⟩ ∧
      (usual.stripper.stripFile false (.ofString "a.ts") :
          Action (StateM FailingDisk) Visit).run.run ⟨sampleTree, [none, some refusal]⟩ =
        (.error (.io ⟨["Failed to write a.ts".toList], refusal⟩), ⟨sampleTree, []⟩) ∧
      (usual.run false [.ofString "c.ts", .ofString "a.ts", .ofString "b.ts"] :
          StateM FailingDisk Run).run refusingDisk =
        (⟨[(.ofString "c.ts", .missing)],
          some (.io ⟨["Failed to write a.ts".toList], refusal⟩)⟩, ⟨sampleTree, []⟩) := by
  have hvs : usual.stripper.Passes false refusingDisk [(.ofString "c.ts", .missing)]
      ⟨sampleTree, [none, some refusal]⟩ :=
    .visit (Prod.ext (by decide +kernel) (by decide +kernel)) .done
  have hf : (usual.stripper.stripFile false (.ofString "a.ts") :
      Action (StateM FailingDisk) Visit).run.run ⟨sampleTree, [none, some refusal]⟩ =
        (.error (.io ⟨["Failed to write a.ts".toList], refusal⟩), ⟨sampleTree, []⟩) :=
    Prod.ext (by decide +kernel) (by decide +kernel)
  exact ⟨hvs, hf, (run_aborts hvs hf [.ofString "b.ts"]).1⟩

end Project

end CallStrip

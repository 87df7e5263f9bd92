import CallStrip.Command.Scope
import CallStrip.Proofs.FileTree.Listing
import CallStrip.Proofs.Project.Visits

/-!
Opening a project and resolving its targets. Both only look at the disk, and they depend on no file
but the one that keeps the settings.
-/

namespace CallStrip

namespace FileTree

/-- An action that comes to the same in two trees, and leaves each of them as it is. -/
def SameIn {α : Type} (t u : FileTree) (x : StateM FileTree α) : Prop :=
  ∃ a, x.run t = (a, t) ∧ x.run u = (a, u)

namespace SameIn

variable {α β ε : Type} {t u : FileTree} {x : StateM FileTree α}

protected theorem pure (t u : FileTree) (a : α) : SameIn t u (pure a) := ⟨a, rfl, rfl⟩

protected theorem bind {f : α → StateM FileTree β} (hx : SameIn t u x)
    (hf : ∀ a, SameIn t u (f a)) : SameIn t u (x >>= f) := by
  obtain ⟨a, ht, hu⟩ := hx
  obtain ⟨b, ht', hu'⟩ := hf a
  exact ⟨b, (run_bind ht).trans ht', (run_bind hu).trans hu'⟩

theorem bind_except {x : ExceptT ε (StateM FileTree) α} {f : α → ExceptT ε (StateM FileTree) β}
    (hx : SameIn t u x.run) (hf : ∀ a, SameIn t u (f a).run) : SameIn t u (x >>= f).run := by
  rw [ExceptT.run_bind]
  refine hx.bind fun r => ?_
  cases r with
  | ok a => exact hf a
  | error e => exact .pure t u _

theorem mapM_except {f : α → ExceptT ε (StateM FileTree) β} (hf : ∀ a, SameIn t u (f a).run)
    (as : List α) : SameIn t u (as.mapM f).run := by
  induction as with
  | nil => exact .pure t u _
  | cons a as ih =>
    rw [List.mapM_cons]
    exact (hf a).bind_except fun b => ih.bind_except fun bs => .pure t u _

theorem lift (hx : SameIn t u x) : SameIn t u (liftM x : Action (StateM FileTree) α).run :=
  hx.bind fun _ => .pure t u _

theorem attempt {x : StateM FileTree (Except IoCause α)} (hx : SameIn t u x) (what : Text) :
    SameIn t u (Action.attempt what x).run := by
  refine hx.bind fun r => ?_
  cases r with
  | ok a => exact .pure t u _
  | error c => exact .pure t u _

theorem ofExcept (t u : FileTree) (f : ε → Failure) (r : Except ε α) :
    SameIn t u (Action.ofExcept f r).run := by
  cases r with
  | ok a => exact .pure t u _
  | error e => exact .pure t u _

end SameIn

variable {t u : FileTree} {path : Path}

theorem Alike.sameIn_present (h : t.Alike u) (path : Path) : SameIn t u (Disk.present path) :=
  ⟨t.present path, rfl, congrArg (·, u) (h.present path)⟩

theorem sameIn_readText (h : u.readText path = t.readText path) :
    SameIn t u (Disk.readText path) :=
  ⟨t.readText path, Disk.run_readText t path, h ▸ Disk.run_readText u path⟩

theorem Alike.readText_of_get? (h : t.Alike u)
    (hl : ∀ l, t.find path = .ok l → u.get? l = t.get? l) : u.readText path = t.readText path := by
  simp only [readText, h.read_of_get? hl]

theorem Alike.sameIn_isFolder (h : t.Alike u) (path : Path) : SameIn t u (Disk.isFolder path) := by
  refine ⟨t.isFolder path, rfl, congrArg (·, u) ?_⟩
  simp only [isFolder, h.find, h.folder_iff]

theorem Alike.sameIn_listing (h : t.Alike u) (folder : Path) :
    SameIn t u (Target.listing folder : ExceptT IoCause (StateM FileTree) _).run := by
  cases hf : t.find folder with
  | error c =>
    have hu := (h.find folder).trans hf
    exact ⟨_, Target.run_listing_error (readFolder_eq_error hf),
      Target.run_listing_error (readFolder_eq_error hu)⟩
  | ok l =>
    have hu := (h.find folder).trans hf
    by_cases hl : t.get? l = some .folder
    · refine ⟨_, Target.run_listing_ok (readFolder_eq_ok hf hl), ?_⟩
      rw [← Child.inOrder_perm (h.children_perm l) (nodup_names_children t l)]
      exact Target.run_listing_ok (readFolder_eq_ok hu (h.folder_iff.mpr hl))
    · exact ⟨_, Target.run_listing_error (readFolder_eq_notFolder hf hl),
        Target.run_listing_error (readFolder_eq_notFolder hu (mt h.folder_iff.mp hl))⟩

theorem Alike.sameIn_filesBelow (h : t.Alike u) (extension : Name) (room : Nat) (folder : Path) :
    SameIn t u
      (Target.filesBelow extension room folder : ExceptT IoCause (StateM FileTree) _).run := by
  induction room generalizing folder with
  | zero => exact .pure t u _
  | succ room ih =>
    refine (h.sameIn_listing folder).bind_except fun children => ?_
    refine (SameIn.mapM_except (fun i => ?_) _).bind_except fun found => .pure t u _
    cases i.kind with
    | folder => exact ih _
    | _ => exact .pure t u _

theorem Alike.sameIn_discover (h : t.Alike u) (path : Path) (extension : Text) :
    SameIn t u (Target.discover path extension) := by
  refine (h.sameIn_isFolder path).bind fun isFolder => ?_
  cases isFolder with
  | true => exact h.sameIn_filesBelow _ _ path
  | false => exact .pure t u _

theorem Alike.sameIn_resolve (h : t.Alike u) (s : Settings) (root : Path) (selection : Selection) :
    SameIn t u (Target.resolve s root selection : Action (StateM FileTree) _).run := by
  cases selection with
  | configured => exact .pure t u _
  | listed paths => exact .pure t u _
  | discovered =>
    refine (h.sameIn_discover _ _).bind fun r => ?_
    cases r with
    | ok paths => exact .pure t u _
    | error c => exact .pure t u _

end FileTree

open FileTree (SameIn)

section Opening

variable {t u : FileTree} {root : Path} (h : t.Alike u)
  (hsettings : u.readText (SettingsFile.pathFor root) = t.readText (SettingsFile.pathFor root))
include h hsettings

theorem SettingsFile.sameIn_load :
    SameIn t u (SettingsFile.load root : Action (StateM FileTree) _).run := by
  refine (h.sameIn_present _).lift.bind_except fun present => ?_
  cases present with
  | true =>
    refine ((FileTree.sameIn_readText hsettings).attempt _).bind_except fun x => ?_
    exact .ofExcept t u _ _
  | false => exact .pure t u _

theorem SettingsFile.sameIn_loadOrInitial :
    SameIn t u (SettingsFile.loadOrInitial root : Action (StateM FileTree) _).run := by
  refine (h.sameIn_present _).lift.bind_except fun present => ?_
  cases present with
  | true => exact SettingsFile.sameIn_load h hsettings
  | false => exact .pure t u _

theorem Project.sameIn_openAt (rule : Option ClosingRule) :
    SameIn t u (Project.openAt root rule) := by
  have hload : SameIn t u (Project.load root : Action (StateM FileTree) _).run :=
    (SettingsFile.sameIn_loadOrInitial h hsettings).bind_except fun f => .ofExcept t u _ _
  refine hload.bind fun r => ?_
  cases r with
  | ok p => exact .pure t u _
  | error f => exact .pure t u _

end Opening

def Outcome.proceed {m : Type → Type} [Monad m] {α β : Type} (work : Project → α → m β) :
    Outcome α → m (Outcome β)
  | .unopened c => pure (.unopened c)
  | .unresolved p c => pure (.unresolved p c)
  | .finished p a => .finished p <$> work p a

namespace Scope

def targets {m : Type → Type} [Monad m] [Disk m] (s : Scope) (root : Path) :
    m (Outcome (List Path)) :=
  s.perform root fun _ paths => return paths

theorem sameIn_targets (s : Scope) (root : Path) {t u : FileTree} (h : t.Alike u)
    (hsettings : u.readText (SettingsFile.pathFor root) = t.readText (SettingsFile.pathFor root)) :
    SameIn t u (s.targets root) := by
  refine (Project.sameIn_openAt h hsettings s.rule).bind fun r => ?_
  cases r with
  | error c => exact .pure t u _
  | ok p =>
    refine (h.sameIn_resolve p.file.settings p.root s.selection).bind fun r => ?_
    cases r with
    | error f => exact .pure t u _
    | ok paths => exact .pure t u _

theorem perform_eq {m : Type → Type} [Monad m] [LawfulMonad m] [Disk m] {α : Type} (s : Scope)
    (root : Path) (work : Project → List Path → m α) :
    s.perform root work = s.targets root >>= Outcome.proceed work := by
  simp only [targets, perform, bind_assoc]
  refine bind_congr fun r => ?_
  cases r with
  | error c => simp [Outcome.proceed]
  | ok p =>
    simp only [bind_assoc]
    refine bind_congr fun r => ?_
    cases r <;> simp [Outcome.proceed]

end Scope

end CallStrip

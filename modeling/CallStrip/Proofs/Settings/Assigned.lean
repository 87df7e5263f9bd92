import CallStrip.Proofs.Settings.Store

/-!
What a set that failed leaves in memory. A name or a value that is refused changes nothing. Settings
that could not be saved are changed all the same, and the next set that comes out well saves the
change with its own.
-/

namespace CallStrip

theorem Settings.store_of_not_takes {name v : Text} (h : ¬ Takes name v) (s : Settings) :
    s.store name v = s := by
  unfold store
  split
  · next k hk =>
    obtain rfl := Key.ofName?_eq_some_iff.mp hk
    exact if_neg fun htakes => h ((takes_name_iff k v).mpr htakes)
  · rfl

namespace SettingsFile

variable {t u : FileTree} {f f' : SettingsFile} {name value : Text} {e : Failure}

inductive Unsaved (f : SettingsFile) (t : FileTree) : Failure → FileTree → Prop
  | folder {p : Path} {c : IoCause} {u : FileTree} (hparent : f.path.parent? = some p)
      (hmake : (Disk.makeFolders p : StateM FileTree _).run t = (.error c, u)) :
      Unsaved f t (.io ((IoError.ofCause c).within "Failed to create config directory".toList)) u
  | file {c : IoCause} {u : FileTree} (hprepare : (prepare f.path).run.run t = (.ok (), u))
      (hwrite : u.write f.path (Utf8.encode f.settings.render) = .error c) :
      Unsaved f t (.io ((IoError.ofCause c).within "Failed to write config file".toList)) u

theorem exists_of_run_prepare {path : Path} (h : (prepare path).run.run t = (.error e, u)) :
    ∃ p c, path.parent? = some p ∧
      (Disk.makeFolders p : StateM FileTree _).run t = (.error c, u) ∧
      e = .io ((IoError.ofCause c).within "Failed to create config directory".toList) := by
  rw [prepare] at h
  cases hp : path.parent? with
  | none => rw [hp] at h; cases h
  | some p =>
    rw [hp] at h
    dsimp only at h
    cases hmake : (Disk.makeFolders p : StateM FileTree _).run t with
    | mk r u' =>
      cases r with
      | ok => rw [Action.run_attempt_of_ok hmake] at h; cases h
      | error c =>
        rw [Action.run_attempt_of_error hmake] at h
        cases h
        exact ⟨p, c, rfl, hmake, rfl⟩

theorem unsaved_of_run_save
    (h : (save f : Action (StateM FileTree) Unit).run.run t = (.error e, u)) :
    Unsaved f t e u := by
  rw [save_eq, ExceptT.run_bind] at h
  cases hp : (prepare f.path).run.run t with
  | mk r t' =>
    rw [run_bind hp] at h
    cases r with
    | error e' =>
      cases h
      obtain ⟨p, c, hparent, hmake, rfl⟩ := exists_of_run_prepare hp
      exact .folder hparent hmake
    | ok =>
      dsimp only at h
      rw [run_attempt_write] at h
      split at h
      · cases h
      · next c hwrite =>
        cases h
        exact .file hp hwrite

def stored (f : SettingsFile) (name value : Text) : SettingsFile :=
  ⟨f.settings.store name value, f.path⟩

theorem stored_of_not_takes (h : ¬ Settings.Takes name value) (f : SettingsFile) :
    f.stored name value = f := by
  rw [stored, Settings.store_of_not_takes h]

def Refused (name : Text) (e : Failure) : Prop :=
  e = .settings (.unknownKey name) ∨ ∃ shown, e = .settings (.badValue name shown)

theorem run_assign_of_takes (h : Settings.Takes name value) (f : SettingsFile) (t : FileTree) :
    (f.assign name value : StateM FileTree _).run t =
      ((f.stored name value, ((save (f.stored name value) : Action (StateM FileTree) Unit).run.run
        t).1), ((save (f.stored name value) : Action (StateM FileTree) Unit).run.run t).2) := by
  rw [assign, Settings.setNamed_of_takes h]
  rfl

theorem run_assign_of_not_takes (h : ¬ Settings.Takes name value) (f : SettingsFile)
    (t : FileTree) :
    ∃ e, (f.assign name value : StateM FileTree _).run t = ((f, .error e), t) ∧
      Refused name e := by
  obtain ⟨e, he⟩ := Settings.setNamed_of_not_takes h f.settings
  refine ⟨.settings e, run_assign_of_error he f.path t, ?_⟩
  obtain rfl | ⟨shown, rfl⟩ := Settings.error_of_setNamed he
  · exact .inl rfl
  · exact .inr ⟨shown, rfl⟩

theorem fst_run_assign (f : SettingsFile) (name value : Text) (t : FileTree) :
    ((f.assign name value : StateM FileTree _).run t).1.1 = f.stored name value := by
  by_cases h : Settings.Takes name value
  · rw [run_assign_of_takes h]
  · obtain ⟨e, hrun, -⟩ := run_assign_of_not_takes h f t
    rw [hrun, stored_of_not_takes h]

theorem read_of_run_assign
    (h : (f.assign name value : StateM FileTree _).run t = ((f', .ok ()), u)) :
    u.read f'.path = .ok (Utf8.encode f'.settings.render) := by
  by_cases htakes : Settings.Takes name value
  · rw [run_assign_of_takes htakes] at h
    obtain ⟨hfirst, rfl⟩ := Prod.mk.inj h
    obtain ⟨rfl, hok⟩ := Prod.mk.inj hfirst
    exact read_of_run_save (Prod.ext hok rfl)
  · obtain ⟨e, hrun, -⟩ := run_assign_of_not_takes htakes f t
    rw [hrun] at h
    cases h

theorem run_assign_error
    (h : (f.assign name value : StateM FileTree _).run t = ((f', .error e), u)) :
    ¬ Settings.Takes name value ∧ Refused name e ∧ f' = f ∧ u = t ∨
      Settings.Takes name value ∧ Unsaved f' t e u ∧ f' = f.stored name value := by
  by_cases htakes : Settings.Takes name value
  · rw [run_assign_of_takes htakes] at h
    obtain ⟨hfirst, rfl⟩ := Prod.mk.inj h
    obtain ⟨rfl, herror⟩ := Prod.mk.inj hfirst
    exact .inr ⟨htakes, unsaved_of_run_save (Prod.ext herror rfl), rfl⟩
  · obtain ⟨e', hrun, hrefused⟩ := run_assign_of_not_takes htakes f t
    rw [hrun] at h
    cases h
    exact .inl ⟨htakes, hrefused, rfl, rfl⟩

def afterSets (f : SettingsFile) (sets : List (FileTree × Text × Text)) : SettingsFile :=
  sets.foldl (fun f x => ((f.assign x.2.1 x.2.2 : StateM FileTree _).run x.1).1.1) f

theorem afterSets_cons (f : SettingsFile) (x : FileTree × Text × Text)
    (sets : List (FileTree × Text × Text)) :
    f.afterSets (x :: sets) = (f.stored x.2.1 x.2.2).afterSets sets := by
  rw [afterSets, List.foldl_cons, fst_run_assign, afterSets]

theorem get_stored_of_ne {k : Key} (h : name ≠ k.name) (f : SettingsFile) (value : Text) :
    (f.stored name value).settings.get k = f.settings.get k := by
  rw [stored, Settings.get_store, if_neg fun h' => h h'.1]

theorem path_afterSets (f : SettingsFile) (sets : List (FileTree × Text × Text)) :
    (f.afterSets sets).path = f.path := by
  induction sets generalizing f with
  | nil => rfl
  | cons x sets ih => rw [afterSets_cons, ih, stored]

theorem get_afterSets {k : Key} {sets : List (FileTree × Text × Text)}
    (h : ∀ x ∈ sets, x.2.1 ≠ k.name) (f : SettingsFile) :
    (f.afterSets sets).settings.get k = f.settings.get k := by
  induction sets generalizing f with
  | nil => rfl
  | cons x sets ih =>
    rw [afterSets_cons, ih fun y hy => h y (List.mem_cons_of_mem x hy),
      get_stored_of_ne (h x List.mem_cons_self)]

/-- A set that fails is refused and changes nothing, or it cannot be saved and has changed its own
key. What it left is what the next set of another key that comes out well saves, whatever sets were
tried in between. -/
theorem assign_failed (f f' : SettingsFile) (t u : FileTree) (name value : Text) (e : Failure)
    (h : (f.assign name value : StateM FileTree _).run t = ((f', .error e), u)) :
    (¬ Settings.Takes name value ∧ Refused name e ∧ f' = f ∧ u = t ∨
      Settings.Takes name value ∧ Unsaved f' t e u ∧ f' = f.stored name value) ∧
    f'.path = f.path ∧ f'.settings.version = f.settings.version ∧
    (∀ k : Key, f'.settings.get k =
      if name = k.name ∧ Settings.Takes name value then k.normal value else f.settings.get k) ∧
    ∀ (sets : List (FileTree × Text × Text)) (other v : Text) (g : SettingsFile) (t' u' : FileTree),
      (∀ x ∈ sets, x.2.1 ≠ name) → other ≠ name →
      ((f'.afterSets sets).assign other v : StateM FileTree _).run t' = ((g, .ok ()), u') →
        u'.read f.path = .ok (Utf8.encode g.settings.render) ∧
        Settings.parse? g.settings.render = some g.settings ∧
        ∀ k : Key, k.name = name → g.settings.get k = f'.settings.get k := by
  have hstored : f' = f.stored name value := by
    rw [← fst_run_assign f name value t, h]
  refine ⟨run_assign_error h, ?_, ?_, ?_, ?_⟩
  · rw [hstored, stored]
  · rw [hstored]
    exact f.settings.version_store name value
  · intro k
    rw [hstored]
    exact f.settings.get_store name value k
  · intro sets other v g t' u' hsets hother hrun
    have hg : g = (f'.afterSets sets).stored other v := by
      rw [← fst_run_assign (f'.afterSets sets) other v t', hrun]
    refine ⟨?_, g.settings.parse?_render, ?_⟩
    · have hpath : g.path = f.path := by
        rw [hg, stored, path_afterSets, hstored, stored]
      exact hpath ▸ read_of_run_assign hrun
    · rintro k rfl
      rw [hg, get_stored_of_ne hother, get_afterSets hsets]

def blocked : FileTree :=
  (FileTree.fresh "home" (by decide)).put ["home", ".logscrub"]
    (.file (Utf8.encode "x".toList))

theorem run_assign_blocked :
    (initial.assign Key.target.name "debug.log".toList : StateM FileTree _).run blocked =
      ((initial.stored Key.target.name "debug.log".toList,
        .error (.io ((IoError.ofCause .entryExists).within
          "Failed to create config directory".toList))), blocked) :=
  Prod.ext (by decide +kernel) (by decide +kernel)

theorem assign_failed_blocked :
    (∃ e, (initial.assign Key.target.name "debug.log".toList : StateM FileTree _).run blocked =
      ((initial.stored Key.target.name "debug.log".toList, .error e), blocked)) ∧
    ∃ g u, ((initial.stored Key.target.name "debug.log".toList).assign Key.rule.name
        "line".toList : StateM FileTree _).run (.fresh "home" (by decide)) =
          ((g, .ok ()), u) ∧
      u.read initial.path = .ok (Utf8.encode g.settings.render) ∧
      g.settings.get .target = "debug.log".toList := by
  have hok : (((initial.stored Key.target.name "debug.log".toList).assign Key.rule.name
      "line".toList : StateM FileTree _).run (.fresh "home" (by decide))).1.2 = .ok () := by
    decide +kernel
  rcases hsaved : ((initial.stored Key.target.name "debug.log".toList).assign Key.rule.name
      "line".toList : StateM FileTree _).run (.fresh "home" (by decide)) with ⟨⟨g, r⟩, u⟩
  rw [hsaved] at hok
  obtain rfl : r = .ok () := hok
  obtain ⟨-, -, -, hget, hnext⟩ := assign_failed _ _ _ _ _ _ _ run_assign_blocked
  obtain ⟨hread, -, hkept⟩ := hnext [] _ _ _ _ _ (by simp) (by decide) hsaved
  exact ⟨⟨_, run_assign_blocked⟩, g, u, rfl, hread, (hkept .target rfl).trans (hget .target)⟩

theorem not_settings_eq_of_assign_error :
    ¬ ∀ (f f' : SettingsFile) (t u : FileTree) (name value : Text) (e : Failure),
      (f.assign name value : StateM FileTree _).run t = ((f', .error e), u) →
        f'.settings = f.settings := by
  intro h
  have htarget := congrArg (Settings.get · .target) (h _ _ _ _ _ _ _ run_assign_blocked)
  rw [stored, Settings.get_store, if_pos ⟨rfl, by decide⟩] at htarget
  exact absurd htarget (by decide)

end SettingsFile

end CallStrip

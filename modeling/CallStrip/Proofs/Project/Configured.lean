import CallStrip.Proofs.Settings.Store

/-!
Keys that are set on the loaded file of a project. Whatever is tried, the project can be opened
again, and its stripper is the one that the keys last took.
-/

namespace CallStrip

theorem ClosingRule.parse_eq_ok_iff {t : Text} {r : ClosingRule} :
    parse t = .ok r ↔ r.name = t.trim.lowered := by
  rw [← ofName?_eq_some_iff, parse]
  cases ofName? t.trim.lowered <;> simp

theorem ClosingRule.name_injective : Function.Injective name := fun r r' h => by
  have hname := congrArg ofName? h
  rw [ofName?_name, ofName?_name] at hname
  exact Option.some.inj hname

theorem Key.lastValue?_zip {β : Type} {good : β → Bool} {sets : List (Text × Text)} {told : List β}
    (h : sets.Forall₂ (fun x r => good r = true ↔ Settings.Takes x.1 x.2) told) (k : Key) :
    k.lastValue? good (sets.zip told) =
      (sets.reverse.find? fun x => x.1 = k.name && decide (Settings.Takes x.1 x.2)).map (·.2) := by
  induction h with
  | nil => rfl
  | @cons x r sets told hr _ ih =>
    have hgood : good r = decide (Settings.Takes x.1 x.2) := by
      rw [Bool.eq_iff_iff, hr, decide_eq_true_iff]
    rw [List.zip_cons_cons, lastValue?_cons, ih, List.reverse_cons, List.find?_append,
      Option.map_or, List.find?_cons, hgood]
    split <;> simp [*]

namespace Settings

variable {s : Settings}

def Tidy.markers (h : s.Tidy) : Markers :=
  ⟨s.target, s.guards, h.target, fun g hg => (h.guards g hg).1⟩

theorem Tidy.stripper_eq (h : s.Tidy) : s.stripper = .ok ⟨h.markers, s.rule⟩ := by
  have hguards : ∀ g ∈ s.guards, g ≠ [] := fun g hg => (h.guards g hg).1
  rw [stripper, Markers.make, dif_neg h.target, dif_pos hguards]
  rfl

theorem Tidy.splitList_get_guards (h : s.Tidy) : splitList (s.get .guards) = s.guards :=
  splitList_join h.guards

theorem splitList_normal_guards (v : Text) : splitList (Key.guards.normal v) = splitList v :=
  splitList_join fun _ => isItem_of_mem_splitList

section Chosen

variable {choice : Option Text}

theorem target_eq_of_get
    (h : s.get .target = (choice.map Key.target.normal).getD (initial.get .target)) :
    s.target = choice.getD Markers.defaultTarget := by
  cases choice <;> exact h

theorem Tidy.guards_eq_of_get (hs : s.Tidy)
    (h : s.get .guards = (choice.map Key.guards.normal).getD (initial.get .guards)) :
    s.guards = (choice.map splitList).getD Markers.defaultGuards := by
  rw [← hs.splitList_get_guards, h]
  cases choice with
  | none => exact tidy_initial.splitList_get_guards
  | some v => exact splitList_normal_guards v

theorem rule_eq_of_get
    (h : s.get .rule = (choice.map Key.rule.normal).getD (initial.get .rule)) :
    Except.ok s.rule = (choice.map ClosingRule.parse).getD (.ok .paren) := by
  cases choice with
  | none => exact congrArg Except.ok (ClosingRule.name_injective h)
  | some v => exact (ClosingRule.parse_eq_ok_iff.mpr h).symm

end Chosen

end Settings

namespace SettingsFile

variable {m : Type → Type} [Monad m] [Disk m] {t u : FileTree} {root : Path} {l : Location}
  {s : Settings}

def assignAll (f : SettingsFile) :
    List (Text × Text) → m (SettingsFile × List (Except Failure Unit))
  | [] => return (f, [])
  | x :: sets => do
    let (f, r) ← f.assign x.1 x.2
    let (f, told) ← f.assignAll sets
    return (f, r :: told)

def TakenOrRefused (name : Text) (r : Except Failure Unit) : Prop :=
  r = .ok () ∨ r = .error (.settings (.unknownKey name)) ∨
    ∃ shown, r = .error (.settings (.badValue name shown))

theorem Keeps.run_assign (h : Keeps t root l s) (x : Text × Text) :
    ∃ r, (assign ⟨s, pathFor root⟩ x.1 x.2 : StateM FileTree _).run t =
        ((⟨(Program.keep l (t, s) x).2, pathFor root⟩, r), (Program.keep l (t, s) x).1) ∧
      (r.isOk = true ↔ Settings.Takes x.1 x.2) ∧ TakenOrRefused x.1 r := by
  unfold Program.keep
  by_cases htakes : Settings.Takes x.1 x.2
  · rw [if_pos htakes]
    exact ⟨_, h.run_assign_of_takes htakes, iff_of_true rfl htakes, .inl rfl⟩
  · rw [if_neg htakes]
    obtain ⟨e, he⟩ := Settings.setNamed_of_not_takes htakes s
    refine ⟨_, run_assign_of_error he _ t, iff_of_false Bool.false_ne_true htakes, .inr ?_⟩
    obtain rfl | ⟨shown, rfl⟩ := Settings.error_of_setNamed he
    · exact .inl rfl
    · exact .inr ⟨shown, rfl⟩

theorem Keeps.run_assignAll (h : Keeps t root l s) (sets : List (Text × Text)) :
    ∃ told, (assignAll ⟨s, pathFor root⟩ sets : StateM FileTree _).run t =
        ((⟨(sets.foldl (Program.keep l) (t, s)).2, pathFor root⟩, told),
          (sets.foldl (Program.keep l) (t, s)).1) ∧
      sets.Forall₂ (fun x r => r.isOk = true ↔ Settings.Takes x.1 x.2) told ∧
      sets.Forall₂ (fun x r => TakenOrRefused x.1 r) told := by
  induction sets generalizing t s with
  | nil => exact ⟨[], rfl, .nil, .nil⟩
  | cons x sets ih =>
    obtain ⟨r, hassign, htakes, hr⟩ := h.run_assign x
    obtain ⟨told, hrun, hall, htold⟩ := ih (Program.keeps_keep h x)
    refine ⟨r :: told, ?_, .cons htakes hall, .cons hr htold⟩
    rw [assignAll, run_bind hassign]
    dsimp only
    rw [run_bind hrun]
    rfl

theorem keeps_of_save
    (h : (save ⟨s, pathFor root⟩ : Action (StateM FileTree) Unit).run.run t = (.ok (), u)) :
    ∃ l, Keeps u root l s := by
  obtain ⟨l, hfind, hfile⟩ := FileTree.read_eq_ok_iff.mp (read_of_run_save h)
  exact ⟨l, hfind, s.render, hfile, s.parse?_render⟩

theorem run_init_of_absent (h : t.present (pathFor root) = false) :
    (init root : Action (StateM FileTree) Path).run.run t =
      ((save ⟨.initial, pathFor root⟩ >>= fun _ => pure (pathFor root) :
        Action (StateM FileTree) Path)).run.run t := by
  rw [init, ExceptT.run_bind, run_bind (Action.run_present t _)]
  dsimp only
  rw [h]
  rfl

end SettingsFile

namespace Project

open SettingsFile (Keeps)

variable {t u : FileTree} {root : Path} {l : Location} {s : Settings} {p : Project}

def ofTidy (root : Path) (h : s.Tidy) : Project :=
  ⟨⟨s, SettingsFile.pathFor root⟩, ⟨h.markers, s.rule⟩, root⟩

theorem run_load (h : Keeps t root l s) (hs : s.Tidy) :
    (load root : Action (StateM FileTree) Project).run.run t = (.ok (ofTidy root hs), t) := by
  rw [load, ExceptT.run_bind, run_bind h.run_loadOrInitial]
  dsimp only
  rw [ofFile, hs.stripper_eq]
  rfl

theorem run_init (h : t.present (SettingsFile.pathFor root) = false)
    (hsave : (SettingsFile.save ⟨.initial, SettingsFile.pathFor root⟩ :
      Action (StateM FileTree) Unit).run.run t = (.ok (), u)) :
    (init root : Action (StateM FileTree) Project).run.run t =
      (.ok (ofTidy root Settings.tidy_initial), u) := by
  obtain ⟨l, hkeeps⟩ := SettingsFile.keeps_of_save hsave
  have hinit : (SettingsFile.init root : Action (StateM FileTree) Path).run.run t =
      (.ok (SettingsFile.pathFor root), u) := by
    rw [SettingsFile.run_init_of_absent h, ExceptT.run_bind, run_bind hsave]
    rfl
  rw [init, ExceptT.run_bind, run_bind hinit]
  exact run_load hkeeps Settings.tidy_initial

theorem run_save_of_init (h : t.present (SettingsFile.pathFor root) = false)
    (hinit : (init root : Action (StateM FileTree) Project).run.run t = (.ok p, u)) :
    (SettingsFile.save ⟨.initial, SettingsFile.pathFor root⟩ :
      Action (StateM FileTree) Unit).run.run t = (.ok (), u) := by
  cases hsave : (SettingsFile.save ⟨.initial, SettingsFile.pathFor root⟩ :
      Action (StateM FileTree) Unit).run.run t with
  | mk r v =>
    cases r with
    | ok _ =>
      have hv := (run_init h hsave).symm.trans hinit
      rw [(Prod.mk.inj hv).2]
    | error e =>
      have herror : (SettingsFile.init root : Action (StateM FileTree) Path).run.run t =
          (.error e, v) := by
        rw [SettingsFile.run_init_of_absent h, ExceptT.run_bind, run_bind hsave]
        rfl
      rw [init, ExceptT.run_bind, run_bind herror] at hinit
      cases hinit

/-- A project that is begun can be opened again after any keys were set on its file, also if some of
them were refused. Its markers and its rule are those that were last taken, or the initial ones. -/
theorem load_assignAll (root : Path) (t u : FileTree) (p : Project)
    (habsent : t.present (SettingsFile.pathFor root) = false)
    (hinit : (init root : Action (StateM FileTree) Project).run.run t = (.ok p, u))
    (sets : List (Text × Text)) :
    (SettingsFile.load root : Action (StateM FileTree) _).run.run u = (.ok p.file, u) ∧
      ∃ f told w q, (p.file.assignAll sets : StateM FileTree _).run u = ((f, told), w) ∧
        sets.Forall₂ (fun x r => r.isOk = true ↔ Settings.Takes x.1 x.2) told ∧
        sets.Forall₂ (fun x r => SettingsFile.TakenOrRefused x.1 r) told ∧
        (load root : Action (StateM FileTree) Project).run.run w = (.ok q, w) ∧ q.file = f ∧
        q.stripper.markers.target =
          (Key.target.lastValue? Except.isOk (sets.zip told)).getD Markers.defaultTarget ∧
        q.stripper.markers.guards =
          ((Key.guards.lastValue? Except.isOk (sets.zip told)).map Settings.splitList).getD
            Markers.defaultGuards ∧
        Except.ok q.stripper.rule =
          ((Key.rule.lastValue? Except.isOk (sets.zip told)).map ClosingRule.parse).getD
            (.ok .paren) := by
  have hsave := run_save_of_init habsent hinit
  obtain ⟨l, hkeeps⟩ := SettingsFile.keeps_of_save hsave
  obtain rfl : ofTidy root Settings.tidy_initial = p :=
    Except.ok.inj (Prod.mk.inj ((run_init habsent hsave).symm.trans hinit)).1
  obtain ⟨told, hrun, htakes, htold⟩ := hkeeps.run_assignAll sets
  have hget := Program.get_foldl_keep (l := l) (t := u) (s := .initial) htakes
  have hafter := Program.keeps_foldl hkeeps sets
  have htidy : (sets.foldl (Program.keep l) (u, .initial)).2.Tidy :=
    Program.foldl_keep_induction (fun s name value hs => hs.store name value)
      Settings.tidy_initial sets
  exact ⟨hkeeps.run_load, _, told, _, ofTidy root htidy, hrun, htakes, htold,
    run_load hafter htidy, rfl, Settings.target_eq_of_get (hget .target),
    htidy.guards_eq_of_get (hget .guards), Settings.rule_eq_of_get (hget .rule)⟩

def trials : List (Text × Text) :=
  [("markers.target".toList, "debug.log".toList), ("markers.protected".toList, " keep,, audit".toList),
   ("strip.strategy".toList, "LINE ".toList), ("markers.target".toList, []),
   ("strip.colour".toList, "red".toList)]

theorem load_assignAll_trials :
    (FileTree.fresh "w" (by decide)).present (SettingsFile.pathFor (.ofString ".")) = false ∧
      ∃ p u, (init (.ofString ".") : Action (StateM FileTree) Project).run.run
          (FileTree.fresh "w" (by decide)) = (.ok p, u) ∧
        ∃ f told w q, (p.file.assignAll trials : StateM FileTree _).run u = ((f, told), w) ∧
          (load (.ofString ".") : Action (StateM FileTree) Project).run.run w = (.ok q, w) ∧
          q.stripper.markers.target = "debug.log".toList ∧
          q.stripper.markers.guards = ["keep".toList, "audit".toList] ∧
          q.stripper.rule = .line := by
  have habsent : (FileTree.fresh "w" (by decide)).present
      (SettingsFile.pathFor (.ofString ".")) = false := by
    decide +kernel
  have hprepare : (SettingsFile.prepare (SettingsFile.pathFor (.ofString "."))).run.run
      (FileTree.fresh "w" (by decide)) = (.ok (),
        (FileTree.fresh "w" (by decide)).put ["w", ".logscrub"] .folder) :=
    Prod.ext (by decide +kernel) (by decide +kernel)
  have hwrite : ((FileTree.fresh "w" (by decide)).put ["w", ".logscrub"]
      .folder).write (SettingsFile.pathFor (.ofString ".")) (Utf8.encode Settings.initial.render) =
        .ok Program.begun := by
    have hspot : ((FileTree.fresh "w" (by decide)).put ["w", ".logscrub"]
        .folder).spot true (SettingsFile.pathFor (.ofString ".")) =
          .ok (.free ["w", ".logscrub"] "config.toml" false) := by
      decide +kernel
    rw [FileTree.write, hspot]
    rfl
  have hinit := run_init habsent (SettingsFile.run_save_ok_iff.mpr ⟨_, hprepare, hwrite⟩)
  obtain ⟨-, f, told, w, q, hrun, htakes, -, hload, -, htarget, hguards, hrule⟩ :=
    load_assignAll (.ofString ".") _ _ _ habsent hinit trials
  refine ⟨habsent, _, _, hinit, f, told, w, q, hrun, hload, ?_⟩
  rw [Key.lastValue?_zip htakes] at htarget hguards hrule
  refine ⟨htarget.trans (by decide +kernel), hguards.trans (by decide +kernel), ?_⟩
  exact Except.ok.inj (hrule.trans (by decide +kernel))

end Project

end CallStrip

import CallStrip.Proofs.FileTree.Making
import CallStrip.Proofs.Project.Configured
import CallStrip.Proofs.Settings.Assigned

/-!
What an init does to the tree it is run in. Whether settings are there is asked before the folders
are made, and a root that goes up may lead elsewhere once they are: then the settings that are found
there are lost. Any other root only gains.
-/

namespace CallStrip

theorem FileTree.makes_of_run {t u : FileTree} {p : Path} {r : Except IoCause Unit}
    (h : (Disk.makeFolders p : StateM FileTree _).run t = (r, u)) :
    t.Makes (Disk.ancestors p) r u := by
  obtain ⟨r', u', hrun, hmakes⟩ := makes_makeFoldersFrom t (Disk.ancestors p)
  obtain ⟨rfl, rfl⟩ := Prod.mk.inj (h.symm.trans hrun)
  exact hmakes

namespace SettingsFile

variable {t u : FileTree} {root : Path} {e : Failure} {r : Except Failure Unit} {l : Location}

def folderFor (root : Path) : Path := (root.join folderName).tidy

theorem parent?_pathFor (root : Path) : (pathFor root).parent? = some (folderFor root) :=
  Path.parent?_join_name (root.join folderName) (by decide)

theorem makes_of_run_prepare (h : (prepare (pathFor root)).run.run t = (r, u)) :
    ∃ r', t.Makes (Disk.ancestors (folderFor root)) r' u ∧ (r = .ok () → r' = .ok ()) := by
  rw [prepare, parent?_pathFor] at h
  dsimp only at h
  cases hmake : (Disk.makeFolders (folderFor root) : StateM FileTree _).run t with
  | mk r' u' =>
    have hmakes := FileTree.makes_of_run hmake
    cases r' with
    | ok =>
      rw [Action.run_attempt_of_ok hmake] at h
      cases h
      exact ⟨_, hmakes, fun _ => rfl⟩
    | error c =>
      rw [Action.run_attempt_of_error hmake] at h
      cases h
      exact ⟨_, hmakes, fun hr => by cases hr⟩

theorem grows_of_run_save {s : Settings}
    (h : (save ⟨s, pathFor root⟩ : Action (StateM FileTree) Unit).run.run t = (.error e, u)) :
    t.Grows u := by
  cases unsaved_of_run_save h with
  | folder _ hmake => exact (FileTree.makes_of_run hmake).grows
  | file hprepare _ =>
    obtain ⟨r', hmakes, -⟩ := makes_of_run_prepare hprepare
    exact hmakes.grows

theorem find_ne_of_run_prepare (hup : Path.Component.up ∉ root.components)
    (habsent : t.present (pathFor root) = false)
    (h : (prepare (pathFor root)).run.run t = (.ok (), u)) (l : Location) :
    u.find (pathFor root) ≠ .ok l := by
  have hfolder : IsName folderName.bytes := by decide
  have hfile : IsName fileName.bytes := by decide
  obtain ⟨r', hmakes, hr⟩ := makes_of_run_prepare h
  have hup' : Path.Component.up ∉ (root.join folderName).components := by
    have hjoin := Path.components_join_name root hfolder
    rw [show folderName = ⟨folderName.bytes⟩ from rfl, hjoin]
    simp [hup]
  rcases hmakes.hollow (Path.isChain_ancestors hup') (hr rfl) with rfl | hhollow
  · intro hfind
    rw [FileTree.present, hfind] at habsent
    cases habsent
  · obtain ⟨front, hends⟩ := Path.exists_ends_join root hfolder
    obtain ⟨-, -, -, -, htidy⟩ := hends.exists_tidy
    refine hhollow.find_ne ?_ (hends.steps_join_name hfile) hends.fewer_tidy l
    exact (hends.isAbsolute_join hfile).trans htidy.symm

theorem run_init_of_present (h : t.present (pathFor root) = true) :
    (init root : Action (StateM FileTree) Path).run.run t = (.ok (pathFor root), t) := by
  rw [init, ExceptT.run_bind, run_bind (Action.run_present t _)]
  dsimp only
  rw [h]
  rfl

/-- An init that fails adds folders at most, and where there are settings it does nothing. Otherwise
there are the initial ones afterwards, all but the place they are written to is as it was or a new
folder, and that place was free unless the root goes up. -/
theorem init_spares (root : Path) (t : FileTree) :
    (∃ e u, (init root : Action (StateM FileTree) Path).run.run t = (.error e, u) ∧ t.Grows u) ∨
    (t.present (pathFor root) = true ∧
      (init root : Action (StateM FileTree) Path).run.run t = (.ok (pathFor root), t)) ∨
    (t.present (pathFor root) = false ∧ ∃ u v l,
      (init root : Action (StateM FileTree) Path).run.run t = (.ok (pathFor root), u) ∧
      u.find (pathFor root) = .ok l ∧
      (init root : Action (StateM FileTree) Path).run.run u = (.ok (pathFor root), u) ∧
      (load root : Action (StateM FileTree) _).run.run u = (.ok ⟨.initial, pathFor root⟩, u) ∧
      t.Grows v ∧ (∀ k, k ≠ l → u.get? k = v.get? k) ∧
      (t.get? l = none ∨ Path.Component.up ∈ root.components)) := by
  cases hpresent : t.present (pathFor root) with
  | true => exact .inr (.inl ⟨rfl, run_init_of_present hpresent⟩)
  | false =>
    rw [run_init_of_absent hpresent, ExceptT.run_bind]
    cases hsave : (save ⟨.initial, pathFor root⟩ :
        Action (StateM FileTree) Unit).run.run t with
    | mk r u =>
      rw [run_bind hsave]
      cases r with
      | error e => exact .inl ⟨e, u, rfl, grows_of_run_save hsave⟩
      | ok =>
        obtain ⟨v, hprepare, hwrite⟩ := run_save_ok_iff.mp hsave
        obtain ⟨r', hmakes, -⟩ := makes_of_run_prepare hprepare
        obtain ⟨l, hfind, hfile, hother, hl⟩ := FileTree.exists_of_write hwrite
        have hpresent' : u.present (pathFor root) = true := by
          rw [FileTree.present, hfind]
          rfl
        refine .inr (.inr ⟨rfl, u, v, l, rfl, hfind, run_init_of_present hpresent',
          run_load (read_of_run_save hsave) Settings.initial.parse?_render, hmakes.grows, hother,
          ?_⟩)
        by_cases hup : Path.Component.up ∈ root.components
        · exact .inr hup
        · rcases hl with hl | hl
          · exact absurd hl (find_ne_of_run_prepare hup hpresent hprepare l)
          · exact .inl (hmakes.grows.none_of_none hl)

def settledTree : FileTree where
  entries := [(["w"], .folder), (["w", ".logscrub"], .folder),
    (["w", ".logscrub", "config.toml"], .file (Utf8.encode "x".toList))]
  here := ["w"]
  nodup := by decide
  placed := by decide
  here_folder := by decide

theorem not_forall_init_kept :
    ¬ ∀ (root path : Path) (t u : FileTree) (l : Location) (s : Bytes),
      (init root : Action (StateM FileTree) Path).run.run t = (.ok path, u) →
        t.get? l = some (.file s) → u.get? l = some (.file s) := by
  intro h
  have hkept := h (.ofString "web/..") (pathFor (.ofString "web/..")) settledTree _
    ["w", ".logscrub", "config.toml"] (Utf8.encode "x".toList)
    (Prod.ext (by decide +kernel) rfl) (by decide +kernel)
  revert hkept
  decide +kernel

end SettingsFile

end CallStrip

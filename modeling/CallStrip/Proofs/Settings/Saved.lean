import CallStrip.Proofs.FileTree.Writing
import CallStrip.Proofs.Project.Visits
import CallStrip.Proofs.Settings.Partial
import CallStrip.Settings.File

/-!
Settings survive their file. What was saved is loaded again, and where lines or whole sections of
the file are missing it is loaded with the initial settings in their places.
-/

namespace CallStrip

namespace Action

variable {σ α : Type} {x : StateM σ (Except IoCause α)} {t u : σ} {a : α} {c : IoCause}

theorem run_attempt_of_ok (h : x.run t = (.ok a, u)) (what : Text) :
    (attempt what x).run.run t = (.ok a, u) := by
  rw [attempt, ExceptT.run_mk, run_bind h]
  rfl

theorem run_attempt_of_error (h : x.run t = (.error c, u)) (what : Text) :
    (attempt what x).run.run t = (.error (.io ((IoError.ofCause c).within what)), u) := by
  rw [attempt, ExceptT.run_mk, run_bind h]
  rfl

theorem run_present (t : FileTree) (path : Path) :
    (liftM (Disk.present path : StateM FileTree Bool) : Action (StateM FileTree) Bool).run.run t =
      (.ok (t.present path), t) :=
  rfl

end Action

namespace SettingsFile

variable {t u : FileTree} {root path : Path} {s s' : Settings}

def prepare (path : Path) : Action (StateM FileTree) Unit :=
  match path.parent? with
  | some folder =>
    Action.attempt "Failed to create config directory".toList (Disk.makeFolders folder)
  | none => pure ()

theorem save_eq (f : SettingsFile) :
    (save f : Action (StateM FileTree) Unit) = prepare f.path >>= fun _ =>
      Action.attempt "Failed to write config file".toList
        (Disk.write f.path (Utf8.encode f.settings.render)) := by
  rw [save, prepare]
  cases f.path.parent? <;> rfl

theorem run_attempt_write (t : FileTree) (what : Text) (path : Path) (content : Bytes) :
    (Action.attempt what (Disk.write path content) : Action (StateM FileTree) Unit).run.run t =
      match t.write path content with
      | .ok u => (.ok (), u)
      | .error c => (.error (.io ((IoError.ofCause c).within what)), t) := by
  have hwrite : (Disk.write path content : StateM FileTree (Except IoCause Unit)).run t =
      FileTree.change (fun t => t.write path content) t := rfl
  rw [FileTree.change] at hwrite
  cases hw : t.write path content with
  | ok u =>
    rw [hw] at hwrite
    exact Action.run_attempt_of_ok hwrite what
  | error c =>
    rw [hw] at hwrite
    exact Action.run_attempt_of_error hwrite what

theorem run_save_ok_iff :
    (save ⟨s, path⟩ : Action (StateM FileTree) Unit).run.run t = (.ok (), u) ↔
      ∃ t', (prepare path).run.run t = (.ok (), t') ∧
        t'.write path (Utf8.encode s.render) = .ok u := by
  rw [save_eq, ExceptT.run_bind]
  constructor
  · intro h
    cases hp : (prepare path).run.run t with
    | mk r t' =>
      rw [run_bind hp] at h
      cases r with
      | error e => cases h
      | ok a =>
        dsimp only at h
        rw [run_attempt_write] at h
        refine ⟨t', rfl, ?_⟩
        split at h
        · next hw => cases h; exact hw
        · cases h
  · rintro ⟨t', hp, hw⟩
    rw [run_bind hp]
    dsimp only
    rw [run_attempt_write, hw]

theorem read_of_run_save
    (h : (save ⟨s, path⟩ : Action (StateM FileTree) Unit).run.run t = (.ok (), u)) :
    u.read path = .ok (Utf8.encode s.render) := by
  obtain ⟨t', -, hwrite⟩ := run_save_ok_iff.mp h
  obtain ⟨u', hwrite', hread⟩ := FileTree.write_of_write hwrite (Utf8.encode s.render)
  obtain rfl := Except.ok.inj (hwrite.symm.trans hwrite')
  exact hread

theorem run_load {x : Text} (hread : t.read (pathFor root) = .ok (Utf8.encode x))
    (hx : Settings.parse? x = some s) :
    (load root : Action (StateM FileTree) _).run.run t = (.ok ⟨s, pathFor root⟩, t) := by
  have hpresent : t.present (pathFor root) = true := by
    obtain ⟨l, hl, -⟩ := FileTree.read_eq_ok_iff.mp hread
    rw [FileTree.present, hl]
    rfl
  have htext := Disk.run_readText t (pathFor root)
  rw [FileTree.readText_eq_ok_iff.mpr (FileTree.read_eq_ok_iff.mp hread)] at htext
  have hof : ofText (pathFor root) x = .ok ⟨s, pathFor root⟩ := by rw [ofText, hx]
  rw [load, ExceptT.run_bind, run_bind (Action.run_present t _)]
  dsimp only
  rw [if_pos hpresent, ExceptT.run_bind, run_bind (Action.run_attempt_of_ok htext _)]
  dsimp only
  rw [hof]
  rfl

/-- Where settings can be saved at all, all settings can be, and are loaded as they were saved. With
lines or sections of the file left out, the initial settings stand in for exactly what is missing. -/
theorem load_saved (root : Path) (t : FileTree) (s₀ : Settings)
    (h : ((save ⟨s₀, pathFor root⟩ : Action (StateM FileTree) Unit).run.run t).1 = .ok ())
    (s : Settings) :
    ∃ u, (save ⟨s, pathFor root⟩ : Action (StateM FileTree) Unit).run.run t = (.ok (), u) ∧
      u.read (pathFor root) = .ok (Utf8.encode (s.renderPart (fun _ => true) fun _ => true)) ∧
      (load root : Action (StateM FileTree) _).run.run u = (.ok ⟨s, pathFor root⟩, u) ∧
      ∀ (sections : Section → Bool) (keys : Key → Bool),
        ∃ w, u.write (pathFor root) (Utf8.encode (s.renderPart sections keys)) = .ok w ∧
          (load root : Action (StateM FileTree) _).run.run w =
            (.ok ⟨s.overInitial fun k => sections k.section && keys k, pathFor root⟩, w) := by
  obtain ⟨t', hprepare, hwrite⟩ := run_save_ok_iff.mp (Prod.ext h rfl)
  obtain ⟨u, hu, hread⟩ := FileTree.write_of_write hwrite (Utf8.encode s.render)
  refine ⟨u, run_save_ok_iff.mpr ⟨t', hprepare, hu⟩, ?_, run_load hread s.parse?_render, ?_⟩
  · rw [s.renderPart_true]
    exact hread
  · intro sections keys
    obtain ⟨w, hw, hpart⟩ := FileTree.write_of_read hread (Utf8.encode (s.renderPart sections keys))
    exact ⟨w, hw, run_load hpart (s.parse?_renderPart sections keys)⟩

def oddSettings : Settings where
  version := "\"".toList
  target := "\\\x27\x27\x27\"\"\"".toList
  guards := ["\r\n".toList, [], "\t\x00".toList]
  rule := .paren
  files := ["\n\x27".toList]
  discoverRoot := []
  discoverExtension := "é\x7F".toList

theorem load_saved_odd :
    ((save ⟨.initial, pathFor (.ofString ".")⟩ : Action (StateM FileTree) Unit).run.run
        (.fresh "home" (by decide))).1 = .ok () ∧
      ∃ u w, (save ⟨oddSettings, pathFor (.ofString ".")⟩ : Action (StateM FileTree) Unit).run.run
          (.fresh "home" (by decide)) = (.ok (), u) ∧
        (load (.ofString ".") : Action (StateM FileTree) _).run.run u =
          (.ok ⟨oddSettings, pathFor (.ofString ".")⟩, u) ∧
        u.write (pathFor (.ofString "."))
          (Utf8.encode (oddSettings.renderPart (· = .markers) (· = .guards))) = .ok w ∧
        (load (.ofString ".") : Action (StateM FileTree) _).run.run w =
          (.ok ⟨{ Settings.initial with
              version := oddSettings.version, guards := oddSettings.guards },
            pathFor (.ofString ".")⟩, w) := by
  have h : ((save ⟨.initial, pathFor (.ofString ".")⟩ : Action (StateM FileTree) Unit).run.run
      (.fresh "home" (by decide))).1 = .ok () := by
    decide +kernel
  obtain ⟨u, hsave, -, hload, hpart⟩ := load_saved (.ofString ".") _ .initial h oddSettings
  obtain ⟨w, hwrite, hpart⟩ := hpart (· = .markers) (· = .guards)
  exact ⟨h, u, w, hsave, hload, hwrite, hpart⟩

end SettingsFile

end CallStrip

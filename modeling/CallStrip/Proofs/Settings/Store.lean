import CallStrip.Program
import CallStrip.Proofs.FileTree.Arrival
import CallStrip.Proofs.Settings.Keys
import CallStrip.Proofs.Settings.Saved

/-!
The file of settings as a store. After commands that set keys, each of which loads the file and
saves it again, every key gives back the last value that it took.
-/

namespace CallStrip

namespace FileTree

variable {t u : FileTree} {l : Location}

theorem eq_of_entries (hentries : t.entries = u.entries) (hhere : t.here = u.here) : t = u := by
  cases t
  cases u
  subst hentries hhere
  rfl

theorem entries_put (h : t.Admits l) (e : Entry) :
    (t.put l e).entries = without l t.entries ++ [(l, e)] := by
  rw [put, dif_pos h]

theorem put_put (h : t.Admits l) (a b : Bytes) :
    (t.put l (.file a)).put l (.file b) = t.put l (.file b) := by
  have hadmits : (t.put l (.file a)).Admits l := by
    refine admits_of_file (s := a) ?_
    rw [get?_put h, if_pos rfl]
  have htwice (es : List (Location × Entry)) (e : Entry) :
      without l (without l es ++ [(l, e)]) = without l es := by
    simp [without, List.filter_append, List.filter_filter]
  refine eq_of_entries ?_ (by rw [here_put, here_put, here_put])
  rw [entries_put hadmits, entries_put h, entries_put h, htwice]

end FileTree

namespace SettingsFile

variable {t : FileTree} {root : Path} {l : Location} {s : Settings} {f : SettingsFile}

/-- A file of a tree keeps the settings of a project. -/
structure Keeps (t : FileTree) (root : Path) (l : Location) (s : Settings) : Prop where
  find : t.find (pathFor root) = .ok l
  document : ∃ x, t.get? l = some (.file (Utf8.encode x)) ∧ Settings.parse? x = some s

theorem keeps_of_load (h : ((load root : Action (StateM FileTree) _).run.run t).1 = .ok f) :
    ∃ l, Keeps t root l f.settings := by
  rw [load, ExceptT.run_bind, run_bind (Action.run_present t _)] at h
  dsimp only at h
  split at h
  · have htext := Disk.run_readText t (pathFor root)
    cases hread : t.readText (pathFor root) with
    | error c =>
      rw [hread] at htext
      rw [ExceptT.run_bind, run_bind (Action.run_attempt_of_error htext _)] at h
      cases h
    | ok x =>
      rw [hread] at htext
      rw [ExceptT.run_bind, run_bind (Action.run_attempt_of_ok htext _)] at h
      dsimp only at h
      rw [ofText] at h
      cases hparse : Settings.parse? x with
      | none => rw [hparse] at h; cases h
      | some s =>
        rw [hparse] at h
        cases h
        obtain ⟨l, hfind, hfile⟩ := FileTree.readText_eq_ok_iff.mp hread
        exact ⟨l, hfind, x, hfile, hparse⟩
  · cases h

namespace Keeps

theorem run_load (h : Keeps t root l s) :
    (load root : Action (StateM FileTree) _).run.run t = (.ok ⟨s, pathFor root⟩, t) := by
  obtain ⟨hfind, x, hfile, hparse⟩ := h
  exact SettingsFile.run_load (FileTree.read_eq_ok_iff.mpr ⟨l, hfind, hfile⟩) hparse

theorem admits (h : Keeps t root l s) : t.Admits l := by
  obtain ⟨-, x, hfile, -⟩ := h
  exact FileTree.admits_of_file hfile

theorem put (h : Keeps t root l s) (s' : Settings) :
    Keeps (t.put l (.file (Utf8.encode s'.render))) root l s' := by
  obtain ⟨hfind, x, hfile, -⟩ := h
  obtain ⟨hfind', hfile'⟩ := FileTree.find_put_of_file hfind hfile (Utf8.encode s'.render)
  exact ⟨hfind', s'.render, hfile', s'.parse?_render⟩

theorem run_prepare (h : Keeps t root l s) :
    (prepare (pathFor root)).run.run t = (.ok (), t) := by
  have hfolder : IsName folderName.bytes := by decide
  have hfile : IsName fileName.bytes := by decide
  obtain ⟨front, hends⟩ := Path.exists_ends_join root hfolder
  have hparent : (pathFor root).parent? = some (root.join folderName).tidy :=
    Path.parent?_join_name _ hfile
  have hmake := FileTree.run_makeFolders_tidy hends hfile h.find
  rw [prepare, hparent]
  dsimp only
  exact Action.run_attempt_of_ok hmake _

theorem run_save (h : Keeps t root l s) (s' : Settings) :
    (save ⟨s', pathFor root⟩ : Action (StateM FileTree) Unit).run.run t =
      (.ok (), t.put l (.file (Utf8.encode s'.render))) := by
  obtain ⟨x, hfile, -⟩ := h.document
  exact run_save_ok_iff.mpr ⟨t, h.run_prepare, FileTree.write_of_file h.find hfile _⟩

theorem run_loadOrInitial (h : Keeps t root l s) :
    (loadOrInitial root : Action (StateM FileTree) _).run.run t = (.ok ⟨s, pathFor root⟩, t) := by
  have hpresent : t.present (pathFor root) = true := by
    rw [FileTree.present, h.find]
    rfl
  rw [loadOrInitial, ExceptT.run_bind, run_bind (Action.run_present t _)]
  dsimp only
  rw [if_pos hpresent]
  exact h.run_load

theorem run_assign_of_takes {name v : Text} (h : Keeps t root l s)
    (htakes : Settings.Takes name v) :
    (assign ⟨s, pathFor root⟩ name v : StateM FileTree _).run t =
      ((⟨s.store name v, pathFor root⟩, .ok ()),
        t.put l (.file (Utf8.encode (s.store name v).render))) := by
  rw [assign, Settings.setNamed_of_takes htakes]
  dsimp only
  rw [run_bind (h.run_save _)]
  rfl

end Keeps

theorem run_assign_of_error {name v : Text} {e : SettingsFault}
    (h : s.setNamed name v = .error e) (path : Path) (t : FileTree) :
    (assign ⟨s, path⟩ name v : StateM FileTree _).run t =
      ((⟨s, path⟩, .error (.settings e)), t) := by
  rw [assign, h]
  rfl

end SettingsFile

namespace Key

variable {β : Type}

def lastValue? (k : Key) (good : β → Bool) (attempts : List ((Text × Text) × β)) : Option Text :=
  (attempts.reverse.find? fun r => r.1.1 = k.name && good r.2).map (·.1.2)

theorem lastValue?_cons (k : Key) (good : β → Bool) (r : (Text × Text) × β)
    (attempts : List ((Text × Text) × β)) :
    k.lastValue? good (r :: attempts) =
      (k.lastValue? good attempts).or (if r.1.1 = k.name && good r.2 then some r.1.2 else none) := by
  rw [lastValue?, lastValue?, List.reverse_cons, List.find?_append, Option.map_or, List.find?_cons]
  split <;> simp [*]

end Key

namespace Program

open SettingsFile (Keeps)

variable {m : Type → Type} [Monad m] [Disk m] {t : FileTree} {root : Path} {l : Location}
  {s : Settings}

def assignEach (i : Ink) (root : Path) (sets : List (Text × Text)) : m (List Transcript) :=
  sets.mapM fun x => assign i root x.1 x.2

theorem assignEach_cons [LawfulMonad m] (i : Ink) (root : Path) (x : Text × Text)
    (sets : List (Text × Text)) :
    (assignEach i root (x :: sets) : m _) =
      assign i root x.1 x.2 >>= fun c => assignEach i root sets >>= fun told => pure (c :: told) :=
  List.mapM_cons

def latest? (k : Key) (runs : List ((Text × Text) × Transcript)) : Option Text :=
  (runs.reverse.find? fun r => r.1.1 = k.name && r.2.succeeded).map (·.1.2)

theorem latest?_cons (k : Key) (r : (Text × Text) × Transcript)
    (runs : List ((Text × Text) × Transcript)) :
    latest? k (r :: runs) =
      (latest? k runs).or (if r.1.1 = k.name && r.2.succeeded then some r.1.2 else none) :=
  k.lastValue?_cons Transcript.succeeded r runs

def keep (l : Location) (kept : FileTree × Settings) (x : Text × Text) : FileTree × Settings :=
  if Settings.Takes x.1 x.2 then
    (kept.1.put l (.file (Utf8.encode (kept.2.store x.1 x.2).render)), kept.2.store x.1 x.2)
  else kept

theorem keeps_keep (h : Keeps t root l s) (x : Text × Text) :
    Keeps (keep l (t, s) x).1 root l (keep l (t, s) x).2 := by
  unfold keep
  split
  · exact h.put _
  · exact h

theorem run_assign (h : Keeps t root l s) (i : Ink) (x : Text × Text) :
    ∃ c, (assign i root x.1 x.2 : StateM FileTree _).run t = (c, (keep l (t, s) x).1) ∧
      (c.succeeded = true ↔ Settings.Takes x.1 x.2) := by
  rw [assign, run_bind h.run_load]
  dsimp only
  by_cases htakes : Settings.Takes x.1 x.2
  · rw [run_bind (h.run_assign_of_takes htakes), keep, if_pos htakes]
    exact ⟨_, rfl, by simp [htakes, Transcript.succeeded, Transcript.done]⟩
  · obtain ⟨e, he⟩ := Settings.setNamed_of_not_takes htakes s
    rw [run_bind (SettingsFile.run_assign_of_error he _ t), keep, if_neg htakes]
    exact ⟨_, rfl, by simp [htakes, Transcript.succeeded, Transcript.failed]⟩

theorem run_lookup (h : Keeps t root l s) (k : Key) :
    (lookup root k.name : StateM FileTree _).run t = (.done (Text.lineOf [s.get k]), t) := by
  rw [lookup, run_bind h.run_loadOrInitial]
  dsimp only
  rw [Settings.getNamed, Settings.key, Key.ofName?_name]
  rfl

theorem keep_comm (hl : t.Admits l) {x y : Text × Text} (hne : x.1 ≠ y.1) :
    keep l (keep l (t, s) x) y = keep l (keep l (t, s) y) x := by
  have hcomm := Settings.store_comm hne s x.2 y.2
  by_cases hx : Settings.Takes x.1 x.2 <;> by_cases hy : Settings.Takes y.1 y.2 <;>
    simp [keep, hx, hy, FileTree.put_put hl, hcomm]

theorem get_keep (k : Key) (x : Text × Text) (kept : FileTree × Settings) :
    (keep l kept x).2.get k =
      if x.1 = k.name ∧ Settings.Takes x.1 x.2 then k.normal x.2 else kept.2.get k := by
  unfold keep
  split
  · exact kept.2.get_store x.1 x.2 k
  · next h => rw [if_neg fun h' => h h'.2]

theorem keeps_foldl (h : Keeps t root l s) (sets : List (Text × Text)) :
    Keeps (sets.foldl (keep l) (t, s)).1 root l (sets.foldl (keep l) (t, s)).2 := by
  induction sets generalizing t s with
  | nil => exact h
  | cons x sets ih => exact ih (keeps_keep h x)

theorem foldl_keep_induction {P : Settings → Prop}
    (hstep : ∀ s name value, P s → P (s.store name value)) (hs : P s)
    (sets : List (Text × Text)) : P (sets.foldl (keep l) (t, s)).2 := by
  induction sets generalizing t s with
  | nil => exact hs
  | cons x sets ih =>
    have hkeep : P (keep l (t, s) x).2 := by
      unfold keep
      split
      · exact hstep s x.1 x.2 hs
      · exact hs
    exact ih hkeep

theorem foldl_keep_swap (h : Keeps t root l s) {x y : Text × Text} (hne : x.1 ≠ y.1)
    (before behind : List (Text × Text)) :
    (before ++ y :: x :: behind).foldl (keep l) (t, s) =
      (before ++ x :: y :: behind).foldl (keep l) (t, s) := by
  simp only [List.foldl_append, List.foldl_cons]
  rw [keep_comm (keeps_foldl h before).admits hne]

theorem get_foldl_keep {β : Type} {good : β → Bool} {sets : List (Text × Text)} {told : List β}
    (h : sets.Forall₂ (fun x r => good r = true ↔ Settings.Takes x.1 x.2) told) (k : Key) :
    (sets.foldl (keep l) (t, s)).2.get k =
      ((k.lastValue? good (sets.zip told)).map k.normal).getD (s.get k) := by
  induction h generalizing t s with
  | nil => rfl
  | @cons x r sets told hr _ ih =>
    rw [List.foldl_cons, ih, List.zip_cons_cons, Key.lastValue?_cons, get_keep]
    cases k.lastValue? good (sets.zip told) with
    | some v => rfl
    | none =>
      simp only [Option.map_none, Option.getD_none, Option.none_or, ← hr]
      by_cases hk : x.1 = k.name ∧ good r = true
      · simp [hk]
      · simp [hk]

theorem run_assignEach (h : Keeps t root l s) (i : Ink) (sets : List (Text × Text)) :
    ∃ told, (assignEach i root sets : StateM FileTree _).run t =
        (told, (sets.foldl (keep l) (t, s)).1) ∧
      sets.Forall₂ (fun x c => c.succeeded = true ↔ Settings.Takes x.1 x.2) told ∧
      ∀ k : Key, (sets.foldl (keep l) (t, s)).2.get k =
        ((latest? k (sets.zip told)).map k.normal).getD (s.get k) := by
  have hruns : ∃ told, (assignEach i root sets : StateM FileTree _).run t =
      (told, (sets.foldl (keep l) (t, s)).1) ∧
      sets.Forall₂ (fun x c => c.succeeded = true ↔ Settings.Takes x.1 x.2) told := by
    induction sets generalizing t s with
    | nil => exact ⟨[], rfl, .nil⟩
    | cons x sets ih =>
      obtain ⟨c, hassign, hc⟩ := run_assign h i x
      obtain ⟨told, hrun, htold⟩ := ih (keeps_keep h x)
      refine ⟨c :: told, ?_, .cons hc htold⟩
      rw [assignEach_cons, run_bind hassign, run_bind hrun]
      rfl
  obtain ⟨told, hrun, htold⟩ := hruns
  exact ⟨told, hrun, htold, fun k => get_foldl_keep htold k⟩

/-- Where the settings of a project can be loaded, its file is a store of them. Every key gives back
what it took last, whatever was set under the others and in which order; what is not taken is told
as a failure and changes nothing. -/
theorem assignEach_store (i : Ink) (root : Path) (t : FileTree) (f : SettingsFile)
    (h : ((SettingsFile.load root : Action (StateM FileTree) _).run.run t).1 = .ok f)
    (sets : List (Text × Text)) :
    ∃ told u s, (assignEach i root sets : StateM FileTree _).run t = (told, u) ∧
      (SettingsFile.load root : Action (StateM FileTree) _).run.run u =
        (.ok ⟨s, SettingsFile.pathFor root⟩, u) ∧
      (∀ k : Key, (lookup root k.name : StateM FileTree _).run u =
        (.done (Text.lineOf
          [((latest? k (sets.zip told)).map k.normal).getD (f.settings.get k)]), u)) ∧
      s.version = f.settings.version ∧
      sets.Forall₂ (fun x c => c.succeeded = true ↔ Settings.Takes x.1 x.2) told ∧
      (∀ name value c w, (assign i root name value : StateM FileTree _).run u = (c, w) →
        c.succeeded = false → w = u) ∧
      (∀ before x y behind, sets = before ++ x :: y :: behind → x.1 ≠ y.1 →
        ((assignEach i root (before ++ y :: x :: behind) : StateM FileTree _).run t).2 = u) ∧
      (f.settings = .initial → ∀ k, s.set k (s.get k) = .ok s) := by
  obtain ⟨l, hkeeps⟩ := SettingsFile.keeps_of_load h
  obtain ⟨told, hrun, htold, hget⟩ := run_assignEach hkeeps i sets
  have hafter := keeps_foldl hkeeps sets
  refine ⟨told, _, _, hrun, hafter.run_load, fun k => ?_, ?_, htold, ?_, ?_, ?_⟩
  · rw [run_lookup hafter, hget]
  · refine foldl_keep_induction (P := fun s => s.version = f.settings.version) ?_ rfl sets
    exact fun s name value hs => (s.version_store name value).trans hs
  · intro name value c w hassign hfailed
    obtain ⟨c', hrun', hc'⟩ := run_assign hafter i (name, value)
    obtain ⟨rfl, rfl⟩ := Prod.mk.inj (hassign.symm.trans hrun')
    have hnot : ¬ Settings.Takes name value := fun htakes => by
      rw [hc'.mpr htakes] at hfailed
      cases hfailed
    rw [keep, if_neg hnot]
  · rintro before x y behind rfl hne
    obtain ⟨told', hrun', -⟩ := run_assignEach hkeeps i (before ++ y :: x :: behind)
    rw [hrun', foldl_keep_swap hkeeps hne]
  · intro hinitial
    refine Settings.Tidy.set_get (foldl_keep_induction ?_ ?_ sets)
    · exact fun s name value hs => hs.store name value
    · exact hinitial ▸ Settings.tidy_initial

def begun : FileTree :=
  ((FileTree.fresh "w" (by decide)).put ["w", ".logscrub"] .folder).put
    ["w", ".logscrub", "config.toml"]
    (.file (Utf8.encode Settings.initial.render))

def someSets : List (Text × Text) :=
  [("strip.files".toList, " a,, b ,".toList), ("markers.target".toList, []),
   ("strip.strategy".toList, " LINE ".toList)]

theorem assignEach_store_begun :
    ((SettingsFile.load (.ofString ".") : Action (StateM FileTree) _).run.run begun).1 =
        .ok ⟨.initial, SettingsFile.pathFor (.ofString ".")⟩ ∧
      ∃ told u, (assignEach ⟨false⟩ (.ofString ".") someSets : StateM FileTree _).run begun =
          (told, u) ∧
        ∀ k : Key, (lookup (.ofString ".") k.name : StateM FileTree _).run u =
          (.done (Text.lineOf [({ Settings.initial with
            rule := .line, files := ["a".toList, "b".toList] } : Settings).get k]), u) := by
  have hfind : begun.find (SettingsFile.pathFor (.ofString ".")) =
      .ok ["w", ".logscrub", "config.toml"] := by
    decide +kernel
  have hread : begun.read (SettingsFile.pathFor (.ofString ".")) =
      .ok (Utf8.encode Settings.initial.render) :=
    FileTree.read_eq_ok_iff.mpr ⟨_, hfind, rfl⟩
  have hload := congrArg Prod.fst (SettingsFile.run_load hread Settings.initial.parse?_render)
  obtain ⟨told, u, s, hrun, -, hget, -, htold, -⟩ :=
    assignEach_store ⟨false⟩ (.ofString ".") begun _ hload someSets
  refine ⟨hload, told, u, hrun, fun k => ?_⟩
  simp only [someSets, List.forall₂_cons_left_iff, List.forall₂_nil_left_iff] at htold
  obtain ⟨files, _, hfiles, ⟨target, _, htarget, ⟨rule, _, hrule, rfl, rfl⟩, rfl⟩, rfl⟩ := htold
  have hfiles := hfiles.mpr (by decide)
  have htarget := Bool.eq_false_iff.mpr (htarget.not.mpr (by decide))
  have hrule := hrule.mpr (by decide)
  rw [hget, someSets, List.zip_cons_cons, List.zip_cons_cons, List.zip_cons_cons, List.zip_nil_left,
    latest?_cons, latest?_cons, latest?_cons, hfiles, htarget, hrule]
  refine congrArg (fun v => (Transcript.done (Text.lineOf [v]), u)) ?_
  dsimp only
  cases k <;> rfl

end Program

end CallStrip

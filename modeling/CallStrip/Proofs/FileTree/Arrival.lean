import CallStrip.Disk
import CallStrip.Proofs.FileTree.Writing
import CallStrip.Proofs.Path.Parent
import CallStrip.Proofs.Project.Visits
import Mathlib.Data.List.Flatten

/-!
Walks that end at an entry. On the way to a file they come through its folder, so that folder is
there under its own path, and making it with the folders above it changes nothing.
-/

namespace CallStrip

namespace FileTree

variable {t : FileTree} {follow : Bool} {links : Nat} {l f : Location} {steps rest a b : List Step}
  {s : Step} {n m : Name} {e : Entry} {target p q : Path} {front : List Name}

/-- How steps lead from a location to an entry, with room for some links. -/
inductive Arrives (t : FileTree) : Nat → Location → List Step → Location → Prop
  | here {links : Nat} {l : Location} : t.Arrives links l [] l
  | still {links : Nat} {l f : Location} {s : Step} {rest : List Step}
      (hfolder : t.get? l = some .folder) (hs : s = .stay ∨ s = .slash)
      (h : t.Arrives links l rest f) : t.Arrives links l (s :: rest) f
  | up {links : Nat} {l f : Location} {rest : List Step}
      (hfolder : t.get? l = some .folder)
      (h : t.Arrives links l.dropLast rest f) : t.Arrives links l (.up :: rest) f
  | into {links : Nat} {l f : Location} {n : Name} {e : Entry} {rest : List Step}
      (hfolder : t.get? l = some .folder) (hlength : n.length ≤ nameLimit)
      (hentry : t.get? (l ++ [n]) = some e) (he : ∀ target, e ≠ .link target)
      (h : t.Arrives links (l ++ [n]) rest f) : t.Arrives links l (.name n :: rest) f
  | link {links : Nat} {l f : Location} {n : Name} {target : Path} {rest : List Step}
      (hfolder : t.get? l = some .folder) (hlength : n.length ≤ nameLimit)
      (hlink : t.get? (l ++ [n]) = some (.link target)) (htarget : target.bytes ≠ [])
      (h : t.Arrives links (if target.isAbsolute then [] else l) (target.steps ++ rest) f) :
      t.Arrives (links + 1) l (.name n :: rest) f

def onward (t : FileTree) (follow : Bool) :
    Nat → Location → Path → List Step → Except IoCause Spot
  | 0, _, _, _ => .error .linkLoop
  | links + 1, l, target, rest =>
    if target.bytes = [] then .error .noEntry
    else t.walk follow links (if target.isAbsolute then [] else l) (target.steps ++ rest)

theorem walk_eq (t : FileTree) (follow : Bool) (links : Nat) (l : Location) (steps : List Step) :
    t.walk follow links l steps = t.stretch follow (t.onward follow links) l steps := by
  cases links <;> rfl

theorem arrives_of_stretch
    (honward : ∀ l target rest, t.onward true links l target rest = .ok (.entry f) →
      ∃ links', links = links' + 1 ∧ target.bytes ≠ [] ∧
        t.Arrives links' (if target.isAbsolute then [] else l) (target.steps ++ rest) f)
    (h : t.stretch true (t.onward true links) l steps = .ok (.entry f)) :
    t.Arrives links l steps f := by
  fun_induction stretch t true (t.onward true links) l steps with
  | case1 => cases h; exact .here
  | case2 | case3 | case7 | case8 | case9 | case10 => cases h
  | case4 l rest hfolder ih => exact .still (Decidable.of_not_not hfolder) (.inl rfl) (ih h)
  | case5 l rest hfolder ih => exact .still (Decidable.of_not_not hfolder) (.inr rfl) (ih h)
  | case6 l rest hfolder ih => exact .up (Decidable.of_not_not hfolder) (ih h)
  | case11 _ _ _ _ _ _ _ hstop => simp at hstop
  | case12 l rest hfolder m hlength target hlink =>
    obtain ⟨links', rfl, htarget, harrives⟩ := honward _ _ _ h
    exact .link (Decidable.of_not_not hfolder) (Nat.le_of_not_lt hlength) hlink htarget harrives
  | case13 l rest hfolder m hlength e hother hentry ih =>
    exact .into (Decidable.of_not_not hfolder) (Nat.le_of_not_lt hlength) hentry hother (ih h)

theorem arrives_of_walk (h : t.walk true links l steps = .ok (.entry f)) :
    t.Arrives links l steps f := by
  induction links generalizing l steps with
  | zero => exact arrives_of_stretch (fun _ _ _ h => by cases h) h
  | succ links ih =>
    refine arrives_of_stretch (fun l target rest h => ?_) h
    rw [onward] at h
    split at h
    · cases h
    · next htarget => exact ⟨links, rfl, htarget, ih h⟩

namespace Arrives

theorem walk (h : t.Arrives links l steps f) (follow : Bool) :
    ∃ g, t.walk follow links l steps = .ok (.entry g) ∧ (follow = true → g = f) := by
  induction h with
  | @here links l => exact ⟨l, by rw [walk_eq]; rfl, fun _ => rfl⟩
  | still hfolder hs _ ih =>
    obtain ⟨g, hwalk, hg⟩ := ih
    refine ⟨g, ?_, hg⟩
    rw [walk_eq] at hwalk ⊢
    rcases hs with rfl | rfl <;> simp [stretch, hfolder, hwalk]
  | up hfolder _ ih =>
    obtain ⟨g, hwalk, hg⟩ := ih
    refine ⟨g, ?_, hg⟩
    rw [walk_eq] at hwalk ⊢
    simp [stretch, hfolder, hwalk]
  | @into links l f n e rest hfolder hlength hentry he _ ih =>
    obtain ⟨g, hwalk, hg⟩ := ih
    refine ⟨g, ?_, hg⟩
    rw [walk_eq] at hwalk ⊢
    cases e with
    | link target => exact absurd rfl (he target)
    | _ => simp [stretch, hfolder, Nat.not_lt.mpr hlength, hentry, hwalk]
  | @link links l f n target rest hfolder hlength hlink htarget _ ih =>
    rw [walk_eq]
    by_cases hstop : rest = [] ∧ follow = false
    · obtain ⟨rfl, rfl⟩ := hstop
      exact ⟨l ++ [n], by simp [stretch, hfolder, Nat.not_lt.mpr hlength, hlink], by simp⟩
    · obtain ⟨g, hwalk, hg⟩ := ih
      refine ⟨g, ?_, hg⟩
      simp [stretch, hfolder, Nat.not_lt.mpr hlength, hlink, hstop, onward, htarget, hwalk]

theorem folder (h : t.Arrives links l (steps ++ [.name n]) f) :
    ∃ g e, t.Arrives links l steps g ∧ t.get? g = some .folder ∧ t.get? (g ++ [n]) = some e := by
  generalize hall : steps ++ [.name n] = all at h
  induction h generalizing steps with
  | here => simp at hall
  | still hfolder hs _ ih =>
    cases steps with
    | nil =>
      obtain ⟨rfl, -⟩ := List.cons.inj hall
      simp at hs
    | cons s steps =>
      obtain ⟨rfl, rfl⟩ := List.cons.inj hall
      obtain ⟨g, e, harrives, hg⟩ := ih rfl
      exact ⟨g, e, .still hfolder hs harrives, hg⟩
  | up hfolder _ ih =>
    cases steps with
    | nil => cases hall
    | cons s steps =>
      obtain ⟨rfl, rfl⟩ := List.cons.inj hall
      obtain ⟨g, e, harrives, hg⟩ := ih rfl
      exact ⟨g, e, .up hfolder harrives, hg⟩
  | @into links l _ _ _ _ hfolder hlength hentry he _ ih =>
    cases steps with
    | nil =>
      cases hall
      exact ⟨l, _, .here, hfolder, hentry⟩
    | cons s steps =>
      obtain ⟨rfl, rfl⟩ := List.cons.inj hall
      obtain ⟨g, e, harrives, hg⟩ := ih rfl
      exact ⟨g, e, .into hfolder hlength hentry he harrives, hg⟩
  | @link links l _ _ target _ hfolder hlength hlink htarget _ ih =>
    cases steps with
    | nil =>
      cases hall
      exact ⟨l, _, .here, hfolder, hlink⟩
    -- The last name stays the last one when the steps of the target are put in front.
    | cons s steps =>
      obtain ⟨rfl, rfl⟩ := List.cons.inj hall
      obtain ⟨g, e, harrives, hg⟩ := ih (List.append_assoc target.steps steps _)
      exact ⟨g, e, .link hfolder hlength hlink htarget harrives, hg⟩

theorem unique {g : Location} (hf : t.Arrives links l steps f) (hg : t.Arrives links l steps g) :
    f = g := by
  obtain ⟨f', hwalk, hf'⟩ := hf.walk true
  obtain ⟨g', hwalk', hg'⟩ := hg.walk true
  rw [hwalk] at hwalk'
  cases hwalk'
  exact (hf' rfl).symm.trans (hg' rfl)

theorem fewer (h : t.Arrives links l a f) (hab : Fewer a b) : t.Arrives links l b f := by
  induction h generalizing b with
  | here =>
    cases hab
    exact .here
  | still hfolder hs _ ih =>
    cases hab with
    | stay hab => exact ih hab
    | cons _ hab => exact .still hfolder hs (ih hab)
  | up hfolder _ ih =>
    cases hab with
    | cons _ hab => exact .up hfolder (ih hab)
  | into hfolder hlength hentry he _ ih =>
    cases hab with
    | cons _ hab => exact .into hfolder hlength hentry he (ih hab)
  | @link _ _ _ _ target _ hfolder hlength hlink htarget _ ih =>
    cases hab with
    | cons _ hab => exact .link hfolder hlength hlink htarget (ih (hab.append_left target.steps))

theorem init_of_slash (h : t.Arrives links l (steps ++ [.slash]) f) : t.Arrives links l steps f := by
  generalize hall : steps ++ [.slash] = all at h
  induction h generalizing steps with
  | here => simp at hall
  | still hfolder hs h ih =>
    cases steps with
    | nil =>
      obtain ⟨-, rfl⟩ := List.cons.inj hall
      exact h
    | cons s steps =>
      obtain ⟨rfl, rfl⟩ := List.cons.inj hall
      exact .still hfolder hs (ih rfl)
  | up hfolder _ ih =>
    cases steps with
    | nil => cases hall
    | cons s steps =>
      obtain ⟨rfl, rfl⟩ := List.cons.inj hall
      exact .up hfolder (ih rfl)
  | into hfolder hlength hentry he _ ih =>
    cases steps with
    | nil => cases hall
    | cons s steps =>
      obtain ⟨rfl, rfl⟩ := List.cons.inj hall
      exact .into hfolder hlength hentry he (ih rfl)
  | @link _ _ _ _ target _ hfolder hlength hlink htarget _ ih =>
    cases steps with
    | nil => cases hall
    | cons s steps =>
      obtain ⟨rfl, rfl⟩ := List.cons.inj hall
      exact .link hfolder hlength hlink htarget (ih (List.append_assoc target.steps steps _))

theorem append_name (h : t.Arrives links l steps f) (hfolder : t.get? f = some .folder)
    (hlength : n.length ≤ nameLimit) (hentry : t.get? (f ++ [n]) = some e)
    (he : ∀ target, e ≠ .link target) : t.Arrives links l (steps ++ [.name n]) (f ++ [n]) := by
  induction h with
  | here => exact .into hfolder hlength hentry he .here
  | still hl hs _ ih => exact .still hl hs (ih hfolder hentry)
  | up hl _ ih => exact .up hl (ih hfolder hentry)
  | into hl hm hx hlink _ ih => exact .into hl hm hx hlink (ih hfolder hentry)
  | @link _ _ _ _ target rest hl hm hlink htarget _ ih =>
    exact .link hl hm hlink htarget (List.append_assoc target.steps rest _ ▸ ih hfolder hentry)

theorem length_name_le (h : t.Arrives links l steps f) (hn : .name n ∈ steps) :
    n.length ≤ nameLimit := by
  induction h with
  | here => cases hn
  | still _ hs _ ih =>
    rcases List.mem_cons.mp hn with rfl | hn
    · simp at hs
    · exact ih hn
  | up _ _ ih => exact ih (by simpa using hn)
  | into _ hlength _ _ _ ih =>
    rcases List.mem_cons.mp hn with hm | hn
    · exact Step.name.inj hm ▸ hlength
    · exact ih hn
  | link _ hlength _ _ _ ih =>
    rcases List.mem_cons.mp hn with hm | hn
    · exact Step.name.inj hm ▸ hlength
    · exact ih (List.mem_append_right _ hn)

end Arrives

def origin (t : FileTree) (p : Path) : Location := if p.isAbsolute then [] else t.here

theorem spot_eq_ok {follow : Bool} {s : Spot} (h : t.spot follow p = .ok s) :
    refused? p = none ∧ t.walk follow linkLimit (t.origin p) p.steps = .ok s := by
  rw [spot] at h
  split at h
  · cases h
  · next hrefused => exact ⟨hrefused, h⟩

theorem arrives_of_find (h : t.find p = .ok l) : t.Arrives linkLimit (t.origin p) p.steps l :=
  arrives_of_walk (spot_eq_ok (find_eq_ok_iff.mp h)).2

theorem refused?_eq_none_iff : refused? p = none ↔
    0 ∉ p.bytes ∧ p.bytes ≠ [] ∧ p.bytes.length ≤ pathLimit := by
  simp only [refused?, List.contains_iff_mem]
  grind

theorem refused?_of_sublist (h : p.bytes.Sublist q.bytes) (hne : p.bytes ≠ [])
    (hq : refused? q = none) : refused? p = none := by
  obtain ⟨hzero, -, hlength⟩ := refused?_eq_none_iff.mp hq
  exact refused?_eq_none_iff.mpr
    ⟨fun hmem => hzero (h.subset hmem), hne, Nat.le_trans h.length_le hlength⟩

theorem arrives_tidy (hp : p.Ends front m) (hn : IsName n) (h : t.find (p.join ⟨n⟩) = .ok l) :
    refused? p.tidy = none ∧ ∃ g, t.get? g = some .folder ∧
      t.Arrives linkLimit (if p.tidy.isAbsolute then [] else t.here) p.tidy.steps g := by
  obtain ⟨lead, rest, -, htidy, habs⟩ := hp.exists_tidy
  obtain ⟨hrefused, -⟩ := spot_eq_ok (find_eq_ok_iff.mp h)
  refine ⟨refused?_of_sublist (hp.tidy_sublist.trans (p.sublist_join hn)) htidy.bytes_ne_nil
    hrefused, ?_⟩
  have harrives := arrives_of_find h
  rw [origin, hp.steps_join_name hn, hp.isAbsolute_join hn] at harrives
  obtain ⟨g, -, harrives, hg, -⟩ := harrives.folder
  exact ⟨g, hg, habs ▸ harrives.fewer hp.fewer_tidy⟩

theorem run_makeFolders_tidy (hp : p.Ends front m) (hn : IsName n)
    (h : t.find (p.join ⟨n⟩) = .ok l) :
    (Disk.makeFolders p.tidy : StateM FileTree _).run t = (.ok (), t) := by
  obtain ⟨hrefused, g, hg, harrives⟩ := arrives_tidy hp hn h
  obtain ⟨-, htext⟩ := refused?_eq_none_iff.mp hrefused
  have hisFolder : t.isFolder p.tidy = true := by
    obtain ⟨g', hwalk, hg'⟩ := harrives.walk true
    have hfind : t.find p.tidy = .ok g := by
      rw [find_eq_ok_iff, spot, hrefused, ← hg' rfl, hwalk]
    rw [isFolder, hfind]
    exact decide_eq_true hg
  have hmake : t.makeFolder p.tidy = .error .entryExists := by
    obtain ⟨g', hwalk, -⟩ := harrives.walk false
    rw [makeFolder, spot, hrefused, hwalk]
    rfl
  have hrun : (Disk.makeFolder p.tidy : StateM FileTree _).run t = (.error .entryExists, t) := by
    change FileTree.change (·.makeFolder p.tidy) t = _
    rw [change, hmake]
  have hask : (Disk.isFolder p.tidy : StateM FileTree Bool).run t = (true, t) :=
    congrArg (·, t) hisFolder
  rw [Disk.makeFolders, Disk.ancestors, Disk.makeFoldersFrom, if_neg htext.1, run_bind hrun]
  dsimp only
  rw [if_neg (by decide), run_bind hask]
  rfl

end FileTree

end CallStrip

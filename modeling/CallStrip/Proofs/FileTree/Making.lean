import CallStrip.Proofs.FileTree.Arrival
import CallStrip.Proofs.Path.Ancestors

/-!
What it does to a tree to make a folder with the folders above it. Nothing is lost, even if it fails
halfway. On a way that never goes up, what was made is empty.
-/

namespace CallStrip

namespace FileTree

variable {t u v : FileTree} {p q : Path} {ps outer : List Path} {r : Except IoCause Unit}
  {c : IoCause} {f g l : Location} {n : Name} {steps : List Step}

structure Grows (t u : FileTree) : Prop where
  here : u.here = t.here
  kept : ∀ l x, t.get? l = some x → u.get? l = some x
  added : ∀ l x, u.get? l = some x → t.get? l = none → x = .folder

namespace Grows

theorem refl (t : FileTree) : t.Grows t := ⟨rfl, fun _ _ h => h, fun l x h hn => by simp [h] at hn⟩

theorem trans (h : t.Grows u) (h' : u.Grows v) : t.Grows v := by
  refine ⟨h'.here.trans h.here, fun l x hx => h'.kept l x (h.kept l x hx), fun l x hx hnone => ?_⟩
  cases hu : u.get? l with
  | none => exact h'.added l x hx hu
  | some y =>
    obtain rfl : y = x := Option.some.inj ((h'.kept l y hu).symm.trans hx)
    exact h.added l y hu hnone

theorem none_of_none (h : t.Grows u) (hl : u.get? l = none) : t.get? l = none := by
  cases ht : t.get? l with
  | none => rfl
  | some x => simp [h.kept l x ht] at hl

end Grows

def Hollow (t : FileTree) (l : Location) : Prop :=
  t.get? l = some .folder ∧ ∀ n, t.get? (l ++ [n]) = none

theorem Vacant.grows (h : t.Vacant f n) : t.Grows (t.put (f ++ [n]) .folder) := by
  refine ⟨here_put t _ _, fun l x => h.kept .folder, fun l x hx hnone => ?_⟩
  rw [h.get?_put] at hx
  split at hx
  · exact (Option.some.inj hx).symm
  · simp [hnone] at hx

theorem Vacant.hollow (h : t.Vacant f n) : (t.put (f ++ [n]) .folder).Hollow (f ++ [n]) := by
  refine ⟨by rw [h.get?_put, if_pos rfl], fun m => ?_⟩
  rw [h.get?_put, if_neg (by simp)]
  exact get?_append_of_none h.2.2 m

def LeadsToHollow (t : FileTree) (p : Path) : Prop :=
  p.bytes ≠ [] ∧ ∃ g, t.Hollow g ∧ t.Arrives linkLimit (t.origin p) p.steps g

theorem LeadsToHollow.find_ne (h : t.LeadsToHollow q) (habs : p.isAbsolute = q.isAbsolute)
    (hsteps : p.steps = steps ++ [.name n]) (hfewer : Fewer steps q.steps) (l : Location) :
    t.find p ≠ .ok l := by
  intro hfind
  obtain ⟨-, g, ⟨-, hnone⟩, hg⟩ := h
  have harrives := arrives_of_find hfind
  rw [hsteps] at harrives
  obtain ⟨g', e, harrives, -, hentry⟩ := harrives.folder
  have hsame : g' = g := by
    refine (harrives.fewer hfewer).unique ?_
    rw [origin, habs]
    exact hg
  rw [hsame, hnone] at hentry
  cases hentry

theorem makeFolder_eq_ok (h : t.makeFolder p = .ok u) : t.Grows u ∧ u.LeadsToHollow p := by
  rw [makeFolder] at h
  cases hs : t.spot false p with
  | error c => simp [hs, bind, Except.bind] at h
  | ok s =>
    cases s with
    | entry l | noFolder l => simp [hs, bind, Except.bind] at h
    | free f n slash =>
      obtain rfl : t.put (f ++ [n]) .folder = u := by simpa [hs, bind, Except.bind] using h
      obtain ⟨hrefused, hwalk⟩ := spot_eq_ok hs
      have hvacant := vacant_of_spot hs
      have hentry := entry_of_walk (fun _ _ => hvacant.kept .folder) hvacant.hollow.1 (by simp)
        (fun _ => rfl) hwalk
      refine ⟨hvacant.grows, (refused?_eq_none_iff.mp hrefused).2.1, f ++ [n], hvacant.hollow, ?_⟩
      rw [origin, here_put]
      exact arrives_of_walk hentry

theorem exists_find_of_isFolder (h : t.isFolder p = true) : ∃ l, t.find p = .ok l := by
  rw [isFolder] at h
  cases hfind : t.find p with
  | error c => simp [hfind] at h
  | ok l => exact ⟨l, rfl⟩

theorem kind_makeFolder_of_isFolder (hfolder : t.isFolder p = true)
    (h : t.makeFolder p = .error c) : c.kind ≠ .notFound := by
  obtain ⟨l, hfind⟩ := exists_find_of_isFolder hfolder
  obtain ⟨g, hwalk, -⟩ := (arrives_of_find hfind).walk false
  have hrefused := (spot_eq_ok (find_eq_ok_iff.mp hfind)).1
  rw [makeFolder, spot, hrefused] at h
  change (t.walk false linkLimit (t.origin p) p.steps >>= _) = _ at h
  rw [hwalk] at h
  cases h
  decide

/-- How the first folder of a list is made, and what comes of it. -/
inductive Makes : FileTree → List Path → Except IoCause Unit → FileTree → Prop
  | nothing {t : FileTree} {c : IoCause} : Makes t [] (.error c) t
  | blank {t : FileTree} {p : Path} {outer : List Path} (hp : p.bytes = []) :
    Makes t (p :: outer) (.ok ()) t
  | new {t u : FileTree} {p : Path} {outer : List Path} (h : t.makeFolder p = .ok u) :
    Makes t (p :: outer) (.ok ()) u
  | refused {t : FileTree} {p : Path} {outer : List Path} {c : IoCause}
    (h : t.makeFolder p = .error c) (hc : c.kind ≠ .notFound) :
    Makes t (p :: outer) (if t.isFolder p then .ok () else .error c) t
  | barred {t u : FileTree} {p : Path} {outer : List Path} {c c' : IoCause}
    (h : t.makeFolder p = .error c) (hc : c.kind = .notFound)
    (houter : Makes t outer (.error c') u) : Makes t (p :: outer) (.error c') u
  | behind {t u v : FileTree} {p : Path} {outer : List Path} {c : IoCause}
    (h : t.makeFolder p = .error c) (hc : c.kind = .notFound) (houter : Makes t outer (.ok ()) v)
    (hu : v.makeFolder p = .ok u) : Makes t (p :: outer) (.ok ()) u
  | refusedBehind {t v : FileTree} {p : Path} {outer : List Path} {c c' : IoCause}
    (h : t.makeFolder p = .error c) (hc : c.kind = .notFound) (houter : Makes t outer (.ok ()) v)
    (hv : v.makeFolder p = .error c') :
    Makes t (p :: outer) (if v.isFolder p then .ok () else .error c') v

theorem run_makeFolder (t : FileTree) (p : Path) :
    (Disk.makeFolder p : StateM FileTree (Except IoCause Unit)).run t =
      match t.makeFolder p with
      | .ok u => (.ok (), u)
      | .error c => (.error c, t) :=
  rfl

theorem makes_makeFoldersFrom (t : FileTree) (ps : List Path) :
    ∃ r u, (Disk.makeFoldersFrom ps : StateM FileTree _).run t = (r, u) ∧ Makes t ps r u := by
  induction ps with
  | nil => exact ⟨_, _, rfl, .nothing⟩
  | cons p outer ih =>
    rw [Disk.makeFoldersFrom]
    split
    · next hp => exact ⟨_, _, rfl, .blank hp⟩
    have hrun := run_makeFolder t p
    cases hmake : t.makeFolder p with
    | ok u =>
      rw [hmake] at hrun
      exact ⟨_, _, run_bind hrun, .new hmake⟩
    | error c =>
      rw [hmake] at hrun
      rw [run_bind hrun]
      dsimp only
      split
      · next hc =>
        obtain ⟨r, v, hrunOuter, houter⟩ := ih
        rw [run_bind hrunOuter]
        cases r with
        | error c' => exact ⟨_, _, rfl, .barred hmake hc houter⟩
        | ok _ =>
          have hrun' := run_makeFolder v p
          cases hmake' : v.makeFolder p with
          | ok u =>
            rw [hmake'] at hrun'
            exact ⟨_, _, run_bind hrun', .behind hmake hc houter hmake'⟩
          | error c' =>
            rw [hmake'] at hrun'
            exact ⟨_, _, run_bind hrun', .refusedBehind hmake hc houter hmake'⟩
      · next hc => exact ⟨_, _, rfl, .refused hmake hc⟩

namespace Makes

theorem grows (h : Makes t ps r u) : t.Grows u := by
  induction h with
  | nothing | blank | refused => exact .refl _
  | new h => exact (makeFolder_eq_ok h).1
  | barred _ _ _ ih => exact ih
  | behind _ _ _ hu ih => exact ih.trans (makeFolder_eq_ok hu).1
  | refusedBehind _ _ _ _ ih => exact ih

theorem hollow (h : Makes t (p :: outer) r u) (hchain : (p :: outer).IsChain Path.Above)
    (hr : r = .ok ()) : u = t ∨ u.LeadsToHollow p := by
  generalize hps : p :: outer = ps at h
  induction h generalizing p outer with
  | nothing => cases hps
  | blank | refused => exact .inl rfl
  | barred => cases hr
  | new h =>
    obtain ⟨rfl, -⟩ := List.cons.inj hps
    exact .inr (makeFolder_eq_ok h).2
  | behind _ _ _ hu =>
    obtain ⟨rfl, -⟩ := List.cons.inj hps
    exact .inr (makeFolder_eq_ok hu).2
  | refusedBehind h hc houter _ ih =>
    obtain ⟨rfl, rfl⟩ := List.cons.inj hps
    split at hr
    case isFalse => cases hr
    rename_i hfolder
    cases outer with
    | nil => cases houter
    | cons q outer =>
      obtain ⟨habove, hchain⟩ := List.isChain_cons_cons.mp hchain
      obtain rfl | hhollow := ih hchain rfl rfl
      · exact absurd hc (kind_makeFolder_of_isFolder hfolder h)
      -- What was made last is empty, so that nothing can be found in it.
      · obtain ⟨l, hfind⟩ := exists_find_of_isFolder hfolder
        rcases habove with hnil | ⟨habs, n, hsteps⟩
        · exact absurd hnil hhollow.1
        · exact absurd hfind (hhollow.find_ne habs hsteps (.refl _) l)

end Makes

end FileTree

end CallStrip

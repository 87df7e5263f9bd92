import CallStrip.Proofs.FileTree.Descent
import CallStrip.Proofs.FileTree.Listing
import CallStrip.Proofs.Text.Utf8

/-!
Discovery: a walk from folder to folder, in each one by name. It finds the files of an extension
that are not hidden, in the order of components, or it ends at the first folder that cannot be opened.
-/

namespace CallStrip

theorem Name.isHidden_iff {n : Name} :
    isHidden n = true ↔ n.head? = some 0x2E ∧ (Utf8.decode n).isSome = true := by
  rw [isHidden]
  cases hn : Utf8.decode n with
  | none => simp
  | some x =>
    obtain rfl := Utf8.decode_eq_some_iff.mp hn
    simp only [decide_eq_true_eq, Option.isSome_some, and_true]
    constructor
    · intro hx
      obtain ⟨y, rfl⟩ := List.head?_eq_some_iff.mp hx
      rfl
    · intro hx
      obtain ⟨y, hy⟩ := List.head?_eq_some_iff.mp hx
      have hpoint : Utf8.encode ['.'] <+: Utf8.encode x := hy ▸ List.prefix_append [0x2E] y
      obtain ⟨z, rfl⟩ := Utf8.prefix_of_encode hpoint
      rfl

theorem Name.isHidden_of_head?_ne {n : Name} (h : n.head? ≠ some 0x2E) : isHidden n = false :=
  Bool.eq_false_iff.mpr fun hn => h (isHidden_iff.mp hn).1

namespace Target

variable {t : FileTree} {extension : Name} {p root : Path} {l k names : Location} {n : Name}
  {S S' : Location → Prop} {r : Except IoCause (List Path)}

structure Wanted (t : FileTree) (extension : Name) (l names : Location) : Prop where
  file : ∃ content, t.get? (l ++ names) = some (.file content)
  visible : ∀ n ∈ names, Name.isHidden n = false
  extension : names.getLast?.bind Path.extension? = some extension

structure Entered (t : FileTree) (l k : Location) : Prop where
  folder : t.get? (l ++ k) = some .folder
  visible : ∀ n ∈ k, Name.isHidden n = false

theorem wanted_cons_iff (hn : Name.isHidden n = false)
    (hfolder : t.get? (l ++ [n]) = some .folder) :
    Wanted t extension l (n :: k) ↔ Wanted t extension (l ++ [n]) k := by
  have hlocation : l ++ [n] ++ k = l ++ n :: k := by simp
  constructor
  · rintro ⟨hfile, hvisible, hextension⟩
    rw [← hlocation] at hfile
    refine ⟨hfile, fun m hm => hvisible m (List.mem_cons_of_mem n hm), ?_⟩
    cases k with
    -- A folder is no file.
    | nil =>
      obtain ⟨content, hfile⟩ := hfile
      rw [List.append_nil, hfolder] at hfile
      cases hfile
    | cons m k => rwa [List.getLast?_cons_cons] at hextension
  · rintro ⟨hfile, hvisible, hextension⟩
    refine ⟨hlocation ▸ hfile, List.forall_mem_cons.mpr ⟨hn, hvisible⟩, ?_⟩
    cases k with
    | nil => simp at hextension
    | cons m k => rwa [List.getLast?_cons_cons]

theorem entered_cons_iff (hn : Name.isHidden n = false) :
    Entered t l (n :: k) ↔ Entered t (l ++ [n]) k := by
  have hlocation : l ++ [n] ++ k = l ++ n :: k := by simp
  constructor
  · rintro ⟨hfolder, hvisible⟩
    exact ⟨hlocation ▸ hfolder, fun m hm => hvisible m (List.mem_cons_of_mem n hm)⟩
  · rintro ⟨hfolder, hvisible⟩
    exact ⟨hlocation ▸ hfolder, List.forall_mem_cons.mpr ⟨hn, hvisible⟩⟩

/-- What a walk comes to that goes through some of the names below a folder, in order. -/
inductive Gathers (t : FileTree) (extension : Name) (p : Path) (l : Location)
    (S : Location → Prop) : Except IoCause (List Path) → Prop
  | found {found : List Location} (sorted : found.Pairwise (· < ·))
      (mem : ∀ names, names ∈ found ↔ S names ∧ Wanted t extension l names)
      (entered : ∀ k, S k → Entered t l k → t.find (p.below k) = .ok (l ++ k)) :
      Gathers t extension p l S (.ok (found.map p.below))
  | stopped {k : Location} {c : IoCause} (within : S k) (folder : Entered t l k)
      (unopened : t.find (p.below k) = .error c)
      (entered : ∀ k', S k' → Entered t l k' → k' < k → t.find (p.below k') = .ok (l ++ k')) :
      Gathers t extension p l S (.error (.unlisted (p.below k) c))

namespace Gathers

theorem congr (h : Gathers t extension p l S r) (hS : ∀ k, S k ↔ S' k) :
    Gathers t extension p l S' r := by
  obtain rfl : S = S' := funext fun k => propext (hS k)
  exact h

theorem nothing (hwanted : ∀ names, S names → ¬ Wanted t extension l names)
    (hentered : ∀ k, S k → ¬ Entered t l k) : Gathers t extension p l S (.ok []) := by
  rw [show ([] : List Path) = ([] : List Location).map p.below from rfl]
  refine .found .nil (fun names => ?_) fun k hk h => absurd h (hentered k hk)
  exact ⟨fun h => (nomatch h), fun h => absurd h.2 (hwanted names h.1)⟩

theorem append {as bs : List Path} (h : Gathers t extension p l S (.ok as))
    (h' : Gathers t extension p l S' (.ok bs)) (hlt : ∀ k k', S k → S' k' → k < k') :
    Gathers t extension p l (fun k => S k ∨ S' k) (.ok (as ++ bs)) := by
  obtain ⟨hsorted, hmem, hentered⟩ := h
  obtain ⟨hsorted', hmem', hentered'⟩ := h'
  rw [← List.map_append]
  refine .found (List.pairwise_append.mpr ⟨hsorted, hsorted', fun k hk k' hk' => ?_⟩)
    (fun names => ?_) fun k hk hfolder => ?_
  · exact hlt k k' ((hmem k).mp hk).1 ((hmem' k').mp hk').1
  · rw [List.mem_append, hmem, hmem', or_and_right]
  · exact hk.elim (hentered k · hfolder) (hentered' k · hfolder)

theorem stop {c : IoCause} (h : Gathers t extension p l S (.error c))
    (hlt : ∀ k k', S k → S' k' → k < k') :
    Gathers t extension p l (fun k => S k ∨ S' k) (.error c) := by
  cases h with
  | @stopped k _ hk hfolder hunopened hentered =>
    refine .stopped (.inl hk) hfolder hunopened fun k' hk' hfolder' hless => ?_
    rcases hk' with hk' | hk'
    · exact hentered k' hk' hfolder' hless
    · exact absurd (hlt k k' hk hk') (List.lt_asymm hless)

theorem append_stop {as : List Path} {c : IoCause} (h : Gathers t extension p l S (.ok as))
    (h' : Gathers t extension p l S' (.error c)) :
    Gathers t extension p l (fun k => S k ∨ S' k) (.error c) := by
  obtain ⟨-, -, hentered⟩ := h
  cases h' with
  | stopped hk hfolder hunopened hentered' =>
    refine .stopped (.inr hk) hfolder hunopened fun k' hk' hfolder' hless => ?_
    exact hk'.elim (hentered k' · hfolder') (hentered' k' · hfolder' hless)

theorem cons (h : Gathers t extension (p.join ⟨n⟩) (l ++ [n]) (fun _ => True) r)
    (hn : Name.isHidden n = false) (hfolder : t.get? (l ++ [n]) = some .folder) :
    Gathers t extension p l (·.head? = some n) r := by
  have hlocation (k : Location) : l ++ [n] ++ k = l ++ n :: k := by simp
  cases h with
  | @found found hsorted hmem hentered =>
    have hpaths : found.map (p.join ⟨n⟩).below = (found.map (n :: ·)).map p.below := by
      rw [List.map_map]
      rfl
    rw [hpaths]
    refine .found (List.pairwise_map.mpr (hsorted.imp fun h => ?_)) (fun names => ?_) ?_
    · exact List.cons_lt_cons_iff.mpr (.inr ⟨rfl, h⟩)
    · rw [List.mem_map]
      constructor
      · rintro ⟨k, hk, rfl⟩
        exact ⟨rfl, (wanted_cons_iff hn hfolder).mpr ((hmem k).mp hk).2⟩
      · rintro ⟨hhead, hwanted⟩
        obtain ⟨k, rfl⟩ := List.head?_eq_some_iff.mp hhead
        exact ⟨k, (hmem k).mpr ⟨trivial, (wanted_cons_iff hn hfolder).mp hwanted⟩, rfl⟩
    · intro k hhead hk
      obtain ⟨k, rfl⟩ := List.head?_eq_some_iff.mp hhead
      exact hlocation k ▸ hentered k trivial ((entered_cons_iff hn).mp hk)
  | @stopped k c _ hk hunopened hentered =>
    refine .stopped (k := n :: k) rfl ((entered_cons_iff hn).mpr hk) hunopened ?_
    intro k' hhead hk' hless
    obtain ⟨k', rfl⟩ := List.head?_eq_some_iff.mp hhead
    have hless : k' < k := by simpa [List.cons_lt_cons_iff, List.lt_irrefl] using hless
    exact hlocation k' ▸ hentered k' trivial ((entered_cons_iff hn).mp hk') hless

end Gathers

section Folder

variable {children : List Child} {i : Child}
  {f : Child → ExceptT IoCause (StateM FileTree) (List Path)}

theorem lt_of_head? {m : Name} (h : k.head? = some n) (h' : names.head? = some m) (hlt : n < m) :
    k < names := by
  obtain ⟨k, rfl⟩ := List.head?_eq_some_iff.mp h
  obtain ⟨names, rfl⟩ := List.head?_eq_some_iff.mp h'
  exact List.cons_lt_cons_iff.mpr (.inl hlt)

theorem exists_run_mapM (hsorted : children.Pairwise (·.name < ·.name))
    (hf : ∀ i ∈ children, ∃ r, (f i).run.run t = (r, t) ∧
      Gathers t extension p l (·.head? = some i.name) r) :
    ∃ r, (children.mapM f).run.run t = (r, t) ∧
      Gathers t extension p l (fun k => ∃ i ∈ children, k.head? = some i.name)
        (r.map List.flatten) := by
  induction children with
  | nil => exact ⟨.ok [], rfl, .nothing (by simp) (by simp)⟩
  | cons i children ih =>
    obtain ⟨hi, hsorted⟩ := List.pairwise_cons.mp hsorted
    obtain ⟨hfi, hf⟩ := List.forall_mem_cons.mp hf
    obtain ⟨r, hrun, hr⟩ := hfi
    obtain ⟨r', hrun', hr'⟩ := ih hsorted hf
    -- What stands below one child comes before all that stands below those behind it.
    have hlt : ∀ k k' : Location, k.head? = some i.name →
        (∃ j ∈ children, k'.head? = some j.name) → k < k' :=
      fun k k' hk ⟨j, hj, hk'⟩ => lt_of_head? hk hk' (hi j hj)
    have hS : ∀ k : Location, (k.head? = some i.name ∨ ∃ j ∈ children, k.head? = some j.name) ↔
        ∃ j ∈ i :: children, k.head? = some j.name := by simp
    rw [List.mapM_cons, ExceptT.run_bind, run_bind hrun]
    cases r with
    | error c => exact ⟨.error c, rfl, (hr.stop hlt).congr hS⟩
    | ok as =>
      dsimp only
      rw [ExceptT.run_bind, run_bind hrun']
      cases r' with
      | error c => exact ⟨.error c, rfl, (hr.append_stop hr').congr hS⟩
      | ok bss => exact ⟨.ok (as :: bss), rfl, (hr.append hr' hlt).congr hS⟩

theorem exists_run_flatten (hsorted : children.Pairwise (·.name < ·.name))
    (hf : ∀ i ∈ children, ∃ r, (f i).run.run t = (r, t) ∧
      Gathers t extension p l (·.head? = some i.name) r) :
    ∃ r, (do return (← children.mapM f).flatten : ExceptT IoCause (StateM FileTree) _).run.run t =
        (r, t) ∧ Gathers t extension p l (fun k => ∃ i ∈ children, k.head? = some i.name) r := by
  obtain ⟨r, hrun, hr⟩ := exists_run_mapM hsorted hf
  rw [ExceptT.run_bind, run_bind hrun]
  cases r with
  | error c => exact ⟨.error c, rfl, hr⟩
  | ok found => exact ⟨.ok found.flatten, rfl, hr⟩

theorem eq_of_head? {e e' : Entry} (he : t.get? (l ++ [n]) = some e) (hne : e ≠ .folder)
    (h : t.get? (l ++ k) = some e') (hk : k.head? = some n) : k = [n] ∧ e' = e := by
  obtain ⟨k, rfl⟩ := List.head?_eq_some_iff.mp hk
  rw [← List.singleton_append, ← List.append_assoc] at h
  cases k with
  | nil => exact ⟨rfl, Option.some.inj (by rw [← h, List.append_nil, he])⟩
  | cons m k =>
    have hfolder := FileTree.folder_of_get?_append (List.cons_ne_nil m k) h
    exact absurd (Option.some.inj (he.symm.trans hfolder)) hne

theorem gathers_file {content : Bytes} (h : t.get? (l ++ [n]) = some (.file content))
    (hn : Name.isHidden n = false) :
    Gathers t extension p l (·.head? = some n)
      (.ok (if Path.extension? n = some extension then [p.join ⟨n⟩] else [])) := by
  have hentered : ∀ k : Location, k.head? = some n → ¬ Entered t l k := by
    rintro k hk ⟨hfolder, -⟩
    cases (eq_of_head? h (by simp) hfolder hk).2
  split
  · next hextension =>
    rw [show [p.join ⟨n⟩] = ([[n]] : List Location).map p.below from rfl]
    refine .found (List.pairwise_singleton _ _) (fun names => ?_)
      fun k hk hfolder => absurd hfolder (hentered k hk)
    rw [List.mem_singleton]
    constructor
    · rintro rfl
      exact ⟨rfl, ⟨content, h⟩, by simpa using hn, by simpa using hextension⟩
    · rintro ⟨hhead, ⟨_, hfile⟩, -, -⟩
      exact (eq_of_head? h (by simp) hfile hhead).1
  · next hextension =>
    refine .nothing (fun names hhead => ?_) hentered
    rintro ⟨⟨_, hfile⟩, -, hwanted⟩
    obtain ⟨rfl, -⟩ := eq_of_head? h (by simp) hfile hhead
    exact hextension (by simpa using hwanted)

theorem gathers_link {target : Path} (h : t.get? (l ++ [n]) = some (.link target)) :
    Gathers t extension p l (·.head? = some n) (.ok []) := by
  refine .nothing (fun names hhead => ?_) fun k hhead => ?_
  · rintro ⟨⟨_, hfile⟩, -, -⟩
    cases (eq_of_head? h (by simp) hfile hhead).2
  · rintro ⟨hfolder, -⟩
    cases (eq_of_head? h (by simp) hfolder hhead).2

theorem exists_child {e : Entry} (hk : k ≠ []) (h : t.get? (l ++ k) = some e) :
    ∃ i ∈ t.children l, k.head? = some i.name := by
  cases k with
  | nil => exact absurd rfl hk
  | cons n k =>
    rw [← List.singleton_append, ← List.append_assoc] at h
    suffices ∃ e', t.get? (l ++ [n]) = some e' by
      obtain ⟨e', he'⟩ := this
      exact ⟨⟨n, e'.kind⟩, FileTree.mem_children.mpr ⟨e', he', rfl⟩, rfl⟩
    cases k with
    | nil => exact ⟨e, by rwa [List.append_nil] at h⟩
    | cons m k => exact ⟨_, FileTree.folder_of_get?_append (List.cons_ne_nil m k) h⟩

theorem Gathers.whole (hp : t.find p = .ok l)
    (h : Gathers t extension p l
      (fun k => ∃ i ∈ (Child.inOrder (t.children l)).filter Child.isVisible,
        k.head? = some i.name) r) : Gathers t extension p l (fun _ => True) r := by
  have hchild {e : Entry} (k : Location) (hk : k ≠ []) (he : t.get? (l ++ k) = some e)
      (hvisible : ∀ n ∈ k, Name.isHidden n = false) :
      ∃ i ∈ (Child.inOrder (t.children l)).filter Child.isVisible, k.head? = some i.name := by
    obtain ⟨i, hi, hhead⟩ := exists_child hk he
    refine ⟨i, List.mem_filter.mpr ⟨Child.mem_inOrder.mpr hi, ?_⟩, hhead⟩
    rw [Child.isVisible, hvisible i.name (List.mem_of_head? hhead)]
    rfl
  have hself : t.find (p.below []) = .ok (l ++ []) := by rwa [List.append_nil]
  cases h with
  | found hsorted hmem hentered =>
    refine .found hsorted (fun names => ?_) fun k _ hk => ?_
    · rw [hmem, true_and, and_iff_right_iff_imp]
      rintro ⟨⟨_, hfile⟩, hvisible, hextension⟩
      exact hchild names (by rintro rfl; simp at hextension) hfile hvisible
    · by_cases hnil : k = []
      · exact hnil ▸ hself
      · exact hentered k (hchild k hnil hk.folder hk.visible) hk
  | stopped _ hk hunopened hentered =>
    refine .stopped trivial hk hunopened fun k' _ hk' hless => ?_
    by_cases hnil : k' = []
    · exact hnil ▸ hself
    · exact hentered k' (hchild k' hnil hk'.folder hk'.visible) hk' hless

theorem exists_run_filesBelow (extension : Name) {room : Nat}
    (hroom : FileTree.pathLimit + 1 < room + p.bytes.length) (hpos : 0 < room)
    (hp : t.find p = .ok l ∨ ∃ c, t.find p = .error c) (hl : t.get? l = some .folder) :
    ∃ r, (filesBelow extension room p : ExceptT IoCause (StateM FileTree) _).run.run t = (r, t) ∧
      Gathers t extension p l (fun _ => True) r := by
  induction room generalizing p l with
  | zero => exact absurd hpos (Nat.lt_irrefl 0)
  | succ room ih =>
    rw [filesBelow, ExceptT.run_bind]
    rcases hp with hp | ⟨c, hp⟩
    · obtain ⟨-, -, hlength⟩ :=
        FileTree.refused?_eq_none_iff.mp (FileTree.spot_eq_ok (FileTree.find_eq_ok_iff.mp hp)).1
      rw [run_bind (run_listing_ok (FileTree.readFolder_eq_ok hp hl))]
      have hsorted := (Child.pairwise_lt_inOrder (t.nodup_names_children l)).filter Child.isVisible
      refine (exists_run_flatten hsorted fun i hi => ?_).imp fun r h => ⟨h.1, h.2.whole hp⟩
      obtain ⟨hi, hvisible⟩ := List.mem_filter.mp hi
      obtain ⟨e, he, hkind⟩ := FileTree.mem_children.mp (Child.mem_inOrder.mp hi)
      have hn : Name.isHidden i.name = false := by simpa [Child.isVisible] using hvisible
      rw [← hkind]
      cases e with
      | file content => exact ⟨_, rfl, gathers_file he hn⟩
      | link target => exact ⟨_, rfl, gathers_link he⟩
      | folder =>
        -- Every folder makes the path longer, so the room lasts to where no path opens any more.
        have hlonger := p.length_join_name_lt (FileTree.isName_of_get? he i.name List.mem_cons_self)
        obtain ⟨r, hrun, hr⟩ := ih (by omega) (by omega) (FileTree.find_join_or hp he (by simp)) he
        exact ⟨r, hrun, hr.cons hn he⟩
    · rw [run_bind (run_listing_error (FileTree.readFolder_eq_error hp))]
      refine ⟨_, rfl, .stopped (k := []) trivial ⟨by rwa [List.append_nil], by simp⟩ hp ?_⟩
      exact fun k' _ _ hless => absurd hless (List.not_lt_nil k')

end Folder

/-- What discovery in a folder comes to: all its files of the extension below visible names, or the
first of the folders there that cannot be opened. A name that starts with a point is no visible one,
but nothing is said of it where it is no text. -/
inductive Discovers (t : FileTree) (root : Path) (l : Location) (extension : Name) :
    Except IoCause (List Path) → Prop
  | found {paths : List Path}
      (complete : ∀ names content, t.Leads l names (.file content) →
        (∀ n ∈ names, n.head? ≠ some 0x2E) →
        names.getLast?.bind Path.extension? = some extension → root.below names ∈ paths)
      (sound : ∀ p ∈ paths, ∃ names content, p = root.below names ∧ names ≠ [] ∧
        t.Leads l names (.file content) ∧
        (∀ n ∈ names, n.head? = some 0x2E → Utf8.decode n = none) ∧
        names.getLast?.bind Path.extension? = some extension ∧
        p.components = root.components ++ names.map .name)
      (sorted : paths.Pairwise fun p q => p.key < q.key)
      (nodup : paths.Nodup)
      (opens : ∀ names, t.Leads l names .folder → (∀ n ∈ names, n.head? ≠ some 0x2E) →
        root.Opens names) :
      Discovers t root l extension (.ok paths)
  | stopped {names : List Name} {c : IoCause} (folder : t.Leads l names .folder)
      (visible : ∀ n ∈ names, n.head? = some 0x2E → Utf8.decode n = none)
      (closed : ¬ root.Opens names)
      (refused : t.readFolder (root.below names) = .error c)
      (first : ∀ names', t.Leads l names' .folder → (∀ n ∈ names', n.head? ≠ some 0x2E) →
        (root.below names').key < (root.below names).key → root.Opens names') :
      Discovers t root l extension (.error (.unlisted (root.below names) c))

theorem not_hidden_of_head?_ne (h : ∀ n ∈ k, n.head? ≠ some 0x2E) :
    ∀ n ∈ k, Name.isHidden n = false := fun n hn => Name.isHidden_of_head?_ne (h n hn)

theorem decode_eq_none_of_not_hidden (h : ∀ n ∈ k, Name.isHidden n = false) :
    ∀ n ∈ k, n.head? = some 0x2E → Utf8.decode n = none := by
  intro n hn hhead
  cases hdecode : Utf8.decode n with
  | none => rfl
  | some x =>
    have hhidden := Name.isHidden_iff.mpr ⟨hhead, by rw [hdecode]; rfl⟩
    exact absurd hhidden (by simp [h n hn])

theorem Gathers.discovers (hp : t.find root = .ok l)
    (h : Gathers t extension root l (fun _ => True) r) : Discovers t root l extension r := by
  have hopens {k : Location} (hk : Entered t l k) (hf : t.find (root.below k) = .ok (l ++ k)) :
      root.Opens k := FileTree.opens_of_find hf (FileTree.isName_of_get? hk.folder)
  have hentered {k : Location} (hk : t.Leads l k .folder)
      (hvisible : ∀ n ∈ k, n.head? ≠ some 0x2E) : Entered t l k := ⟨FileTree.leads_iff.mp hk, not_hidden_of_head?_ne hvisible⟩
  cases h with
  | @found found hsorted hmem hfolders =>
    have hnames : ∀ k ∈ found, ∀ n ∈ k, IsName n := fun k hk =>
      FileTree.isName_of_get? ((hmem k).mp hk).2.file.choose_spec
    have hkeys : (found.map root.below).Pairwise fun p q => p.key < q.key :=
      List.pairwise_map.mpr (hsorted.imp_of_mem fun hk hk' hlt =>
        (Path.key_below_lt_iff (hnames _ hk) (hnames _ hk')).mpr hlt)
    constructor
    case complete =>
      intro names content hleads hvisible hextension
      refine List.mem_map_of_mem ((hmem names).mpr ⟨trivial, ?_, ?_, hextension⟩)
      · exact ⟨content, FileTree.leads_iff.mp hleads⟩
      · exact not_hidden_of_head?_ne hvisible
    case sound =>
      intro p hp
      obtain ⟨names, hfound, rfl⟩ := List.mem_map.mp hp
      obtain ⟨-, ⟨content, hfile⟩, hvisible, hextension⟩ := (hmem names).mp hfound
      exact ⟨names, content, rfl, by rintro rfl; simp at hextension, FileTree.leads_iff.mpr hfile,
        decode_eq_none_of_not_hidden hvisible, hextension,
        Path.components_below root (hnames names hfound)⟩
    case sorted => exact hkeys
    case nodup =>
      refine hkeys.imp fun hlt => ?_
      rintro rfl
      exact List.lt_irrefl _ hlt
    case opens =>
      intro k hk hvisible
      exact hopens (hentered hk hvisible) (hfolders k trivial (hentered hk hvisible))
  | @stopped k c _ hk hunopened hfolders =>
    constructor
    case folder => exact FileTree.leads_iff.mpr hk.folder
    case visible => exact decode_eq_none_of_not_hidden hk.visible
    case closed =>
      -- Had it a path that opens, that path would have led to it.
      intro hopen
      rw [FileTree.find_below hp hk.folder hopen] at hunopened
      cases hunopened
    case refused => exact FileTree.readFolder_eq_error hunopened
    case first =>
      intro k' hk' hvisible hless
      have hfolder := hentered hk' hvisible
      refine hopens hfolder (hfolders k' trivial hfolder ?_)
      exact (Path.key_below_lt_iff (FileTree.isName_of_get? hfolder.folder)
        (FileTree.isName_of_get? hk.folder)).mp hless

/-- In a folder, discovery finds what a walk by name finds, or stops where the walk does; what is no
folder has no files. -/
theorem discover_exact (t : FileTree) (root : Path) (extension : Text) :
    t.isFolder root = false ∧
        (discover root extension : StateM FileTree _).run t = (.ok [], t) ∨
      ∃ l r, t.find root = .ok l ∧ t.get? l = some .folder ∧
        (discover root extension : StateM FileTree _).run t = (r, t) ∧
        Discovers t root l (Utf8.encode extension) r := by
  have hask : (Disk.isFolder root : StateM FileTree Bool).run t = (t.isFolder root, t) := rfl
  rw [discover, run_bind hask]
  cases hfolder : t.isFolder root with
  | false => exact .inl ⟨rfl, rfl⟩
  | true =>
    rw [FileTree.isFolder] at hfolder
    cases hp : t.find root with
    | error c => simp [hp] at hfolder
    | ok l =>
      have hl : t.get? l = some .folder := by simpa [hp] using hfolder
      obtain ⟨-, hbytes, -⟩ :=
        FileTree.refused?_eq_none_iff.mp (FileTree.spot_eq_ok (FileTree.find_eq_ok_iff.mp hp)).1
      have hroom : FileTree.pathLimit + 1 < FileTree.pathLimit + 1 + root.bytes.length :=
        Nat.lt_add_of_pos_right (List.length_pos_iff.mpr hbytes)
      obtain ⟨r, hrun, hr⟩ :=
        exists_run_filesBelow (Utf8.encode extension) hroom (Nat.succ_pos _) (.inl hp) hl
      exact .inr ⟨l, r, rfl, hl, hrun, hr.discovers hp⟩

/-- Discovery as it would be if every folder could be opened and no name that starts with a point
were a visible one. -/
def Listed (t : FileTree) (root : Path) (extension : Text) : Prop :=
  ∀ l, t.find root = .ok l → t.get? l = some .folder →
    ∃ paths, (discover root extension : StateM FileTree _).run t = (.ok paths, t) ∧
      ∀ p, p ∈ paths ↔ ∃ names content, p = root.below names ∧ names ≠ [] ∧
        t.Leads l names (.file content) ∧ (∀ n ∈ names, n.head? ≠ some 0x2E) ∧
        names.getLast?.bind Path.extension? = some (Utf8.encode extension)

def deepTree : FileTree where
  entries := [(["w"], .folder), (["w", "api"], .folder),
    (["w", "api", List.replicate 200 0x62], .folder),
    (["w", "api", List.replicate 200 0x62, "a.ts"], .file [])]
  here := ["w"]
  nodup := by decide +kernel
  placed := by decide +kernel
  here_folder := by decide

def deepRoot : Path := ⟨(List.replicate 1950 [0x2E, 0x2F]).flatten ++ Utf8.encode "api".toList⟩

def strayName : Name := [0x2E, 0xFF, 0x2E, 0x74, 0x73]

def strayTree : FileTree where
  entries := [(["w"], .folder), (["w", "api"], .folder), (["w", "api", strayName], .file [])]
  here := ["w"]
  nodup := by decide
  placed := by decide
  here_folder := by decide

theorem not_listed_deep_stray :
    ¬ Listed deepTree deepRoot "ts".toList ∧ ¬ Listed strayTree (.ofString "api") "ts".toList := by
  constructor
  · intro h
    have hfind : deepTree.find deepRoot = .ok ["w", "api"] := by decide +kernel
    have hstopped : ((discover deepRoot "ts".toList : StateM FileTree _).run deepTree).1.toOption =
        none := by decide +kernel
    obtain ⟨paths, hpaths, -⟩ := h _ hfind (by decide +kernel)
    rw [hpaths] at hstopped
    cases hstopped
  · intro h
    have hfind : strayTree.find (.ofString "api") = .ok ["w", "api"] := by decide +kernel
    have hfound : ((discover (.ofString "api") "ts".toList : StateM FileTree _).run
        strayTree).1.toOption = some [(Path.ofString "api").join ⟨strayName⟩] := by decide +kernel
    obtain ⟨paths, hpaths, hmem⟩ := h _ hfind (by decide +kernel)
    rw [hpaths] at hfound
    obtain rfl := Option.some.inj hfound
    obtain ⟨names, content, -, hne, hleads, hvisible, -⟩ := (hmem _).mp List.mem_cons_self
    have hentry := FileTree.mem_entries_of_get? (by simp) (FileTree.leads_iff.mp hleads)
    obtain ⟨rfl, -⟩ : names = [strayName] ∧ content = [] := by simpa [strayTree, hne] using hentry
    exact hvisible strayName List.mem_cons_self rfl

end Target

end CallStrip

import CallStrip.Proofs.Toml.Statements
import CallStrip.Settings.Document

/-!
Settings survive their document: what is written is read as it was, and where lines or whole
sections are left out the initial settings stand in for exactly those.
-/

namespace CallStrip

open Toml (Item Entries Assignment Statement Spells Writes Plain IsKey)

def Key.section : Key → Section
  | .target | .guards => .markers
  | .rule | .files | .discoverRoot | .discoverExtension => .strip

theorem Section.section_of_mem {t : Section} {k : Key} (h : k ∈ t.keys) : k.section = t := by
  revert h
  cases t <;> cases k <;> decide

theorem Section.nodup_keys (t : Section) : t.keys.Nodup := by cases t <;> decide

theorem Key.field_injective : Function.Injective Key.field := by
  intro k k'
  cases k <;> cases k' <;> decide

theorem Key.isKey_field (k : Key) : IsKey k.field := by cases k <;> decide

theorem Section.isKey_name (t : Section) : IsKey t.name := by cases t <;> decide

theorem Section.name_injective : Function.Injective Section.name := by
  intro t t'
  cases t <;> cases t' <;> decide

namespace Toml

variable {α : Type} {f : α → Text} {g : α → Item} {l : List α} {b : α}

theorem lookup_map (hf : Function.Injective f) (hb : b ∈ l) :
    (l.map fun a => (f a, g a)).lookup (f b) = some (g b) := by
  induction l with
  | nil => exact absurd hb List.not_mem_nil
  | cons a l ih =>
    rw [List.map_cons, List.lookup_cons]
    by_cases hab : b = a
    · subst hab
      rw [beq_self_eq_true]
    · rw [beq_eq_false_iff_ne.mpr fun he => hab (hf he)]
      exact ih ((List.mem_cons.mp hb).resolve_left hab)

theorem lookup_map_filter (hf : Function.Injective f) (p : α → Bool) (hb : b ∈ l) :
    ((l.filter p).map fun a => (f a, g a)).lookup (f b) = if p b then some (g b) else none := by
  cases hp : p b with
  | true => exact lookup_map hf (List.mem_filter.mpr ⟨hb, hp⟩)
  | false =>
    refine lookup_of_not_mem fun hmem => ?_
    rw [List.map_map] at hmem
    obtain ⟨a, ha, hab⟩ := List.mem_map.mp hmem
    obtain rfl := hf hab
    exact absurd (List.mem_filter.mp ha).2 (hp ▸ Bool.false_ne_true)

end Toml

namespace Settings

variable {s : Settings}

/-- A document of settings with some of its sections, and in them the lines of some keys. -/
def renderPart (s : Settings) (sections : Section → Bool) (keys : Key → Bool) : Text :=
  writeLine versionField (Toml.quote s.version) ++
    (Section.all.filter sections).flatMap fun t =>
      "\n[".toList ++ t.name ++ "]\n".toList ++
        (t.keys.filter keys).flatMap fun k => writeLine k.field (s.writeKey k)

theorem renderPart_true (s : Settings) :
    s.renderPart (fun _ => true) (fun _ => true) = s.render := by
  have hall {α : Type} (l : List α) : l.filter (fun _ => true) = l :=
    List.filter_eq_self.mpr fun _ _ => rfl
  simp only [renderPart, hall]
  rfl

/-- The initial settings with some settings in their places. -/
def overInitial (s : Settings) (kept : Key → Bool) : Settings where
  version := s.version
  target := if kept .target then s.target else initial.target
  guards := if kept .guards then s.guards else initial.guards
  rule := if kept .rule then s.rule else initial.rule
  files := if kept .files then s.files else initial.files
  discoverRoot := if kept .discoverRoot then s.discoverRoot else initial.discoverRoot
  discoverExtension :=
    if kept .discoverExtension then s.discoverExtension else initial.discoverExtension

def item (s : Settings) : Key → Item
  | .guards => .list (s.guards.map .text)
  | .files => .list (s.files.map .text)
  | k => .text (s.get k)

theorem spells_writeKey (s : Settings) (k : Key) : Spells (s.item k) (s.writeKey k) := by
  cases k with
  | guards => exact Toml.spells_writeList s.guards
  | files => exact Toml.spells_writeList s.files
  | _ => exact Toml.spells_quote _

theorem texts?_list (ts : List Text) : (Item.list (ts.map .text)).texts? = some ts := by
  rw [Item.texts?]
  induction ts with
  | nil => rfl
  | cons t ts ih => rw [List.map_cons, List.mapM_cons, ih]; rfl

def adopt (src : Settings) (kept : Key → Bool) (s : Settings) : Key → Settings
  | .target => { s with target := if kept .target then src.target else s.target }
  | .guards => { s with guards := if kept .guards then src.guards else s.guards }
  | .rule => { s with rule := if kept .rule then src.rule else s.rule }
  | .files => { s with files := if kept .files then src.files else s.files }
  | .discoverRoot =>
    { s with discoverRoot := if kept .discoverRoot then src.discoverRoot else s.discoverRoot }
  | .discoverExtension =>
    { s with
      discoverExtension :=
        if kept .discoverExtension then src.discoverExtension else s.discoverExtension }

variable {src : Settings} {kept : Key → Bool} {k : Key}

theorem take?_item (h : kept k = true) : s.take? k (src.item k) = some (src.adopt kept s k) := by
  cases k with
  | guards | files => simp only [take?, item, texts?_list, adopt, h]; rfl
  | rule => simp only [take?, item, get, Item.rule?, ClosingRule.ofName?_name, adopt, h]; rfl
  | _ => simp only [take?, item, adopt, h]; rfl

theorem adopt_of_not_kept (h : kept k = false) : src.adopt kept s k = s := by
  cases k <;> simp [adopt, h]

def assignment (s : Settings) (k : Key) : Assignment := ⟨[], k.field, s.item k⟩

def tables (s : Settings) (sections : Section → Bool) (keys : Key → Bool) :
    List (Text × List Assignment) :=
  (Section.all.filter sections).map fun t => (t.name, (t.keys.filter keys).map s.assignment)

theorem writes_line (s : Settings) (k : Key) :
    Writes [.assign (s.assignment k)] (writeLine k.field (s.writeKey k)) :=
  Toml.writes_assignment k.isKey_field (s.spells_writeKey k)

theorem writes_renderPart (s : Settings) (sections : Section → Bool) (keys : Key → Bool) :
    Writes ([⟨[], versionField, .text s.version⟩].map .assign ++
      (s.tables sections keys).flatMap Toml.tableStatements) (s.renderPart sections keys) := by
  have hversion : Writes [.assign ⟨[], versionField, .text s.version⟩]
      (writeLine versionField (Toml.quote s.version)) :=
    Toml.writes_assignment (by decide) (Toml.spells_quote s.version)
  have hlines (t : Section) :
      Writes (((t.keys.filter keys).map s.assignment).map .assign)
        ((t.keys.filter keys).flatMap fun k => writeLine k.field (s.writeKey k)) := by
    rw [List.map_map, List.map_eq_flatMap]
    exact .flatMap fun k _ => s.writes_line k
  rw [tables, List.flatMap_map]
  exact hversion.append (.flatMap fun t _ => (Toml.writes_header t.isKey_name).append (hlines t))

theorem plain_assignments {ks : List Key} (h : ks.Nodup) : Plain (ks.map s.assignment) := by
  refine ⟨?_, ?_⟩
  · intro a ha
    obtain ⟨k, -, rfl⟩ := List.mem_map.mp ha
    rfl
  · rw [List.map_map]
    exact List.pairwise_map.mpr (h.imp fun hne he => hne (Key.field_injective he))

theorem nodup_names (sections : Section → Bool) :
    (versionField :: (Section.all.filter sections).map Section.name).Nodup := by
  have hall : (versionField :: Section.all.map Section.name).Nodup := by decide
  exact hall.sublist (.cons_cons _ (List.filter_sublist.map _))

theorem head?_renderPart (s : Settings) (sections : Section → Bool) (keys : Key → Bool) :
    (s.renderPart sections keys).head? = some 'v' := rfl

theorem parse_renderPart (s : Settings) (sections : Section → Bool) (keys : Key → Bool) :
    Toml.parse (s.renderPart sections keys) =
      some ((versionField, .text s.version) :: (s.tables sections keys).map Toml.tableEntry) := by
  have hread := s.writes_renderPart sections keys Toml.statements_nil
  have hmark : (s.renderPart sections keys).head? ≠ some '\uFEFF' := by
    rw [head?_renderPart]
    decide
  rw [List.append_nil, List.append_nil] at hread
  rw [Toml.parse, if_neg hmark, hread]
  refine Toml.build_tables (by simp) ?_ ?_
  · intro b hb
    obtain ⟨t, -, rfl⟩ := List.mem_map.mp hb
    exact plain_assignments (t.nodup_keys.filter keys)
  · rw [tables, List.map_map]
    exact nodup_names sections

theorem overlay_eq {doc es : Entries} {t : Section} (hes : t.entries? doc = some es)
    (hlookup : ∀ k ∈ t.keys, es.lookup k.field = if kept k then some (src.item k) else none) :
    s.overlay doc t = some (t.keys.foldl (src.adopt kept) s) := by
  rw [overlay, hes]
  dsimp only [Option.bind_eq_bind, Option.bind_some]
  generalize t.keys = ks at hlookup
  induction ks generalizing s with
  | nil => rfl
  | cons k ks ih =>
    obtain ⟨hk, hks⟩ := List.forall_mem_cons.mp hlookup
    rw [List.foldlM_cons, hk]
    cases hkept : kept k with
    | true =>
      rw [if_pos rfl]
      dsimp only
      rw [take?_item hkept]
      exact ih hks
    | false =>
      rw [if_neg Bool.false_ne_true]
      dsimp only
      rw [Option.bind_eq_bind, Option.bind_some, ih hks, List.foldl_cons, adopt_of_not_kept hkept]

def fields (s : Settings) (keys : Key → Bool) (t : Section) : Entries :=
  (t.keys.filter keys).map fun k => (k.field, s.item k)

theorem tableEntry_tables (s : Settings) (sections : Section → Bool) (keys : Key → Bool) :
    (s.tables sections keys).map Toml.tableEntry =
      (Section.all.filter sections).map fun t => (t.name, .table .headed (s.fields keys t)) := by
  have hentry (t : Section) :
      Toml.tableEntry (t.name, (t.keys.filter keys).map s.assignment) =
        (t.name, .table .headed (s.fields keys t)) := by
    rw [Toml.tableEntry, fields, List.map_map]
    rfl
  rw [tables, List.map_map]
  exact List.map_congr_left fun t _ => hentry t

theorem lookup_section (s : Settings) (version : Item) (sections : Section → Bool)
    (keys : Key → Bool) (t : Section) :
    ((versionField, version) :: (s.tables sections keys).map Toml.tableEntry).lookup t.name =
      if sections t then some (.table .headed (s.fields keys t)) else none := by
  have hversion : (t.name == versionField) = false := by cases t <;> decide
  have hall : t ∈ Section.all := by cases t <;> decide
  rw [List.lookup_cons, hversion, tableEntry_tables]
  exact Toml.lookup_map_filter Section.name_injective sections hall

theorem overlay_renderPart (sections : Section → Bool) (keys : Key → Bool) (version : Item)
    (t : Section) :
    s.overlay ((versionField, version) :: (src.tables sections keys).map Toml.tableEntry) t =
      some (t.keys.foldl (src.adopt fun k => sections k.section && keys k) s) := by
  have hlookup := lookup_section src version sections keys t
  cases hsection : sections t with
  | true =>
    have hentries : t.entries? ((versionField, version) ::
        (src.tables sections keys).map Toml.tableEntry) = some (src.fields keys t) := by
      rw [Section.entries?, hlookup, hsection]
      rfl
    refine overlay_eq hentries fun k hk => ?_
    rw [Section.section_of_mem hk, hsection, Bool.true_and]
    exact Toml.lookup_map_filter Key.field_injective keys hk
  | false =>
    have hentries : t.entries? ((versionField, version) ::
        (src.tables sections keys).map Toml.tableEntry) = some [] := by
      rw [Section.entries?, hlookup, hsection]
      rfl
    refine overlay_eq hentries fun k hk => ?_
    rw [Section.section_of_mem hk, hsection]
    rfl

theorem parse?_renderPart (s : Settings) (sections : Section → Bool) (keys : Key → Bool) :
    parse? (s.renderPart sections keys) =
      some (s.overInitial fun k => sections k.section && keys k) := by
  have hversion : ((versionField, Item.text s.version) ::
      (s.tables sections keys).map Toml.tableEntry).lookup versionField =
        some (.text s.version) := by
    rw [List.lookup_cons, beq_self_eq_true]
  rw [parse?, parse_renderPart, Option.bind_eq_bind, Option.bind_some, ofEntries?, hversion]
  simp only [Item.text?, Section.all, List.foldlM_cons, List.foldlM_nil, Option.bind_eq_bind,
    Option.bind_some, overlay_renderPart]
  rfl

theorem parse?_render (s : Settings) : parse? s.render = some s := by
  have hread := s.parse?_renderPart (fun _ => true) fun _ => true
  rwa [renderPart_true] at hread

end Settings

end CallStrip

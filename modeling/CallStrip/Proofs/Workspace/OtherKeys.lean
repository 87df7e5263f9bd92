import CallStrip.Proofs.Json.Likeness
import CallStrip.Proofs.Workspace.Cut
import CallStrip.Proofs.Workspace.Shape

/-!
Members with keys that no part of a workspace has. They may stand in any object of a document that
is read as such a part, as many as there are, before, between and behind its own members and with
any values: the summary is the same without them.
-/

namespace CallStrip

open Json Json.Reader
open Reading (bind_eq_ok bind_ok)

namespace Json

variable {α β σ : Type} {R : Bytes → Bytes → Prop} {p : Reader α}

theorem Follows.bind_pure (h : Follows R p) (g : α → β) :
    Follows R (p >>= fun v => pure (g v)) where
  inked := h.inked
  trims s := bind_pure_dropWhile (h.trims s) g
  same := by
    intro v v' e e' x r hv he he' hx
    obtain ⟨y, m, hy, hpure⟩ := bind_eq_ok hx
    cases hpure
    obtain ⟨rfl, hy'⟩ := h.same hv he he' hy
    exact ⟨rfl, bind_ok hy'⟩
  taken := by
    intro u x r hx
    obtain ⟨y, m, hy, hpure⟩ := bind_eq_ok hx
    cases hpure
    exact h.taken hy

theorem Field.follows_one {key : String} {get : σ → Option β} {set : β → σ → σ}
    {read : Nat → Reader β} {h : ∀ d, Shrinks (read d)} {required : Bool}
    (hread : ∀ d, Follows R (read d)) (d : Nat) (a : σ) :
    Follows R ((Field.one key get set read h required).read d a) :=
  (hread d).bind_pure fun v => set v a

end Json

namespace Division

def TextsAlike : Bytes → Bytes → Prop := RecordsAlike keys fun _ => ListsAlike SameValue

theorem follows_read (d : Nat) : Follows TextsAlike (record.read d) :=
  Record.follows_read (l := record) (List.forall_mem_singleton.mpr <| Field.follows_one fun d =>
    follows_typedList (follows_value _) (shrinks_value _) d) d

end Division

namespace MissionGroup

def ValuesAlike (k : Text) : Bytes → Bytes → Prop :=
  if k = "divisions".toList then ListsAlike Division.TextsAlike else SameValue

def TextsAlike : Bytes → Bytes → Prop := RecordsAlike keys ValuesAlike

theorem follows_read (d : Nat) : Follows TextsAlike (record.read d) :=
  Record.follows_read (l := record) (List.forall_mem_cons.mpr ⟨Field.follows_one follows_value,
    List.forall_mem_singleton.mpr <| Field.follows_one fun d =>
      follows_typedList (Division.follows_read _) (Division.record.shrinks_read _) d⟩) d

end MissionGroup

namespace Workspace

def ValuesAlike (k : Text) : Bytes → Bytes → Prop :=
  if k = "hierarchical".toList then ListsAlike MissionGroup.TextsAlike else SameValue

def TextsAlike : Bytes → Bytes → Prop := RecordsAlike keys ValuesAlike

theorem follows_read (d : Nat) : Follows TextsAlike (record.read d) :=
  Record.follows_read (l := record) (List.forall_mem_cons.mpr ⟨Field.follows_one follows_value,
    List.forall_mem_cons.mpr ⟨Field.follows_one follows_value,
      List.forall_mem_singleton.mpr <| Field.follows_one fun d =>
        follows_typedList (MissionGroup.follows_read _) (MissionGroup.record.shrinks_read _) d⟩⟩) d

def WrappedAlike (key : String) (R : Bytes → Bytes → Prop) : Bytes → Bytes → Prop :=
  RecordsAlike [key.toList] fun _ => R

theorem follows_wrapped (name key : String) {σ : Type} {inner : Record σ Workspace}
    {R : Bytes → Bytes → Prop} (h : ∀ d, Follows R (inner.read d)) (d : Nat) :
    Follows (WrappedAlike key R) ((wrapped name key inner).read d) :=
  Record.follows_read (l := wrapped name key inner)
    (List.forall_mem_singleton.mpr <| Field.follows_one h) d

/-- Two documents that are the same but for blanks, for how keys are spelled, and for members with
keys that the part of the workspace they stand in does not have. -/
def DocumentsAlike (d d' : Bytes) : Prop :=
  ∃ v v' z z', d = v ++ z ∧ d' = v' ++ z' ∧ Blanks z ∧ Blanks z' ∧
    WrappedAlike "data" (WrappedAlike "workspace" TextsAlike) v v'

theorem follows_document (d : Nat) :
    Follows (WrappedAlike "data" (WrappedAlike "workspace" TextsAlike)) (document.read d) :=
  follows_wrapped _ _ (follows_wrapped _ _ follows_read) d

theorem read_alike {d d' : Bytes} {w : Workspace} (h : DocumentsAlike d d') (hw : read d = .ok w) :
    read d' = .ok w := by
  obtain ⟨v, v', z, z', rfl, rfl, hz, hz', hv⟩ := h
  obtain ⟨r, x, hread, -⟩ := whole_eq_ok hw
  obtain ⟨-, hread'⟩ :=
    (follows_document depthLimit).same hv (ends_of_blanks hz) (ends_of_blanks hz') hread
  obtain ⟨y, hy⟩ := finish_eq_ok_iff.mpr hz'
  exact whole_ok hread' hy

theorem alike_of_read {d : Bytes} {w : Workspace} (hw : read d = .ok w) : DocumentsAlike d d := by
  obtain ⟨r, x, hread, hfinish⟩ := whole_eq_ok hw
  obtain ⟨v, rfl, hv⟩ := (follows_document depthLimit).taken hread
  have hr := finish_eq_ok_iff.mp ⟨x, hfinish⟩
  exact ⟨v, v, r, r, rfl, rfl, hr, hr, hv⟩

end Workspace

namespace Summary

open Workspace (DocumentsAlike)

/-- An accepted document is made of records throughout, and each one that differs from it in members
with other keys is accepted with its summary and reported as it is. -/
theorem ofDocument_otherKeys (d : Bytes) (s : Summary) (h : ofDocument d = .ok s) :
    DocumentsAlike d d ∧ ∀ d', DocumentsAlike d d' → ofDocument d' = .ok s ∧ ∀ t : FileTree,
      (Program.summarize (pure d') : StateM FileTree Transcript).run t =
        (Program.summarize (pure d) : StateM FileTree Transcript).run t ∧
      (Program.summarize (pure d') : StateM FileTree Transcript).run t = (.done s.report, t) := by
  obtain ⟨w, hw, rfl⟩ := ofDocument_eq_ok_iff.mp h
  refine ⟨Workspace.alike_of_read hw, fun d' hd => ?_⟩
  have h' : ofDocument d' = .ok w.summary :=
    ofDocument_eq_ok_iff.mpr ⟨w, Workspace.read_alike hd hw, rfl⟩
  refine ⟨h', fun t => ⟨?_, run_summarize_ok h' t⟩⟩
  rw [run_summarize_ok h', run_summarize_ok h]

def innerData : Bytes := Utf8.encode
  "\x7b\"workspace\":\x7b\"viewType\":1,\"userRole\":null\x7d\x7d".toList

def bare : Bytes := Utf8.encode "\x7b\"data\":".toList ++ (innerData ++ Utf8.encode "\x7d".toList)

/-- The same with a member before `data`, whose value holds a number that is too large for any
number of a value and half of a pair of surrogates. -/
def extended : Bytes :=
  Utf8.encode "\x7b\"x\":[1e999,\x7b\"a\":\"\\ud800\"\x7d],\"data\":".toList ++
    (innerData ++ Utf8.encode "\x7d".toList)

def bareSummary : Summary where
  viewType := "1".toList
  userRole := "None".toList
  groupCount := 0
  departmentCount := 0
  leading := []

theorem fits_extra :
    Fits .value (Utf8.encode "[1e999,\x7b\"a\":\"\\ud800\"\x7d]".toList) := by
  have hnumber : Fits .value ([] ++ [0x31, 0x65, 0x39, 0x39, 0x39]) :=
    .scalar blanks_nil (.number (.inl rfl) (.inr ⟨digits_cons rfl (List.forall_mem_nil _), by simp⟩)
      (.inl rfl) (.inr ⟨0x65, [], [0x39, 0x39, 0x39], rfl, .inl rfl,
        digits_cons rfl (by simp; rfl), rfl⟩))
  have htext : Fits .value ([] ++ [0x22, 0x5C, 0x75, 0x64, 0x38, 0x30, 0x30, 0x22]) :=
    .scalar blanks_nil (.text (.hex rfl .nil))
  have hkey : Lead .object ([] ++ 0x22 :: ([0x61] ++ 0x22 :: ([] ++ [0x3A]))) :=
    .key blanks_nil (.plain (by decide) (by decide) (by decide) .nil) blanks_nil
  have hobject := Fits.full (k := .object) blanks_nil (.last hkey htext blanks_nil)
  exact Fits.full (k := .list) blanks_nil
    (.more .item hnumber blanks_nil (.last .item hobject blanks_nil))

theorem innerData_alike :
    Workspace.WrappedAlike "workspace" Workspace.TextsAlike innerData innerData := by
  have hrest : ((Workspace.wrapped "Data" "workspace" Workspace.record).read 2 innerData).map
      Prod.snd = .ok [] := ok_of_toOption (by decide +kernel)
  cases hread : (Workspace.wrapped "Data" "workspace" Workspace.record).read 2 innerData with
  | error f => rw [hread] at hrest; cases hrest
  | ok x =>
    rw [hread] at hrest
    obtain ⟨v, hv, halike⟩ :=
      (Workspace.follows_wrapped _ _ Workspace.follows_read 2).taken hread
    rw [Except.ok.inj hrest, List.append_nil] at hv
    rwa [hv]

theorem bare_alike : DocumentsAlike bare extended := by
  have hdata : Spells [0x64, 0x61, 0x74, 0x61] (Utf8.encode "data".toList) :=
    .plain (by decide) (by decide) (by decide) <| .plain (by decide) (by decide) (by decide) <|
      .plain (by decide) (by decide) (by decide) <| .plain (by decide) (by decide) (by decide) .nil
  have hx : Spells [0x78] (Utf8.encode "x".toList) :=
    .plain (by decide) (by decide) (by decide) .nil
  have hclose : MembersAlike ["data".toList]
      (fun _ => Workspace.WrappedAlike "workspace" Workspace.TextsAlike) false false
      ([] ++ [0x7D]) ([] ++ [0x7D]) := .close blanks_nil blanks_nil
  have hfield := MembersAlike.field (List.mem_singleton_self _)
    ⟨[], _, [], .first blanks_nil, hdata, blanks_nil, rfl⟩
    ⟨_, _, [], .later blanks_nil blanks_nil, hdata, blanks_nil, rfl⟩ innerData_alike hclose
  have hmember := MembersAlike.right (k := "x".toList) (by decide)
    ⟨[], _, [], .first blanks_nil, hx, blanks_nil, rfl⟩ fits_extra hfield
  have hobject := RecordsAlike.object blanks_nil blanks_nil hmember
  exact ⟨bare, extended, [], [], (List.append_nil _).symm, (List.append_nil _).symm, blanks_nil,
    blanks_nil, hobject⟩

theorem ofDocument_otherKeys_extended :
    ofDocument bare = .ok bareSummary ∧ DocumentsAlike bare extended ∧
      ofDocument extended = .ok bareSummary := by
  have h : ofDocument bare = .ok bareSummary := ok_of_toOption (by decide +kernel)
  exact ⟨h, bare_alike, ((ofDocument_otherKeys bare _ h).2 extended bare_alike).1⟩

end Summary

end CallStrip

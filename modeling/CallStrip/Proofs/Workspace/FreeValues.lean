import CallStrip.Proofs.Workspace.Places

/-!
What a report shows of the free values. The plain text of a number, a list or an object may stand in
the document in place of however it was spelled: the value is the same, the report too, and no other
such value is reported with that text.
-/

namespace CallStrip

open Json Json.Reader

namespace Workspace

variable {document : Bytes} {w : Workspace} {p : FreePlace} {v v' : Value} {t : Text}

theorem read_place (hw : read document = .ok w) (hv : w.at? p = some v) :
    ∃ front text back, document = front ++ (text ++ back) ∧ Denotes p.room text v ∧
      ∀ text' v', Denotes p.room text' v' →
        read (front ++ (text' ++ back)) = .ok (w.withValue v' p) := by
  obtain ⟨r, u, hread, hfinish⟩ := whole_eq_ok hw
  obtain ⟨front, text, back, rfl, htext, hset⟩ := holds_place p hread hv
  have hblanks : Blanks r := finish_eq_ok_iff.mp ⟨u, hfinish⟩
  refine ⟨front, text, back ++ r, rfl, denotes_of_reads htext, fun text' v' h => ?_⟩
  have hread' := hset text' v' h.reads r (ends_of_blanks hblanks)
  simp only [List.append_assoc] at hread'
  exact whole_ok hread' hfinish

theorem at?_withValue (hv : w.at? p = some v) (v' : Value) : (w.withValue v' p).at? p = some v' := by
  cases p with
  | viewType => rfl
  | userRole => rfl
  | groupName i =>
    obtain ⟨g, hg, -⟩ := Option.map_eq_some_iff.mp hv
    rw [List.getElem?_take] at hg
    rw [at?, withValue, List.getElem?_take, List.getElem?_modify]
    split at hg
    · next hlt => rw [if_pos hlt, hg, Option.map_eq_map, Option.map_some, if_pos rfl]; rfl
    · cases hg

def FreePlace.label : FreePlace → Text
  | .viewType => "View Type: ".toList
  | .userRole => "User Role: ".toList
  | .groupName _ => "  - ".toList

end Workspace

namespace Summary

open Workspace (FreePlace)

variable {document : Bytes} {w : Workspace} {p : FreePlace} {v : Value} {t : Text} {s : Summary}

def shown? (s : Summary) : FreePlace → Option Text
  | .viewType => some s.viewType
  | .userRole => some s.userRole
  | .groupName i => s.leading[i]?.map Prod.fst

theorem shown?_summary (w : Workspace) (p : FreePlace) :
    w.summary.shown? p = (w.at? p).map Value.plain := by
  cases p with
  | viewType => rfl
  | userRole => rfl
  | groupName i =>
    rw [shown?, Workspace.summary, Workspace.at?]
    dsimp only
    rw [List.getElem?_map, Option.map_map, Option.map_map]
    rfl

theorem report_eq (s : Summary) : ∃ behind, s.report =
    "View Type: ".toList ++ s.viewType ++
      (['\n'] ++ ("User Role: ".toList ++ s.userRole ++ behind)) := by
  unfold report
  simp only [List.append_assoc]
  exact ⟨_, Eq.refl _⟩

theorem infix_report (h : s.shown? p = some t) : p.label ++ t <:+: s.report := by
  obtain ⟨behind, hreport⟩ := s.report_eq
  cases p with
  | viewType =>
    cases h
    rw [hreport]
    exact (List.prefix_append _ _).isInfix
  | userRole =>
    cases h
    rw [hreport, ← List.append_assoc, ← List.append_assoc]
    exact List.infix_append _ _ behind
  | groupName i =>
    obtain ⟨g, hg, rfl⟩ := Option.map_eq_some_iff.mp h
    obtain ⟨before, after, hsplit⟩ := List.append_of_mem (List.mem_of_getElem? hg)
    have hline : "  - ".toList ++ g.1 <:+: groupLine g := by
      have hnumber := (List.prefix_append ("  - ".toList ++ g.1) " (".toList).trans
        (List.prefix_append _ (Text.ofNat g.2))
      exact (hnumber.trans (List.prefix_append _ " divisions)\n".toList)).isInfix
    have hlines : groupLine g <:+: s.leading.flatMap groupLine := by
      rw [hsplit, List.flatMap_append, List.flatMap_cons, ← List.append_assoc]
      exact List.infix_append _ _ _
    exact (hline.trans hlines).trans (List.suffix_append _ _).isInfix

/-- A document is accepted, and its report shows a value somewhere as its plain text. -/
structure Reports (document : Bytes) (w : Workspace) (p : FreePlace) (v : Value) : Prop where
  read : Workspace.read document = .ok w
  value : w.at? p = some v
  shown : w.summary.shown? p = some v.plain
  line : p.label ++ v.plain <:+: w.summary.report
  run : ∀ t : FileTree, (Program.summarize (pure document) : StateM FileTree Transcript).run t =
    (.done w.summary.report, t)

theorem reports_of_read (hw : Workspace.read document = .ok w) (hv : w.at? p = some v) :
    Reports document w p v := by
  have hshown : w.summary.shown? p = some v.plain := by rw [shown?_summary, hv, Option.map_some]
  exact ⟨hw, hv, hshown, infix_report hshown,
    run_summarize_ok (ofDocument_eq_ok_iff.mpr ⟨w, hw, rfl⟩)⟩

/-- A free value is reported as its plain text, in whatever spelling it stands in its place. If it is
a number, a list or an object without rounded numbers, its plain text denotes it again, is accepted
in its place and reported as the same text, which no other such value has. -/
theorem reports_place (document : Bytes) (w : Workspace) (p : FreePlace) (v : Value)
    (hw : Workspace.read document = .ok w) (hv : w.at? p = some v) :
    Reports document w p v ∧
    ∃ front text back, document = front ++ (text ++ back) ∧ Denotes p.room text v ∧
      ∀ text' v', Denotes p.room text' v' →
        Reports (front ++ (text' ++ back)) (w.withValue v' p) p v' ∧
        (v'.Exact → v'.Formal →
          Denotes p.room (Utf8.encode v'.plain) v' ∧
          Reports (front ++ (Utf8.encode v'.plain ++ back)) (w.withValue v' p) p v' ∧
          ∀ room text'' v'', Denotes room text'' v'' → v''.Exact → v''.Formal →
            v''.plain = v'.plain → v'' = v') := by
  obtain ⟨front, text, back, hsplit, htext, hset⟩ := Workspace.read_place hw hv
  have hreports (text' : Bytes) (v' : Value) (h : Denotes p.room text' v') :
      Reports (front ++ (text' ++ back)) (w.withValue v' p) p v' :=
    reports_of_read (hset text' v' h) (Workspace.at?_withValue hv v')
  refine ⟨reports_of_read hw hv, front, text, back, hsplit, htext, fun text' v' h => ?_⟩
  refine ⟨hreports text' v' h, fun hexact hformal => ?_⟩
  have hplain : Denotes p.room (Utf8.encode v'.plain) v' := by
    rw [hformal.plain_eq]
    exact h.render hexact
  refine ⟨hplain, hreports _ v' hplain, fun room text'' v'' h'' hexact'' hformal'' heq => ?_⟩
  exact h''.eq_of_plain h hexact'' hexact hformal'' hformal heq

def oneGroup : Bytes := Utf8.encode <|
  "\x7b\"data\":[\x7b\"userRole\":null,\"viewType\":\"grid\",".toList ++
    "\"hierarchical\":[\x7b\"divisions\":[],\"name\":7\x7d]\x7d]\x7d".toList

def oneGroupSummary : Summary where
  viewType := "grid".toList
  userRole := "None".toList
  groupCount := 1
  departmentCount := 0
  leading := [("7".toList, 0)]

def pairName : Value := .list [.scalar (.number (.whole (-2))), .scalar (.text "A".toList)]

def pairText : Bytes :=
  [0x5B, 0x20, 0x2D, 0x32, 0x2C, 0x22, 0x5C, 0x75, 0x30, 0x30, 0x34, 0x31, 0x22, 0x5D]

theorem denotes_pairText (d : Nat) : Denotes (d + 1) pairText pairName := by
  have htwo : Denotes d [0x2D, 0x32] (.scalar (.number (.whole (-2)))) :=
    denotes_scalar.mpr ⟨[], _, rfl, blanks_nil, @Means.negative [0x32]
      (.inr ⟨digits_cons rfl (List.forall_mem_nil _), by decide⟩) (by decide) (by decide)⟩
  have hspells : Spells [0x5C, 0x75, 0x30, 0x30, 0x34, 0x31] (Utf8.encode "A".toList) :=
    .hex (n := 0x41) rfl (by rintro ⟨h, -⟩; omega) (by rintro ⟨h, -⟩; omega) .nil
  have hletter : Denotes d _ (.scalar (.text "A".toList)) :=
    denotes_scalar.mpr ⟨[], _, rfl, blanks_nil, .text hspells⟩
  have hblank : Blanks [0x20] := List.forall_mem_singleton.mpr rfl
  have hitems := ItemsDenote.item (.first hblank) htwo
    (.item (.later (w := []) blanks_nil blanks_nil) hletter (.close blanks_nil))
  exact ⟨[], _, rfl, blanks_nil, hitems⟩

theorem reports_place_oneGroup : ∃ w v front text back,
    Workspace.read oneGroup = .ok w ∧ w.at? (.groupName 0) = some v ∧ v.plain = "7".toList ∧
      Reports oneGroup w (.groupName 0) v ∧ oneGroup = front ++ (text ++ back) ∧
      Denotes (FreePlace.groupName 0).room text v ∧
      Reports (front ++ (pairText ++ back)) (w.withValue pairName (.groupName 0)) (.groupName 0)
        pairName ∧
      Reports (front ++ (Utf8.encode "[-2,\"A\"]".toList ++ back))
        (w.withValue pairName (.groupName 0)) (.groupName 0) pairName := by
  have h : ofDocument oneGroup = .ok oneGroupSummary := ok_of_toOption (by decide +kernel)
  obtain ⟨w, hw, hsummary⟩ := ofDocument_eq_ok_iff.mp h
  have hshown : w.summary.shown? (.groupName 0) = some "7".toList := by rw [hsummary]; rfl
  rw [shown?_summary] at hshown
  obtain ⟨v, hv, hplain⟩ := Option.map_eq_some_iff.mp hshown
  obtain ⟨hreports, front, text, back, hsplit, htext, hset⟩ :=
    reports_place oneGroup w (.groupName 0) v hw hv
  obtain ⟨hpair, hagain⟩ := hset pairText pairName (denotes_pairText _)
  have hexact : pairName.Exact := by
    refine .list (List.forall_mem_cons.mpr ⟨.scalar ?_, List.forall_mem_singleton.mpr (.scalar ?_)⟩)
    · rintro _ ⟨⟩
      exact ⟨by decide, by decide⟩
    · rintro _ ⟨⟩
  have hrender : pairName.plain = "[-2,\"A\"]".toList := by decide +kernel
  obtain ⟨-, hreplaced, -⟩ := hagain hexact trivial
  rw [hrender] at hreplaced
  exact ⟨w, v, front, text, back, hw, hv, hplain, hreports, hsplit, htext, hpair, hreplaced⟩

end Summary

end CallStrip

import CallStrip.Proofs.Json.Closing
import CallStrip.Proofs.Workspace.Summary

/-!
Documents that were cut short, or that something was put behind. An accepted document ends with the
bracket that closes it and with blanks: with less it is rejected, and with more than further blanks
too.
-/

namespace CallStrip

open Json Json.Reader

namespace Json.Field

variable {σ β : Type} {P : Bytes → Prop} {key : String} {get : σ → Option β} {set : β → σ → σ}
  {read : Nat → Reader β} {h : ∀ d, Shrinks (read d)} {required : Bool}

theorem local_one (hread : ∀ d, Local P (read d)) (d : Nat) (a : σ) :
    Local P ((Field.one key get set read h required).read d a) :=
  (hread d).bind fun _ => local_pure _

end Json.Field

theorem Division.localFields : record.LocalFields :=
  List.forall_mem_singleton.mpr <| Field.local_one fun d =>
    (closed_typedList (local_value _) _ d).local

theorem MissionGroup.localFields : record.LocalFields :=
  List.forall_mem_cons.mpr ⟨Field.local_one local_value, List.forall_mem_singleton.mpr <|
    Field.local_one fun d =>
      (closed_typedList (Record.closed_read Division.localFields _).local _ d).local⟩

namespace Workspace

theorem localFields : record.LocalFields :=
  List.forall_mem_cons.mpr ⟨Field.local_one local_value, List.forall_mem_cons.mpr
    ⟨Field.local_one local_value, List.forall_mem_singleton.mpr <| Field.local_one fun d =>
      (closed_typedList (Record.closed_read MissionGroup.localFields _).local _ d).local⟩⟩

theorem localFields_wrapped (name key : String) {σ : Type} {inner : Record σ Workspace}
    (h : inner.LocalFields) : (wrapped name key inner).LocalFields :=
  List.forall_mem_singleton.mpr <| Field.local_one fun d => (inner.closed_read h d).local

theorem closed_document (depth : Nat) : Closed (document.read depth) :=
  Record.closed_read (localFields_wrapped "Envelope" "data"
    (localFields_wrapped "Data" "workspace" localFields)) depth

end Workspace

namespace Summary

variable {document : Bytes} {s : Summary}

def Rejects (document : Bytes) : Prop :=
  ∃ f, ofDocument document = .error f ∧ ∀ t : FileTree,
    (Program.summarize (pure document) : StateM FileTree Transcript).run t =
      (.failed [] (complaint f), t)

theorem rejects_of_forall_ne (h : ∀ s, ofDocument document ≠ .ok s) : Rejects document := by
  cases hd : ofDocument document with
  | error f => exact ⟨f, hd, run_summarize_error hd⟩
  | ok s => exact absurd hd (h s)

theorem ofDocument_eq_ok_iff :
    ofDocument document = .ok s ↔ ∃ w, Workspace.read document = .ok w ∧ w.summary = s := by
  rw [ofDocument]
  cases Workspace.read document with
  | error f =>
    refine iff_of_false (fun h => by cases h) ?_
    rintro ⟨w, hw, -⟩
    cases hw
  | ok w =>
    constructor
    · intro h
      exact ⟨w, rfl, Except.ok.inj h⟩
    · rintro ⟨w', hw, rfl⟩
      cases hw
      rfl

theorem blank_of_append {e : Bytes} {s' : Summary} (h : ofDocument document = .ok s)
    (he : ofDocument (document ++ e) = .ok s') : ∀ b ∈ e, isBlank b = true := by
  obtain ⟨w, hw, -⟩ := ofDocument_eq_ok_iff.mp h
  obtain ⟨w', hw', -⟩ := ofDocument_eq_ok_iff.mp he
  obtain ⟨body, b, z, rfl, -, -, hbehind⟩ := (Workspace.closed_document depthLimit).whole hw
  rw [List.append_assoc, List.cons_append] at hw'
  exact fun c hc => (hbehind (z ++ e)).2 w' hw' c (List.mem_append_right z hc)

theorem ofDocument_append_blank {e : Bytes} (h : ofDocument document = .ok s)
    (he : ∀ b ∈ e, isBlank b = true) : ofDocument (document ++ e) = .ok s := by
  obtain ⟨w, hw, hs⟩ := ofDocument_eq_ok_iff.mp h
  obtain ⟨body, b, z, rfl, -, hz, hbehind⟩ := (Workspace.closed_document depthLimit).whole hw
  have hread := (hbehind (z ++ e)).1 fun c hc => (List.mem_append.mp hc).elim (hz c) (he c)
  rw [List.append_assoc, List.cons_append]
  exact ofDocument_eq_ok_iff.mpr ⟨w, hread, hs⟩

theorem rejects_append {e : Bytes} (h : ofDocument document = .ok s)
    (he : ∃ b ∈ e, isBlank b = false) : Rejects (document ++ e) := by
  obtain ⟨b, hb, hink⟩ := he
  refine rejects_of_forall_ne fun s' hs' => ?_
  rw [blank_of_append h hs' b hb] at hink
  cases hink

theorem rejects_of_append {e : Bytes} (h : ofDocument (document ++ e) = .ok s)
    (he : ∃ b ∈ e, isBlank b = false) : Rejects document := by
  obtain ⟨b, hb, hink⟩ := he
  refine rejects_of_forall_ne fun s' hs' => ?_
  rw [blank_of_append hs' h b hb] at hink
  cases hink

/-- An accepted document goes on with blanks only, and is accepted with any. It is rejected if it is
cut at its last bracket or before, and with anything else behind it. -/
theorem ofDocument_cut (d : Bytes) (s : Summary) (h : ofDocument d = .ok s) :
    (∀ d' s', d <+: d' → ofDocument d' = .ok s' →
      ∃ z, d' = d ++ z ∧ (∀ b ∈ z, isBlank b = true) ∧ s' = s) ∧
    (∀ z, (∀ b ∈ z, isBlank b = true) → ofDocument (d ++ z) = .ok s) ∧
    (∀ e, (∃ b ∈ e, isBlank b = false) → Rejects (d ++ e)) ∧
    ∃ body b z, d = body ++ b :: z ∧ isClosing b = true ∧ (∀ c ∈ z, isBlank c = true) ∧
      ∀ c, c <+: body → Rejects c := by
  refine ⟨?_, fun z => ofDocument_append_blank h, fun e => rejects_append h, ?_⟩
  · rintro _ s' ⟨e, rfl⟩ hs'
    have hblank := blank_of_append h hs'
    refine ⟨e, rfl, hblank, ?_⟩
    rw [ofDocument_append_blank h hblank] at hs'
    exact (Except.ok.inj hs').symm
  · obtain ⟨w, hw, -⟩ := ofDocument_eq_ok_iff.mp h
    obtain ⟨body, b, z, rfl, hb, hz, -⟩ := (Workspace.closed_document depthLimit).whole hw
    refine ⟨body, b, z, rfl, hb, hz, ?_⟩
    rintro c ⟨e, rfl⟩
    have hink : isBlank b = false := by
      rcases (Bool.or_eq_true _ _).mp hb with hb | hb
      · rw [of_decide_eq_true hb]
        rfl
      · rw [of_decide_eq_true hb]
        rfl
    rw [List.append_assoc] at h
    exact rejects_of_append h ⟨b, by simp, hink⟩

theorem ok_of_toOption {ε α : Type} {x : Except ε α} {a : α} (h : x.toOption = some a) :
    x = .ok a := by
  cases x with
  | error e => cases h
  | ok b => exact congrArg _ (Option.some.inj h)

def withBlanks : Bytes := Utf8.encode
  "\x7b\"data\": \x7b\"workspace\": \x7b\"viewType\": 1, \"userRole\": null\x7d\x7d\x7d \n".toList

def withBlanksSummary : Summary where
  viewType := "1".toList
  userRole := "None".toList
  groupCount := 0
  departmentCount := 0
  leading := []

theorem ofDocument_cut_withBlanks :
    ofDocument withBlanks = .ok withBlanksSummary ∧
      ofDocument (withBlanks ++ [0x0D, 0x0A]) = .ok withBlanksSummary ∧
      Rejects (withBlanks ++ [0x20, 0x7D]) ∧
      ∃ body b z, withBlanks = body ++ b :: z ∧ isClosing b = true ∧ Rejects body := by
  have h : ofDocument withBlanks = .ok withBlanksSummary := ok_of_toOption (by decide +kernel)
  obtain ⟨-, hblanks, hink, body, b, z, hsplit, hb, -, hcut⟩ := ofDocument_cut withBlanks _ h
  exact ⟨h, hblanks _ (List.forall_mem_cons.mpr ⟨rfl, List.forall_mem_singleton.mpr rfl⟩),
    hink _ ⟨0x7D, by simp, rfl⟩, body, b, z, hsplit, hb, hcut body List.prefix_rfl⟩

end Summary

end CallStrip

import CallStrip.Program
import CallStrip.Proofs.Project.Visits
import CallStrip.SealedTree

/-!
What is advised where the system refuses a permission. A failure of the library brings its own
advice, whatever was being done. Checks and previews read files themselves, and a refusal they meet
is known by the first line of the complaint only, where the file is named and not the refusal.
-/

namespace CallStrip

theorem Text.occurs_append {a : Char} {front : Text} (ha : a ∉ front) (needle t : Text) :
    occurs (a :: needle) (front ++ t) = occurs (a :: needle) t := by
  induction front with
  | nil => rfl
  | cons b front ih =>
    obtain ⟨hb, hfront⟩ := List.ne_and_not_mem_of_not_mem_cons ha
    simp [occurs, List.isPrefixOf, hb, ih hfront]

def permissionHint : Text := "Check file permissions on the target files".toList

namespace Complaint

variable {c : Complaint} {notes : List Text} {origin : Origin}

def cause? (c : Complaint) : Option IoCause :=
  match c.origin with
  | .io cause => some cause
  | .failure (.io e) => some e.cause
  | _ => none

def Refused (c : Complaint) : Prop := c.cause?.map IoCause.kind = some .permissionDenied

instance (c : Complaint) : Decidable c.Refused := inferInstanceAs (Decidable (_ = _))

def OfLibrary (c : Complaint) : Prop := ∃ f, c.origin = .failure f

theorem exists_io_of_refused {f : Failure} (hc : Refused ⟨notes, .failure f⟩) :
    ∃ e : IoError, f = .io e ∧ e.kind = .permissionDenied := by
  cases f with
  | io e => exact ⟨e, rfl, Option.some.inj hc⟩
  | document | settings | markers => exact absurd hc (by simp [Refused, cause?])

theorem hint?_of_refused (hc : c.Refused) (hlib : c.OfLibrary) : c.hint? = some permissionHint := by
  obtain ⟨notes, origin⟩ := c
  obtain ⟨f, rfl⟩ := hlib
  obtain ⟨e, rfl, hkind⟩ := exists_io_of_refused hc
  exact if_pos hkind

theorem advice_of_refused (hc : c.Refused) (hlib : c.OfLibrary) :
    c.advice = .hint permissionHint := by
  rw [advice, hint?_of_refused hc hlib]

theorem advice_not_ofLibrary (hlib : ¬ c.OfLibrary) : c.advice =
    if Text.occurs "Permission denied".toList c.headline then .elevate else .verbose := by
  obtain ⟨notes, origin⟩ := c
  cases origin with
  | failure f => exact absurd ⟨f, rfl⟩ hlib
  | remark | io => rfl

theorem headline_unread (what : Text) (origin : Origin) : headline ⟨[what], origin⟩ = what := rfl

theorem advice_suffix_display (i : Ink) (c : Complaint) : adviceLine i c.advice <:+ c.display i :=
  ⟨_, rfl⟩

end Complaint

def Command.unread? : Command → Option Text
  | .check _ => some "Failed to read ".toList
  | .preview _ _ _ => some "Failed to read file: ".toList
  | _ => none

theorem Command.occurs_unread {cmd : Command} {what : Text} (h : cmd.unread? = some what)
    (t : Text) : Text.occurs "Permission denied".toList (what ++ t) =
      Text.occurs "Permission denied".toList t := by
  have hwhat : 'P' ∉ what := by
    cases cmd with
    | check | preview =>
      obtain rfl := Option.some.inj h
      decide
    | _ => cases h
  exact Text.occurs_append hwhat _ t

inductive Command.Complains (cmd : Command) : Complaint → Prop
  | library {notes : List Text} {f : Failure} : cmd.Complains ⟨notes, .failure f⟩
  | remark {t : Text} : cmd.Complains (.remark t)
  | unread {what : Text} {path : Path} {cause : IoCause} (hcmd : cmd.unread? = some what) :
    cmd.Complains ⟨[what ++ path.text], .io cause⟩

def Yields {σ α : Type} (x : StateM σ α) (P : α → Prop) : Prop := ∀ w, P (x.run w).1

namespace Yields

variable {σ α β : Type} {P : β → Prop}

protected theorem pure {b : β} (h : P b) : Yields (pure b : StateM σ β) P := fun _ => h

theorem behind (x : StateM σ α) {f : α → StateM σ β} (h : ∀ a, Yields (f a) P) :
    Yields (x >>= f) P := by
  intro w
  rw [run_bind (x := x) (s := w) rfl]
  exact h _ _

theorem bind {Q : α → Prop} {x : StateM σ α} {f : α → StateM σ β} (hx : Yields x Q)
    (h : ∀ a, Q a → Yields (f a) P) : Yields (x >>= f) P := by
  intro w
  rw [run_bind (x := x) (s := w) rfl]
  exact h _ (hx w) _

end Yields

def Transcript.Fits (cmd : Command) (t : Transcript) : Prop :=
  ∀ c, t.complaint = some c → cmd.Complains c

namespace Transcript

variable {cmd : Command} {out : Text} {c : Complaint}

theorem fits_done (cmd : Command) (out : Text) : (done out).Fits cmd := by
  intro c hc
  cases hc

theorem fits_failed (h : cmd.Complains c) : (failed out c).Fits cmd := by
  intro c' hc
  obtain rfl : c = c' := Option.some.inj hc
  exact h

end Transcript

variable {σ : Type} [Disk (StateM σ)] {cmd : Command}

theorem Project.openAt_complains (cmd : Command) (root : Path) (rule : Option ClosingRule) :
    Yields (Project.openAt root rule : StateM σ _) fun r => ∀ c, r = .error c → cmd.Complains c := by
  refine .behind _ fun r => ?_
  cases r with
  | error f =>
    refine .pure fun c hc => ?_
    cases hc
    exact .library
  | ok p =>
    refine .pure fun c hc => ?_
    cases hc

def Outcome.Fits {α : Type} (cmd : Command) : Outcome α → Prop
  | .unopened c => cmd.Complains c
  | .unresolved _ c => cmd.Complains c
  | .finished _ _ => True

theorem Scope.perform_fits {α : Type} (cmd : Command) (s : Scope) (root : Path)
    (work : Project → List Path → StateM σ α) : Yields (s.perform root work) (Outcome.Fits cmd) := by
  refine .bind (Project.openAt_complains cmd root s.rule) fun r hr => ?_
  cases r with
  | error c => exact .pure (hr c rfl)
  | ok p =>
    refine .behind _ fun r => ?_
    cases r with
    | error f => exact .pure Command.Complains.library
    | ok paths => exact .behind _ fun _ => .pure trivial

namespace Program

variable {i : Ink}

theorem stripped_fits (cmd : Command) (i : Ink) (dry : Bool) {o : Outcome Run} (ho : o.Fits cmd) :
    (stripped i dry o).Fits cmd := by
  cases o with
  | unopened c | unresolved p c => exact Transcript.fits_failed ho
  | finished p r =>
    obtain ⟨visits, failure⟩ := r
    cases failure with
    | none => exact Transcript.fits_done _ _
    | some f => exact Transcript.fits_failed .library

theorem checked_fits (scope : Scope) (i : Ink) {o : Outcome Survey} (ho : o.Fits (.check scope)) :
    (checked i o).Fits (.check scope) := by
  cases o with
  | unopened c | unresolved p c => exact Transcript.fits_failed ho
  | finished p s =>
    obtain ⟨findings, failure⟩ := s
    cases failure with
    | some x =>
      obtain ⟨path, cause⟩ := x
      refine Transcript.fits_failed ?_
      rw [Text.concat_pair]
      exact .unread rfl
    | none =>
      rw [checked]
      dsimp only
      split
      · exact Transcript.fits_done _ _
      · exact Transcript.fits_failed .remark

theorem preview_fits (i : Ink) (root file : Path) (listing : Bool) (rule : Option ClosingRule) :
    Yields (preview i root file listing rule : StateM σ Transcript)
      (Transcript.Fits (.preview file listing rule)) := by
  refine .bind (Project.openAt_complains (.preview file listing rule) root rule) fun r hr => ?_
  cases r with
  | error c => exact .pure (Transcript.fits_failed (hr c rfl))
  | ok p =>
    refine .behind _ fun r => ?_
    cases r with
    | error cause =>
      refine .pure (Transcript.fits_failed ?_)
      rw [Text.concat_pair]
      exact .unread rfl
    | ok t => exact .pure (Transcript.fits_done _ _)

theorem assign_fits (cmd : Command) (i : Ink) (root : Path) (key value : Text) :
    Yields (assign i root key value : StateM σ Transcript) (Transcript.Fits cmd) := by
  refine .behind _ fun r => ?_
  cases r with
  | error f => exact .pure (Transcript.fits_failed .library)
  | ok f =>
    refine .behind _ fun r => ?_
    obtain ⟨f', outcome⟩ := r
    cases outcome with
    | error f => exact .pure (Transcript.fits_failed .library)
    | ok => exact .pure (Transcript.fits_done _ _)

theorem lookup_fits (cmd : Command) (root : Path) (key : Text) :
    Yields (lookup root key : StateM σ Transcript) (Transcript.Fits cmd) := by
  refine .behind _ fun r => ?_
  cases r with
  | error f => exact .pure (Transcript.fits_failed .library)
  | ok f =>
    dsimp only
    cases f.settings.getNamed key with
    | error e => exact .pure (Transcript.fits_failed .library)
    | ok value => exact .pure (Transcript.fits_done _ _)

def told (i : Ink) (root : Path) (input : StateM σ Bytes) (cmd : Command) (w : σ) : Transcript :=
  ((run i root input cmd : StateM σ Transcript).run w).1

theorem told_fits (i : Ink) (root : Path) (input : StateM σ Bytes) (cmd : Command) (w : σ) :
    (told i root input cmd w).Fits cmd := by
  revert w
  change Yields (run i root input cmd) (Transcript.Fits cmd)
  cases cmd with
  | strip scope dry =>
    exact .bind (Scope.perform_fits _ scope root _) fun _ ho => .pure (stripped_fits _ i dry ho)
  | check scope =>
    exact .bind (Scope.perform_fits _ scope root _) fun _ ho => .pure (checked_fits scope i ho)
  | preview file listing rule => exact preview_fits i root file listing rule
  | assign key value => exact assign_fits _ i root key value
  | lookup key => exact lookup_fits _ root key
  | summarize =>
    refine .behind _ fun s => ?_
    cases Summary.ofDocument s with
    | ok s => exact .pure (Transcript.fits_done _ _)
    | error f => exact .pure (Transcript.fits_failed .library)
  | init =>
    refine .behind _ fun existed => .behind _ fun r => ?_
    cases r with
    | error f => exact .pure (Transcript.fits_failed .library)
    | ok p => exact .pure (Transcript.fits_done _ _)
  | list =>
    refine .behind _ fun r => ?_
    cases r with
    | error f => exact .pure (Transcript.fits_failed .library)
    | ok f => exact .behind _ fun _ => .pure (Transcript.fits_done _ _)

/-- Wherever a permission was refused, the last line that is printed is about permissions if the
failure is one of the library, whatever stands before it. A command that could not read a file itself
prints such a line exactly if the name of the file says that permission was denied. -/
theorem run_refused {i : Ink} {root : Path} {input : StateM σ Bytes} {cmd : Command} {w : σ}
    {c : Complaint} (h : (told i root input cmd w).complaint = some c) (hc : c.Refused) :
    ((c.OfLibrary ∧ ∀ notes, Complaint.advice ⟨notes, c.origin⟩ = .hint permissionHint) ∨
      ∃ (what : Text) (path : Path) (cause : IoCause), cmd.unread? = some what ∧
        c = ⟨[what ++ path.text], .io cause⟩ ∧
        c.advice = if Text.occurs "Permission denied".toList path.text then .elevate
          else .verbose) ∧
      Complaint.adviceLine i c.advice <:+ (told i root input cmd w).errors i := by
  constructor
  · cases told_fits i root input cmd w c h with
    | @library notes f =>
      refine .inl ⟨⟨f, rfl⟩, fun notes => ?_⟩
      exact Complaint.advice_of_refused hc ⟨f, rfl⟩
    | remark => simp [Complaint.Refused, Complaint.remark, Complaint.cause?] at hc
    | @unread what path cause hcmd =>
      refine .inr ⟨what, path, cause, hcmd, rfl, ?_⟩
      have hlib : ¬ Complaint.OfLibrary ⟨[what ++ path.text], .io cause⟩ := by
        rintro ⟨f, hf⟩
        cases hf
      rw [Complaint.advice_not_ofLibrary hlib, Complaint.headline_unread,
        Command.occurs_unread hcmd]
  · rw [Transcript.errors, h]
    exact c.advice_suffix_display i

def sealedFile : SealedTree where
  tree :=
    { entries := [(["w"], .folder), (["w", "a.ts"], .file [])]
      here := ["w"]
      nodup := by decide
      placed := by decide
      here_folder := by decide }
  sealed := [["w", "a.ts"]]

def stripSealed : Command := .strip ⟨.listed [.ofString "a.ts"], none⟩ false

def refusedRead : Complaint :=
  .ofFailure (.io ⟨["Failed to read a.ts".toList], SealedTree.refusal⟩)

theorem run_refused_strip :
    (told ⟨false⟩ (.ofString ".") (pure []) stripSealed sealedFile).complaint = some refusedRead ∧
      refusedRead.Refused ∧
      Complaint.adviceLine ⟨false⟩ refusedRead.advice <:+
        (told ⟨false⟩ (.ofString ".") (pure []) stripSealed sealedFile).errors ⟨false⟩ := by
  have hrun : (told ⟨false⟩ (.ofString ".") (pure []) stripSealed sealedFile).complaint =
      some refusedRead := by decide +kernel
  have hrefused : refusedRead.Refused := by decide +kernel
  exact ⟨hrun, hrefused, (run_refused hrun hrefused).2⟩

theorem not_forall_refused_advised :
    ¬ ∀ (d : SealedTree) (cmd : Command) (c : Complaint),
      (told ⟨false⟩ (.ofString ".") (pure []) cmd d).complaint = some c → c.Refused →
        c.advice = .hint permissionHint ∨ c.advice = .elevate := by
  intro h
  have hadvice := h sealedFile (.preview (.ofString "a.ts") false none)
    ⟨["Failed to read file: a.ts".toList], .io SealedTree.refusal⟩ (by decide +kernel)
    (by decide +kernel)
  revert hadvice
  decide +kernel

end Program

end CallStrip

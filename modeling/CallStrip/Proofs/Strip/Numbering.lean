import CallStrip.Proofs.Strip.Accounting
import CallStrip.Proofs.Text.Trimmed
import CallStrip.Report

/-!
Line numbers. A number in a span is that of a removed line, wherever lines are counted: among the
lines of the text with their ends, and among the lines as they are shown. So the lines of all spans,
shown by number, are the removed lines in order, and what is left are all others.
-/

namespace CallStrip

namespace Text

/-- A line without its line feed and a carriage return right before that. -/
def IsBody (body l : Text) : Prop :=
  l = body ++ ['\r', '\n'] ∨ l = body ++ ['\n'] ∧ ¬ ['\r'] <:+ body ∨ l = body ∧ ¬ ['\n'] <:+ l

theorem before?_eq_none_iff {tail l : Text} : before? tail l = none ↔ ¬ tail <:+ l := by
  rw [before?, ite_eq_right_iff, List.isSuffixOf_iff_suffix]
  simp

theorem isBody_shown (l : Text) : IsBody (shown l) l := by
  rw [shown]
  cases hl : before? ['\n'] l with
  | none => exact .inr (.inr ⟨rfl, before?_eq_none_iff.mp hl⟩)
  | some body =>
    obtain rfl := before?_eq_some_iff.mp hl
    cases hbody : before? ['\r'] body with
    | none => exact .inr (.inl ⟨by simp [hbody], by simpa [hbody] using before?_eq_none_iff.mp hbody⟩)
    | some front =>
      obtain rfl := before?_eq_some_iff.mp hbody
      exact .inl (by simp [hbody])

theorem trim_shown (l : Text) : (shown l).trim = l.trim := by
  rcases isBody_shown l with h | ⟨h, -⟩ | ⟨h, -⟩
  · conv => rhs; rw [h, trim_append_blank (by decide)]
  · conv => rhs; rw [h, trim_append_blank (by decide)]
  · rw [← h]

end Text

/-- The lines of a text that are in some span, as they are shown, with their numbers. -/
def Stripped.gone (r : Stripped) (t : Text) : List (Text × Nat) :=
  (t.shownLines.zipIdx 1).filter fun l => ∃ s ∈ r.spans, s.Covers l.2

def Stripped.left (r : Stripped) (t : Text) : List (Text × Nat) :=
  (t.shownLines.zipIdx 1).filter fun l => ¬ ∃ s ∈ r.spans, s.Covers l.2

namespace Report

variable {lines : List Text} {s : Span} {spans : List Span} {l : Text} {m len : Nat}

theorem mem_numbered (hfirst : 1 ≤ s.first) (hlast : s.first ≤ s.last) :
    (l, m) ∈ numbered lines s ↔ s.Covers m ∧ lines[m - 1]? = some l := by
  rw [numbered, List.mem_zipIdx_iff_le_and_getElem?_sub, List.getElem?_take, List.getElem?_drop,
    Span.lineCount, Span.Covers]
  by_cases hm : s.first ≤ m
  · have hat : s.first - 1 + (m - s.first) = m - 1 := by omega
    have hcount : m - s.first < s.last - s.first + 1 ↔ m ≤ s.last := by omega
    simp [hm, hat, hcount]
  · simp [hm]

theorem map_snd_numbered (hfirst : 1 ≤ s.first) (hle : s.first ≤ s.last)
    (hlast : s.last ≤ lines.length) :
    (numbered lines s).map (·.2) = List.range' s.first s.lineCount := by
  have hlength : ((lines.drop (s.first - 1)).take s.lineCount).length = s.lineCount := by
    rw [List.length_take, List.length_drop, Span.lineCount]
    omega
  rw [numbered, List.zipIdx_map_snd, hlength]

theorem pairwise_zipIdx (ls : List Text) (n : Nat) : (ls.zipIdx n).Pairwise (·.2 < ·.2) := by
  have hnumbers : ((ls.zipIdx n).map (·.2)).Pairwise (· < ·) := by
    rw [List.zipIdx_map_snd]
    exact List.pairwise_lt_range' 1
  exact List.pairwise_map.mp hnumbers

theorem pairwise_flatMap_numbered (h : Laid 1 len spans) (lines : List Text) :
    (spans.flatMap (numbered lines)).Pairwise (·.2 < ·.2) := by
  refine List.pairwise_flatMap.mpr ⟨fun s _ => pairwise_zipIdx _ s.first, ?_⟩
  refine h.ordered.imp_of_mem fun {a b} ha hb hab x hx y hy => ?_
  obtain ⟨hfirst, hle, -⟩ := h.within a ha
  obtain ⟨hfirst', hle', -⟩ := h.within b hb
  have hxa := ((mem_numbered hfirst hle).mp hx).1.2
  have hyb := ((mem_numbered hfirst' hle').mp hy).1.1
  exact Nat.lt_of_le_of_lt hxa (Nat.lt_of_lt_of_le hab hyb)

theorem flatMap_numbered (h : Laid 1 len spans) (lines : List Text) :
    spans.flatMap (numbered lines) =
      (lines.zipIdx 1).filter fun l => ∃ s ∈ spans, s.Covers l.2 := by
  have hspans := pairwise_flatMap_numbered h lines
  have hfilter := (pairwise_zipIdx lines 1).filter fun l => ∃ s ∈ spans, s.Covers l.2
  have hnodup {ls : List (Text × Nat)} (hls : ls.Pairwise (·.2 < ·.2)) : ls.Nodup := by
    refine List.nodup_iff_pairwise_ne.mpr (hls.imp ?_)
    rintro a b hab rfl
    exact Nat.lt_irrefl _ hab
  refine List.Perm.eq_of_pairwise (fun a b _ _ hab hba => absurd hab (Nat.lt_asymm hba)) hspans
    hfilter ((List.perm_ext_iff_of_nodup (hnodup hspans) (hnodup hfilter)).mpr ?_)
  rintro ⟨l, m⟩
  simp only [List.mem_flatMap, List.mem_filter, List.mem_zipIdx_iff_le_and_getElem?_sub,
    decide_eq_true_eq]
  constructor
  · rintro ⟨s, hs, hm⟩
    obtain ⟨hfirst, hle, -⟩ := h.within s hs
    obtain ⟨hc, hl⟩ := (mem_numbered hfirst hle).mp hm
    exact ⟨⟨Nat.le_trans hfirst hc.1, hl⟩, s, hs, hc⟩
  · rintro ⟨⟨-, hl⟩, s, hs, hc⟩
    obtain ⟨hfirst, hle, -⟩ := h.within s hs
    exact ⟨s, hs, (mem_numbered hfirst hle).mpr ⟨hc, hl⟩⟩

theorem flatMap_spanLines (h : Laid 1 len spans) (i : Ink) (lines : List Text) :
    spans.flatMap (spanLines i lines) =
      (spans.flatMap (numbered lines)).flatMap (removedLine i) ++
        if ∃ s ∈ spans, s.unterminated = true then
          Text.lineOf ["  ", i.hue .yellow "⚠", " call never closed before end of file"]
        else [] := by
  have hclosed := h.terminated_of_mem_dropLast
  cases hspans : spans.getLast? with
  | none =>
    obtain rfl := List.getLast?_eq_none_iff.mp hspans
    rfl
  | some z =>
    obtain ⟨front, rfl⟩ := List.getLast?_eq_some_iff.mp hspans
    rw [List.dropLast_concat] at hclosed
    have hfront : front.flatMap (spanLines i lines) =
        (front.flatMap (numbered lines)).flatMap (removedLine i) := by
      rw [List.flatMap_assoc, List.flatMap_def, List.flatMap_def]
      refine congrArg List.flatten (List.map_congr_left fun s hs => ?_)
      rw [spanLines, hclosed s hs, if_neg Bool.false_ne_true, List.append_nil]
    have hopen : (∃ s ∈ front ++ [z], s.unterminated = true) ↔ z.unterminated = true := by
      constructor
      · rintro ⟨s, hs, hu⟩
        rcases List.mem_append.mp hs with hs | hs
        · rw [hclosed s hs] at hu
          cases hu
        · exact List.mem_singleton.mp hs ▸ hu
      · exact fun hu => ⟨z, by simp, hu⟩
    rw [List.flatMap_append, hfront, List.flatMap_append, List.flatMap_append,
      List.flatMap_singleton, List.flatMap_singleton, spanLines, List.append_assoc]
    simp only [hopen]

end Report

theorem spared_eq_filter (spans : List Span) (n : Nat) (ls : List Text) :
    spared spans n ls =
      ((ls.zipIdx n).filter fun l => ¬ ∃ s ∈ spans, s.Covers l.2).map (·.1) := by
  induction ls generalizing n with
  | nil => rfl
  | cons l ls ih =>
    rw [spared, ih, List.zipIdx_cons, List.filter_cons]
    by_cases hn : ∃ s ∈ spans, s.Covers n
    · simp [hn]
    · simp [hn]

namespace Stripped

variable {r : Stripped} {t : Text}

theorem AccountsFor.laid (h : r.AccountsFor t) : Laid 1 t.lines.length r.spans where
  within s hs := by
    have := h.within s hs
    omega
  ordered := h.ordered
  unterminated s hs hu := by
    have := h.unterminated s hs hu
    omega

/-- The numbers of a stripped text name the lines of the text. -/
structure NumbersLines (r : Stripped) (t : Text) : Prop where
  length_shownLines : t.shownLines.length = t.lines.length
  exists_line : ∀ s ∈ r.spans, ∀ m, s.Covers m → 1 ≤ m ∧ m ≤ t.shownLines.length ∧
    ∃ l body, t.lines[m - 1]? = some l ∧ body.IsBody l ∧ t.shownLines[m - 1]? = some body
  map_snd_numbered : ∀ s ∈ r.spans,
    (Report.numbered t.shownLines s).map (·.2) = List.range' s.first s.lineCount
  flatMap_numbered : r.spans.flatMap (Report.numbered t.shownLines) = r.gone t
  length_gone : (r.gone t).length = r.removed
  pairwise_gone : (r.gone t).Pairwise (·.2 < ·.2)
  shownLines_content : r.content.shownLines = (r.left t).map (·.1)
  perm : ((r.gone t).map (·.1) ++ r.content.shownLines).Perm t.shownLines

theorem AccountsFor.numbersLines (h : r.AccountsFor t) : r.NumbersLines t := by
  have hlength := t.length_shownLines
  have hgone := Report.flatMap_numbered h.laid t.shownLines
  have hnumbers : ∀ s ∈ r.spans,
      (Report.numbered t.shownLines s).map (·.2) = List.range' s.first s.lineCount := by
    intro s hs
    obtain ⟨hfirst, hle, hlast⟩ := h.within s hs
    exact Report.map_snd_numbered hfirst hle (hlength.symm ▸ hlast)
  have hleft : r.content.shownLines = (r.left t).map (·.1) := by
    rw [Text.shownLines, h.content_eq, t.lines_flatten_spared, spared_eq_filter, left,
      Text.shownLines, List.zipIdx_map, List.filter_map, List.map_map, List.map_map]
    rfl
  constructor
  case length_shownLines => exact hlength
  case exists_line =>
    intro s hs m hc
    obtain ⟨hfirst, -, hlast⟩ := h.within s hs
    have hm : m - 1 < t.lines.length := by
      have := hc.1
      have := hc.2
      omega
    refine ⟨Nat.le_trans hfirst hc.1, hlength.symm ▸ Nat.le_trans hc.2 hlast, _, _,
      List.getElem?_eq_getElem hm, Text.isBody_shown _, ?_⟩
    rw [Text.shownLines, List.getElem?_map, List.getElem?_eq_getElem hm]
    rfl
  case map_snd_numbered => exact hnumbers
  case flatMap_numbered => exact hgone
  case length_gone =>
    have hcounts : r.spans.map (fun s => (Report.numbered t.shownLines s).length) =
        r.spans.map Span.lineCount := by
      refine List.map_congr_left fun s hs => ?_
      rw [← List.length_map (f := (·.2)), hnumbers s hs, List.length_range']
    rw [gone, ← hgone, List.length_flatMap, hcounts, h.sum_lineCount]
  case pairwise_gone =>
    rw [gone, ← hgone]
    exact Report.pairwise_flatMap_numbered h.laid _
  case shownLines_content => exact hleft
  case perm =>
    rw [hleft, gone, left, ← List.map_append]
    have hperm := List.filter_append_perm (fun l => decide (∃ s ∈ r.spans, s.Covers l.2))
      (t.shownLines.zipIdx 1)
    simp only [← decide_not] at hperm
    exact (hperm.map (·.1)).trans (.of_eq (List.zipIdx_map_fst 1 t.shownLines))

end Stripped

theorem Stripper.findings_eq (p : Stripper) (path : Path) (t : Text) :
    p.findings path t =
      (p.strip t).spans.map fun s => ⟨path, s, ((t.lines[s.first - 1]?).getD []).trim⟩ := by
  rw [findings]
  refine List.map_congr_left fun s _ => ?_
  rw [Text.shownLines, List.getElem?_map]
  cases t.lines[s.first - 1]? with
  | none => rfl
  | some l => exact congrArg (Finding.mk path s) l.trim_shown

end CallStrip

import CallStrip.Proofs.Strip.Idempotence
import CallStrip.Proofs.Text.Utf8

/-!
The markers of a line as one search for all of them finds them. If the search reports each
occurrence in the bytes of the line, overlaps and all, then a walk through its reports that stops as
soon as it can say how the line relates to the markers says what asking for each marker would.
-/

namespace CallStrip

structure Match where
  pattern : Nat
  start : Nat
  stop : Nat
  deriving DecidableEq, Repr

def Match.Occurs (patterns : List Bytes) (s : Bytes) (x : Match) : Prop :=
  ∃ a w b, s = a ++ w ++ b ∧ patterns[x.pattern]? = some w ∧
    x.start = a.length ∧ x.stop = a.length + w.length

/-- A search reports all occurrences of some patterns and nothing else, in any order. -/
def ReportsAll (patterns : List Bytes) (find : Bytes → List Match) : Prop :=
  ∀ s x, x ∈ find s ↔ x.Occurs patterns s

def occurrences (patterns : List Bytes) (s : Bytes) : List Match :=
  (List.range (s.length + 1)).flatMap fun stop =>
    (List.range (stop + 1)).flatMap fun start =>
      ((List.range patterns.length).filter fun i =>
        patterns[i]? = some ((s.take stop).drop start)).map fun i => ⟨i, start, stop⟩

theorem reportsAll_occurrences (patterns : List Bytes) :
    ReportsAll patterns (occurrences patterns) := by
  intro s x
  simp only [occurrences, List.mem_flatMap, List.mem_map, List.mem_filter, List.mem_range,
    decide_eq_true_eq]
  constructor
  · rintro ⟨stop, hstop, start, hstart, i, ⟨-, hi⟩, rfl⟩
    have hcut : (s.take stop).take start = s.take start := by
      rw [List.take_take, Nat.min_eq_left (by omega)]
    refine ⟨s.take start, (s.take stop).drop start, s.drop stop, ?_, hi, ?_, ?_⟩
    · rw [← hcut, List.take_append_drop, List.take_append_drop]
    · simp only [List.length_take]
      omega
    · simp only [List.length_take, List.length_drop]
      omega
  · rintro ⟨a, w, b, rfl, hw, hstart, hstop⟩
    obtain ⟨hi, -⟩ := List.getElem?_eq_some_iff.mp hw
    refine ⟨x.stop, ?_, x.start, ?_, x.pattern, ⟨hi, ?_⟩, rfl⟩
    · simp only [List.length_append]
      omega
    · omega
    · rw [hw, hstart, hstop, ← List.length_append, List.take_left, List.drop_left]

example : occurrences [[7], [7, 7], [7]] [7, 7] =
    [⟨0, 0, 1⟩, ⟨2, 0, 1⟩, ⟨1, 0, 2⟩, ⟨0, 1, 2⟩, ⟨2, 1, 2⟩] := by
  decide

structure Sighting where
  target : Bool
  guard : Bool
  deriving DecidableEq, Repr

namespace Sighting

def note (s : Sighting) (x : Match) : Sighting :=
  if x.pattern = 0 then { s with target := true } else { s with guard := true }

def through (s : Sighting) : List Match → Sighting
  | [] => s
  | x :: xs => if (s.note x).target && (s.note x).guard then s.note x else (s.note x).through xs

def mention : Sighting → Mention
  | ⟨false, _⟩ => .absent
  | ⟨true, false⟩ => .bare
  | ⟨true, true⟩ => .guarded

theorem through_eq (s : Sighting) (xs : List Match) :
    s.through xs =
      ⟨s.target || xs.any (·.pattern = 0), s.guard || xs.any (·.pattern ≠ 0)⟩ := by
  induction xs generalizing s with
  | nil => simp [through]
  | cons x xs ih =>
    have hnote : s.note x = ⟨s.target || x.pattern = 0, s.guard || x.pattern ≠ 0⟩ := by
      unfold note
      split <;> simp [*]
    rw [through, List.any_cons, List.any_cons, ← Bool.or_assoc, ← Bool.or_assoc]
    split
    · next hboth =>
      rw [hnote, Bool.and_eq_true] at hboth
      obtain ⟨htarget, hguard⟩ := hboth
      dsimp only at htarget hguard
      rw [hnote, htarget, hguard, Bool.true_or, Bool.true_or]
    · rw [ih, hnote]

theorem mention_eq (s : Sighting) :
    s.mention = if !s.target then .absent else if s.guard then .guarded else .bare := by
  rcases s with ⟨_ | _, _ | _⟩ <;> rfl

end Sighting

namespace Markers

variable {m : Markers} {find : Bytes → List Match} {line w : Text} {i : Nat}

theorem classify_eq_absent_iff : m.classify line = .absent ↔ ¬ m.target <:+: line := by
  rw [classify, appearsIn, ← Text.occurs_iff]
  cases Text.occurs m.target line with
  | false => simp
  | true => cases m.guards.any (Text.occurs · line) <;> simp

theorem classify_eq_guarded_iff :
    m.classify line = .guarded ↔ m.target <:+: line ∧ ∃ g ∈ m.guards, g <:+: line := by
  simp only [← Text.occurs_iff, ← List.any_eq_true]
  rw [classify, appearsIn]
  cases Text.occurs m.target line with
  | false => simp
  | true => cases m.guards.any (Text.occurs · line) <;> simp

def patterns (m : Markers) : List Text := m.target :: m.guards

def mentionBy (find : Bytes → List Match) (line : Text) : Mention :=
  ((Sighting.mk false false).through (find (Utf8.encode line))).mention

theorem ne_nil_of_mem_patterns (h : w ∈ m.patterns) : w ≠ [] := by
  rcases List.mem_cons.mp h with rfl | h
  · exact m.target_ne_nil
  · exact m.guards_ne_nil w h

theorem exists_match_iff (h : ReportsAll (m.patterns.map Utf8.encode) find)
    (hw : m.patterns[i]? = some w) :
    (∃ x ∈ find (Utf8.encode line), x.pattern = i) ↔ w <:+: line := by
  have hne := ne_nil_of_mem_patterns (List.mem_of_getElem? hw)
  constructor
  · rintro ⟨x, hx, rfl⟩
    obtain ⟨a, w', b, hs, hw', -, -⟩ := (h _ x).mp hx
    rw [List.getElem?_map, hw] at hw'
    obtain rfl := Option.some.inj hw'
    exact Utf8.infix_of_encode hne ⟨a, b, hs.symm⟩
  · intro hpart
    obtain ⟨a, b, hs⟩ := (Utf8.infix_encode_iff hne).mpr hpart
    refine ⟨⟨i, a.length, a.length + (Utf8.encode w).length⟩, (h _ _).mpr ?_, rfl⟩
    refine ⟨a, Utf8.encode w, b, hs.symm, ?_, rfl, rfl⟩
    rw [List.getElem?_map, hw]
    rfl

theorem exists_guard_match_iff (h : ReportsAll (m.patterns.map Utf8.encode) find) :
    (∃ x ∈ find (Utf8.encode line), x.pattern ≠ 0) ↔ ∃ g ∈ m.guards, g <:+: line := by
  constructor
  · rintro ⟨x, hx, hne⟩
    obtain ⟨_, _, _, _, hbytes, _⟩ := (h _ x).mp hx
    rw [List.getElem?_map, Option.map_eq_some_iff] at hbytes
    obtain ⟨g, hg, -⟩ := hbytes
    have hpart := (exists_match_iff h hg).mp ⟨x, hx, rfl⟩
    obtain ⟨j, hj⟩ := Nat.exists_eq_succ_of_ne_zero hne
    rw [hj, patterns, List.getElem?_cons_succ] at hg
    exact ⟨g, List.mem_of_getElem? hg, hpart⟩
  · rintro ⟨g, hg, hpart⟩
    obtain ⟨j, hj⟩ := List.mem_iff_getElem?.mp hg
    have hpattern : m.patterns[j + 1]? = some g := by rw [patterns, List.getElem?_cons_succ, hj]
    obtain ⟨x, hx, hxj⟩ := (exists_match_iff h hpattern).mpr hpart
    exact ⟨x, hx, hxj ▸ Nat.succ_ne_zero j⟩

theorem mentionBy_eq_classify (h : ReportsAll (m.patterns.map Utf8.encode) find) (line : Text) :
    mentionBy find line = m.classify line := by
  have htarget : (find (Utf8.encode line)).any (·.pattern = 0) = m.appearsIn line := by
    rw [Bool.eq_iff_iff, appearsIn, Text.occurs_iff,
      ← exists_match_iff (i := 0) (w := m.target) h rfl]
    simp
  have hguard : (find (Utf8.encode line)).any (·.pattern ≠ 0) =
      m.guards.any (Text.occurs · line) := by
    rw [Bool.eq_iff_iff, List.any_eq_true, List.any_eq_true]
    simpa [Text.occurs_iff] using exists_guard_match_iff h
  rw [mentionBy, Sighting.mention_eq, Sighting.through_eq, Bool.false_or, Bool.false_or, htarget,
    hguard, classify]

theorem classify_congr {m' : Markers} (htarget : m'.target = m.target)
    (hguards : ∀ g, g ∈ m'.guards ↔ g ∈ m.guards) (line : Text) :
    m'.classify line = m.classify line := by
  have hany : m'.guards.any (Text.occurs · line) = m.guards.any (Text.occurs · line) := by
    rw [Bool.eq_iff_iff, List.any_eq_true, List.any_eq_true]
    simp only [hguards]
  rw [classify, classify, appearsIn, appearsIn, htarget, hany]

theorem not_starts_of_guard_infix {g : Text} (hg : g ∈ m.guards) (hpart : g <:+: m.target)
    (rule : ClosingRule) (line : Text) : ¬ m.Starts rule line := fun h =>
  h.bare.2 g hg (hpart.trans h.bare.1)

/-- A search that reports every occurrence of every marker judges lines by substrings alone, however
the markers overlap: only which guards there are counts, not their order. A guard within the target
keeps every line of every text. -/
theorem mentionBy_of_reportsAll (m : Markers) (find : Bytes → List Match)
    (h : ReportsAll (m.patterns.map Utf8.encode) find) :
    (∀ line, mentionBy find line = m.classify line ∧
      (mentionBy find line = .absent ↔ ¬ m.target <:+: line) ∧
      (mentionBy find line = .guarded ↔ m.target <:+: line ∧ ∃ g ∈ m.guards, g <:+: line) ∧
      (mentionBy find line = .bare ↔ m.target <:+: line ∧ ∀ g ∈ m.guards, ¬ g <:+: line)) ∧
    (∀ (m' : Markers) (find' : Bytes → List Match),
      ReportsAll (m'.patterns.map Utf8.encode) find' → m'.target = m.target →
      (∀ g, g ∈ m'.guards ↔ g ∈ m.guards) → ∀ line, mentionBy find' line = mentionBy find line) ∧
    ((∃ g ∈ m.guards, g <:+: m.target) →
      ∀ (rule : ClosingRule) (t : Text), Stripper.strip ⟨m, rule⟩ t = .unchanged t) := by
  have heq := mentionBy_eq_classify h
  refine ⟨fun line => ⟨heq line, ?_, ?_, ?_⟩, ?_, ?_⟩
  · rw [heq, classify_eq_absent_iff]
  · rw [heq, classify_eq_guarded_iff]
  · rw [heq, classify_eq_bare_iff, Bare]
  · intro m' find' h' htarget hguards line
    rw [heq, mentionBy_eq_classify h', classify_congr htarget hguards]
  · rintro ⟨g, hg, hpart⟩ rule t
    exact Stripper.strip_eq_unchanged fun line _ => not_starts_of_guard_infix hg hpart rule line

def nested : Markers where
  target := "console.log".toList
  guards := ["console.log.bind".toList, "é.log".toList, "console.log.bind".toList, "ole.lo".toList]
  target_ne_nil := by decide
  guards_ne_nil := by decide

theorem mentionBy_nested :
    ReportsAll (nested.patterns.map Utf8.encode) (occurrences (nested.patterns.map Utf8.encode)) ∧
      mentionBy (occurrences (nested.patterns.map Utf8.encode))
        "const é = console.log;".toList = .guarded ∧
      (∃ g ∈ nested.guards, g <:+: nested.target) ∧
      Stripper.strip ⟨nested, .brace⟩ "console.log(é
".toList =
        .unchanged "console.log(é
".toList := by
  have hall := reportsAll_occurrences (nested.patterns.map Utf8.encode)
  have hwithin : ∃ g ∈ nested.guards, g <:+: nested.target :=
    ⟨"ole.lo".toList, by decide, Text.occurs_iff.mp (by decide)⟩
  have htarget : nested.target <:+: "const é = console.log;".toList :=
    Text.occurs_iff.mp (by decide)
  obtain ⟨g, hg, hpart⟩ := hwithin
  obtain ⟨hline, -, hspared⟩ := mentionBy_of_reportsAll nested _ hall
  exact ⟨hall, (hline _).2.2.1.mpr ⟨htarget, g, hg, hpart.trans htarget⟩, ⟨g, hg, hpart⟩,
    hspared ⟨g, hg, hpart⟩ .brace _⟩

end Markers

end CallStrip

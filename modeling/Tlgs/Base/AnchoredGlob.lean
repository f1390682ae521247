import Tlgs.Base.Glob
import Tlgs.Base.Bytes

/-!
# Glob patterns with anchors

Two more characters of a pattern match no character but a place: the start and the end of the
text. Such a pattern matches as what stands between its anchors does if these are at its edges,
and otherwise at most the empty text.
-/
namespace Glob

variable {α : Type}

/-- The star and the anchors. -/
structure Marks (α : Type) where
  star : α
  bol : α
  eol : α
  bol_ne_star : bol ≠ star
  eol_ne_star : eol ≠ star
  eol_ne_bol : eol ≠ bol

variable [DecidableEq α] (m : Marks α)

/-- The pattern matches the whole text, which starts where the text as a whole does or not. -/
def Anchored : Bool → List α → List α → Prop
  | _, [], s => s = []
  | atStart, c :: pattern, s =>
    if c = m.star then
      ∃ skipped rest, s = skipped ++ rest ∧ Anchored (atStart && skipped.isEmpty) pattern rest
    else if c = m.bol then atStart = true ∧ Anchored atStart pattern s
    else if c = m.eol then s = [] ∧ Anchored atStart pattern s
    else ∃ rest, s = c :: rest ∧ Anchored false pattern rest

/-- No anchor in the pattern. -/
def Unanchored (pattern : List α) : Prop := m.bol ∉ pattern ∧ m.eol ∉ pattern

instance (pattern : List α) :
    Decidable (Unanchored m pattern) := inferInstanceAs (Decidable (_ ∧ _))

/-- The anchors stand at the edges, with nothing but stars outside them. -/
structure Edged (pattern lead inner trail : List α) : Prop where
  whole : pattern = lead ++ (inner ++ trail)
  lead_marks : ∀ c ∈ lead, c = m.star ∨ c = m.bol
  lead_ends : lead = [] ∨ lead.getLast? = some m.bol
  inner_plain : Unanchored m inner
  trail_marks : ∀ c ∈ trail, c = m.star ∨ c = m.eol
  trail_starts : trail = [] ∨ trail.head? = some m.eol

variable {m} {atStart : Bool} {c : α} {pattern front s : List α}

theorem anchored_star : Anchored m atStart (m.star :: pattern) s ↔
    ∃ skipped rest, s = skipped ++ rest ∧ Anchored m (atStart && skipped.isEmpty) pattern rest := by
  simp only [Anchored, if_true]

theorem anchored_bol : Anchored m atStart (m.bol :: pattern) s ↔
    atStart = true ∧ Anchored m atStart pattern s := by
  simp only [Anchored, if_neg m.bol_ne_star, if_true]

theorem anchored_eol :
    Anchored m atStart (m.eol :: pattern) s ↔ s = [] ∧ Anchored m atStart pattern s := by
  simp only [Anchored, if_neg m.eol_ne_star, if_neg m.eol_ne_bol, if_true]

theorem anchored_cons (plain : c ≠ m.star ∧ c ≠ m.bol ∧ c ≠ m.eol) :
    Anchored m atStart (c :: pattern) s ↔ ∃ rest, s = c :: rest ∧
      Anchored m false pattern rest := by
  simp only [Anchored, if_neg plain.1, if_neg plain.2.1, if_neg plain.2.2]

/-- The kinds of characters of a pattern. -/
theorem mark_cases (m : Marks α) (c : α) :
    c = m.star ∨ c = m.bol ∨ c = m.eol ∨ c ≠ m.star ∧ c ≠ m.bol ∧ c ≠ m.eol := by
  by_cases star : c = m.star
  · exact .inl star
  · by_cases bol : c = m.bol
    · exact .inr (.inl bol)
    · by_cases eol : c = m.eol
      · exact .inr (.inr (.inl eol))
      · exact .inr (.inr (.inr ⟨star, bol, eol⟩))

/-- Only stars and anchors match nothing. -/
theorem anchored_empty_iff : Anchored m atStart pattern [] ↔
    ∀ c ∈ pattern, c = m.star ∨ c = m.eol ∨ c = m.bol ∧ atStart = true := by
  induction pattern with
  | nil => simp [Anchored]
  | cons c pattern ih =>
    rw [List.forall_mem_cons, ← ih]
    rcases mark_cases m c with rfl | rfl | rfl | plain
    · rw [anchored_star]
      constructor
      · rintro ⟨skipped, rest, same, matched⟩
        obtain ⟨rfl, rfl⟩ := List.append_eq_nil_iff.mp same.symm
        exact ⟨.inl rfl, by simpa using matched⟩
      · exact fun matched => ⟨[], [], rfl, by simpa using matched.2⟩
    · rw [anchored_bol]
      simp [m.bol_ne_star, m.eol_ne_bol.symm]
    · rw [anchored_eol]
      simp
    · -- a plain character has nothing to match
      rw [anchored_cons plain]
      refine iff_of_false (fun ⟨_, same, _⟩ => nomatch same) fun both => ?_
      rcases both.1 with star | eol | bol
      · exact plain.1 star
      · exact plain.2.2 eol
      · exact plain.2.1 bol.1

/-- Behind the start of the text there is no start anchor to match. -/
theorem not_mem_bol_of_anchored (matched : Anchored m false pattern s) : m.bol ∉ pattern := by
  induction pattern generalizing s with
  | nil => exact List.not_mem_nil
  | cons c pattern ih =>
    rw [List.mem_cons, not_or]
    rcases mark_cases m c with rfl | rfl | rfl | plain
    · obtain ⟨_, _, _, later⟩ := anchored_star.mp matched
      exact ⟨m.bol_ne_star, ih later⟩
    · exact absurd (anchored_bol.mp matched).1 Bool.false_ne_true
    · exact ⟨m.eol_ne_bol.symm, ih (anchored_eol.mp matched).2⟩
    · obtain ⟨_, _, later⟩ := (anchored_cons plain).mp matched
      exact ⟨plain.2.1.symm, ih later⟩

/-- What precedes a start anchor matches nothing of the text. -/
theorem anchored_before_bol (some_text : s ≠ []) :
    Anchored m atStart (front ++ m.bol :: pattern) s ↔
      (∀ c ∈ front, c = m.star ∨ c = m.bol) ∧ atStart = true ∧ Anchored m atStart pattern s := by
  induction front generalizing atStart with
  | nil => rw [List.nil_append, anchored_bol, and_iff_right (List.forall_mem_nil _)]
  | cons c front ih =>
    have blocked : ∀ {rest : List α}, ¬Anchored m false (front ++ m.bol :: pattern) rest :=
      fun matched => not_mem_bol_of_anchored matched (List.mem_append_right _ List.mem_cons_self)
    rw [List.cons_append, List.forall_mem_cons, and_assoc]
    rcases mark_cases m c with rfl | rfl | rfl | plain
    · -- the star cannot take a character
      rw [anchored_star, and_iff_right (Or.inl rfl), ← ih]
      constructor
      · rintro ⟨skipped, rest, rfl, matched⟩
        cases skipped with
        | nil => simpa using matched
        | cons d skipped =>
          rw [List.isEmpty_cons, Bool.and_false] at matched
          exact absurd matched blocked
      · exact fun matched => ⟨[], s, rfl, by simpa using matched⟩
    · rw [anchored_bol, and_iff_right (Or.inr rfl), ih]
      exact ⟨fun both => both.2, fun all => ⟨all.2.1, all⟩⟩
    · rw [anchored_eol]
      refine iff_of_false (fun both => some_text both.1) fun both => ?_
      rcases both.1 with star | bol
      · exact m.eol_ne_star star
      · exact m.eol_ne_bol bol
    · rw [anchored_cons plain]
      refine iff_of_false (fun ⟨_, _, later⟩ => blocked later) fun both => ?_
      rcases both.1 with star | bol
      · exact plain.1 star
      · exact plain.2.1 bol

/-- A part without anchors matches as a glob does, and what follows matches the rest. -/
theorem anchored_append {inner tail : List α} (plain : Unanchored m inner) :
    Anchored m atStart (inner ++ tail) s ↔
      ∃ taken rest, s = taken ++ rest ∧ Matches m.star inner taken ∧
        Anchored m (atStart && taken.isEmpty) tail rest := by
  induction inner generalizing atStart s with
  | nil =>
    constructor
    · exact fun matched => ⟨[], s, rfl, rfl, by simpa using matched⟩
    · rintro ⟨_, rest, rfl, rfl, matched⟩
      simpa using matched
  | cons c inner ih =>
    obtain ⟨no_bol, no_eol⟩ := plain
    rw [List.mem_cons, not_or] at no_bol no_eol
    have later : Unanchored m inner := ⟨no_bol.2, no_eol.2⟩
    rw [List.cons_append]
    by_cases starred : c = m.star
    · subst starred
      have at_start : ∀ skipped taken : List α,
          (atStart && (skipped ++ taken).isEmpty) =
            (atStart && skipped.isEmpty && taken.isEmpty) := by
        intro skipped taken
        cases skipped <;> simp
      -- what the star skips goes in front of what is taken
      rw [anchored_star]
      constructor
      · rintro ⟨skipped, _, rfl, both⟩
        obtain ⟨taken, rest, rfl, matched, after⟩ := (ih later).mp both
        refine ⟨skipped ++ taken, rest, (List.append_assoc _ _ _).symm,
          matches_star.mpr ⟨skipped, taken, rfl, matched⟩, ?_⟩
        rwa [at_start]
      · rintro ⟨_, rest, rfl, both, after⟩
        obtain ⟨skipped, taken, rfl, matched⟩ := matches_star.mp both
        refine ⟨skipped, taken ++ rest, List.append_assoc _ _ _,
          (ih later).mpr ⟨taken, rest, rfl, matched, ?_⟩⟩
        rwa [at_start] at after
    · -- an anchor behind a character is no longer at the start
      rw [anchored_cons ⟨starred, Ne.symm no_bol.1, Ne.symm no_eol.1⟩]
      constructor
      · rintro ⟨_, rfl, both⟩
        obtain ⟨taken, rest, rfl, matched, after⟩ := (ih later).mp both
        refine ⟨c :: taken, rest, rfl, (matches_cons starred).mpr ⟨taken, rfl, matched⟩, ?_⟩
        rwa [List.isEmpty_cons, Bool.and_false]
      · rintro ⟨_, rest, rfl, both, after⟩
        obtain ⟨taken, rfl, matched⟩ := (matches_cons starred).mp both
        refine ⟨taken ++ rest, rfl, (ih later).mpr ⟨taken, rest, rfl, matched, ?_⟩⟩
        rwa [List.isEmpty_cons, Bool.and_false] at after

/-- Without anchors it is a glob. -/
theorem anchored_iff_matches (plain : Unanchored m pattern) :
    Anchored m atStart pattern s ↔ Matches m.star pattern s := by
  have whole : Anchored m atStart (pattern ++ []) s ↔ ∃ taken rest, s = taken ++ rest ∧
      Matches m.star pattern taken ∧ Anchored m (atStart && taken.isEmpty) [] rest :=
        anchored_append plain
  simpa [Anchored] using whole

/-- The end anchors after an unanchored part ask for the end of the text there. -/
theorem anchored_trail {inner trail : List α} (plain : Unanchored m inner)
    (starts : trail = [] ∨ trail.head? = some m.eol) :
    Anchored m atStart (inner ++ trail) s ↔
      Matches m.star inner s ∧ Anchored m (atStart && s.isEmpty) trail [] := by
  rw [anchored_append plain]
  constructor
  · rintro ⟨taken, rest, rfl, matched, after⟩
    have ended : rest = [] := by
      rcases starts with rfl | starts
      · exact after
      · obtain ⟨others, rfl⟩ := List.head?_eq_some_iff.mp starts
        exact (anchored_eol.mp after).1
    subst ended
    rw [List.append_nil]
    exact ⟨matched, after⟩
  · rintro ⟨matched, after⟩
    exact ⟨s, [], (List.append_nil s).symm, matched, after⟩

/-- A pattern is cut at the first end anchor. -/
theorem exists_trail (no_bol : m.bol ∉ pattern) : ∃ inner trail, pattern = inner ++ trail ∧
    Unanchored m inner ∧ (trail = [] ∨ trail.head? = some m.eol) := by
  by_cases ends : m.eol ∈ pattern
  · obtain ⟨inner, trail, rfl, first⟩ := List.eq_append_cons_of_mem ends
    exact ⟨inner, m.eol :: trail, rfl,
      ⟨fun member => no_bol (List.mem_append_left _ member), first⟩, .inr rfl⟩
  · exact ⟨pattern, [], (List.append_nil pattern).symm, ⟨no_bol, ends⟩, .inl rfl⟩

/-- An end anchor at the end of the pattern asks for nothing more. -/
theorem anchored_concat_eol :
    Anchored m atStart (pattern ++ [m.eol]) s ↔ Anchored m atStart pattern s := by
  induction pattern generalizing atStart s with
  | nil => rw [List.nil_append, anchored_eol, Anchored, and_self]
  | cons c pattern ih => simp only [List.cons_append, Anchored, ih]

/-- Both ways in which a pattern with anchors matches: as the glob between anchors that stand at
the edges, and the empty text as nothing but stars and anchors. -/
def EdgesMatch (m : Marks α) (pattern s : List α) : Prop :=
  (∃ lead inner trail, Edged m pattern lead inner trail ∧ Matches m.star inner s) ∨
    s = [] ∧ ∀ c ∈ pattern, c = m.star ∨ c = m.eol ∨ c = m.bol

/-- What stands up to the last start anchor matches at the start of the text only. -/
theorem anchored_lead {lead rest : List α} (ends : lead = [] ∨ lead.getLast? = some m.bol)
    (some_text : s ≠ []) : Anchored m true (lead ++ rest) s ↔
      (∀ c ∈ lead, c = m.star ∨ c = m.bol) ∧ Anchored m true rest s := by
  rcases ends with rfl | ends
  · rw [List.nil_append, and_iff_right (List.forall_mem_nil _)]
  · obtain ⟨front, rfl⟩ := List.getLast?_eq_some_iff.mp ends
    rw [List.append_assoc, List.singleton_append, anchored_before_bol some_text,
      List.forall_mem_append,
      List.forall_mem_singleton, and_iff_left (Or.inr rfl), and_iff_right rfl]

/-- A pattern is cut at the last start anchor. -/
theorem exists_lead (pattern : List α) : ∃ lead rest, pattern = lead ++ rest ∧ m.bol ∉ rest ∧
    (lead = [] ∨ lead.getLast? = some m.bol) := by
  by_cases starts : m.bol ∈ pattern
  · obtain ⟨front, rest, rfl, last⟩ := Bytes.exists_last_of_mem starts
    exact ⟨front ++ [m.bol], rest, by simp, last, .inr List.getLast?_concat⟩
  · exact ⟨[], pattern, rfl, starts, .inl rfl⟩

theorem anchored_empty_iff_marks :
    Anchored m true pattern [] ↔ ∀ c ∈ pattern, c = m.star ∨ c = m.eol ∨ c = m.bol := by
  simp [anchored_empty_iff]

theorem Edged.anchored {lead inner trail : List α} (edged : Edged m pattern lead inner trail)
    (some_text : s ≠ []) : Anchored m true pattern s ↔ Matches m.star inner s := by
  rw [edged.whole, anchored_lead edged.lead_ends some_text, and_iff_right edged.lead_marks,
    anchored_trail edged.inner_plain edged.trail_starts, anchored_empty_iff]
  exact and_iff_left fun c member => (edged.trail_marks c member).imp_right .inl

/-- A pattern with anchors matches by its edges. -/
theorem anchored_iff : Anchored m true pattern s ↔ EdgesMatch m pattern s := by
  by_cases empty : s = []
  · subst empty
    rw [anchored_empty_iff_marks]
    constructor
    · exact fun marks => .inr ⟨rfl, marks⟩
    · rintro (⟨lead, inner, trail, edged, matched⟩ | ⟨-, marks⟩)
      · -- a glob that matches the empty text has nothing but stars
        have inside : Anchored m false inner [] :=
          (anchored_iff_matches edged.inner_plain).mpr matched
        have stars := anchored_empty_iff.mp inside
        rw [edged.whole]
        intro c member
        rcases List.mem_append.mp member with first | member
        · exact (edged.lead_marks c first).imp_right .inr
        · rcases List.mem_append.mp member with middle | last
          · exact (stars c middle).imp_right fun both => both.imp_right fun no => no.1
          · exact (edged.trail_marks c last).imp_right .inl
      · exact marks
  · constructor
    · intro matched
      obtain ⟨lead, rest, rfl, no_bol, lead_ends⟩ := exists_lead (m := m) pattern
      obtain ⟨inner, trail, rfl, inner_plain, trail_starts⟩ := exists_trail no_bol
      obtain ⟨lead_marks, matched⟩ := (anchored_lead lead_ends empty).mp matched
      obtain ⟨matched, ended⟩ := (anchored_trail inner_plain trail_starts).mp matched
      refine .inl ⟨lead, inner, trail, ⟨rfl, lead_marks, lead_ends, inner_plain, ?_, trail_starts⟩,
        matched⟩
      -- behind the last start anchor there is no other
      intro c member
      rcases anchored_empty_iff.mp ended c member with star | eol | bol
      · exact .inl star
      · exact .inr eol
      · exact absurd (List.mem_append_right inner (bol.1 ▸ member)) no_bol
    · rintro (⟨lead, inner, trail, edged, matched⟩ | ⟨none, -⟩)
      · exact (edged.anchored empty).mpr matched
      · exact absurd none empty

/-! ### Where the anchors matter -/

/-- Every character of the pattern besides is in a text that it matches. -/
theorem EdgesMatch.mem (matched : EdgesMatch m pattern s) (member : c ∈ pattern)
    (plain : c ≠ m.star ∧ c ≠ m.bol ∧ c ≠ m.eol) : c ∈ s := by
  rcases matched with ⟨lead, inner, trail, edged, matched⟩ | ⟨-, marks⟩
  · rw [edged.whole] at member
    rcases List.mem_append.mp member with first | member
    · exact absurd (edged.lead_marks c first) (not_or.mpr ⟨plain.1, plain.2.1⟩)
    · rcases List.mem_append.mp member with middle | last
      · exact mem_of_matches matched middle plain.1
      · exact absurd (edged.trail_marks c last) (not_or.mpr ⟨plain.1, plain.2.2⟩)
  · exact absurd (marks c member) (not_or.mpr ⟨plain.1, not_or.mpr ⟨plain.2.2, plain.2.1⟩⟩)

omit [DecidableEq α] in
theorem Edged.mem_inner {lead inner trail : List α} (edged : Edged m pattern lead inner trail)
    (member : c ∈ inner) : c ∈ pattern := by
  rw [edged.whole]
  exact List.mem_append_right _ (List.mem_append_left _ member)

/-- With an anchor in it, the pattern does not match some text of its own characters as it does
where the anchors are characters like others. -/
theorem exists_misread (anchor : ¬Unanchored m pattern) : ∃ s, (∀ c ∈ s, c ∈ pattern) ∧
    ¬(Anchored m true pattern s ↔ Matches m.star pattern s) := by
  have some_anchor : ∃ c ∈ pattern, c ≠ m.star ∧ (c = m.bol ∨ c = m.eol) := by
    rw [Unanchored, not_and_or, not_not, not_not] at anchor
    rcases anchor with member | member
    · exact ⟨m.bol, member, m.bol_ne_star, .inl rfl⟩
    · exact ⟨m.eol, member, m.eol_ne_star, .inr rfl⟩
  obtain ⟨a, member, not_star, is_anchor⟩ := some_anchor
  by_cases edges : ∃ lead inner trail, Edged m pattern lead inner trail
  · -- the part between the edges matches itself, but has no anchor
    obtain ⟨lead, inner, trail, edged⟩ := edges
    refine ⟨literals m.star inner, fun c inside =>
      edged.mem_inner (List.mem_of_mem_filter inside), ?_⟩
    rw [anchored_iff]
    intro agree
    have matched := agree.mp (.inl ⟨lead, inner, trail, edged, matches_literals inner⟩)
    have inside : a ∈ inner := List.mem_of_mem_filter (mem_of_matches matched member not_star)
    rcases is_anchor with rfl | rfl
    · exact edged.inner_plain.1 inside
    · exact edged.inner_plain.2 inside
  · refine ⟨literals m.star pattern, fun c inside => List.mem_of_mem_filter inside, ?_⟩
    rw [anchored_iff]
    intro agree
    rcases agree.mpr (matches_literals pattern) with ⟨lead, inner, trail, edged, -⟩ | ⟨empty, -⟩
    · exact edges ⟨lead, inner, trail, edged⟩
    · have inside := mem_of_matches (matches_literals pattern) member not_star
      rw [empty] at inside
      exact absurd inside List.not_mem_nil

end Glob

import Mathlib.Data.List.Basic

/-!
# Lines of Gemini text

What a reader of Gemini text sees: a line that begins with three backticks opens or closes a
preformatted block, and outside of those a line that begins with an arrow is a link. The target is
what stands between the blanks behind the arrow and the next blank.
-/
namespace Gemtext

abbrev Text := List UInt8

def blank (c : UInt8) : Bool := c == 32 || c == 9

def arrow : Text := [61, 62]

/-- The line opens or closes a preformatted block. -/
def fence (line : Text) : Bool := [96, 96, 96].isPrefixOf line

/-- Where a line leads, if it is a link. -/
def target (line : Text) : Option Text :=
  if arrow.isPrefixOf line then
    match ((line.drop 2).dropWhile blank).takeWhile fun c => !blank c with
    | [] => none
    | place => some place
  else none

/-- Links among some lines, of which the first may be preformatted. -/
def linksFrom : Bool → List Text → List Text
  | _, [] => []
  | preformatted, line :: lines =>
    if fence line then linksFrom (!preformatted) lines
    else if preformatted then linksFrom true lines
    else (target line).toList ++ linksFrom false lines

/-- The links of a text, in their order. -/
def links (text : Text) : List Text := linksFrom false (text.splitOn 10)

def line (text : Text) : Text := text ++ [10]

/-! ### Texts put together from lines -/

/-- The target stands between blanks and either a blank or the end of the line. -/
theorem target_link {blanks place label : Text} (spaces : ∀ c ∈ blanks, blank c = true)
    (some_place : place ≠ []) (solid : ∀ c ∈ place, blank c = false)
    (ends : ∀ c, label.head? = some c → blank c = true) :
    target (arrow ++ (blanks ++ (place ++ label))) = some place := by
  have begins : arrow.isPrefixOf (arrow ++ (blanks ++ (place ++ label))) = true := rfl
  have behind : (arrow ++ (blanks ++ (place ++ label))).drop 2 = blanks ++ (place ++ label) := rfl
  -- the blanks in front end where the place begins, and the place ends at the label's blank
  have skipped : (blanks ++ (place ++ label)).dropWhile blank = place ++ label := by
    rw [List.dropWhile_append_of_pos spaces]
    cases place with
    | nil => exact absurd rfl some_place
    | cons c place => exact List.dropWhile_cons_of_neg (by simp [solid c List.mem_cons_self])
  have cut : (place ++ label).takeWhile (fun c => !blank c) = place := by
    rw [List.takeWhile_append_of_pos fun c member => by simp [solid c member]]
    cases label with
    | nil => exact List.append_nil _
    | cons c label => rw [List.takeWhile_cons_of_neg (by simp [ends c rfl]), List.append_nil]
  rw [target, if_pos begins, behind, skipped, cut]
  cases place with
  | nil => exact absurd rfl some_place
  | cons c place => rfl

theorem target_other {line : Text} (other : line.head? ≠ some 61) : target line = none := by
  cases line with
  | nil => rfl
  | cons c line =>
    refine if_neg fun begins => other ?_
    simp only [arrow, List.isPrefixOf, Bool.and_eq_true, beq_iff_eq] at begins
    rw [← begins.1]
    rfl

theorem not_fence {line : Text} (other : line.head? ≠ some 96) : fence line = false := by
  refine Bool.eq_false_iff.mpr fun begins => other ?_
  cases line with
  | nil => cases begins
  | cons c line =>
    simp only [fence, List.isPrefixOf, Bool.and_eq_true, beq_iff_eq] at begins
    rw [← begins.1]
    rfl

/-! ### Lines that are read as they were written -/

/-- No character in it ends a word or a line. -/
def Solid (text : Text) : Prop := ∀ c ∈ text, c ≠ 10 ∧ blank c = false

instance (text : Text) : Decidable (Solid text) := inferInstanceAs (Decidable (∀ c ∈ text, _))

/-- Lines that stay lines, none of which is a fence, and where those of them lead that are links. -/
structure Reads (lines targets : List Text) : Prop where
  single : ∀ line ∈ lines, 10 ∉ line
  plain : ∀ line ∈ lines, fence line = false
  targets : lines.filterMap target = targets

theorem Reads.nil : Reads [] [] := ⟨nofun, nofun, rfl⟩

theorem Reads.append {lines more targets others : List Text} (reads : Reads lines targets)
    (rest : Reads more others) : Reads (lines ++ more) (targets ++ others) := by
  refine ⟨fun line member => ?_, fun line member => ?_, ?_⟩
  · exact (List.mem_append.mp member).elim (reads.single line) (rest.single line)
  · exact (List.mem_append.mp member).elim (reads.plain line) (rest.plain line)
  · rw [List.filterMap_append, reads.targets, rest.targets]

theorem Reads.flatMap {α : Type} {items : List α} {lines targets : α → List Text}
    (each : ∀ item ∈ items, Reads (lines item) (targets item)) :
    Reads (items.flatMap lines) (items.flatMap targets) := by
  induction items with
  | nil => exact .nil
  | cons item items ih =>
    rw [List.forall_mem_cons] at each
    rw [List.flatMap_cons, List.flatMap_cons]
    exact each.1.append (ih each.2)

/-- A line that begins neither like a link nor like a fence. -/
theorem Reads.other {line : Text} (single : 10 ∉ line) (link : line.head? ≠ some 61)
    (tick : line.head? ≠ some 96) : Reads [line] [] where
  single _ member := by rwa [List.mem_singleton.mp member]
  plain _ member := by rw [List.mem_singleton.mp member, not_fence tick]
  targets := by rw [List.filterMap_cons_none (target_other link), List.filterMap_nil]

/-- A link whose label is apart from its target by a blank. -/
theorem Reads.link {blanks place label : Text} (spaces : ∀ c ∈ blanks, blank c = true)
    (some_place : place ≠ []) (solid : Solid place)
    (ends : ∀ c, label.head? = some c → blank c = true) (single : 10 ∉ label) :
    Reads [arrow ++ (blanks ++ (place ++ label))] [place] where
  single _ member := by
    rw [List.mem_singleton.mp member]
    simp only [List.mem_append, not_or]
    refine ⟨by decide, fun newline => ?_, fun newline => (solid 10 newline).1 rfl, single⟩
    exact absurd (spaces 10 newline) (by decide)
  plain _ member := by
    rw [List.mem_singleton.mp member]
    exact not_fence (by simp [arrow])
  targets := by
    rw [List.filterMap_cons_some
      (target_link spaces some_place (fun c member => (solid c member).2) ends),
      List.filterMap_nil]

end Gemtext

import Tlgs.Crawler.Page
import Tlgs.Robots.PathMatch

/-!
# Links that are no URIs

The loop of `isNonUriAction` with every position that it reads. Where the text has no colon, the
bound is `npos` and the loop ends at the terminator, so nothing behind it is read. Where the text
begins with a colon, the loop does not run, and an empty scheme is taken for one.
-/
namespace Tlgs

open Bytes

/-- A `std::string` is shorter than `npos`. -/
structure StdString where
  bytes : Str
  short : bytes.length < npos

/-- `str[i]`, up to the terminator; `none` is a position that must not be read. -/
def charAt (str : Str) (i : Nat) : Option UInt8 := (str ++ [0])[i]?

/-- The loop from `i` on; `none` if it reads too far, and if it has not ended when the fuel is used
up. -/
def onlyLetters (str : Str) (n : Nat) : Nat → Nat → Option Bool
  | 0, _ => none
  | fuel + 1, i =>
    if i < n then
      (charAt str i).bind fun c => if isalpha c = false then some false
        else onlyLetters str n fuel (i + 1)
    else some true

/-- `isNonUriAction` with its reads. -/
def readNonUriAction (str : Str) : Option Bool :=
  if contains (lit "://") str then some false
  else onlyLetters str ((find [colon] str).getD npos) (str.length + 2) 0

/-- The loop reads no position behind the terminator, and ends there at the latest. -/
theorem onlyLetters_eq (str : Str) (n : Nat) {fuel i : Nat} (inside : i ≤ str.length)
    (enough : str.length + 1 < fuel + i) :
    onlyLetters str n fuel i = some ((((str ++ [0]).drop i).take (n - i)).all isalpha) := by
  induction fuel generalizing i with
  | zero => omega
  | succ fuel ih =>
    simp only [onlyLetters]
    by_cases more : i < n
    · have room : i < (str ++ [0]).length := by
        rw [List.length_append, List.length_singleton]
        omega
      have reads : charAt str i = some (str ++ [0])[i] := List.getElem?_eq_getElem room
      have rounds : n - i = n - (i + 1) + 1 := by omega
      rw [if_pos more, reads, Option.bind_some, List.drop_eq_getElem_cons room, rounds,
        List.take_succ_cons, List.all_cons]
      cases letter : isalpha (str ++ [0])[i] with
      | false => rfl
      | true =>
        -- the terminator is no letter, so the loop has not come to it yet
        have before : i ≠ str.length := by
          rintro rfl
          rw [List.getElem_concat_length rfl] at letter
          cases letter
        rw [if_neg (by decide), ih (by omega) (by omega), Bool.true_and]
    · rw [if_neg more, Nat.sub_eq_zero_of_le (Nat.le_of_not_lt more)]
      rfl

theorem readNonUriAction_eq (str : StdString) :
    readNonUriAction str.bytes = some (isNonUriAction str.bytes) := by
  have short := str.short
  simp only [readNonUriAction, isNonUriAction]
  split
  next => rfl
  next =>
    rw [onlyLetters_eq str.bytes _ (Nat.zero_le _) (by omega), List.drop_zero, Nat.sub_zero]
    cases found : find [colon] str.bytes with
    | none =>
      -- the terminator is among the characters up to `npos`
      have all_read : (str.bytes ++ [0]).take npos = str.bytes ++ [0] := by
        rw [List.take_of_length_le]
        rw [List.length_append, List.length_singleton]
        omega
      rw [Option.getD_none, all_read, List.all_append]
      exact congrArg some (Bool.and_false _)
    | some n =>
      have inside : n ≤ str.bytes.length := by
        have lengths := congrArg List.length (split_of_find found)
        simp only [List.length_append, List.length_take, List.length_drop, List.length_singleton]
          at lengths
        omega
      rw [Option.getD_some, List.take_append_of_le_length inside]

/-! ### Which links are dropped -/

/-- A scheme of one or more letters, a colon and other text, but no URI with an authority. -/
def NonUriAction (str : Str) : Prop :=
  ¬lit "://" <:+: str ∧
    ∃ scheme rest, str = scheme ++ colon :: rest ∧ scheme ≠ [] ∧ ∀ c ∈ scheme, isalpha c = true

theorem find_colon {scheme : Str} (letters : ∀ c ∈ scheme, isalpha c = true) (rest : Str) :
    find [colon] (scheme ++ colon :: rest) = some scheme.length := by
  have absent : colon ∉ scheme := fun member => absurd (letters colon member) (by decide)
  exact find_cons_of_not_mem absent rest

/-- An empty scheme is dropped too. -/
theorem isNonUriAction_spec (str : Str) :
    isNonUriAction str = true ↔
      ¬lit "://" <:+: str ∧ ∃ scheme rest, str = scheme ++ colon :: rest ∧
        ∀ c ∈ scheme, isalpha c = true := by
  rw [← contains_iff, isNonUriAction]
  cases contains (lit "://") str with
  | true => simp
  | false =>
    simp only [Bool.false_eq_true, if_false, not_false_eq_true, true_and]
    constructor
    · intro dropped
      split at dropped
      · cases dropped
      next n found =>
        have splits := split_of_find found
        rw [List.append_assoc] at splits
        exact ⟨_, _, splits, List.all_eq_true.mp dropped⟩
    · -- a leading colon leaves no letter to look at
      rintro ⟨scheme, rest, rfl, letters⟩
      rw [find_colon letters rest]
      simpa using letters

theorem nonUriAction_iff {str : Str} :
    NonUriAction str ↔ isNonUriAction str = true ∧ str.head? ≠ some colon := by
  rw [isNonUriAction_spec, NonUriAction]
  constructor
  · rintro ⟨absent, scheme, rest, rfl, nonempty, letters⟩
    refine ⟨⟨absent, scheme, rest, rfl, letters⟩, ?_⟩
    obtain ⟨c, scheme, rfl⟩ := List.exists_cons_of_ne_nil nonempty
    have letter := letters c List.mem_cons_self
    intro first
    -- a colon is no letter
    cases first
    exact absurd letter (by decide)
  · rintro ⟨⟨absent, scheme, rest, rfl, letters⟩, first⟩
    refine ⟨absent, scheme, rest, rfl, ?_, letters⟩
    rintro rfl
    exact first rfl

/-- Every text is read up to its terminator at most, and the answer is right unless the text begins
with a colon and has no `://`. -/
theorem readNonUriAction_iff (str : StdString) :
    (∃ dropped, readNonUriAction str.bytes = some dropped ∧
      (dropped = true ↔ NonUriAction str.bytes)) ↔
      ¬(str.bytes.head? = some colon ∧ ¬lit "://" <:+: str.bytes) := by
  rw [readNonUriAction_eq, nonUriAction_iff]
  constructor
  · rintro ⟨dropped, answered, right⟩ ⟨first, absent⟩
    cases answered
    obtain ⟨rest, begins⟩ := List.head?_eq_some_iff.mp first
    -- the scheme in front of the colon is empty
    have dropped := (isNonUriAction_spec str.bytes).mpr ⟨absent, [], rest, begins, nofun⟩
    exact (right.mp dropped).2 first
  · intro other
    refine ⟨_, rfl, fun dropped => ⟨dropped, fun first => other ⟨first, ?_⟩⟩, And.left⟩
    exact ((isNonUriAction_spec str.bytes).mp dropped).1

/-- The relative link `:notes.gmi` is dropped, though no scheme stands before its colon. -/
theorem empty_scheme_dropped :
    readNonUriAction (lit ":notes.gmi") = some true ∧ ¬NonUriAction (lit ":notes.gmi") ∧
      linkUrl Env.small (Url.ofString 0 (lit "gemini://h/")) 0 (lit ":notes.gmi") = none ∧
      (linkCompose (Url.ofString 0 (lit "gemini://h/")) (lit ":notes.gmi")).str =
        lit "gemini://h/:notes.gmi" := by
  refine ⟨by decide, ?_, by decide, by decide⟩
  rw [nonUriAction_iff]
  decide

end Tlgs

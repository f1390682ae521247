import Tlgs.Base.Bytes
import Mathlib.Data.List.DropRight

/-!
# Lexical paths

`std::filesystem::path` on POSIX, as a function of the path's text: there is no root
name and `/` is the only separator. A path is read as the list of the texts between
its separators; normalisation runs these through a stack of names.
-/
namespace LexicalPath

open Bytes

def slash : UInt8 := 47
def dot : Str := [46]
def dotdot : Str := [46, 46]

/-- One text between separators, against the names kept so far (latest first). -/
def pushName (absolute : Bool) (stack : List Str) (name : Str) : List Str :=
  if name = [] ∨ name = dot then stack
  else if name = dotdot then
    match stack with
    | [] => if absolute then [] else [dotdot]
    | top :: rest => if top = dotdot then dotdot :: stack else rest
  else name :: stack

def reduceNames (absolute : Bool) (parts : List Str) : List Str :=
  (parts.foldl (pushName absolute) []).reverse

/-- The last text is empty or a dot name, so the path names a directory. -/
def namesDirectory (parts : List Str) : Bool :=
  match parts.getLast? with
  | none => false
  | some last => last == [] || last == dot || last == dotdot

def renderAbsolute (names : List Str) (directory : Bool) : Str :=
  [slash].intercalate ([] :: names ++ if directory ∨ names = [] then [[]] else [])

def renderRelative (names : List Str) (directory : Bool) : Str :=
  if names = [] then dot
  else [slash].intercalate names ++
    if directory ∧ names.getLast? ≠ some dotdot then [slash] else []

/-- `path::lexically_normal`. -/
def lexicallyNormal (s : Str) : Str :=
  let parts := s.splitOn slash
  if s = [] then []
  else if s.head? = some slash then
    renderAbsolute (reduceNames true parts) (namesDirectory parts)
  else renderRelative (reduceNames false parts) (namesDirectory parts)

/-- `operator/`: an absolute right side replaces the left one. -/
def append (p q : Str) : Str :=
  if q.head? = some slash then q
  else if p = [] ∨ p.getLast? = some slash then p ++ q
  else p ++ slash :: q

/-- `path::parent_path`. -/
def parentPath (s : Str) : Str :=
  let directory := s.rdropWhile (· != slash)
  let stripped := directory.rdropWhile (· == slash)
  if stripped = [] ∧ directory ≠ [] then [slash] else stripped

/-! ### Names that normalisation keeps -/

/-- A name normalisation neither drops nor climbs over. -/
def ProperName (name : Str) : Prop :=
  name ≠ [] ∧ name ≠ dot ∧ name ≠ dotdot ∧ slash ∉ name

def ProperNames (names : List Str) : Prop := ∀ name ∈ names, ProperName name

theorem not_mem_of_mem_splitOn {α : Type} [DecidableEq α] {sep : α} {s part : List α}
    (member : part ∈ s.splitOn sep) : sep ∉ part := by
  induction s generalizing part with
  | nil => simp_all
  | cons c s ih =>
    rw [List.splitOn_cons_eq_if_modifyHead] at member
    split at member
    -- a separator opens a new part
    next =>
      rcases List.mem_cons.mp member with rfl | later
      · simp
      · exact ih later
    -- another element joins the first part of the rest
    next differs =>
      cases split : s.splitOn sep with
      | nil => exact absurd split (List.splitOn_ne_nil sep s)
      | cons first rest =>
        rw [split, List.modifyHead_cons] at member
        rcases List.mem_cons.mp member with rfl | later
        · have tail : sep ∉ first := ih (by simp [split])
          have head : sep ≠ c := fun equal => differs (by simp [equal])
          simp [head, tail]
        · exact ih (by simp [split, later])

theorem mem_intercalate_of_mem {α : Type} {sep c : α} {part : List α} {parts : List (List α)}
    (member : part ∈ parts) (inside : c ∈ part) : c ∈ [sep].intercalate parts := by
  induction parts with
  | nil => cases member
  | cons first rest ih =>
    by_cases empty : rest = []
    · subst empty
      simp_all
    · rw [List.intercalate_cons_of_ne_nil empty]
      rcases List.mem_cons.mp member with rfl | later
      · simp [inside]
      · simp [ih later]

theorem mem_of_mem_splitOn {α : Type} [DecidableEq α] {sep : α} {s part : List α} {c : α}
    (member : part ∈ s.splitOn sep) (inside : c ∈ part) : c ∈ s := by
  have joined : c ∈ List.intercalate [sep] (s.splitOn sep) := mem_intercalate_of_mem member inside
  rwa [List.intercalate_splitOn] at joined

/-- Pushing a text keeps the stack proper when texts hold no separator. -/
theorem pushName_proper (stack : List Str) (name : Str) (proper : ProperNames stack)
    (free : slash ∉ name) : ProperNames (pushName true stack name) := by
  simp only [pushName]
  split
  next => exact proper
  next kept =>
    rw [not_or] at kept
    split
    next =>
      cases stack with
      | nil => exact proper
      | cons top rest =>
        -- no kept name is a dot-dot, so the top is dropped
        have top_proper := proper top (List.mem_cons_self ..)
        change ProperNames (if top = dotdot then _ else rest)
        rw [if_neg top_proper.2.2.1]
        exact fun n member => proper n (List.mem_cons_of_mem _ member)
    next climbs =>
      intro n member
      rcases List.mem_cons.mp member with rfl | later
      · exact ⟨kept.1, kept.2, climbs, free⟩
      · exact proper n later

theorem foldl_pushName_proper (parts stack : List Str) (proper : ProperNames stack)
    (free : ∀ part ∈ parts, slash ∉ part) :
    ProperNames (parts.foldl (pushName true) stack) := by
  induction parts generalizing stack with
  | nil => exact proper
  | cons part parts ih =>
    exact ih _ (pushName_proper stack part proper (free part (by simp)))
      (fun p member => free p (by simp [member]))

theorem reduceNames_proper (parts : List Str) (free : ∀ part ∈ parts, slash ∉ part) :
    ProperNames (reduceNames true parts) := by
  intro name member
  exact foldl_pushName_proper parts [] (by simp [ProperNames]) free name (by
    simpa [reduceNames] using member)

theorem pushName_of_proper {stack : List Str} {name : Str} (proper : ProperName name) :
    pushName true stack name = name :: stack := by
  simp [pushName, proper.1, proper.2.1, proper.2.2.1]

theorem foldl_pushName_of_proper (names stack : List Str) (proper : ProperNames names) :
    names.foldl (pushName true) stack = names.reverse ++ stack := by
  induction names generalizing stack with
  | nil => rfl
  | cons name names ih =>
    rw [List.foldl_cons, pushName_of_proper (proper name (by simp)),
      ih _ (fun n member => proper n (by simp [member]))]
    simp

@[simp] theorem pushName_nil (absolute : Bool) (stack : List Str) :
    pushName absolute stack [] = stack := by
  simp [pushName]

/-! ### Normal absolute paths -/

theorem splitOn_renderAbsolute {names : List Str} {directory : Bool} (proper : ProperNames names) :
    (renderAbsolute names directory).splitOn slash =
      [] :: names ++ if directory ∨ names = [] then [[]] else [] := by
  apply List.splitOn_intercalate
  · intro part member
    have cases : part = [] ∨ part ∈ names := by
      simp only [List.cons_append, List.mem_cons, List.mem_append] at member
      rcases member with empty | inside | tail
      · exact Or.inl empty
      · exact Or.inr inside
      · left
        split at tail <;> simp_all
    rcases cases with rfl | inside
    · simp
    · exact (proper part inside).2.2.2
  · simp

theorem renderAbsolute_head (names : List Str) (directory : Bool) :
    ∃ rest, renderAbsolute names directory = slash :: rest := by
  simp only [renderAbsolute]
  cases names with
  | nil => exact ⟨[], by simp⟩
  | cons name names =>
    exact ⟨_, by rw [List.cons_append, List.intercalate_cons_of_ne_nil (by simp)]; rfl⟩

theorem reduceNames_renderAbsolute {names : List Str} (directory : Bool)
    (proper : ProperNames names) :
    reduceNames true ((renderAbsolute names directory).splitOn slash) = names := by
  rw [splitOn_renderAbsolute proper, reduceNames, List.cons_append, List.foldl_cons, pushName_nil,
    List.foldl_append, foldl_pushName_of_proper names [] proper]
  split <;> simp

theorem namesDirectory_renderAbsolute {names : List Str} {directory : Bool}
    (proper : ProperNames names) :
    namesDirectory ((renderAbsolute names directory).splitOn slash) = true ↔
      directory = true ∨ names = [] := by
  rw [splitOn_renderAbsolute proper]
  split
  next marked => simp [namesDirectory, marked, List.getLast?_cons]
  next plain =>
    rw [not_or] at plain
    have last : names.getLast? = some (names.getLast plain.2) :=
      List.getLast?_eq_some_getLast plain.2
    have last_proper := proper _ (List.getLast_mem plain.2)
    simp only [List.append_nil, namesDirectory, List.getLast?_cons, last, Option.getD_some]
    simp [last_proper.1, last_proper.2.1, last_proper.2.2.1, plain]

theorem renderAbsolute_congr (names : List Str) {d e : Bool}
    (h : (d = true ∨ names = []) ↔ (e = true ∨ names = [])) :
    renderAbsolute names d = renderAbsolute names e := by
  simp only [renderAbsolute, h]

/-- A rendered list of proper names is already normal. -/
theorem lexicallyNormal_renderAbsolute {names : List Str} {directory : Bool}
    (proper : ProperNames names) :
    lexicallyNormal (renderAbsolute names directory) = renderAbsolute names directory := by
  obtain ⟨rest, starts⟩ := renderAbsolute_head names directory
  have nonempty : renderAbsolute names directory ≠ [] := by simp [starts]
  have rooted : (renderAbsolute names directory).head? = some slash := by simp [starts]
  simp only [lexicallyNormal, nonempty, rooted, if_false, if_true,
    reduceNames_renderAbsolute directory proper]
  apply renderAbsolute_congr
  rw [namesDirectory_renderAbsolute proper]
  tauto

theorem lexicallyNormal_absolute {s : Str} (rooted : s.head? = some slash) :
    lexicallyNormal s =
      renderAbsolute (reduceNames true (s.splitOn slash)) (namesDirectory (s.splitOn slash)) := by
  have nonempty : s ≠ [] := by rintro rfl; simp at rooted
  simp [lexicallyNormal, nonempty, rooted]

theorem splitOn_proper (s : Str) : ProperNames (reduceNames true (s.splitOn slash)) :=
  reduceNames_proper _ (fun _ => not_mem_of_mem_splitOn)

/-- Normalisation of an absolute path is idempotent. -/
theorem lexicallyNormal_idem {s : Str} (rooted : s.head? = some slash) :
    lexicallyNormal (lexicallyNormal s) = lexicallyNormal s := by
  rw [lexicallyNormal_absolute rooted]
  exact lexicallyNormal_renderAbsolute (splitOn_proper s)

/-- No text between two separators of a normal absolute path is a dot name. -/
theorem not_dots_of_normal {s part : Str} (rooted : s.head? = some slash)
    (member : part ∈ (lexicallyNormal s).splitOn slash) : part ≠ dot ∧ part ≠ dotdot := by
  rw [lexicallyNormal_absolute rooted, splitOn_renderAbsolute (splitOn_proper s), List.cons_append]
    at member
  rcases List.mem_cons.mp member with rfl | member
  · decide
  · rcases List.mem_append.mp member with kept | last
    · have proper := splitOn_proper s part kept
      exact ⟨proper.2.1, proper.2.2.1⟩
    · have empty : part = [] := by
        split at last <;> simp_all
      subst empty
      decide

theorem lexicallyNormal_rooted {s : Str} (rooted : s.head? = some slash) :
    (lexicallyNormal s).head? = some slash := by
  rw [lexicallyNormal_absolute rooted]
  obtain ⟨rest, starts⟩ := renderAbsolute_head (reduceNames true (s.splitOn slash))
    (namesDirectory (s.splitOn slash))
  simp [starts]

theorem renderAbsolute_injective {names others : List Str} {directory : Bool}
    (proper : ProperNames names) (proper' : ProperNames others)
    (h : renderAbsolute names directory = renderAbsolute others directory) : names = others := by
  rw [← reduceNames_renderAbsolute directory proper, h,
    reduceNames_renderAbsolute directory proper']

/-! ### Characters of a normal path -/

theorem mem_intercalate {sep c : UInt8} {parts : List Str}
    (member : c ∈ [sep].intercalate parts) : c = sep ∨ ∃ part ∈ parts, c ∈ part := by
  induction parts with
  | nil => simp at member
  | cons first rest ih =>
    by_cases empty : rest = []
    · subst empty
      exact Or.inr ⟨first, by simp, by simpa using member⟩
    · rw [List.intercalate_cons_of_ne_nil empty] at member
      simp only [List.append_assoc, List.mem_append, List.mem_singleton] at member
      rcases member with here | here | later
      · exact Or.inr ⟨first, by simp, here⟩
      · exact Or.inl here
      · rcases ih later with here | ⟨part, below, found⟩
        · exact Or.inl here
        · exact Or.inr ⟨part, by simp [below], found⟩

theorem mem_pushName {absolute : Bool} {stack : List Str} {name kept : Str}
    (member : kept ∈ pushName absolute stack name) : kept ∈ stack ∨ kept = name := by
  simp only [pushName] at member
  split at member
  · exact Or.inl member
  · split at member
    -- ".." removes the name before it, or stays where there is none
    next climbs =>
      cases stack with
      | nil =>
        cases absolute <;> simp_all
      | cons top rest =>
        simp only at member
        split at member
        · rcases List.mem_cons.mp member with rfl | later
          · exact Or.inr climbs.symm
          · exact Or.inl later
        · exact Or.inl (List.mem_cons_of_mem _ member)
    · rcases List.mem_cons.mp member with rfl | later
      · exact Or.inr rfl
      · exact Or.inl later

theorem mem_foldl_pushName {absolute : Bool} {parts stack : List Str} {name : Str}
    (member : name ∈ parts.foldl (pushName absolute) stack) : name ∈ stack ∨ name ∈ parts := by
  induction parts generalizing stack with
  | nil => exact Or.inl member
  | cons part parts ih =>
    rcases ih member with stacked | later
    · rcases mem_pushName stacked with old | rfl
      · exact Or.inl old
      · exact Or.inr (by simp)
    · exact Or.inr (by simp [later])

theorem mem_reduceNames {absolute : Bool} {parts : List Str} {name : Str}
    (member : name ∈ reduceNames absolute parts) : name ∈ parts := by
  have pushed : name ∈ parts.foldl (pushName absolute) [] := by simpa [reduceNames] using member
  exact (mem_foldl_pushName pushed).resolve_left List.not_mem_nil

/-- Normalising an absolute path brings in no character but the separator. -/
theorem mem_lexicallyNormal {s : Str} {c : UInt8} (rooted : s.head? = some slash)
    (member : c ∈ lexicallyNormal s) : c = slash ∨ c ∈ s := by
  rw [lexicallyNormal_absolute rooted, renderAbsolute] at member
  rcases mem_intercalate member with here | ⟨part, below, inside⟩
  · exact Or.inl here
  · right
    simp only [List.cons_append, List.mem_cons, List.mem_append] at below
    rcases below with rfl | kept | tail
    · cases inside
    · exact mem_of_mem_splitOn (mem_reduceNames kept) inside
    · split at tail <;> simp_all

/-! ### Relative paths below a directory -/

/-- A relative path on its own: the levels it climbs above its start, and the names it
then descends into (latest first). -/
def climbStep (state : Nat × List Str) (name : Str) : Nat × List Str :=
  if name = [] ∨ name = dot then state
  else if name = dotdot then
    match state.2 with
    | [] => (state.1 + 1, [])
    | _ :: rest => (state.1, rest)
  else (state.1, name :: state.2)

def climb (relative : Str) : Nat × List Str :=
  (relative.splitOn slash).foldl climbStep (0, [])

/-- The names of the directory a path lies in: everything before its last separator. -/
def directoryNames (path : Str) : List Str :=
  reduceNames true (path.splitOn slash).dropLast

/-- The text of a relative path placed in the directory of a base path. -/
def joinDirectory (base relative : Str) : Str :=
  if base.getLast? = some slash then append base relative
  else append (parentPath base) relative

@[simp] theorem dotdot_not_skipped : ¬(dotdot = [] ∨ dotdot = dot) := by decide

theorem step_skipped {name : Str} (skipped : name = [] ∨ name = dot) (stack : List Str)
    (state : Nat × List Str) :
    pushName true stack name = stack ∧ climbStep state name = state := by
  simp [pushName, climbStep, skipped]

theorem step_name {name : Str} (kept : ¬(name = [] ∨ name = dot)) (plain : name ≠ dotdot)
    (stack names : List Str) (levels : Nat) :
    pushName true stack name = name :: stack ∧
      climbStep (levels, names) name = (levels, name :: names) := by
  simp [pushName, climbStep, kept, plain]

theorem pushName_dotdot {top : Str} (plain : top ≠ dotdot) (rest : List Str) :
    pushName true (top :: rest) dotdot = rest := by
  simp only [pushName, dotdot_not_skipped, if_false, if_true, plain]

/-- Climbing from a proper stack drops its top, and the root stays where it is. -/
theorem pushName_dotdot_proper {stack : List Str} (proper : ProperNames stack) (levels : Nat) :
    pushName true (stack.drop levels) dotdot = stack.drop (levels + 1) := by
  rw [← List.tail_drop]
  cases below : stack.drop levels with
  | nil => simp only [pushName, dotdot_not_skipped, if_false, if_true, List.tail_nil]
  | cons top rest =>
    have member : top ∈ stack := List.mem_of_mem_drop (by rw [below]; exact List.mem_cons_self ..)
    exact pushName_dotdot (proper top member).2.2.1 rest

theorem climbStep_dotdot (levels : Nat) (names : List Str) :
    climbStep (levels, names) dotdot =
      match names with
      | [] => (levels + 1, [])
      | _ :: rest => (levels, rest) := by
  simp only [climbStep, dotdot_not_skipped, if_false, if_true]

/-- Above a proper directory stack, climbing drops names and descending adds them. -/
theorem foldl_pushName_climb (parts stack names : List Str) (levels : Nat)
    (proper : ProperNames stack) (plain : ∀ name ∈ names, name ≠ dotdot) :
    parts.foldl (pushName true) (names ++ stack.drop levels) =
      (parts.foldl climbStep (levels, names)).2 ++
        stack.drop (parts.foldl climbStep (levels, names)).1 := by
  induction parts generalizing names levels with
  | nil => rfl
  | cons part parts ih =>
    simp only [List.foldl_cons]
    -- a skipped text, a dot-dot below or above the start, and a name to descend into
    by_cases skipped : part = [] ∨ part = dot
    · have same := step_skipped skipped (names ++ stack.drop levels) (levels, names)
      rw [same.1, same.2]
      exact ih names levels plain
    · by_cases climbs : part = dotdot
      · subst climbs
        rw [climbStep_dotdot]
        cases names with
        | nil =>
          rw [List.nil_append, pushName_dotdot_proper proper]
          exact ih [] (levels + 1) (by simp)
        | cons name names =>
          rw [List.cons_append, pushName_dotdot (plain name (by simp))]
          exact ih names levels (fun n member => plain n (by simp [member]))
      · have added := step_name skipped climbs (names ++ stack.drop levels) names levels
        rw [added.1, added.2]
        apply ih (part :: names) levels
        intro n member
        rcases List.mem_cons.mp member with rfl | old
        · exact climbs
        · exact plain n old

/-- A step keeps the names proper when the text holds no separator. -/
theorem climbStep_proper {names : List Str} {name : Str} (levels : Nat) (proper : ProperNames names)
    (free : slash ∉ name) : ProperNames (climbStep (levels, names) name).2 := by
  by_cases skipped : name = [] ∨ name = dot
  · rw [(step_skipped skipped [] (levels, names)).2]
    exact proper
  · by_cases climbs : name = dotdot
    · rw [climbs, climbStep_dotdot]
      cases names with
      | nil => exact proper
      | cons top rest => exact fun n member => proper n (by simp [member])
    · rw [(step_name skipped climbs [] names levels).2]
      rw [not_or] at skipped
      intro n member
      rcases List.mem_cons.mp member with rfl | old
      · exact ⟨skipped.1, skipped.2, climbs, free⟩
      · exact proper n old

theorem foldl_climbStep_proper {parts : List Str} {state : Nat × List Str}
    (proper : ProperNames state.2) (free : ∀ part ∈ parts, slash ∉ part) :
    ProperNames (parts.foldl climbStep state).2 := by
  induction parts generalizing state with
  | nil => exact proper
  | cons part parts ih =>
    apply ih
    · exact climbStep_proper state.1 proper (free part (by simp))
    · exact fun p member => free p (by simp [member])

/-- The names a relative path descends into are proper. -/
theorem climb_proper (relative : Str) : ProperNames (climb relative).2 :=
  foldl_climbStep_proper (by simp [ProperNames]) (fun _ => not_mem_of_mem_splitOn)

/-- Trailing separators add only empty texts, which normalisation skips. -/
theorem foldl_pushName_rdropWhile (s : Str) (stack : List Str) :
    ((s.rdropWhile (· == slash)).splitOn slash).foldl (pushName true) stack =
      (s.splitOn slash).foldl (pushName true) stack := by
  induction s using List.reverseRecOn with
  | nil => rfl
  | append_singleton s c ih =>
    rw [List.rdropWhile_concat]
    split
    next sep =>
      have equal : c = slash := by simpa using sep
      rw [ih, equal, List.splitOn_append_cons_self, List.foldl_append]
      simp
    next => rfl

theorem namesDirectory_append (parts : List Str) (s : Str) :
    namesDirectory (parts ++ s.splitOn slash) = namesDirectory (s.splitOn slash) := by
  rw [namesDirectory, namesDirectory,
    List.getLast?_append_of_ne_nil _ (List.splitOn_ne_nil slash s)]

theorem last_separator {p : Str} (rooted : p.head? = some slash) :
    ∃ front last, p = front ++ slash :: last ∧ slash ∉ last := by
  induction p using List.reverseRecOn with
  | nil => simp at rooted
  | append_singleton s c ih =>
    -- the last character is the separator, or belongs to the text after it
    by_cases sep : c = slash
    · exact ⟨s, [], by simp [sep], by simp⟩
    · cases s with
      | nil => simp at rooted; exact absurd rooted sep
      | cons d s =>
        obtain ⟨front, last, equal, free⟩ := ih (by simpa using rooted)
        refine ⟨front, last ++ [c], by simp [equal], ?_⟩
        simp [free, Ne.symm sep]

/-- `start` names the directory `front/`, and starts with a separator unless it is empty. -/
def StartsLike (front start : Str) : Prop :=
  (start = [] ∨ start.head? = some slash) ∧
    (start.splitOn slash).foldl (pushName true) [] = (front.splitOn slash).foldl (pushName true) []

theorem rdropWhile_slash_startsLike {front : Str} (rooted : front = [] ∨ front.head? = some slash) :
    StartsLike front (front.rdropWhile (· == slash)) := by
  refine ⟨?_, foldl_pushName_rdropWhile front []⟩
  by_cases gone : front.rdropWhile (· == slash) = []
  · exact Or.inl gone
  · right
    -- what is left of `front` is a prefix of it, and not empty
    obtain ⟨rest, prefix_eq⟩ := List.rdropWhile_prefix (p := (· == slash)) (l := front)
    rcases rooted with rfl | head
    · simp at gone
    · cases kept : front.rdropWhile (· == slash) with
      | nil => exact absurd kept gone
      | cons c tail =>
        rw [← prefix_eq, kept] at head
        simpa using head

/-- Up to the last separator. -/
theorem rdropWhile_last {last : Str} (free : slash ∉ last) (front : Str) :
    (front ++ slash :: last).rdropWhile (· != slash) = front ++ [slash] := by
  have plain : ∀ c ∈ last.reverse, (c != slash) = true := by
    intro c member
    rw [List.mem_reverse] at member
    rw [bne_iff_ne]
    rintro rfl
    exact free member
  have reversed : (front ++ slash :: last).reverse = last.reverse ++ slash :: front.reverse := by
    simp
  rw [List.rdropWhile, reversed, List.dropWhile_append_of_pos plain]
  simp

/-- The directory of a base path without a separator at its end. -/
theorem append_parentPath {front last relative : Str} (free : slash ∉ last)
    (rel : relative.head? ≠ some slash) :
    append (parentPath (front ++ slash :: last)) relative =
      front.rdropWhile (· == slash) ++ slash :: relative := by
  have directory := rdropWhile_last free front
  have stripped : (front ++ [slash]).rdropWhile (· == slash) = front.rdropWhile (· == slash) := by
    rw [List.rdropWhile_concat_pos _ _ _ (by simp)]
  simp only [parentPath, directory, stripped]
  by_cases gone : front.rdropWhile (· == slash) = []
  · -- only separators stand before the last one: the parent is the root
    simp [gone, append, rel]
  · have keeps : (front.rdropWhile (· == slash)).getLast? ≠ some slash := by
      rw [List.getLast?_eq_some_getLast gone]
      have := List.rdropWhile_last_not (· == slash) front gone
      simpa using this
    simp [gone, append, rel, keeps]

/-- Every branch of the join is a text with the names of the base's directory, a
separator, and the relative path. -/
theorem joinDirectory_text {front last relative : Str}
    (rooted : (front ++ slash :: last).head? = some slash) (free : slash ∉ last)
    (rel : relative.head? ≠ some slash) :
    ∃ start, joinDirectory (front ++ slash :: last) relative = start ++ slash :: relative ∧
      StartsLike front start := by
  have front_rooted : front = [] ∨ front.head? = some slash := by
    cases front with
    | nil => exact Or.inl rfl
    | cons c front => exact Or.inr (by simpa using rooted)
  by_cases ends : (front ++ slash :: last).getLast? = some slash
  · -- a base that ends in a slash is a directory itself
    have empty : last = [] := by
      by_contra nonempty
      rw [List.getLast?_append_of_ne_nil _ (by simp), List.getLast?_cons,
        List.getLast?_eq_some_getLast nonempty] at ends
      have here := List.getLast_mem nonempty
      simp only [Option.getD_some, Option.some.injEq] at ends
      exact free (ends ▸ here)
    subst empty
    refine ⟨front, ?_, front_rooted, rfl⟩
    simp [joinDirectory, append, rel]
  · -- of any other base the parent counts
    refine ⟨front.rdropWhile (· == slash), ?_, rdropWhile_slash_startsLike front_rooted⟩
    rw [joinDirectory, if_neg ends]
    exact append_parentPath free rel

theorem joinDirectory_rooted {base relative : Str} (rooted : base.head? = some slash)
    (rel : relative.head? ≠ some slash) : (joinDirectory base relative).head? = some slash := by
  obtain ⟨front, last, rfl, free⟩ := last_separator rooted
  obtain ⟨start, text, rfl | head, _⟩ := joinDirectory_text rooted free rel
  · simp [text]
  · rw [text]
    cases start with
    | nil => simp at head
    | cons c start => simpa using head

/-- A relative path normalises, below the directory of a rooted base, to that
directory's names less the levels it climbs, followed by the names it descends into. -/
theorem lexicallyNormal_joinDirectory {base relative : Str} (rooted : base.head? = some slash)
    (rel : relative.head? ≠ some slash) :
    lexicallyNormal (joinDirectory base relative) =
      renderAbsolute ((directoryNames base).rdrop (climb relative).1 ++ (climb relative).2.reverse)
        (namesDirectory (relative.splitOn slash)) := by
  have text_rooted := joinDirectory_rooted rooted rel
  obtain ⟨front, last, rfl, free⟩ := last_separator rooted
  have dir_parts : ((front ++ slash :: last).splitOn slash).dropLast = front.splitOn slash := by
    rw [List.splitOn_append_cons_self, List.splitOn_eq_singleton free]
    simp
  obtain ⟨start, text, _, same⟩ := joinDirectory_text rooted free rel
  have base_proper : ProperNames ((front.splitOn slash).foldl (pushName true) []) :=
    foldl_pushName_proper _ _ (by simp [ProperNames]) (fun _ => not_mem_of_mem_splitOn)
  rw [lexicallyNormal_absolute text_rooted, text, List.splitOn_append_cons_self,
    namesDirectory_append, reduceNames, List.foldl_append, same]
  -- the names of the directory are on the stack when those of the relative path come
  have folded := foldl_pushName_climb (relative.splitOn slash) _ [] 0 base_proper (by simp)
  simp only [List.drop_zero, List.nil_append] at folded
  rw [folded, List.reverse_append, directoryNames, reduceNames, dir_parts,
    List.rdrop_eq_reverse_drop_reverse, List.reverse_reverse]
  rfl

end LexicalPath

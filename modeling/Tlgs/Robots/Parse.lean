import Tlgs.Base.Greedy
import Tlgs.Base.OrderedSet
import Tlgs.Robots.PathMatch
import Tlgs.Url.Parser
import Mathlib.Data.List.DropRight

/-!
# Reading robots.txt

`parseRobotsTxt` of `robots_txt_parser.cpp`: the lines, the pattern that splits a line into
a key and a value, and the two flags and the set that the loop over the lines keeps. The
second half says which paths a robots.txt disallows without running the loop.
-/
namespace Tlgs

open Bytes

abbrev newline : UInt8 := 10
abbrev carriageReturn : UInt8 := 13

/-! ### Lines -/

/-- The lines `std::getline` reads: a newline ends a line, and none follows the last one. -/
def getLines : Str → List Str
  | [] => []
  | c :: s =>
    if c = newline then [] :: getLines s
    else
      match getLines s with
      | [] => [[c]]
      | line :: rest => (c :: line) :: rest

variable (replaceAll : Str → Str → Str → Str)

def robotsLines (str : Str) : List Str :=
  let lfStr :=
    if contains [carriageReturn, newline] str then
      replaceAll str [carriageReturn, newline] [newline]
    else str
  getLines lfStr

variable {replaceAll}

/-- The text without the carriage returns of its line ends. -/
def lineFeeds : Str → Str
  | [] => []
  | c :: s => if c = carriageReturn ∧ s.head? = some newline then lineFeeds s else c :: lineFeeds s

private theorem isPrefixOf_line_end (c : UInt8) (s : Str) :
    [carriageReturn, newline].isPrefixOf (c :: s) = true ↔
      c = carriageReturn ∧ s.head? = some newline := by
  rw [List.isPrefixOf_iff_prefix, List.cons_prefix_cons, eq_comm (a := carriageReturn)]
  refine and_congr_right fun _ => ?_
  cases s with
  | nil => simp
  | cons d s => simp [eq_comm (a := d)]

theorem newline_ne_carriageReturn : newline ≠ carriageReturn := by decide

private theorem lineFeeds_of_not_found {s : Str}
    (absent : find [carriageReturn, newline] s = none) :
    lineFeeds s = s := by
  induction s with
  | nil => rfl
  | cons c s ih =>
    simp only [find, isPrefixOf_line_end] at absent
    split at absent
    · cases absent
    next other => rw [lineFeeds, if_neg other, ih (Option.map_eq_none_iff.mp absent)]

private theorem lineFeeds_of_found {s : Str} {i : Nat}
    (found : find [carriageReturn, newline] s = some i) :
    lineFeeds s = s.take i ++ [newline] ++ lineFeeds (s.drop (i + 2)) := by
  induction s generalizing i with
  | nil => cases found
  | cons c s ih =>
    simp only [find, isPrefixOf_line_end] at found
    split at found
    next here =>
      -- the line ends here
      cases found
      cases s with
      | nil => cases here.2
      | cons d s =>
        cases here.2
        rw [lineFeeds, if_pos here, lineFeeds, if_neg fun both => newline_ne_carriageReturn both.1]
        rfl
    next other =>
      -- it ends further on
      obtain ⟨j, later, rfl⟩ := Option.map_eq_some_iff.mp found
      rw [lineFeeds, if_neg other, ih later]
      rfl

private theorem replaceAllFuel_line_ends {fuel : Nat} {s : Str} (enough : s.length ≤ fuel) :
    replaceAllFuel [carriageReturn, newline] [newline] fuel s = lineFeeds s := by
  induction fuel generalizing s with
  | zero =>
    rw [List.length_eq_zero_iff.mp (Nat.le_zero.mp enough)]
    rfl
  | succ fuel ih =>
    rw [replaceAllFuel]
    cases found : find [carriageReturn, newline] s with
    | none => exact (lineFeeds_of_not_found found).symm
    | some i =>
      have shorter : (s.drop (i + 2)).length ≤ fuel := by
        rw [List.length_drop]
        omega
      rw [lineFeeds_of_found found]
      exact congrArg (s.take i ++ [newline] ++ ·) (ih shorter)

/-- The lines of a text; a carriage return before a newline belongs to the end of its line. -/
def textLines (text : Str) : List Str := getLines (lineFeeds text)

theorem robotsLines_eq (replaces : ReplacesAll replaceAll) (text : Str) :
    robotsLines replaceAll text = textLines text := by
  rw [robotsLines, textLines]
  apply congrArg getLines
  split
  · rw [replaces _ _ _ (List.cons_ne_nil _ _), Bytes.replaceAll,
      replaceAllFuel_line_ends (Nat.le_refl _)]
  next absent => rw [lineFeeds_of_not_found (Option.not_isSome_iff_eq_none.mp absent)]

/-! ### The line pattern -/

/-- `[ \t]` -/
def isBlank (c : UInt8) : Bool := c == 32 || c == 9

/-- `.` -/
def isDot (c : UInt8) : Bool := !isLineTerminator c

/-- `[ \t]*(.*)` to the end of the line. -/
def matchValue (key s : Str) : Option (Str × Str) :=
  Greedy.repeated isBlank (fun _ s =>
    Greedy.repeated isDot (fun value s => if s = [] then some (key, value) else none) s) s

/-- `:` and the rest of the pattern after it. -/
def matchColon (key : Str) : Str → Option (Str × Str)
  | [] => none
  | c :: s => if c = colon then matchValue key s else none

/-- `std::regex_match` of a line against `[ \t]*(.*):[ \t]*(.*)`: the two groups. -/
def lineMatch (line : Str) : Option (Str × Str) :=
  Greedy.repeated isBlank (fun _ s => Greedy.repeated isDot matchColon s) line

/-! ### The loop -/

structure ParseState where
  disallowedPath : List Str := []
  care : Bool := true
  lastLineUserAgent : Bool := false
  deriving DecidableEq, Repr

/-- One round of the loop, for a line that matches. -/
def robotsMatch (agents : List Str) (st : ParseState) (key value : Str) : ParseState :=
  let key := key.map tolower
  let st : ParseState :=
    if key = lit "user-agent" then
      let agent := value
      let care :=
        if st.lastLineUserAgent then st.care || agents.contains agent else agents.contains agent
      { st with care, lastLineUserAgent := true }
    else { st with lastLineUserAgent := false }
  if key = lit "disallow" ∧ st.care = true then
    let path := value
    if path = [] then { st with disallowedPath := [] }
    else { st with disallowedPath := OrderedSet.insert path st.disallowedPath }
  else st

def robotsLine (agents : List Str) (st : ParseState) (line : Str) : ParseState :=
  match lineMatch line with
  | none => st
  | some (key, value) => robotsMatch agents st key value

def parseRobotsTxt (replaceAll : Str → Str → Str → Str) (str : Str) (agents : List Str) :
    List Str :=
  ((robotsLines replaceAll str).foldl (robotsLine agents) {}).disallowedPath

/-! ### What the pattern makes of a line -/

private theorem isDot_of_isBlank {c : UInt8} (blank : isBlank c = true) : isDot c = true := by
  rcases (Bool.or_eq_true _ _).mp blank with space | tab
  · rw [beq_iff_eq.mp space]
    rfl
  · rw [beq_iff_eq.mp tab]
    rfl

theorem dropWhile_before_colon (before after : Str) :
    (before ++ colon :: after).dropWhile isBlank = before.dropWhile isBlank ++ colon :: after := by
  induction before with
  | nil => rfl
  | cons c before ih =>
    simp only [List.cons_append, List.dropWhile_cons]
    split
    · exact ih
    · rfl

private theorem matchValue_of_dots {key s : Str} (dots : ∀ c ∈ s, isDot c = true) :
    matchValue key s = some (key, s.dropWhile isBlank) := by
  have value_dots : ∀ c ∈ s.dropWhile isBlank, isDot c = true := fun c member =>
    dots c ((List.dropWhile_sublist _).mem member)
  apply Greedy.repeated_eq_takeWhile
  apply Greedy.repeated_eq_takeWhile
  rw [List.takeWhile_eq_self_iff.mpr value_dots,
    List.dropWhile_eq_nil_iff.mpr value_dots, if_pos rfl]

private theorem matchValue_eq_none {key s : Str} (some_not : ¬∀ c ∈ s, isDot c = true) :
    matchValue key s = none := by
  refine Greedy.repeated_eq_none fun blanks rest same all => ?_
  refine Greedy.repeated_eq_none fun value rest' same' all' => ?_
  split
  next empty =>
    subst empty same' same
    refine absurd (fun c member => ?_) some_not
    rcases List.mem_append.mp member with blank | taken
    · exact isDot_of_isBlank (all c blank)
    · rw [List.append_nil] at taken
      exact all' c taken
  · rfl

/-- The pattern splits a line at its last colon. -/
theorem lineMatch_of_last_colon (before after : Str) (dots : ∀ c ∈ before ++ after, isDot c = true)
    (last : colon ∉ after) :
    lineMatch (before ++ colon :: after) =
      some (before.dropWhile isBlank, after.dropWhile isBlank) := by
  have key_dots : ∀ c ∈ before.dropWhile isBlank, isDot c = true := fun c member =>
    dots c (List.mem_append_left _ ((List.dropWhile_sublist _).mem member))
  apply Greedy.repeated_eq_takeWhile
  rw [dropWhile_before_colon]
  apply Greedy.repeated_eq_some key_dots
  · rw [matchColon, if_pos rfl]
    exact matchValue_of_dots fun c member => dots c (List.mem_append_right _ member)
  · -- a longer key would end at a colon after the last one
    intro more rest some_more same _
    cases more with
    | nil => exact absurd rfl some_more
    | cons d more =>
      cases same with | refl =>
      cases rest with
      | nil => rfl
      | cons c rest =>
        rw [matchColon, if_neg]
        rintro rfl
        exact last (List.mem_append_right _ List.mem_cons_self)

/-- A line with a line terminator in it, or without a colon, does not match. -/
theorem lineMatch_eq_none {line : Str}
    (unreadable : (¬∀ c ∈ line, isDot c = true) ∨ colon ∉ line) : lineMatch line = none := by
  refine Greedy.repeated_eq_none fun blanks s same all => ?_
  refine Greedy.repeated_eq_none fun key rest same' all' => ?_
  cases rest with
  | nil => rfl
  | cons c rest =>
    rw [matchColon]
    split
    -- the rest of the line would have to match, colon and all
    next at_colon =>
      subst at_colon same' same
      apply matchValue_eq_none
      intro dots
      rcases unreadable with terminator | absent
      · refine terminator fun c member => ?_
        simp only [List.mem_append, List.mem_cons] at member
        rcases member with blank | taken | rfl | later
        · exact isDot_of_isBlank (all c blank)
        · exact all' c taken
        · rfl
        · exact dots c later
      · exact absent (List.mem_append_right _ (List.mem_append_right _ List.mem_cons_self))
    · rfl

/-! ### Directives -/

/-- What a matching line is for. -/
inductive Directive where
  | userAgent (agent : Str)
  | disallow (path : Str)
  | other
  deriving DecidableEq, Repr

def directive (key value : Str) : Directive :=
  if key.map tolower = lit "user-agent" then .userAgent value
  else if key.map tolower = lit "disallow" then .disallow value
  else .other

/-- The lines of a text as some way to split them reads them. -/
def directivesBy (split : Str → Option (Str × Str)) (text : Str) : List Directive :=
  (textLines text).filterMap fun line => (split line).map fun parts => directive parts.1 parts.2

/-- The lines of a text as the pattern reads them. -/
abbrev directives (text : Str) : List Directive := directivesBy lineMatch text

/-- A round of the loop by what its line is for. -/
def obey (agents : List Str) (st : ParseState) : Directive → ParseState
  | .userAgent agent =>
    { st with
      care := (st.lastLineUserAgent && st.care) || agents.contains agent
      lastLineUserAgent := true }
  | .disallow path =>
    { st with
      disallowedPath :=
        if st.care = false then st.disallowedPath
        else if path = [] then [] else OrderedSet.insert path st.disallowedPath
      lastLineUserAgent := false }
  | .other => { st with lastLineUserAgent := false }

private theorem disallow_ne_userAgent : lit "disallow" ≠ lit "user-agent" := by decide

private theorem robotsMatch_eq_obey (agents : List Str) (st : ParseState) (key value : Str) :
    robotsMatch agents st key value = obey agents st (directive key value) := by
  simp only [robotsMatch, directive]
  by_cases agent : key.map tolower = lit "user-agent"
  · have other : key.map tolower ≠ lit "disallow" := fun disallow =>
      disallow_ne_userAgent (disallow.symm.trans agent)
    rw [if_pos agent, if_pos agent, if_neg fun both => other both.1, obey]
    cases st.lastLineUserAgent <;> rfl
  · rw [if_neg agent, if_neg agent]
    by_cases disallow : key.map tolower = lit "disallow"
    · rw [if_pos disallow, obey]
      obtain ⟨paths, care, last⟩ := st
      cases care with
      | false => simp [disallow]
      | true => by_cases empty : value = [] <;> simp [disallow, empty]
    · rw [if_neg disallow, if_neg fun both => disallow both.1, obey]

/-- The loop obeys the directives in turn. -/
theorem parse_eq_obey (replaces : ReplacesAll replaceAll) (text : Str) (agents : List Str) :
    parseRobotsTxt replaceAll text agents =
      ((directives text).foldl (obey agents) {}).disallowedPath := by
  have rounds : ∀ (lines : List Str) (st : ParseState), lines.foldl (robotsLine agents) st =
      (lines.filterMap fun line =>
        (lineMatch line).map fun parts => directive parts.1 parts.2).foldl (obey agents) st := by
    intro lines
    induction lines with
    | nil => intro st; rfl
    | cons line lines ih =>
      intro st
      rw [List.foldl_cons, ih, robotsLine]
      -- a line that does not match leaves the state, and gives no directive
      cases found : lineMatch line with
      | none => simp [found]
      | some parts => simp [found, robotsMatch_eq_obey]
  rw [parseRobotsTxt, rounds, robotsLines_eq replaces]
  rfl

/-! ### Which paths are disallowed -/

/-- The agents of the User-agent lines at the head of what was seen, latest first. -/
def leadingAgents : List Directive → List Str
  | .userAgent agent :: past => agent :: leadingAgents past
  | _ => []

/-- The agents of the maximal run of User-agent lines most recently seen. -/
def latestAgents : List Directive → List Str
  | [] => []
  | .userAgent agent :: past => agent :: leadingAgents past
  | _ :: past => latestAgents past

/-- Whether a Disallow after these lines, latest first, is for one of the agents. -/
def InForce (agents : List Str) (past : List Directive) : Prop :=
  latestAgents past = [] ∨ ∃ agent ∈ latestAgents past, agent ∈ agents

instance (agents : List Str) (past : List Directive) : Decidable (InForce agents past) :=
  inferInstanceAs (Decidable (_ ∨ _))

/-- The values of the Disallow lines in force, in order. -/
def valuesInForce (agents : List Str) : List Directive → List Directive → List Str
  | _, [] => []
  | past, .userAgent agent :: rest => valuesInForce agents (.userAgent agent :: past) rest
  | past, .disallow path :: rest =>
    (if InForce agents past then [path] else []) ++ valuesInForce agents
      (.disallow path :: past) rest
  | past, .other :: rest => valuesInForce agents (.other :: past) rest

/-- The values after the last empty one. -/
def afterLastEmpty (values : List Str) : List Str := values.rtakeWhile (fun value => !value.isEmpty)

/-- What a text disallows: sorted, without duplicates, the values after the last empty one
among those in force. -/
def Disallows (agents : List Str) (lines : List Directive) (paths : List Str) : Prop :=
  OrderedSet.Ascending paths ∧
    ∀ path, path ∈ paths ↔ path ∈ afterLastEmpty (valuesInForce agents [] lines)

theorem Disallows.unique {agents : List Str} {lines : List Directive} {paths paths' : List Str}
    (first : Disallows agents lines paths) (second : Disallows agents lines paths') :
    paths = paths' :=
  OrderedSet.eq_of_mem_iff first.1 second.1 fun path => (first.2 path).trans (second.2 path).symm

/-- What the flags and the set say about the lines read so far. -/
structure Tracks (agents : List Str) (past : List Directive) (values : List Str) (st : ParseState) :
    Prop where
  care : st.care = true ↔ InForce agents past
  last : st.lastLineUserAgent = true ↔ leadingAgents past ≠ []
  ascending : OrderedSet.Ascending st.disallowedPath
  paths : ∀ path, path ∈ st.disallowedPath ↔ path ∈ afterLastEmpty values

private theorem tracks_start (agents : List Str) : Tracks agents [] [] {} where
  care := by simp [InForce, latestAgents]
  last := by simp [leadingAgents]
  ascending := OrderedSet.ascending_nil
  paths := by simp [afterLastEmpty]

/-- After a User-agent line the run it ends is the one at the head. -/
theorem latestAgents_of_leading {past : List Directive} (leading : leadingAgents past ≠ []) :
    latestAgents past = leadingAgents past := by
  cases past with
  | nil => rfl
  | cons d past =>
    cases d with
    | userAgent agent => rfl
    | disallow path => exact absurd rfl leading
    | other => exact absurd rfl leading

private theorem tracks_userAgent {agents : List Str} {past : List Directive} {values : List Str}
    {st : ParseState} (agent : Str) (tracks : Tracks agents past values st) :
    Tracks agents (.userAgent agent :: past) values (obey agents st (.userAgent agent)) where
  care := by
    simp only [obey, InForce, latestAgents, Bool.or_eq_true, Bool.and_eq_true, tracks.care,
      tracks.last, List.contains_iff_mem]
    by_cases leading : leadingAgents past = []
    · -- a new run forgets what `care` was before
      simp [leading]
    · simp [leading, latestAgents_of_leading leading, or_comm]
  last := by simp [obey, leadingAgents]
  ascending := tracks.ascending
  paths := tracks.paths

theorem afterLastEmpty_concat (values : List Str) (value : Str) :
    afterLastEmpty (values ++ [value]) = if value = [] then []
      else afterLastEmpty values ++ [value] := by
  rw [afterLastEmpty, List.rtakeWhile_concat]
  cases value with
  | nil => rfl
  | cons c value => rfl

private theorem tracks_disallow {agents : List Str} {past : List Directive} {values : List Str}
    {st : ParseState} (path : Str) (tracks : Tracks agents past values st) :
    Tracks agents (.disallow path :: past) (values ++ if InForce agents past then [path] else [])
      (obey agents st (.disallow path)) where
  care := tracks.care
  last := by simp [obey, leadingAgents]
  ascending := by
    simp only [obey]
    split
    · exact tracks.ascending
    · split
      · exact OrderedSet.ascending_nil
      · exact OrderedSet.ascending_insert tracks.ascending
  paths := by
    intro value
    simp only [obey]
    cases care : st.care with
    | false =>
      -- the line is for other robots
      have idle : ¬InForce agents past := fun inForce => by
        rw [tracks.care.mpr inForce] at care
        cases care
      rw [if_pos rfl, if_neg idle, List.append_nil]
      exact tracks.paths value
    | true =>
      rw [if_neg (by simp), if_pos (tracks.care.mp care), afterLastEmpty_concat]
      split
      · -- an empty value clears the set
        rfl
      · rw [OrderedSet.mem_insert, tracks.paths, List.mem_append, List.mem_singleton, or_comm]

private theorem tracks_other {agents : List Str} {past : List Directive} {values : List Str}
    {st : ParseState} (tracks : Tracks agents past values st) :
    Tracks agents (.other :: past) values (obey agents st .other) where
  care := tracks.care
  last := by simp [obey, leadingAgents]
  ascending := tracks.ascending
  paths := tracks.paths

/-- The flags and the set keep saying it over a whole run. -/
theorem tracks_run {agents : List Str} (lines : List Directive) {past : List Directive}
    {values : List Str} {st : ParseState} (tracks : Tracks agents past values st) :
    Tracks agents (lines.reverse ++ past) (values ++ valuesInForce agents past lines)
      (lines.foldl (obey agents) st) := by
  induction lines generalizing past values st with
  | nil => simpa [valuesInForce] using tracks
  | cons d lines ih =>
    rw [List.reverse_cons, List.append_assoc, List.foldl_cons]
    cases d with
    | userAgent agent => exact ih (tracks_userAgent agent tracks)
    | disallow path =>
      have run := ih (tracks_disallow path tracks)
      rwa [List.append_assoc] at run
    | other => exact ih (tracks_other tracks)

/-- The result is what the lines, as the pattern reads them, disallow. -/
theorem parse_disallows (replaces : ReplacesAll replaceAll) (text : Str) (agents : List Str) :
    Disallows agents (directives text) (parseRobotsTxt replaceAll text agents) := by
  have run := tracks_run (directives text) (tracks_start agents)
  rw [parse_eq_obey replaces]
  exact ⟨run.ascending, run.paths⟩

/-! ### Lines split at their first colon -/

/-- A line at its first colon: leading blanks dropped, the value everything that remains after
the blanks behind the colon. -/
def firstSplit (line : Str) : Option (Str × Str) :=
  if colon ∈ line then
    some ((line.takeWhile (· != colon)).dropWhile isBlank,
      ((line.dropWhile (· != colon)).drop 1).dropWhile isBlank)
  else none

/-- The pattern can only read a line with a colon right if it has no second one, and no
carriage return either. -/
def OneColon (line : Str) : Prop :=
  colon ∈ line → line.count colon = 1 ∧ carriageReturn ∉ line

instance (line : Str) : Decidable (OneColon line) := inferInstanceAs (Decidable (_ → _))

private theorem firstSplit_of_first_colon {before : Str} (after : Str) (first : colon ∉ before) :
    firstSplit (before ++ colon :: after) =
      some (before.dropWhile isBlank, after.dropWhile isBlank) := by
  have all : ∀ c ∈ before, (c != colon) = true := fun c member =>
    bne_iff_ne.mpr fun equal => first (equal ▸ member)
  rw [firstSplit, if_pos (List.mem_append_right _ List.mem_cons_self),
    List.takeWhile_append_of_pos all, List.dropWhile_append_of_pos all]
  simp

private theorem newline_not_mem_getLines {line text : Str} (member : line ∈ getLines text) :
    newline ∉ line := by
  induction text generalizing line with
  | nil => cases member
  | cons c text ih =>
    simp only [getLines] at member
    split at member
    · -- a newline opens a line
      rcases List.mem_cons.mp member with rfl | later
      · exact List.not_mem_nil
      · exact ih later
    next other =>
      -- another byte joins the first line of the rest
      have differs : newline ≠ c := fun equal => other equal.symm
      split at member
      · rw [List.mem_singleton] at member
        subst member
        simpa using differs
      next first rest lines =>
        rw [lines] at ih
        rcases List.mem_cons.mp member with rfl | later
        · simpa [differs] using ih List.mem_cons_self
        · exact ih (List.mem_cons_of_mem _ later)

theorem dots_iff {line : Str} (one_line : newline ∉ line) :
    (∀ c ∈ line, isDot c = true) ↔ carriageReturn ∉ line := by
  constructor
  · intro dots member
    cases dots _ member
  · intro absent c member
    simp only [isDot, isLineTerminator, Bool.not_eq_true', Bool.or_eq_false_iff,
      beq_eq_false_iff_ne]
    constructor
    · rintro rfl
      exact one_line member
    · rintro rfl
      exact absent member

/-- Any other line is split at the last of its colons. -/
theorem lineMatch_of_mem_colon {line : Str} (one_line : newline ∉ line) (colons : colon ∈ line)
    (returns : carriageReturn ∉ line) :
    ∃ before after, line = before ++ colon :: after ∧ colon ∉ after ∧
      lineMatch line = some (before.dropWhile isBlank, after.dropWhile isBlank) := by
  obtain ⟨before, after, rfl, last⟩ := exists_last_of_mem colons
  have dots := (dots_iff one_line).mpr returns
  exact ⟨before, after, rfl, last, lineMatch_of_last_colon before after
    (fun c member => dots c (List.mem_append.mpr ((List.mem_append.mp member).imp_right
      (List.mem_cons_of_mem _)))) last⟩

private theorem colon_not_mem_key {line key value : Str}
    (split : firstSplit line = some (key, value)) :
    colon ∉ key := by
  rw [firstSplit] at split
  split at split
  · cases split
    intro member
    have before := List.mem_takeWhile_imp ((List.dropWhile_sublist _).mem member)
    exact absurd rfl (bne_iff_ne.mp before)
  · cases split

private theorem colon_mem_dropWhile {before : Str} (colons : colon ∈ before) :
    colon ∈ before.dropWhile isBlank := by
  obtain ⟨front, rest, rfl⟩ := List.append_of_mem colons
  rw [dropWhile_before_colon]
  exact List.mem_append_right _ List.mem_cons_self

/-- The pattern splits a line at its first colon exactly if there is one colon at most. -/
theorem lineMatch_eq_firstSplit_iff {line : Str} (one_line : newline ∉ line) :
    lineMatch line = firstSplit line ↔ OneColon line := by
  by_cases colons : colon ∈ line
  · by_cases returns : carriageReturn ∈ line
    · -- the pattern matches no line with a carriage return in it
      have unmatched : lineMatch line = none :=
        lineMatch_eq_none (Or.inl fun dots => (dots_iff one_line).mp dots returns)
      rw [unmatched, firstSplit, if_pos colons]
      exact iff_of_false nofun fun one => (one colons).2 returns
    · obtain ⟨before, after, rfl, last, matched⟩ := lineMatch_of_mem_colon one_line colons returns
      have count : (before ++ colon :: after).count colon = before.count colon + 1 := by
        rw [List.count_append, List.count_cons_self, List.count_eq_zero_of_not_mem last]
      by_cases first : colon ∈ before
      · -- the key of the match has a colon of its own
        have more := List.count_pos_iff.mpr first
        refine iff_of_false (fun same => ?_) fun one => ?_
        · rw [matched] at same
          exact colon_not_mem_key same.symm (colon_mem_dropWhile first)
        · have single := (one colons).1
          omega
      · -- the last colon is the first one
        rw [matched, firstSplit_of_first_colon after first]
        refine iff_of_true rfl fun _ => ⟨?_, returns⟩
        rw [count, List.count_eq_zero_of_not_mem first]
  · have idle : OneColon line := fun member => absurd member colons
    rw [lineMatch_eq_none (Or.inr colons), firstSplit, if_neg colons]
    exact iff_of_true rfl idle

/-- The directives of a text whose lines are split at their first colon. -/
abbrev documented (text : Str) : List Directive := directivesBy firstSplit text

/-- Each line is split at its first colon, and the result is what the lines so split disallow. -/
def ReadsFirstColons (replaceAll : Str → Str → Str → Str) (text : Str) (agents : List Str) : Prop :=
  (∀ line ∈ robotsLines replaceAll text, lineMatch line = firstSplit line) ∧
    Disallows agents (documented text) (parseRobotsTxt replaceAll text agents)

/-- A line whose only possible fault is a second colon behind something other than an agent. -/
def AgentsReadable (line : Str) : Prop :=
  (colon ∈ line → carriageReturn ∉ line) ∧
    ∀ parts agent, firstSplit line = some parts → directive parts.1 parts.2 = .userAgent agent →
      OneColon line

/-- A directive as the pattern reads it: what has a colon in its value is something else. -/
def misread : Directive → Directive
  | .disallow path => if colon ∈ path then .other else .disallow path
  | d => d

/-- A key with a character that neither name has. -/
theorem directive_of_mem {c : UInt8} {key : Str} (value : Str) (member : c ∈ key)
    (foreign : tolower c ∉ lit "user-agent" ∧ tolower c ∉ lit "disallow") :
    directive key value = .other := by
  have lower : tolower c ∈ key.map tolower := List.mem_map.mpr ⟨c, member, rfl⟩
  rw [directive, if_neg, if_neg]
  · intro disallow
    exact foreign.2 (disallow ▸ lower)
  · intro agent
    exact foreign.1 (agent ▸ lower)

private theorem misread_of_no_colon {key value : Str} (absent : colon ∉ value) :
    misread (directive key value) = directive key value := by
  simp only [directive]
  split
  · rfl
  · split
    · rw [misread, if_neg absent]
    · rfl

private theorem misread_of_colon {key value : Str} (colons : colon ∈ value)
    (no_agent : ∀ agent, directive key value ≠ .userAgent agent) :
    misread (directive key value) = .other := by
  simp only [directive] at no_agent ⊢
  split
  next agent => exact absurd (if_pos agent) (no_agent value)
  · split
    · rw [misread, if_pos colons]
    · rfl

private theorem misread_line {line : Str} (one_line : newline ∉ line)
    (readable : AgentsReadable line) :
    ((lineMatch line).map fun parts => directive parts.1 parts.2) =
      ((firstSplit line).map fun parts => directive parts.1 parts.2).map misread := by
  by_cases colons : colon ∈ line
  · obtain ⟨before, after, rfl, last, matched⟩ :=
      lineMatch_of_mem_colon one_line colons (readable.1 colons)
    rw [matched]
    by_cases first : colon ∈ before
    · -- the pattern reads a key with a colon in it, which is no directive's
      rw [Option.map_some, directive_of_mem _ (colon_mem_dropWhile first) (by decide)]
      obtain ⟨front, between, rfl, absent⟩ := List.eq_append_cons_of_mem first
      have whole := firstSplit_of_first_colon (between ++ colon :: after) absent
      have same : front ++ colon :: (between ++ colon :: after) =
          front ++ colon :: between ++ colon :: after := by simp
      rw [same] at whole
      rw [whole, Option.map_some, Option.map_some, misread_of_colon]
      · exact colon_mem_dropWhile (List.mem_append_right _ List.mem_cons_self)
      · intro agent isAgent
        have single := (readable.2 _ agent whole isAgent colons).1
        simp only [List.count_append, List.count_cons_self] at single
        omega
    · rw [firstSplit_of_first_colon after first, Option.map_some, Option.map_some,
        misread_of_no_colon]
      exact fun member => last ((List.dropWhile_sublist _).mem member)
  · rw [lineMatch_eq_none (Or.inr colons), firstSplit, if_neg colons]
    rfl

/-! ### What a second colon does to the result -/

private theorem leadingAgents_misread (past : List Directive) :
    leadingAgents (past.map misread) = leadingAgents past := by
  induction past with
  | nil => rfl
  | cons d past ih =>
    cases d with
    | userAgent agent => exact congrArg (agent :: ·) ih
    | disallow path =>
      simp only [List.map_cons, misread]
      split <;> rfl
    | other => rfl

private theorem latestAgents_misread (past : List Directive) :
    latestAgents (past.map misread) = latestAgents past := by
  induction past with
  | nil => rfl
  | cons d past ih =>
    cases d with
    | userAgent agent => exact congrArg (agent :: ·) (leadingAgents_misread past)
    | disallow path =>
      simp only [List.map_cons, misread]
      split
      · exact ih
      · exact ih
    | other => exact ih

private theorem valuesInForce_misread (agents : List Str) (past lines : List Directive) :
    valuesInForce agents (past.map misread) (lines.map misread) =
      (valuesInForce agents past lines).filter (fun path => decide (colon ∉ path)) := by
  induction lines generalizing past with
  | nil => rfl
  | cons d lines ih =>
    have tail := ih (d :: past)
    cases d with
    | userAgent agent => exact tail
    | other => exact tail
    | disallow path =>
      have inForce : InForce agents (past.map misread) ↔ InForce agents past := by
        simp only [InForce, latestAgents_misread]
      rw [List.map_cons] at tail ⊢
      rw [valuesInForce, List.filter_append, ← tail]
      by_cases colons : colon ∈ path
      · -- the line is lost, but it ends the run of agents all the same
        have other : misread (.disallow path) = .other := if_pos colons
        rw [other, valuesInForce]
        split <;> simp [colons]
      · have same : misread (.disallow path) = .disallow path := if_neg colons
        rw [same, valuesInForce]
        simp only [inForce]
        split <;> simp [colons]

private theorem afterLastEmpty_filter (values : List Str) {keep : Str → Bool}
    (empty : keep [] = true) :
    afterLastEmpty (values.filter keep) = (afterLastEmpty values).filter keep := by
  induction values using List.reverseRecOn with
  | nil => rfl
  | append_singleton values value ih =>
    rw [List.filter_append, afterLastEmpty_concat]
    by_cases kept : keep value = true
    · -- an empty value is kept, and separates as before
      have stays : [value].filter keep = [value] := List.filter_cons_of_pos kept
      rw [stays, afterLastEmpty_concat]
      split
      · rfl
      · rw [List.filter_append, stays, ih]
    · have some_text : value ≠ [] := fun equal => kept (equal ▸ empty)
      have dropped : [value].filter keep = [] := List.filter_cons_of_neg kept
      rw [dropped, List.append_nil, if_neg some_text, List.filter_append, dropped,
        List.append_nil, ih]

private theorem directives_misread {text : Str}
    (readable : ∀ line ∈ textLines text, AgentsReadable line) :
    directives text = (documented text).map misread := by
  rw [documented, directivesBy, List.map_filterMap]
  exact List.filterMap_congr fun line member =>
    misread_line (newline_not_mem_getLines member) (readable line member)

/-- The lines are read as split at their first colon exactly if each has one colon at most, and
no carriage return beside one. Where only a value can have a second colon, the result is still
right if and only if none of the values that count has one. -/
theorem reads_first_colons_iff (replaces : ReplacesAll replaceAll) (text : Str)
    (agents : List Str) :
    (ReadsFirstColons replaceAll text agents ↔ ∀ line ∈ textLines text, OneColon line) ∧
      ((∀ line ∈ textLines text, AgentsReadable line) →
        (Disallows agents (documented text) (parseRobotsTxt replaceAll text agents) ↔
          ∀ path ∈ afterLastEmpty (valuesInForce agents [] (documented text)), colon ∉ path)) := by
  rw [ReadsFirstColons, robotsLines_eq replaces]
  have split_iff : ∀ line ∈ textLines text, (lineMatch line = firstSplit line ↔ OneColon line) :=
    fun line member => lineMatch_eq_firstSplit_iff (newline_not_mem_getLines member)
  have read := parse_disallows replaces text agents
  refine ⟨⟨fun reads line member => (split_iff line member).mp (reads.1 line member), ?_⟩, ?_⟩
  · -- the directives are the documented ones
    intro one
    have same : ∀ line ∈ textLines text, lineMatch line = firstSplit line := fun line member =>
      (split_iff line member).mpr (one line member)
    have equal : directives text = documented text :=
      List.filterMap_congr fun line member => by rw [same line member]
    rw [equal] at read
    exact ⟨same, read⟩
  · -- the directives are the documented ones but for values with a colon
    intro readable
    rw [directives_misread readable, Disallows,
      show ([] : List Directive) = [].map misread from rfl, valuesInForce_misread,
      afterLastEmpty_filter _ (by decide)] at read
    constructor
    · intro right path member
      have kept := (read.2 path).mp ((right.2 path).mpr member)
      exact of_decide_eq_true (List.mem_filter.mp kept).2
    · intro plain
      refine ⟨read.1, fun path => (read.2 path).trans ?_⟩
      rw [List.mem_filter]
      exact and_iff_left_of_imp fun member => decide_eq_true (plain path member)

theorem reads_first_colons_iff_disallow :
    ReadsFirstColons Bytes.replaceAll (lit "User-agent: *\r\nDisallow: /foo\r\n") [lit "*"] := by
  apply (reads_first_colons_iff (fun _ _ _ _ => rfl) _ _).1.mpr
  decide

/-- The path of `Disallow: /foo:bar` is lost. -/
theorem second_colon_not_disallowed :
    ¬Disallows [lit "*"] (documented (lit "User-agent: *\nDisallow: /foo:bar\n"))
      (parseRobotsTxt Bytes.replaceAll (lit "User-agent: *\nDisallow: /foo:bar\n") [lit "*"]) := by
  intro right
  have listed := (right.2 (lit "/foo:bar")).mpr (by decide)
  revert listed
  decide

end Tlgs

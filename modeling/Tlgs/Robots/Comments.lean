import Tlgs.Robots.Groups

/-!
# Comments in a robots.txt

The loop knows no comments: a comment line with a colon is a line like others. It is for none of
the directives, but it ends a run of User-agent lines, so what the group disallows may from then
on be for the robots of the second part of the run only.
-/
namespace Tlgs

open Bytes

/-! ### A comment line -/

/-- One line, the first character of which that is not a blank is `#`. -/
def IsComment (line : Str) : Prop := newline ∉ line ∧ (line.dropWhile isBlank).head? = some 35

instance (line : Str) : Decidable (IsComment line) := inferInstanceAs (Decidable (_ ∧ _))

/-- The line without a carriage return at its end. -/
def withoutReturn (line : Str) : Str :=
  if line.getLast? = some carriageReturn then line.dropLast else line

/-- The pattern matches the line. -/
def ReadsColon (line : Str) : Prop :=
  colon ∈ withoutReturn line ∧ carriageReturn ∉ withoutReturn line

instance (line : Str) : Decidable (ReadsColon line) := inferInstanceAs (Decidable (_ ∧ _))

private theorem lineFeeds_line {line : Str} (one_line : newline ∉ line) :
    lineFeeds (line ++ [newline]) = withoutReturn line ++ [newline] := by
  induction line with
  | nil => rfl
  | cons c line ih =>
    rw [List.mem_cons, not_or] at one_line
    rw [List.cons_append, lineFeeds]
    cases line with
    | nil =>
      -- the last character stands before the newline
      by_cases ends : c = carriageReturn
      · subst ends
        rfl
      · rw [if_neg fun both => ends both.1, withoutReturn, List.getLast?_singleton,
          if_neg fun same => ends (Option.some.inj same)]
        rfl
    | cons d line =>
      have inside : ¬(c = carriageReturn ∧ (d :: line ++ [newline]).head? = some newline) := by
        rintro ⟨-, same⟩
        exact one_line.2 (Option.some.inj same ▸ List.mem_cons_self)
      rw [if_neg inside, ih one_line.2, withoutReturn, withoutReturn, List.getLast?_cons_cons]
      split <;> rfl

private theorem getLines_line {line : Str} (one_line : newline ∉ line) :
    getLines (line ++ [newline]) = [line] := by
  induction line with
  | nil => rfl
  | cons c line ih =>
    rw [List.mem_cons, not_or] at one_line
    rw [List.cons_append, getLines, if_neg (Ne.symm one_line.1), ih one_line.2]

private theorem mem_of_mem_withoutReturn {c : UInt8} {line : Str}
    (member : c ∈ withoutReturn line) :
    c ∈ line := by
  rw [withoutReturn] at member
  split at member
  · exact List.dropLast_subset line member
  · exact member

/-- The number sign stands before the colon at which the pattern splits the line. -/
private theorem sign_mem_key {before after : Str} (comment : IsComment (before ++ colon :: after)) :
    35 ∈ before.dropWhile isBlank := by
  have first := comment.2
  rw [dropWhile_before_colon] at first
  cases key : before.dropWhile isBlank with
  | nil =>
    rw [key] at first
    exact absurd (Option.some.inj first) (by decide)
  | cons c rest =>
    rw [key] at first
    rw [Option.some.inj first]
    exact List.mem_cons_self

private theorem isComment_withoutReturn {line : Str} (comment : IsComment line) :
    IsComment (withoutReturn line) := by
  refine ⟨fun member => comment.1 (mem_of_mem_withoutReturn member), ?_⟩
  rw [withoutReturn]
  split
  next ends =>
    obtain ⟨front, rfl⟩ := List.getLast?_eq_some_iff.mp ends
    have first := comment.2
    rw [List.dropLast_concat]
    -- the carriage return is not the first character that is not a blank
    rw [List.dropWhile_append] at first
    cases rest : front.dropWhile isBlank with
    | nil =>
      rw [rest] at first
      exact absurd first (by decide)
    | cons c tail =>
      rw [rest] at first
      exact first
  next => exact comment.2

/-- The pattern reads a comment as a line for nothing, or not at all. -/
theorem directives_comment {line : Str} (comment : IsComment line) :
    directives (line ++ [newline]) = if ReadsColon line then [.other] else [] := by
  have comment' := isComment_withoutReturn comment
  rw [directives, directivesBy, textLines, lineFeeds_line comment.1, getLines_line comment'.1]
  split
  -- the key has the sign in it, so it is none of those known
  next reads =>
    obtain ⟨before, after, split, -, matched⟩ :=
      lineMatch_of_mem_colon comment'.1 reads.1 reads.2
    rw [split] at comment'
    refine List.filterMap_cons_some ?_
    rw [matched, Option.map_some, directive_of_mem _ (sign_mem_key comment') (by decide)]
  next unread =>
    have none : lineMatch (withoutReturn line) = none := by
      apply lineMatch_eq_none
      rw [dots_iff comment'.1]
      exact (not_and_or.mp unread).symm
    refine List.filterMap_cons_none ?_
    rw [none, Option.map_none]

/-! ### The end of a run of User-agent lines -/

/-- The lines of the first group after its User-agent lines. -/
def groupRules (lines : List Directive) : List Directive :=
  (lines.dropWhile isUserAgent).takeWhile fun d => !isUserAgent d

/-- The lines after the first group. -/
def laterGroups (lines : List Directive) : List Directive :=
  (lines.dropWhile isUserAgent).dropWhile fun d => !isUserAgent d

private theorem takeWhile_isUserAgent (lines : List Directive) :
    lines.takeWhile isUserAgent = (leadingAgents lines).map .userAgent := by
  induction lines with
  | nil => rfl
  | cons d lines ih =>
    cases d with
    | userAgent agent => exact congrArg (Directive.userAgent agent :: ·) ih
    | disallow path => rfl
    | other => rfl

theorem lines_eq_groups (lines : List Directive) :
    lines = (leadingAgents lines).map .userAgent ++ (groupRules lines ++ laterGroups lines) := by
  rw [groupRules, laterGroups, List.takeWhile_append_dropWhile, ← takeWhile_isUserAgent,
    List.takeWhile_append_dropWhile]

theorem opensGroup_laterGroups (lines : List Directive) : OpensGroup (laterGroups lines) := by
  intro d first
  have opens := List.head?_dropWhile_not (fun d => !isUserAgent d) (lines.dropWhile isUserAgent)
  rw [← laterGroups, first] at opens
  cases d with
  | userAgent agent => exact ⟨agent, rfl⟩
  | disallow path => cases opens
  | other => cases opens

theorem groupRules_no_agents (lines : List Directive) :
    ∀ d ∈ groupRules lines, isUserAgent d = false := by
  intro d member
  simpa using List.mem_takeWhile_imp member

/-- The run of User-agent lines at the head is complete: what follows it is a rule or nothing. -/
theorem laterGroups_eq_nil {lines : List Directive} (unruled : groupRules lines = []) :
    laterGroups lines = [] := by
  rw [groupRules, laterGroups] at *
  cases rest : lines.dropWhile isUserAgent with
  | nil => rfl
  | cons d rest' =>
    have other := List.head?_dropWhile_not isUserAgent lines
    rw [rest] at other unruled
    rw [List.head?_cons] at other
    simp [other] at unruled

/-- The values of a text that starts with User-agent lines, which may go on a run before them. -/
theorem valuesInForce_groups_run (agents : List Str) (past : List Directive)
    {lines : List Directive} (run : leadingAgents lines ≠ []) :
    valuesInForce agents past lines =
      (if Applies agents (leadingAgents past) ∨ Applies agents (leadingAgents lines) then
        (groupRules lines).filterMap disallowed else []) ++
      valuesInForce agents [] (laterGroups lines) := by
  have inForce : InForce agents (((leadingAgents lines).map .userAgent).reverse ++ past) ↔
      Applies agents (leadingAgents past) ∨ Applies agents (leadingAgents lines) := by
    have leading := leadingAgents_agents (leadingAgents lines) past
    have named : leadingAgents (((leadingAgents lines).map .userAgent).reverse ++ past) ≠ [] := by
      rw [leading]
      simp [run]
    rw [InForce, latestAgents_of_leading named, leading, or_iff_right (by simp [run])]
    simp only [Applies, List.mem_append, List.mem_reverse, or_and_right, exists_or]
    exact or_comm
  conv_lhs => rw [lines_eq_groups lines]
  rw [valuesInForce_append, valuesInForce_agents, List.nil_append, valuesInForce_append,
    valuesInForce_rules agents (groupRules_no_agents lines)]
  simp only [inForce]
  refine congrArg _ ?_
  by_cases unruled : groupRules lines = []
  · rw [laterGroups_eq_nil unruled]
    rfl
  · -- the rules close the group
    refine valuesInForce_of_opens agents (leadingAgents_eq_nil fun d last => ?_) rfl
      (opensGroup_laterGroups lines)
    refine groupRules_no_agents lines d ?_
    rw [List.head?_append_of_ne_nil _ (by simpa using unruled), List.head?_reverse] at last
    exact List.mem_of_getLast? last

/-- A line for nothing changes what follows only by the end of a run of User-agent lines. -/
theorem valuesInForce_other (agents : List Str) {past lines : List Directive}
    (no_run : leadingAgents past = [] ∨ leadingAgents lines = []) :
    valuesInForce agents (.other :: past) lines = valuesInForce agents past lines := by
  have latest : latestAgents (.other :: past) = latestAgents past := rfl
  rcases no_run with closed | closed
  · have leading : leadingAgents (.other :: past) = leadingAgents past := closed.symm
    exact valuesInForce_congr agents leading latest lines
  · cases lines with
    | nil => rfl
    | cons d lines =>
      cases d with
      | userAgent agent => cases closed
      | disallow path =>
        have leading : leadingAgents (.disallow path :: .other :: past) =
            leadingAgents (.disallow path :: past) := rfl
        rw [valuesInForce, valuesInForce, valuesInForce_congr agents leading latest lines]
        rfl
      | other =>
        have leading : leadingAgents (.other :: .other :: past) = leadingAgents (.other :: past) :=
          rfl
        exact valuesInForce_congr agents leading latest lines

/-! ### What a comment does to the result -/

/-- What the group adds or lifts, after the values before it, is so without it. -/
def Redundant (before group later : List Str) : Prop :=
  [] ∈ later ∨ ∀ path, path ∉ later →
    (path ∈ afterLastEmpty (before ++ group) ↔ path ∈ afterLastEmpty before)

theorem redundant_iff {before group later : List Str} :
    (∀ path, path ∈ afterLastEmpty (before ++ (group ++ later)) ↔
      path ∈ afterLastEmpty (before ++ later)) ↔
      Redundant before group later := by
  rw [← List.append_assoc]
  simp only [afterLastEmpty_append _ later]
  rw [Redundant]
  by_cases lifts : [] ∈ later
  · simp [lifts]
  · simp only [lifts, if_false, false_or, List.mem_append, afterLastEmpty_eq_self lifts]
    refine forall_congr' fun path => ?_
    by_cases again : path ∈ later
    · simp [again]
    · simp [again]

/-- The text up to the comment ends in a run of User-agent lines that names one of the agents, and
goes on after it with more such lines, which name none. -/
def CutsRun (agents : List Str) (before after : List Directive) : Prop :=
  leadingAgents after ≠ [] ∧ Applies agents (leadingAgents before.reverse) ∧
    ¬Applies agents (leadingAgents after)

instance (agents : List Str) (before after : List Directive) :
    Decidable (CutsRun agents before after) :=
  inferInstanceAs (Decidable (_ ∧ _ ∧ ¬_))

/-- A line for nothing, between others. -/
private theorem afterLastEmpty_other_iff (agents : List Str) (before after : List Directive) :
    (∀ path, path ∈ afterLastEmpty (valuesInForce agents [] (before ++ [.other] ++ after)) ↔
        path ∈ afterLastEmpty (valuesInForce agents [] (before ++ after))) ↔
      ¬CutsRun agents before after ∨
        Redundant (valuesInForce agents [] before) ((groupRules after).filterMap disallowed)
          (valuesInForce agents [] (laterGroups after)) := by
  have between : valuesInForce agents [] (before ++ [.other] ++ after) =
      valuesInForce agents [] before ++ valuesInForce agents (.other :: before.reverse) after := by
    rw [valuesInForce_append, valuesInForce_append]
    simp [valuesInForce]
  have without : valuesInForce agents [] (before ++ after) =
      valuesInForce agents [] before ++ valuesInForce agents before.reverse after := by
    rw [valuesInForce_append, List.append_nil]
  have ended : ¬Applies agents (leadingAgents (.other :: before.reverse)) := by
    simp [leadingAgents, Applies]
  rw [between, without]
  by_cases cuts : CutsRun agents before after
  · -- the group is for the agents only without the line
    obtain ⟨run, named, others⟩ := cuts
    rw [or_iff_right (not_not.mpr ⟨run, named, others⟩), ← redundant_iff,
      valuesInForce_groups_run agents _ run, valuesInForce_groups_run agents _ run,
      if_neg (not_or.mpr ⟨ended, others⟩), if_pos (.inl named), List.nil_append]
    exact forall_congr' fun path => iff_comm
  · have same : valuesInForce agents (.other :: before.reverse) after =
        valuesInForce agents before.reverse after := by
      by_cases run : leadingAgents after = []
      · exact valuesInForce_other agents (.inr run)
      · have applies : Applies agents (leadingAgents (.other :: before.reverse)) ∨
              Applies agents (leadingAgents after) ↔
            Applies agents (leadingAgents before.reverse) ∨
              Applies agents (leadingAgents after) := by
          rw [or_iff_right ended, iff_comm, or_iff_right_iff_imp]
          intro named
          by_contra others
          exact cuts ⟨run, named, others⟩
        rw [valuesInForce_groups_run agents _ run, valuesInForce_groups_run agents _ run]
        simp only [applies]
    rw [same]
    exact iff_of_true (fun _ => Iff.rfl) (.inl cuts)

/-- A comment line leaves the result as it is, unless the pattern reads it, it stands within a run
of User-agent lines of which only the part before it names one of the agents, and it matters that
what the group says is not for them. -/
theorem parse_with_comment_iff {replaceAll : Str → Str → Str → Str}
    (replaces : ReplacesAll replaceAll) {before line after : Str} (agents : List Str)
    (whole : WholeLines before) (comment : IsComment line) :
    parseRobotsTxt replaceAll (before ++ (line ++ [newline]) ++ after) agents =
        parseRobotsTxt replaceAll (before ++ after) agents ↔
      ¬ReadsColon line ∨ ¬CutsRun agents (directives before) (directives after) ∨
        Redundant (valuesInForce agents [] (directives before))
          ((groupRules (directives after)).filterMap disallowed)
          (valuesInForce agents [] (laterGroups (directives after))) := by
  have line_whole : WholeLines (line ++ [newline]) := .inr List.getLast?_concat
  rw [parse_eq_iff replaces, directives_append (whole.append line_whole), directives_append whole,
    directives_append whole, directives_comment comment]
  by_cases reads : ReadsColon line
  · rw [if_pos reads, or_iff_right (not_not.mpr reads)]
    exact afterLastEmpty_other_iff agents _ _
  · rw [if_neg reads, List.append_nil]
    exact iff_of_true (fun _ => Iff.rfl) (.inl reads)

theorem parse_with_comment_iff_gus :
    parseRobotsTxt Bytes.replaceAll
      (lit "User-agent: gus\nDisallow: /a\n" ++ (lit "# tlgs: all" ++ [newline]) ++
          lit "User-agent: tlgs\nDisallow: /b\n") [lit "tlgs"] =
        parseRobotsTxt Bytes.replaceAll
          (lit "User-agent: gus\nDisallow: /a\n" ++ lit "User-agent: tlgs\nDisallow: /b\n")
          [lit "tlgs"] ↔
      ¬ReadsColon (lit "# tlgs: all") ∨
        ¬CutsRun [lit "tlgs"] (directives (lit "User-agent: gus\nDisallow: /a\n"))
          (directives (lit "User-agent: tlgs\nDisallow: /b\n")) ∨
        Redundant (valuesInForce [lit "tlgs"] []
          (directives (lit "User-agent: gus\nDisallow: /a\n")))
          ((groupRules (directives (lit "User-agent: tlgs\nDisallow: /b\n"))).filterMap disallowed)
          (valuesInForce [lit "tlgs"] []
            (laterGroups (directives (lit "User-agent: tlgs\nDisallow: /b\n")))) :=
  parse_with_comment_iff (fun _ _ _ _ => rfl) _ (by decide) (by decide)

/-- A comment with a colon takes the group from the robot named before it. -/
theorem comment_ends_run :
    WholeLines (lit "User-agent: tlgs\n") ∧ IsComment (lit "# note: both") ∧
      parseRobotsTxt Bytes.replaceAll
        (lit "User-agent: tlgs\n" ++ lit "User-agent: gus\nDisallow: /\n") [lit "tlgs"] =
        [lit "/"] ∧
      parseRobotsTxt Bytes.replaceAll
        (lit "User-agent: tlgs\n" ++ (lit "# note: both" ++ [newline]) ++
        lit "User-agent: gus\nDisallow: /\n") [lit "tlgs"] = [] := by
  decide

end Tlgs

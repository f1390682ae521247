import Tlgs.Robots.Parse

/-!
# Groups of a robots.txt

Texts that end with their line can be put together, and their directives are those of the
parts in order. A group for other robots can then be taken out, and groups can be reordered
as far as an empty Disallow lets them.
-/
namespace Tlgs

open Bytes

/-! ### Whole lines -/

/-- Nothing, or lines the last of which is ended. -/
def WholeLines (text : Str) : Prop := text = [] ∨ text.getLast? = some newline

instance (text : Str) : Decidable (WholeLines text) := inferInstanceAs (Decidable (_ ∨ _))

private theorem wholeLines_of_cons {c : UInt8} {text : Str} (whole : WholeLines (c :: text)) :
    (text = [] ∧ c = newline) ∨ text.getLast? = some newline := by
  rcases whole with empty | ends
  · cases empty
  · cases text with
    | nil => exact Or.inl ⟨rfl, by simpa using ends⟩
    | cons d text => exact Or.inr (by rwa [List.getLast?_cons_cons] at ends)

private theorem lineFeeds_append {text : Str} (whole : WholeLines text) (rest : Str) :
    lineFeeds (text ++ rest) = lineFeeds text ++ lineFeeds rest := by
  induction text with
  | nil => rfl
  | cons c text ih =>
    rw [List.cons_append, lineFeeds, lineFeeds]
    rcases wholeLines_of_cons whole with ⟨rfl, rfl⟩ | ends
    · -- the newline at the end is no carriage return before a newline of the rest
      rw [if_neg fun both => newline_ne_carriageReturn both.1,
        if_neg fun both => newline_ne_carriageReturn both.1]
      rfl
    · have head : (text ++ rest).head? = text.head? := by
        cases text with
        | nil => cases ends
        | cons d text => rfl
      rw [ih (Or.inr ends), head]
      split
      · rfl
      · rfl

private theorem getLast?_lineFeeds {text : Str} (ends : text.getLast? = some newline) :
    (lineFeeds text).getLast? = some newline := by
  induction text with
  | nil => cases ends
  | cons c text ih =>
    rw [lineFeeds]
    rcases wholeLines_of_cons (Or.inr ends) with ⟨rfl, rfl⟩ | ends
    · rfl
    · split
      · exact ih ends
      · rw [List.getLast?_cons, ih ends]
        rfl

private theorem wholeLines_lineFeeds {text : Str} (whole : WholeLines text) :
    WholeLines (lineFeeds text) := by
  rcases whole with rfl | ends
  · exact Or.inl rfl
  · exact Or.inr (getLast?_lineFeeds ends)

private theorem getLines_ne_nil {text : Str} (some_text : text ≠ []) : getLines text ≠ [] := by
  cases text with
  | nil => exact absurd rfl some_text
  | cons c text =>
    rw [getLines]
    split
    · exact List.cons_ne_nil _ _
    · split <;> exact List.cons_ne_nil _ _

private theorem getLines_append {text : Str} (whole : WholeLines text) (rest : Str) :
    getLines (text ++ rest) = getLines text ++ getLines rest := by
  induction text with
  | nil => rfl
  | cons c text ih =>
    rw [List.cons_append, getLines, getLines]
    rcases wholeLines_of_cons whole with ⟨rfl, rfl⟩ | ends
    · rfl
    · rw [ih (Or.inr ends)]
      split
      · rfl
      · -- the first line of the text goes on with this character
        have some_text : text ≠ [] := by
          rintro rfl
          cases ends
        cases lines : getLines text with
        | nil => exact absurd lines (getLines_ne_nil some_text)
        | cons line others => rfl

/-- The lines of two texts put together are those of the first and those of the second. -/
theorem textLines_append {text : Str} (whole : WholeLines text) (rest : Str) :
    textLines (text ++ rest) = textLines text ++ textLines rest := by
  simp only [textLines]
  rw [lineFeeds_append whole, getLines_append (wholeLines_lineFeeds whole)]

theorem directives_append {text : Str} (whole : WholeLines text) (rest : Str) :
    directives (text ++ rest) = directives text ++ directives rest := by
  rw [directives, directivesBy, textLines_append whole]
  exact List.filterMap_append

theorem WholeLines.append {text rest : Str} (whole : WholeLines text) (whole' : WholeLines rest) :
    WholeLines (text ++ rest) := by
  rcases whole' with rfl | ends
  · rwa [List.append_nil]
  · refine Or.inr ?_
    rw [List.getLast?_append, ends]
    rfl

/-! ### The values of one group after another -/

theorem valuesInForce_append (agents : List Str) (past lines rest : List Directive) :
    valuesInForce agents past (lines ++ rest) =
      valuesInForce agents past lines ++ valuesInForce agents (lines.reverse ++ past) rest := by
  induction lines generalizing past with
  | nil => rfl
  | cons d lines ih =>
    rw [List.reverse_cons, List.append_assoc]
    cases d with
    | userAgent agent => exact ih _
    | disallow path =>
      rw [List.cons_append, valuesInForce, ih, valuesInForce, List.append_assoc]
      rfl
    | other => exact ih _

/-- Only the last run of User-agent lines, and whether it goes on, matters for what follows. -/
theorem valuesInForce_congr (agents : List Str) {past past' : List Directive}
    (leading : leadingAgents past = leadingAgents past')
    (latest : latestAgents past = latestAgents past') (lines : List Directive) :
    valuesInForce agents past lines = valuesInForce agents past' lines := by
  induction lines generalizing past past' with
  | nil => rfl
  | cons d lines ih =>
    cases d with
    | userAgent agent =>
      have run : leadingAgents (.userAgent agent :: past) =
          leadingAgents (.userAgent agent :: past') :=
        congrArg (agent :: ·) leading
      exact ih run run
    | disallow path =>
      -- a Disallow ends the run of agents in both pasts
      have inForce : InForce agents past ↔ InForce agents past' := by
        rw [InForce, InForce, latest]
      simp only [valuesInForce, inForce]
      exact congrArg _ (ih rfl latest)
    | other => exact ih rfl latest

/-- No group is open: what follows starts with a User-agent line, if with anything. -/
def OpensGroup (lines : List Directive) : Prop :=
  ∀ d, lines.head? = some d → ∃ agent, d = .userAgent agent

/-- A new group does not depend on the groups before it. -/
theorem valuesInForce_of_opens (agents : List Str) {past past' lines : List Directive}
    (closed : leadingAgents past = []) (closed' : leadingAgents past' = [])
    (opens : OpensGroup lines) :
    valuesInForce agents past lines = valuesInForce agents past' lines := by
  cases lines with
  | nil => rfl
  | cons d lines =>
    obtain ⟨agent, rfl⟩ := opens d rfl
    have run : leadingAgents (.userAgent agent :: past) =
        leadingAgents (.userAgent agent :: past') :=
      congrArg (agent :: ·) (closed.trans closed'.symm)
    exact valuesInForce_congr agents run run lines

def isUserAgent : Directive → Bool
  | .userAgent _ => true
  | _ => false

theorem leadingAgents_eq_nil {past : List Directive}
    (closed : ∀ d, past.head? = some d → isUserAgent d = false) : leadingAgents past = [] := by
  cases past with
  | nil => rfl
  | cons d past =>
    cases d with
    | userAgent agent => cases closed _ rfl
    | disallow path => rfl
    | other => rfl

theorem valuesInForce_agents (agents : List Str) (past : List Directive) (names : List Str) :
    valuesInForce agents past (names.map .userAgent) = [] := by
  induction names generalizing past with
  | nil => rfl
  | cons name names ih => exact ih _

theorem leadingAgents_agents (names : List Str) (past : List Directive) :
    leadingAgents ((names.map .userAgent).reverse ++ past) =
      names.reverse ++ leadingAgents past := by
  induction names generalizing past with
  | nil => rfl
  | cons name names ih =>
    rw [List.map_cons, List.reverse_cons, List.append_assoc, List.singleton_append, ih]
    simp [leadingAgents]

private theorem latestAgents_agents {names : List Str} (named : names ≠ []) {past : List Directive}
    (closed : leadingAgents past = []) :
    latestAgents ((names.map .userAgent).reverse ++ past) = names.reverse := by
  have leading := leadingAgents_agents names past
  rw [closed, List.append_nil] at leading
  rw [latestAgents_of_leading, leading]
  rw [leading]
  exact fun empty => named (List.reverse_eq_nil_iff.mp empty)

/-- The value of a Disallow line. -/
def disallowed : Directive → Option Str
  | .disallow path => some path
  | _ => none

/-- Between two User-agent lines all Disallow lines are in force, or none is. -/
theorem valuesInForce_rules (agents : List Str) {past rules : List Directive}
    (no_agents : ∀ d ∈ rules, isUserAgent d = false) :
    valuesInForce agents past rules =
      if InForce agents past then rules.filterMap disallowed else [] := by
  induction rules generalizing past with
  | nil => simp [valuesInForce]
  | cons d rules ih =>
    obtain ⟨here, later⟩ := List.forall_mem_cons.mp no_agents
    have tail : valuesInForce agents (d :: past) rules =
        if InForce agents (d :: past) then rules.filterMap disallowed else [] := ih later
    cases d with
    | userAgent agent => cases here
    | disallow path =>
      -- the line leaves the agents it is for
      rw [valuesInForce, tail]
      have same : InForce agents (.disallow path :: past) ↔ InForce agents past := Iff.rfl
      simp only [same]
      split <;> simp [disallowed]
    | other =>
      rw [valuesInForce, tail]
      rfl

/-! ### A group -/

/-- A run of User-agent lines and the lines they are for. -/
structure IsGroup (lines : List Directive) (names : List Str) (rules : List Directive) : Prop where
  lines_eq : lines = names.map .userAgent ++ rules
  named : names ≠ []
  ruled : rules ≠ []
  no_agents : ∀ d ∈ rules, isUserAgent d = false

/-- One of the agents is named. -/
def Applies (agents names : List Str) : Prop := ∃ name ∈ names, name ∈ agents

instance (agents names : List Str) : Decidable (Applies agents names) :=
  inferInstanceAs (Decidable (∃ name ∈ names, _))

namespace IsGroup

variable {lines : List Directive} {names : List Str} {rules : List Directive}

theorem leadingAgents_reverse (group : IsGroup lines names rules) (past : List Directive) :
    leadingAgents (lines.reverse ++ past) = [] := by
  apply leadingAgents_eq_nil
  intro d head
  rw [group.lines_eq, List.reverse_append, List.append_assoc] at head
  -- a group ends with a rule
  cases reversed : rules.reverse with
  | nil => exact absurd (List.reverse_eq_nil_iff.mp reversed) group.ruled
  | cons last others =>
    rw [reversed] at head
    cases head
    apply group.no_agents
    rw [← List.mem_reverse, reversed]
    exact List.mem_cons_self

theorem values (group : IsGroup lines names rules) (agents : List Str) {past : List Directive}
    (closed : leadingAgents past = []) :
    valuesInForce agents past lines =
      if Applies agents names then rules.filterMap disallowed else [] := by
  rw [group.lines_eq, valuesInForce_append, valuesInForce_agents, List.nil_append,
    valuesInForce_rules agents group.no_agents]
  have inForce : InForce agents ((names.map .userAgent).reverse ++ past) ↔
      Applies agents names := by
    rw [InForce, latestAgents_agents group.named closed, List.reverse_eq_nil_iff]
    simp [group.named, Applies]
  simp only [inForce]

end IsGroup

variable {replaceAll : Str → Str → Str → Str}

/-- Two texts give the same result exactly if the same values come after the last empty one. -/
theorem parse_eq_iff (replaces : ReplacesAll replaceAll) (text text' : Str) (agents : List Str) :
    parseRobotsTxt replaceAll text agents = parseRobotsTxt replaceAll text' agents ↔
      ∀ path, path ∈ afterLastEmpty (valuesInForce agents [] (directives text)) ↔
        path ∈ afterLastEmpty (valuesInForce agents [] (directives text')) := by
  have first := parse_disallows replaces text agents
  have second := parse_disallows replaces text' agents
  constructor
  · intro same path
    rw [← first.2, ← second.2, same]
  · intro same
    exact first.unique ⟨second.1, fun path => (second.2 path).trans (same path).symm⟩

/-- A group that names only other agents can be taken out, whatever it disallows or allows. -/
theorem parse_without_foreign_group {A G B : Str} {agents names : List Str} {rules : List Directive}
    (replaces : ReplacesAll replaceAll) (whole_A : WholeLines A) (whole_G : WholeLines G)
    (closed : ∀ d, (directives A).getLast? = some d → isUserAgent d = false)
    (group : IsGroup (directives G) names rules) (foreign : ∀ name ∈ names, name ∉ agents)
    (opens : OpensGroup (directives B)) :
    parseRobotsTxt replaceAll (A ++ G ++ B) agents = parseRobotsTxt replaceAll (A ++ B) agents := by
  have closed_A : leadingAgents ((directives A).reverse ++ []) = [] := by
    apply leadingAgents_eq_nil
    intro d head
    rw [List.append_nil, List.head?_reverse] at head
    exact closed d head
  have idle : ¬Applies agents names := fun ⟨name, member, ours⟩ => foreign name member ours
  have same : valuesInForce agents [] (directives (A ++ G ++ B)) =
      valuesInForce agents [] (directives (A ++ B)) := by
    rw [directives_append (whole_A.append whole_G), directives_append whole_A,
      directives_append whole_A, valuesInForce_append, valuesInForce_append,
      group.values agents closed_A, if_neg idle, List.append_nil, valuesInForce_append]
    -- `B` opens a group of its own, so it does not matter what is before it
    apply congrArg
    apply valuesInForce_of_opens agents _ closed_A opens
    rw [List.reverse_append, List.append_assoc]
    exact group.leadingAgents_reverse _
  rw [parse_eq_iff replaces, same]
  exact fun path => Iff.rfl

theorem parse_without_foreign_group_gus :
    parseRobotsTxt Bytes.replaceAll
      (lit "User-agent: *\nDisallow: /a\n" ++ lit "User-agent: gus\nDisallow:\n" ++
        lit "User-agent: tlgs\nDisallow: /b\n") [lit "*", lit "tlgs"] =
      parseRobotsTxt Bytes.replaceAll
        (lit "User-agent: *\nDisallow: /a\n" ++ lit "User-agent: tlgs\nDisallow: /b\n")
        [lit "*", lit "tlgs"] := by
  have group : IsGroup (directives (lit "User-agent: gus\nDisallow:\n")) [lit "gus"]
      [.disallow []] :=
    ⟨by decide, by decide, by decide, by decide⟩
  refine parse_without_foreign_group (fun _ _ _ _ => rfl) (by decide) (by decide) ?_ group
    (by decide) ?_
  · intro d last
    have isRule : (directives (lit "User-agent: *\nDisallow: /a\n")).getLast? =
        some (.disallow (lit "/a")) := by decide
    rw [isRule] at last
    cases last
    rfl
  · intro d first
    have isAgent : (directives (lit "User-agent: tlgs\nDisallow: /b\n")).head? =
        some (.userAgent (lit "tlgs")) := by decide
    rw [isAgent] at first
    exact ⟨lit "tlgs", (Option.some.inj first).symm⟩

/-! ### Groups in any order -/

/-- The text of a complete group: User-agent lines, then Disallow lines. -/
structure Group where
  text : Str
  names : List Str
  paths : List Str
  whole : WholeLines text
  reads : IsGroup (directives text) names (paths.map .disallow)

def groupsText (groups : List Group) : Str := groups.flatMap Group.text

/-- The values of the groups that name one of the agents. -/
def groupsValues (agents : List Str) (groups : List Group) : List Str :=
  groups.flatMap fun group => if Applies agents group.names then group.paths else []

private theorem filterMap_disallowed (paths : List Str) :
    (paths.map Directive.disallow).filterMap disallowed = paths := by
  rw [List.filterMap_map]
  exact List.filterMap_some

private theorem valuesInForce_groups (agents : List Str) (groups : List Group)
    (past : List Directive) (closed : leadingAgents past = []) :
    valuesInForce agents past (directives (groupsText groups)) = groupsValues agents groups := by
  induction groups generalizing past with
  | nil => rfl
  | cons group groups ih =>
    have parts : directives (groupsText (group :: groups)) =
        directives group.text ++ directives (groupsText groups) := directives_append group.whole _
    rw [parts, valuesInForce_append, group.reads.values agents closed, filterMap_disallowed,
      ih _ (group.reads.leadingAgents_reverse past)]
    rfl

theorem afterLastEmpty_append (values later : List Str) :
    afterLastEmpty (values ++ later) =
      if [] ∈ later then afterLastEmpty later
        else afterLastEmpty values ++ afterLastEmpty later := by
  induction later using List.reverseRecOn with
  | nil => simp [afterLastEmpty]
  | append_singleton later value ih =>
    rw [← List.append_assoc, afterLastEmpty_concat, afterLastEmpty_concat, ih]
    by_cases empty : value = []
    · simp [empty]
    · have other : [] ≠ value := fun equal => empty equal.symm
      simp only [empty, if_false, List.mem_append, List.mem_singleton, other, or_false]
      split
      · rfl
      · rw [List.append_assoc]

theorem afterLastEmpty_eq_self {values : List Str} (none_empty : [] ∉ values) :
    afterLastEmpty values = values := by
  refine List.rtakeWhile_eq_self_iff.mpr fun value member => ?_
  cases value with
  | nil => exact absurd member none_empty
  | cons c value => rfl

/-- Where a group lifts what was disallowed before it, it disallows all that any group does. -/
def LiftsAgree (agents : List Str) (groups : List Group) : Prop :=
  ∀ lifting ∈ groups, Applies agents lifting.names → [] ∈ lifting.paths →
    ∀ group ∈ groups, Applies agents group.names →
      ∀ path ∈ afterLastEmpty group.paths, path ∈ afterLastEmpty lifting.paths

private theorem groupsValues_concat (agents : List Str) (groups : List Group) (group : Group) :
    groupsValues agents (groups ++ [group]) =
      groupsValues agents groups ++ if Applies agents group.names then group.paths else [] := by
  simp [groupsValues]

private theorem mem_groupsValues {agents : List Str} {groups : List Group} {path : Str} :
    path ∈ groupsValues agents groups ↔
      ∃ group ∈ groups, Applies agents group.names ∧ path ∈ group.paths := by
  simp only [groupsValues, List.mem_flatMap]
  refine exists_congr fun group => and_congr_right fun _ => ?_
  split
  next applies => simp [applies]
  next idle => simp [idle]

/-- Then what one such group disallows is the result, in whatever order they come. -/
private theorem mem_of_lifting {agents : List Str} {groups : List Group}
    (agree : LiftsAgree agents groups) {lifting : Group} (member : lifting ∈ groups)
    (applies : Applies agents lifting.names) (lifts : [] ∈ lifting.paths) (path : Str) :
    path ∈ afterLastEmpty (groupsValues agents groups) ↔ path ∈ afterLastEmpty lifting.paths := by
  induction groups using List.reverseRecOn with
  | nil => cases member
  | append_singleton groups last ih =>
    have agree' : LiftsAgree agents groups := fun l lm la ll g gm =>
      agree l (List.mem_append_left _ lm) la ll g (List.mem_append_left _ gm)
    have last_member : last ∈ groups ++ [last] := List.mem_append_right _ List.mem_cons_self
    rw [groupsValues_concat]
    split
    next last_applies =>
      rw [afterLastEmpty_append]
      split
      next last_lifts =>
        -- two groups that lift disallow the same paths
        exact ⟨agree lifting member applies lifts last last_member last_applies path,
          agree last last_member last_applies last_lifts lifting member applies path⟩
      next last_adds =>
        -- what the last group adds is disallowed already
        have earlier : lifting ∈ groups := by
          rcases List.mem_append.mp member with earlier | later
          · exact earlier
          · rw [List.mem_singleton.mp later] at lifts
            exact absurd lifts last_adds
        rw [List.mem_append, ih agree' earlier]
        exact or_iff_left_of_imp
          (agree lifting member applies lifts last last_member last_applies path)
    next last_idle =>
      rw [List.append_nil]
      rcases List.mem_append.mp member with earlier | later
      · exact ih agree' earlier
      · rw [List.mem_singleton.mp later] at applies
        exact absurd applies last_idle

/-- Without such a group all values count, in whatever order they come. -/
private theorem mem_without_lifting {agents : List Str} {groups : List Group}
    (none_lifts : ∀ group ∈ groups, Applies agents group.names → [] ∉ group.paths) (path : Str) :
    path ∈ afterLastEmpty (groupsValues agents groups) ↔ path ∈ groupsValues agents groups := by
  have none_empty : [] ∉ groupsValues agents groups := by
    intro member
    obtain ⟨group, isGroup, applies, isValue⟩ := mem_groupsValues.mp member
    exact none_lifts group isGroup applies isValue
  rw [afterLastEmpty_eq_self none_empty]

private theorem exists_order_ending_in {groups : List Group} {group : Group}
    (member : group ∈ groups) :
    ∃ others, (others ++ [group]).Perm groups := by
  obtain ⟨front, rest, rfl⟩ := List.append_of_mem member
  refine ⟨front ++ rest, ?_⟩
  rw [List.append_assoc]
  exact List.Perm.append_left front (List.perm_append_singleton group rest)

/-- The values of the last group count, and only they if it has an empty one. -/
private theorem mem_of_last {agents : List Str} (others : List Group) {last : Group}
    (applies : Applies agents last.names) (path : Str) :
    (path ∈ afterLastEmpty last.paths →
        path ∈ afterLastEmpty (groupsValues agents (others ++ [last]))) ∧
      ([] ∈ last.paths → path ∈ afterLastEmpty (groupsValues agents (others ++ [last])) →
        path ∈ afterLastEmpty last.paths) := by
  rw [groupsValues_concat, if_pos applies, afterLastEmpty_append]
  split
  next lifts => exact ⟨id, fun _ => id⟩
  next adds => exact ⟨List.mem_append_right _, fun lifts => absurd lifts adds⟩

private theorem parse_groups_eq_iff (replaces : ReplacesAll replaceAll) (agents : List Str)
    (groups groups' : List Group) :
    parseRobotsTxt replaceAll (groupsText groups) agents =
      parseRobotsTxt replaceAll (groupsText groups') agents ↔
      ∀ path, path ∈ afterLastEmpty (groupsValues agents groups) ↔
        path ∈ afterLastEmpty (groupsValues agents groups') := by
  rw [parse_eq_iff replaces, valuesInForce_groups agents groups [] rfl,
    valuesInForce_groups agents groups' [] rfl]

/-- Every order of the groups gives the same result exactly if each group that names one of the
agents and has an empty Disallow allows no more than any other. -/
theorem parse_perm_iff (replaces : ReplacesAll replaceAll) (agents : List Str)
    (groups : List Group) :
    (∀ order : List Group, order.Perm groups →
        parseRobotsTxt replaceAll (groupsText order) agents =
          parseRobotsTxt replaceAll (groupsText groups) agents) ↔
      LiftsAgree agents groups := by
  simp only [parse_groups_eq_iff replaces]
  constructor
  · -- compare the orders that end in the one group and in the other
    intro same lifting member applies lifts group isGroup applies' path disallowed
    obtain ⟨others, order⟩ := exists_order_ending_in isGroup
    obtain ⟨others', order'⟩ := exists_order_ending_in member
    have counts := (mem_of_last others applies' path).1 disallowed
    exact (mem_of_last others' applies path).2 lifts
      ((same _ order' path).mpr ((same _ order path).mp counts))
  · intro agree order perm path
    have agree' : LiftsAgree agents order := fun l lm la ll g gm =>
      agree l (perm.mem_iff.mp lm) la ll g (perm.mem_iff.mp gm)
    by_cases some_lifts : ∃ group ∈ groups, Applies agents group.names ∧ [] ∈ group.paths
    · obtain ⟨lifting, member, applies, lifts⟩ := some_lifts
      rw [mem_of_lifting agree member applies lifts,
        mem_of_lifting agree' (perm.mem_iff.mpr member) applies lifts]
    · have none_lifts : ∀ group ∈ groups, Applies agents group.names → [] ∉ group.paths :=
        fun group member applies lifts => some_lifts ⟨group, member, applies, lifts⟩
      have none_lifts' : ∀ group ∈ order, Applies agents group.names → [] ∉ group.paths :=
        fun group member => none_lifts group (perm.mem_iff.mp member)
      rw [mem_without_lifting none_lifts, mem_without_lifting none_lifts', mem_groupsValues,
        mem_groupsValues]
      simp only [perm.mem_iff]

private def everyone : Group where
  text := lit "User-agent: *\nDisallow: /\n"
  names := [lit "*"]
  paths := [lit "/"]
  whole := by decide
  reads := ⟨by decide, by decide, by decide, by decide⟩

private def ourselves : Group where
  text := lit "User-agent: tlgs\nDisallow: /b\n"
  names := [lit "tlgs"]
  paths := [lit "/b"]
  whole := by decide
  reads := ⟨by decide, by decide, by decide, by decide⟩

theorem parse_perm_iff_disallow :
    LiftsAgree [lit "*", lit "tlgs"] [everyone, ourselves] ∧
      parseRobotsTxt Bytes.replaceAll (groupsText [ourselves, everyone]) [lit "*", lit "tlgs"] =
        parseRobotsTxt Bytes.replaceAll (groupsText [everyone, ourselves])
          [lit "*", lit "tlgs"] := by
  have agree : LiftsAgree [lit "*", lit "tlgs"] [everyone, ourselves] := by
    -- neither group has an empty Disallow
    intro lifting member _ lifts
    revert lifting
    decide
  exact ⟨agree, (parse_perm_iff (fun _ _ _ _ => rfl) _ _).mpr agree _ (List.Perm.swap _ _ _)⟩

private def welcome : Group where
  text := lit "User-agent: tlgs\nDisallow:\n"
  names := [lit "tlgs"]
  paths := [[]]
  whole := by decide
  reads := ⟨by decide, by decide, by decide, by decide⟩

/-- An empty Disallow lifts what the groups before it disallow, and not what follows. -/
theorem parse_depends_on_order :
    ¬∀ (agents : List Str) (groups order : List Group), order.Perm groups →
      parseRobotsTxt Bytes.replaceAll (groupsText order) agents =
        parseRobotsTxt Bytes.replaceAll (groupsText groups) agents := by
  intro same
  have equal := same [lit "*", lit "tlgs"] [everyone, welcome] [welcome, everyone]
    (List.Perm.swap _ _ _)
  revert equal
  decide

end Tlgs

import Tlgs.Base.LexicalPath

/-!
# Removing dot segments

The resolution of relative references in RFC 3986, as far as it is about paths: the path of
a reference is merged with that of the base, and an input buffer is moved to an output
buffer, dot segments aside. Where no segment but the last is empty, a path without its dot
segments is the normal path.
-/
namespace LexicalPath

open Bytes

/-! ### The algorithm -/

/-- "remove the last segment and its preceding `/` (if any)". -/
def dropLastSegment (output : Str) : Str := (output.rdropWhile (· != slash)).dropLast

/-- "the first path segment [...] including the initial `/` character (if any)". -/
def firstSegment (input : Str) : Str := input.take 1 ++ (input.drop 1).takeWhile (· != slash)

/-- The loop of `remove_dot_segments`. Every round takes something from the input buffer. -/
def removeDotSegmentsFrom : Nat → Str → Str → Str
  | 0, _, output => output
  | fuel + 1, input, output =>
    if input = [] then output
    else if startsWith input (dotdot ++ [slash]) then removeDotSegmentsFrom fuel
      (input.drop 3) output
    else if startsWith input (dot ++ [slash]) then removeDotSegmentsFrom fuel (input.drop 2) output
    else if startsWith input (slash :: dot ++ [slash]) then removeDotSegmentsFrom fuel
      (input.drop 2) output
    else if input = slash :: dot then removeDotSegmentsFrom fuel [slash] output
    else if startsWith input (slash :: dotdot ++ [slash]) then
      removeDotSegmentsFrom fuel (input.drop 3) (dropLastSegment output)
    else if input = slash :: dotdot then removeDotSegmentsFrom fuel [slash] (dropLastSegment output)
    else if input = dot ∨ input = dotdot then removeDotSegmentsFrom fuel [] output
    else
      removeDotSegmentsFrom fuel (input.drop (firstSegment input).length)
        (output ++ firstSegment input)

def removeDotSegments (path : Str) : Str := removeDotSegmentsFrom path.length path []

/-- `merge`, for a base whose path is not empty: all of it up to its last `/`, and the
reference. -/
def merge (base relative : Str) : Str := base.rdropWhile (· != slash) ++ relative

/-! ### One round, segment by segment -/

/-- The path of a list of segments. -/
def joined (segments : List Str) : Str := segments.flatMap (slash :: ·)

theorem joined_cons (segment : Str) (segments : List Str) :
    joined (segment :: segments) = slash :: segment ++ joined segments :=
  List.flatMap_cons

theorem joined_append (segments segments' : List Str) :
    joined (segments ++ segments') = joined segments ++ joined segments' :=
  List.flatMap_append

theorem joined_ends (segments : List Str) :
    joined segments = [] ∨ (joined segments).head? = some slash := by
  cases segments with
  | nil => exact .inl rfl
  | cons segment segments => exact .inr rfl

/-- A text without a separator ends where the next segment starts. -/
theorem takeWhile_segment {segment rest : Str} (free : slash ∉ segment)
    (ends : rest = [] ∨ rest.head? = some slash) :
    (segment ++ rest).takeWhile (· != slash) = segment := by
  have plain : ∀ c ∈ segment, (c != slash) = true := by
    intro c member
    rw [bne_iff_ne]
    rintro rfl
    exact free member
  rw [List.takeWhile_append_of_pos plain]
  rcases ends with rfl | rooted
  · simp
  · obtain ⟨rest, rfl⟩ := List.head?_eq_some_iff.mp rooted
    simp

theorem firstSegment_joined {segment : Str} (free : slash ∉ segment) (segments : List Str) :
    firstSegment (joined (segment :: segments)) = slash :: segment := by
  rw [joined_cons, firstSegment]
  exact congrArg (slash :: ·) (takeWhile_segment free (joined_ends segments))

/-- A whole name stands at the start of a path with more segments than it. -/
theorem startsWith_joined_iff {segment name : Str} (free : slash ∉ segment) (free' : slash ∉ name)
    (segments : List Str) :
    startsWith (joined (segment :: segments)) (slash :: name ++ [slash]) = true ↔
      segment = name ∧ segments ≠ [] := by
  rw [joined_cons, startsWith, List.isPrefixOf_iff_prefix]
  constructor
  · rintro ⟨rest, same⟩
    have same : name ++ slash :: rest = segment ++ joined segments := by simpa using same
    have cut := congrArg (List.takeWhile (· != slash)) same
    rw [takeWhile_segment free (joined_ends segments), takeWhile_segment free' (.inr rfl)] at cut
    refine ⟨cut.symm, ?_⟩
    rintro rfl
    have inside : slash ∈ segment ++ joined [] := same ▸ List.mem_append_right _ List.mem_cons_self
    exact free (by simpa [joined] using inside)
  · rintro ⟨rfl, more⟩
    obtain ⟨next, later, rfl⟩ := List.exists_cons_of_ne_nil more
    exact ⟨next ++ joined later, by simp [joined_cons]⟩

theorem joined_eq_iff {segment name : Str} (free : slash ∉ segment) (free' : slash ∉ name)
    (segments : List Str) :
    joined (segment :: segments) = slash :: name ↔ segment = name ∧ segments = [] := by
  constructor
  · intro same
    have same : segment ++ joined segments = name ++ [] := by simpa [joined_cons] using same
    have cut := congrArg (List.takeWhile (· != slash)) same
    rw [takeWhile_segment free (joined_ends segments), takeWhile_segment free' (.inl rfl)] at cut
    subst cut
    refine ⟨rfl, ?_⟩
    cases segments with
    | nil => rfl
    | cons next later => exact absurd (List.append_cancel_left same) (by simp [joined_cons])
  · rintro ⟨rfl, rfl⟩
    simp [joined]

theorem dropLastSegment_joined {segments : List Str}
    (free : ∀ segment ∈ segments, slash ∉ segment) :
    dropLastSegment (joined segments) = joined segments.dropLast := by
  induction segments using List.reverseRecOn with
  | nil => rfl
  | append_singleton segments last _ =>
    have last_free : slash ∉ last := free last (by simp)
    have text : joined (segments ++ [last]) = joined segments ++ slash :: last := by
      simp [joined]
    rw [text, List.dropLast_concat, dropLastSegment, rdropWhile_last last_free,
      List.dropLast_concat]

section Rounds

variable {segment : Str} {segments : List Str} {fuel : Nat} {output : Str}

/-- What a round does depends on the first segment, and on whether it is the last one. -/
theorem round_eq (free : slash ∉ segment) :
    removeDotSegmentsFrom (fuel + 1) (joined (segment :: segments)) output =
      if segment = dot then
        removeDotSegmentsFrom fuel (if segments = [] then [slash] else joined segments) output
      else if segment = dotdot then
        removeDotSegmentsFrom fuel (if segments = [] then [slash] else joined segments)
          (dropLastSegment output)
      else removeDotSegmentsFrom fuel (joined segments) (output ++ slash :: segment) := by
  have dot_free : slash ∉ dot := by decide
  have dotdot_free : slash ∉ dotdot := by decide
  have first : joined (segment :: segments) = slash :: (segment ++ joined segments) :=
    joined_cons _ _
  -- the path starts with a separator, so the first two and the last of the tests fail
  have nonempty : joined (segment :: segments) ≠ [] := by simp [first]
  have not_dotdot : startsWith (joined (segment :: segments)) (dotdot ++ [slash]) = false := by
    rw [first]
    rfl
  have not_dot : startsWith (joined (segment :: segments)) (dot ++ [slash]) = false := by
    rw [first]
    rfl
  have not_dots : ¬(joined (segment :: segments) = dot ∨
      joined (segment :: segments) = dotdot) := by
    rw [first]
    rintro (same | same) <;> cases same
  rw [removeDotSegmentsFrom, if_neg nonempty, not_dotdot, not_dot]
  simp only [Bool.false_eq_true, if_false, if_neg not_dots, startsWith_joined_iff free dot_free,
    startsWith_joined_iff free dotdot_free, joined_eq_iff free dot_free,
      joined_eq_iff free dotdot_free,
    firstSegment_joined free]
  have moved : (joined (segment :: segments)).drop (slash :: segment).length = joined segments := by
    rw [joined_cons, List.drop_left]
  rw [moved]
  by_cases here : segment = dot
  · subst here
    by_cases last : segments = []
    · simp [last]
    · simp only [last, ne_eq, not_false_eq_true, and_self, if_true, if_false]
      rfl
  · by_cases up : segment = dotdot
    · subst up
      by_cases last : segments = []
      · simp [last]
      · simp only [last, here, ne_eq, not_false_eq_true, and_self, if_true, if_false, false_and]
        rfl
    · simp only [here, up, false_and, if_false]

theorem removeDotSegmentsFrom_nil : removeDotSegmentsFrom fuel [] output = output := by
  cases fuel <;> rfl

/-- A path that names a directory ends in a separator. -/
theorem removeDotSegmentsFrom_slash :
    removeDotSegmentsFrom (fuel + 1) [slash] output = output ++ [slash] := by
  change removeDotSegmentsFrom (fuel + 1) (joined [[]]) output = _
  exact (round_eq List.not_mem_nil).trans removeDotSegmentsFrom_nil

end Rounds

/-! ### A whole path -/

theorem namesDirectory_cons {segment : Str} {segments : List Str} (more : segments ≠ []) :
    namesDirectory (segment :: segments) = namesDirectory segments := by
  obtain ⟨next, later, rfl⟩ := List.exists_cons_of_ne_nil more
  rw [namesDirectory, namesDirectory, List.getLast?_cons_cons]

private theorem climbed {names : List Str} (proper : ProperNames names) :
    (pushName true names.reverse dotdot).reverse = names.dropLast := by
  have stack : ProperNames names.reverse :=
    fun name member => proper name (List.mem_reverse.mp member)
  have popped := pushName_dotdot_proper stack 0
  rw [List.drop_zero, Nat.zero_add, List.drop_one, List.tail_reverse] at popped
  rw [popped, List.reverse_reverse]

section Names

variable {segment : Str} {segments names : List Str} {fuel : Nat} (free : slash ∉ segment)
  (proper : ProperNames names)

include free proper

private theorem interior_round (nonempty : segment ≠ []) (more : segments ≠ []) :
    removeDotSegmentsFrom (fuel + 1) (joined (segment :: segments)) (joined names) =
      removeDotSegmentsFrom fuel (joined segments)
        (joined (pushName true names.reverse segment).reverse) := by
  rw [round_eq free, if_neg more]
  split
  next here =>
    rw [(step_skipped (.inr here) names.reverse (0, [])).1, List.reverse_reverse]
  next other =>
    split
    next up =>
      rw [up, climbed proper, dropLastSegment_joined fun name member => (proper name member).2.2.2]
    next plain =>
      -- a proper name goes to the output, and on the stack
      rw [(step_name (not_or.mpr ⟨nonempty, other⟩) plain names.reverse [] 0).1, List.reverse_cons,
        List.reverse_reverse, joined_append]
      simp [joined]

/-- Where the last segment is a dot name, one more round moves the separator that is left. -/
private theorem last_round (enough : (joined [segment]).length ≤ fuel + 1) :
    removeDotSegmentsFrom (fuel + 1) (joined [segment]) (joined names) =
      joined ((pushName true names.reverse segment).reverse ++
        if namesDirectory [segment] then [[]] else []) := by
  have directory : namesDirectory [segment] =
      (segment == [] || segment == dot || segment == dotdot) := rfl
  have slash_end : ∀ names, joined (names ++ [[]]) = joined names ++ [slash] := fun names => by
    rw [joined_append]
    rfl
  rw [round_eq free, if_pos rfl, directory]
  -- a segment `.` or `..` at the end leaves a directory behind, as the empty one does
  split
  next here =>
    subst here
    have length : (joined [dot]).length = 2 := rfl
    obtain ⟨fuel, rfl⟩ := Nat.exists_eq_add_of_le' (show 1 ≤ fuel by omega)
    rw [removeDotSegmentsFrom_slash, (step_skipped (.inr rfl) names.reverse (0, [])).1,
      List.reverse_reverse, ← slash_end]
    rfl
  next other =>
    split
    next up =>
      subst up
      have length : (joined [dotdot]).length = 3 := rfl
      obtain ⟨fuel, rfl⟩ := Nat.exists_eq_add_of_le' (show 1 ≤ fuel by omega)
      rw [removeDotSegmentsFrom_slash, climbed proper,
        dropLastSegment_joined fun name member => (proper name member).2.2.2, ← slash_end]
      rfl
    next plain =>
      rw [show joined [] = [] from rfl, removeDotSegmentsFrom_nil]
      by_cases empty : segment = []
      · subst empty
        rw [pushName_nil, List.reverse_reverse, ← slash_end]
        rfl
      · rw [(step_name (not_or.mpr ⟨empty, other⟩) plain names.reverse [] 0).1]
        simp [empty, other, plain, joined]

end Names

/-- The output buffer holds the names that normalisation has on its stack. -/
theorem removeDotSegmentsFrom_joined {segments names : List Str} {fuel : Nat}
    (enough : (joined segments).length ≤ fuel) (free : ∀ segment ∈ segments, slash ∉ segment)
    (interior : ∀ segment ∈ segments.dropLast, segment ≠ []) (proper : ProperNames names) :
    removeDotSegmentsFrom fuel (joined segments) (joined names) =
      joined ((segments.foldl (pushName true) names.reverse).reverse ++
        if namesDirectory segments then [[]] else []) := by
  induction segments generalizing names fuel with
  | nil =>
    rw [List.foldl_nil, List.reverse_reverse]
    exact removeDotSegmentsFrom_nil.trans (by simp [namesDirectory])
  | cons segment segments ih =>
    have length : (joined (segment :: segments)).length =
        (joined segments).length + segment.length + 1 := by
      simp only [joined_cons, List.length_append, List.length_cons]
      omega
    obtain ⟨fuel, rfl⟩ := Nat.exists_eq_add_of_le' (show 1 ≤ fuel by omega)
    obtain ⟨segment_free, others_free⟩ := List.forall_mem_cons.mp free
    rw [List.foldl_cons]
    by_cases last : segments = []
    · subst last
      exact last_round segment_free proper enough
    · -- the segment is not the last one, so a slash stands behind it
      rw [List.dropLast_cons_of_ne_nil last] at interior
      obtain ⟨nonempty, later⟩ := List.forall_mem_cons.mp interior
      have pushed : ProperNames (pushName true names.reverse segment).reverse := fun name member =>
        pushName_proper _ _ (fun n inside => proper n (List.mem_reverse.mp inside))
          segment_free name
          (List.mem_reverse.mp member)
      rw [interior_round segment_free proper nonempty last, ih (by omega) others_free later pushed,
        List.reverse_reverse, namesDirectory_cons last]

/-! ### Dot segments and normal paths -/

/-- No segment but the last is empty. The text before the first separator is no segment. -/
def NoEmptySegments (path : Str) : Prop :=
  ∀ segment ∈ (path.splitOn slash).tail.dropLast, segment ≠ []

instance (path : Str) : Decidable (NoEmptySegments path) :=
  inferInstanceAs (Decidable (∀ segment ∈ (path.splitOn slash).tail.dropLast, segment ≠ []))

theorem intercalate_eq_joined (first : Str) (segments : List Str) :
    [slash].intercalate (first :: segments) = first ++ joined segments := by
  induction segments generalizing first with
  | nil => simp [joined]
  | cons segment segments ih =>
    rw [List.intercalate_cons_of_ne_nil (List.cons_ne_nil _ _), ih, joined_cons]
    simp

/-- A rooted path is the list of the texts after its separators. -/
theorem splitOn_rooted {path : Str} (rooted : path.head? = some slash) :
    ∃ segments, path.splitOn slash = [] :: segments ∧ segments ≠ [] ∧ path = joined segments := by
  obtain ⟨rest, rfl⟩ := List.head?_eq_some_iff.mp rooted
  refine ⟨rest.splitOn slash, by
    simp [List.splitOn_cons_eq_if_modifyHead], List.splitOn_ne_nil _ _, ?_⟩
  have whole : List.intercalate [slash] ((slash :: rest).splitOn slash) = slash :: rest :=
    List.intercalate_splitOn slash
  rw [List.splitOn_cons_eq_if_modifyHead, if_pos (beq_self_eq_true slash), intercalate_eq_joined]
    at whole
  exact whole.symm

theorem renderAbsolute_directory (names : List Str) :
    (renderAbsolute names true).getLast? = some slash := by
  rw [renderAbsolute, if_pos (.inl rfl), List.cons_append, intercalate_eq_joined, joined_append,
    List.nil_append, show joined [[]] = [slash] from rfl, List.getLast?_concat]

/-- A last segment that is a name is on the stack in the end. -/
theorem stack_of_name {segments stack : List Str} (some_segment : segments ≠ [])
    (name : namesDirectory segments = false) : segments.foldl (pushName true) stack ≠ [] := by
  obtain ⟨front, last, rfl⟩ := (List.eq_nil_or_concat' segments).resolve_left some_segment
  rw [namesDirectory, List.getLast?_concat] at name
  simp only [Bool.or_eq_false_iff, beq_eq_false_iff_ne, ne_eq] at name
  rw [List.foldl_append, List.foldl_cons, List.foldl_nil,
    (step_name (not_or.mpr name.1) name.2 (front.foldl (pushName true) stack) [] 0).1]
  exact List.cons_ne_nil _ _

/-- Where only the last segment may be empty, removing the dot segments of a path is
normalising it. -/
theorem removeDotSegments_eq_lexicallyNormal {path : Str} (rooted : path.head? = some slash)
    (interior : NoEmptySegments path) : removeDotSegments path = lexicallyNormal path := by
  obtain ⟨segments, parts, some_segment, text⟩ := splitOn_rooted rooted
  rw [NoEmptySegments, parts, List.tail_cons] at interior
  have free : ∀ segment ∈ segments, slash ∉ segment := fun segment member =>
    not_mem_of_mem_splitOn (s := path) (by rw [parts]; exact List.mem_cons_of_mem _ member)
  have no_names : ProperNames [] := fun _ member => absurd member List.not_mem_nil
  have removed := removeDotSegmentsFrom_joined
    (Nat.le_refl (joined segments).length) free interior no_names
  rw [removeDotSegments, text]
  rw [show ([] : Str) = joined [] from rfl, removed, ← text, lexicallyNormal_absolute rooted, parts,
    renderAbsolute, reduceNames, List.foldl_cons, pushName_nil, List.cons_append,
      intercalate_eq_joined,
    namesDirectory_cons some_segment, List.nil_append, List.reverse_nil]
  -- a path without names is the root, which names a directory
  have root : (segments.foldl (pushName true) []).reverse = [] →
      namesDirectory segments = true := by
    intro no_name
    by_contra name
    exact stack_of_name some_segment (Bool.not_eq_true _ ▸ name)
      (List.reverse_eq_nil_iff.mp no_name)
  simp only [or_iff_left_of_imp root]

/-! ### Merging -/

theorem merge_rooted {front last : Str} (free : slash ∉ last) (relative : Str) :
    merge (front ++ slash :: last) relative = front ++ slash :: relative := by
  rw [merge, rdropWhile_last free, List.append_assoc, List.singleton_append]

theorem merge_starts {base : Str} (rooted : base.head? = some slash) (relative : Str) :
    (merge base relative).head? = some slash := by
  obtain ⟨front, last, rfl, free⟩ := last_separator rooted
  rw [merge_rooted free]
  cases front with
  | nil => rfl
  | cons c front => simpa using rooted

/-- A merged path normalises to that of the join of the base's directory with the reference. -/
theorem lexicallyNormal_merge {base relative : Str} (rooted : base.head? = some slash)
    (rel : relative.head? ≠ some slash) :
    lexicallyNormal (merge base relative) = lexicallyNormal (joinDirectory base relative) := by
  rw [lexicallyNormal_absolute (merge_starts rooted relative),
    lexicallyNormal_absolute (joinDirectory_rooted rooted rel)]
  obtain ⟨front, last, rfl, free⟩ := last_separator rooted
  obtain ⟨start, text, _, same⟩ := joinDirectory_text rooted free rel
  rw [merge_rooted free, text, List.splitOn_append_cons_self, List.splitOn_append_cons_self,
    namesDirectory_append, namesDirectory_append, reduceNames, reduceNames, List.foldl_append,
    List.foldl_append, same]

theorem noEmptySegments_normal {path : Str} (rooted : path.head? = some slash)
    (normal : lexicallyNormal path = path) : NoEmptySegments path := by
  rw [NoEmptySegments, ← normal, lexicallyNormal_absolute rooted,
    splitOn_renderAbsolute (splitOn_proper path),
    List.cons_append, List.tail_cons]
  intro segment member
  have kept : segment ∈ reduceNames true (path.splitOn slash) := by
    split at member
    next => rwa [List.dropLast_concat] at member
    next =>
      rw [List.append_nil] at member
      exact List.dropLast_subset _ member
  exact (splitOn_proper path segment kept).1

theorem noEmptySegments_merge {base relative : Str} (rooted : base.head? = some slash)
    (base_interior : NoEmptySegments base) (rel : relative.head? ≠ some slash)
    (nonempty : relative ≠ []) (interior : NoEmptySegments relative) :
    NoEmptySegments (merge base relative) := by
  obtain ⟨front, last, rfl, free⟩ := last_separator rooted
  rw [NoEmptySegments, List.splitOn_append_cons_self, List.splitOn_eq_singleton free]
    at base_interior
  rw [merge_rooted free, NoEmptySegments, List.splitOn_append_cons_self,
    List.tail_append_of_ne_nil (List.splitOn_ne_nil _ _),
    List.dropLast_append_of_ne_nil (List.splitOn_ne_nil _ _)]
  rw [List.tail_append_of_ne_nil (List.splitOn_ne_nil _ _), List.dropLast_concat] at base_interior
  intro segment member
  rcases List.mem_append.mp member with above | below
  · exact base_interior segment above
  · -- the text before the first separator of the reference is a segment now
    obtain ⟨first, segments, parts⟩ :=
      List.exists_cons_of_ne_nil (List.splitOn_ne_nil slash relative)
    have whole : List.intercalate [slash] (relative.splitOn slash) = relative :=
      List.intercalate_splitOn slash
    rw [parts, intercalate_eq_joined] at whole
    rw [NoEmptySegments, parts, List.tail_cons] at interior
    have some_first : first ≠ [] := by
      rintro rfl
      rw [List.nil_append] at whole
      rcases joined_ends segments with empty | starts
      · exact nonempty (whole.symm.trans empty)
      · exact rel (whole ▸ starts)
    rw [parts] at below
    cases segments with
    | nil => cases below
    | cons next later =>
      rw [List.dropLast_cons_of_ne_nil (List.cons_ne_nil _ _)] at below
      rcases List.mem_cons.mp below with rfl | below
      · exact some_first
      · exact interior segment below

/-- Resolving a relative path against a normal base is normalising the two joined. -/
theorem removeDotSegments_merge {base relative : Str} (rooted : base.head? = some slash)
    (normal : lexicallyNormal base = base) (rel : relative.head? ≠ some slash)
    (nonempty : relative ≠ []) (interior : NoEmptySegments relative) :
    removeDotSegments (merge base relative) = lexicallyNormal (joinDirectory base relative) := by
  have merged := noEmptySegments_merge rooted
    (noEmptySegments_normal rooted normal) rel nonempty interior
  rw [removeDotSegments_eq_lexicallyNormal (merge_starts rooted relative) merged,
    lexicallyNormal_merge rooted rel]

end LexicalPath

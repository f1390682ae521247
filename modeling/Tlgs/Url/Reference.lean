import Tlgs.Base.DotSegments
import Tlgs.Url.Compose

/-!
# Relative references

What RFC 3986 makes of a relative reference without an authority, and where `linkCompose`
agrees. The path of a URL does not tell an absent query from an empty one, so the query of
the base is absent where the field is empty.
-/
namespace Tlgs

open Bytes LexicalPath

/-- A relative reference without an authority, cut into its parts. -/
structure Reference where
  path : Str
  query : Option Str
  fragment : Option Str
  path_plain : ∀ c ∈ path, c ≠ question ∧ c ≠ hash
  query_plain : ∀ text ∈ query, hash ∉ text
  /-- no segment but the last is empty, and the path does not start with two slashes -/
  interior : NoEmptySegments path

namespace Reference

def queryText (r : Reference) : Str :=
  match r.query with
  | some text => question :: text
  | none => []

def fragmentText (r : Reference) : Str :=
  match r.fragment with
  | some text => hash :: text
  | none => []

def text (r : Reference) : Str := r.path ++ (r.queryText ++ r.fragmentText)

/-- The target's path, for a base with an authority and a path that is not empty. -/
def resolvePath (base : Str) (r : Reference) : Str :=
  if r.path = [] then base
  else if r.path.head? = some slash then removeDotSegments r.path
  else removeDotSegments (merge base r.path)

/-- The target's query; the base's counts only for a reference without a path and a query. -/
def resolveQuery (base : Option Str) (r : Reference) : Option Str :=
  if r.path = [] ∧ r.query = none then base else r.query

/-! ### Reading a reference -/

theorem text_head {r : Reference} : r.text.head? = some slash ↔ r.path.head? = some slash := by
  cases path : r.path with
  | nil =>
    simp only [text, path, queryText, fragmentText]
    cases r.query <;> cases r.fragment <;> simp [question, hash, slash]
  | cons c rest => simp [text, path]

theorem suffix_marked (r : Reference) {c : UInt8}
    (head : (r.queryText ++ r.fragmentText).head? = some c) :
    c = question ∨ c = hash := by
  simp only [queryText, fragmentText] at head
  cases query : r.query <;> cases fragment : r.fragment <;> simp_all

theorem referencePath_text (r : Reference) : Url.referencePath r.text = r.path := by
  have plain : ∀ c ∈ r.path, (c != question && c != hash) = true :=
    fun c member => by simpa using r.path_plain c member
  rw [Url.referencePath, text, List.takeWhile_append_of_pos plain]
  cases suffix : r.queryText ++ r.fragmentText with
  | nil => simp
  | cons c rest =>
    rcases r.suffix_marked (c := c) (by rw [suffix]; rfl) with rfl | rfl <;> simp

theorem queryAndFragment_text (r : Reference) :
    Url.queryAndFragment r.text = (r.query.getD [], r.fragment.getD []) := by
  have plain : ∀ c ∈ r.path, (c != question && c != hash) = true :=
    fun c member => by simpa using r.path_plain c member
  rw [Url.queryAndFragment, text, List.dropWhile_append_of_pos plain]
  cases query : r.query with
  | none =>
    cases fragment : r.fragment <;> simp [queryText, fragmentText, query, fragment, question, hash]
  | some text =>
    -- the query goes on to the hash, which it does not contain
    have kept : ∀ c ∈ text, (c != hash) = true := by
      intro c member
      rw [bne_iff_ne]
      rintro rfl
      exact r.query_plain text query member
    have cut : text.takeWhile (· != hash) = text ∧ text.dropWhile (· != hash) = [] :=
      ⟨List.takeWhile_eq_self_iff.mpr kept, List.dropWhile_eq_nil_iff.mpr kept⟩
    cases fragment : r.fragment with
    | none => simp [queryText, fragmentText, query, fragment, cut.1, cut.2]
    | some rest =>
      simp [queryText, fragmentText, query, fragment, List.takeWhile_append_of_pos kept,
        List.dropWhile_append_of_pos kept]

end Reference

namespace Url

/-! ### Where `linkCompose` resolves -/

def query (url : Url) : Option Str := if url.param = [] then none else some url.param

/-- The link is resolved as the reference is. -/
def Resolves (url : Url) (r : Reference) : Prop :=
  (linkCompose url r.text).path = r.resolvePath url.path ∧
    (linkCompose url r.text).param = (r.resolveQuery url.query).getD []

theorem linkCompose_text {url : Url} (wf : url.WellFormed) (r : Reference) :
    (linkCompose url r.text).path = (if r.path.head? = some slash then lexicallyNormal r.path
      else lexicallyNormal (joinDirectory url.path r.path)) ∧
      (linkCompose url r.text).param = r.query.getD [] := by
  have parts := r.queryAndFragment_text
  have path := r.referencePath_text
  by_cases rooted : r.path.head? = some slash
  · obtain ⟨rest, text⟩ := List.head?_eq_some_iff.mp (Reference.text_head.mpr rooted)
    rw [text] at parts path ⊢
    -- neither the path nor what follows it ends at the first slash
    have whole : slash :: referencePath rest = r.path := path
    have same : queryAndFragment rest = (r.query.getD [], r.fragment.getD []) := parts
    rw [linkCompose_rooted, if_pos rooted, whole, same]
    exact ⟨rfl, rfl⟩
  · rw [linkCompose_relative url r.text wf.path_rooted (Reference.text_head.not.mpr rooted),
      if_neg rooted, path, parts]
    exact ⟨rfl, rfl⟩

theorem getD_query (url : Url) : url.query.getD [] = url.param := by
  rw [query]
  split
  next empty => exact empty.symm
  next => rfl

/-- The directory of a path is the path itself exactly if it names one. -/
theorem joinDirectory_nil_iff {base : Str} (rooted : base.head? = some slash)
    (normal : lexicallyNormal base = base) :
    lexicallyNormal (joinDirectory base []) = base ↔ base.getLast? = some slash := by
  constructor
  · intro same
    rw [← same, lexicallyNormal_joinDirectory rooted (by simp)]
    exact renderAbsolute_directory _
  · intro directory
    rw [joinDirectory, if_pos directory, append, if_neg (by simp), if_pos (.inr directory),
      List.append_nil, normal]

/-- A link is resolved as the reference is exactly if it has a path, or if the base names a
directory and either the link has a query or the base has none. -/
theorem linkCompose_resolves_iff (uninit : Int) {t : Str} (good : (ofString uninit t).good = true)
    (r : Reference) :
    (ofString uninit t).Resolves r ↔
      r.path ≠ [] ∨ (ofString uninit t).path.getLast? = some slash ∧
        (r.query ≠ none ∨ (ofString uninit t).param = []) := by
  have wf := wellFormed_of_good good
  generalize ofString uninit t = url at wf
  obtain ⟨path, param⟩ := linkCompose_text wf r
  rw [Resolves, path, param]
  by_cases empty : r.path = []
  · -- the path of the directory, without the last segment of the base
    rw [or_iff_right (not_not.mpr empty), Reference.resolvePath, if_pos empty,
      Reference.resolveQuery, empty, if_neg (by simp)]
    refine and_congr (joinDirectory_nil_iff wf.path_rooted wf.path_normal) ?_
    cases query : r.query with
    | none => simp [getD_query, eq_comm]
    | some text => simp
  · refine iff_of_true ⟨?_, ?_⟩ (.inl empty)
    · rw [Reference.resolvePath, if_neg empty]
      split
      next rooted => rw [removeDotSegments_eq_lexicallyNormal rooted r.interior]
      next relative =>
        rw [removeDotSegments_merge wf.path_rooted wf.path_normal relative empty r.interior]
    · rw [Reference.resolveQuery, if_neg fun both => empty both.1]

theorem linkCompose_resolves_iff_parent :
    (ofString 0 (lit "gemini://h/a/b?q")).Resolves
      ⟨lit "../c/.", none, none, by decide, by simp, by decide⟩ ↔
      lit "../c/." ≠ [] ∨ (ofString 0 (lit "gemini://h/a/b?q")).path.getLast? = some slash ∧
        ((none : Option Str) ≠ none ∨ (ofString 0 (lit "gemini://h/a/b?q")).param = []) :=
  linkCompose_resolves_iff 0 (by decide) _

/-- A query alone takes the place of the last segment, not of the query. -/
theorem query_drops_segment :
    let url := ofString 0 (lit "gemini://h/a/b")
    url.good = true ∧ url.str = lit "gemini://h/a/b" ∧
      ¬url.Resolves ⟨[], some (lit "q"), none, by decide, by decide, by decide⟩ := by
  refine ⟨by decide, by decide, ?_⟩
  rintro ⟨path, _⟩
  exact absurd path (by decide)

end Url

end Tlgs

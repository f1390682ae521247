import Tlgs.Url.Canonical

/-!
# `tlgs::linkCompose`

Relative links against a base URL. The link is read by parsing it behind a dummy
authority; its path is then placed in the base's directory and normalised.
-/
namespace Tlgs

open Bytes LexicalPath

/-- `linkCompose(url, path)`. The dummy URLs have a scheme, so the value their default
port starts from is never read. -/
def linkCompose (url : Url) (path : Str) : Url :=
  if path.head? = some slash then
    let dummy := Url.ofString 0 (lit "gemini://localhost" ++ path)
    ((url.withPath dummy.path).withParam dummy.param).withFragment dummy.fragment
  else
    let dummy := Url.ofString 0 (lit "gemini://localhost/" ++ path) false
    let linkPath := dummy.path.drop 1
    let currentPath := url.path
    let linkUrl :=
      if url.path.getLast? = some slash then url.withPath (append currentPath linkPath)
      else url.withPath (append (parentPath currentPath) linkPath)
    (linkUrl.withParam dummy.param).withFragment dummy.fragment

namespace Url

/-- The path of a reference: its text up to the query or fragment. -/
def referencePath (reference : Str) : Str :=
  reference.takeWhile (fun c => c != question && c != hash)

theorem referencePath_relative {reference : Str} (relative : reference.head? ≠ some slash) :
    (referencePath reference).head? ≠ some slash := by
  cases reference with
  | nil => simp [referencePath]
  | cons c reference =>
    rw [referencePath, List.takeWhile_cons]
    split
    · simpa using relative
    · simp

private theorem spelled_dummy (tail : Str) (rooted : tail.head? = some slash) :
    Spelled (lit "gemini://localhost" ++ tail) (lit "gemini") (lit "localhost") none tail := by
  constructor
  · simp only [portPart, List.append_nil]
    rfl
  · exact List.all_eq_true.mp (by decide)
  · decide
  · decide
  · have plain : (lit "localhost").all (fun c => c != colon && c != slash) = true := by decide
    simpa using List.all_eq_true.mp plain
  · simp
  · exact Or.inr rooted

private theorem dummy_slash (path : Str) :
    lit "gemini://localhost/" ++ path = lit "gemini://localhost" ++ slash :: path := by
  have : lit "gemini://localhost/" = lit "gemini://localhost" ++ [slash] := by decide
  rw [this]
  simp

theorem linkCompose_rooted (url : Url) (rest : Str) :
    linkCompose url (slash :: rest) =
      { url with
        path := lexicallyNormal (slash :: referencePath rest)
        param := (queryAndFragment rest).1
        fragment := (queryAndFragment rest).2 } := by
  have rooted : (slash :: referencePath rest).head? = some slash := rfl
  have head := lexicallyNormal_rooted rooted
  simp only [linkCompose, List.head?_cons, if_true,
    ofString_fields 0 (spelled_dummy (slash :: rest) rfl),
    List.drop_succ_cons, List.drop_zero, withPath, withParam, withFragment]
  rw [← referencePath, if_pos head, lexicallyNormal_idem rooted]

theorem parsePath_raw (url : Url) (sv : Str) (no_param : url.param = [])
    (no_fragment : url.fragment = []) :
    (parsePath false url sv).path = slash :: referencePath sv ∧
      (parsePath false url sv).param = (queryAndFragment sv).1 ∧
      (parsePath false url sv).fragment = (queryAndFragment sv).2 := by
  simp only [parsePath, normalizeIf, queryAndFragment, referencePath]
  simp only [Bool.false_eq_true, if_false]
  cases sv.dropWhile (fun c => c != question && c != hash) with
  | nil => exact ⟨rfl, no_param, no_fragment⟩
  | cons mark sv =>
    dsimp only
    split
    · cases sv.dropWhile (· != hash) with
      | nil => exact ⟨rfl, rfl, no_fragment⟩
      | cons c fragment => exact ⟨rfl, rfl, rfl⟩
    · exact ⟨rfl, no_param, rfl⟩

theorem linkCompose_relative (url : Url) (reference : Str) (rooted : url.path.head? = some slash)
    (relative : reference.head? ≠ some slash) :
    linkCompose url reference =
      { url with
        path := lexicallyNormal (joinDirectory url.path (referencePath reference))
        param := (queryAndFragment reference).1
        fragment := (queryAndFragment reference).2 } := by
  have spelled := ofString_spelled 0 false (spelled_dummy (slash :: reference) rfl)
  rw [← dummy_slash] at spelled
  have fields := parsePath_raw (spelledBase 0 (lit "gemini") (lit "localhost") none)
    reference rfl rfl
  -- both branches of the source place the link's path in the directory of the base
  have text : (if url.path.getLast? = some slash then
        url.withPath (append url.path (referencePath reference))
      else url.withPath (append (parentPath url.path) (referencePath reference))) =
      url.withPath (joinDirectory url.path (referencePath reference)) := by
    simp only [joinDirectory]
    split <;> rfl
  have path_relative := referencePath_relative relative
  have head : (joinDirectory url.path (referencePath reference)).head? = some slash :=
    joinDirectory_rooted rooted path_relative
  simp only [linkCompose, relative, if_false, spelled, List.drop_succ_cons,
    List.drop_zero, fields.1, fields.2.1, fields.2.2]
  rw [text]
  simp only [withPath, withParam, withFragment, head, if_true]

/-! ### Composed links are well formed -/

theorem referencePath_plain (reference : Str) :
    ∀ c ∈ referencePath reference, c ≠ question ∧ c ≠ hash := by
  intro c member
  have kept := List.mem_takeWhile_imp member
  simpa using kept

theorem mem_parentPath {s : Str} {c : UInt8} (member : c ∈ parentPath s) : c = slash ∨ c ∈ s := by
  unfold parentPath at member
  dsimp only at member
  split at member
  · exact Or.inl (by simpa using member)
  · right
    have inner := List.rdropWhile_prefix (p := (· != slash)) (l := s)
    have outer := List.rdropWhile_prefix (p := (· == slash)) (l := s.rdropWhile (· != slash))
    exact (outer.trans inner).subset member

theorem mem_joinDirectory {base relative : Str} {c : UInt8}
    (member : c ∈ joinDirectory base relative) : c = slash ∨ c ∈ base ∨ c ∈ relative := by
  have appended : ∀ p : Str, c ∈ append p relative → c = slash ∨ c ∈ p ∨ c ∈ relative := by
    intro p inside
    simp only [append] at inside
    split at inside
    · exact Or.inr (Or.inr inside)
    · split at inside
      · exact Or.inr (List.mem_append.mp inside)
      · rcases List.mem_append.mp inside with left | right
        · exact Or.inr (Or.inl left)
        · rcases List.mem_cons.mp right with here | later
          · exact Or.inl here
          · exact Or.inr (Or.inr later)
  simp only [joinDirectory] at member
  split at member
  · -- the base is a directory
    exact appended _ member
  · -- the parent of the base is
    rcases appended _ member with here | above | inside
    · exact Or.inl here
    · rcases mem_parentPath above with here | kept
      · exact Or.inl here
      · exact Or.inr (Or.inl kept)
    · exact Or.inr (Or.inr inside)

/-- A new path, query and fragment keep the rest of a URL as it was. -/
theorem wellFormed_with {url : Url} {path param fragment : Str} (wf : url.WellFormed)
    (rooted : path.head? = some slash) (plain : ∀ c ∈ path, c ≠ question ∧ c ≠ hash)
    (param_plain : hash ∉ param) :
    ({ url with path := lexicallyNormal path, param := param, fragment := fragment } :
      Url).WellFormed where
  good := wf.good
  protocol_alnum := wf.protocol_alnum
  protocol_lower := wf.protocol_lower
  host_nonempty := wf.host_nonempty
  host_first := wf.host_first
  host_plain := wf.host_plain
  host_lower := wf.host_lower
  port_range := wf.port_range
  path_rooted := lexicallyNormal_rooted rooted
  path_normal := lexicallyNormal_idem rooted
  path_plain := by
    intro c member
    rcases mem_lexicallyNormal rooted member with rfl | inside
    · decide
    · exact plain c inside
  param_plain := param_plain

theorem linkCompose_wellFormed {url : Url} (wf : url.WellFormed) (link : Str) :
    (linkCompose url link).WellFormed := by
  by_cases rooted : link.head? = some slash
  · -- the path of the link replaces that of the base
    obtain ⟨rest, rfl⟩ := List.head?_eq_some_iff.mp rooted
    rw [linkCompose_rooted]
    apply wellFormed_with wf rfl _ (hash_not_mem_query rest)
    intro c member
    rcases List.mem_cons.mp member with rfl | inside
    · decide
    · exact referencePath_plain rest c inside
  · rw [linkCompose_relative url link wf.path_rooted rooted]
    have path_relative := referencePath_relative rooted
    apply wellFormed_with wf
      (joinDirectory_rooted wf.path_rooted path_relative) _ (hash_not_mem_query link)
    intro c member
    rcases mem_joinDirectory member with rfl | base | inside
    · decide
    · exact wf.path_plain c base
    · exact referencePath_plain link c inside

/-! ### When two bases compose alike -/

/-- The scheme, host and port two URLs print are the same. -/
def SameOrigin (a b : Url) : Prop :=
  a.protocol = b.protocol ∧ a.host = b.host ∧ a.printedPort = b.printedPort

/-- The directories of two URLs agree above the levels a reference climbs. -/
def SameAncestor (a b : Url) (reference : Str) : Prop :=
  (directoryNames a.path).rdrop (climb (referencePath reference)).1 =
    (directoryNames b.path).rdrop (climb (referencePath reference)).1

/-- Composing touches the path, the query and the fragment only. -/
theorem linkCompose_origin (url : Url) (link : Str) :
    (linkCompose url link).protocol = url.protocol ∧ (linkCompose url link).host = url.host ∧
      (linkCompose url link).port_ = url.port_ ∧
      (linkCompose url link).defaultPort = url.defaultPort ∧
      (linkCompose url link).good = url.good := by
  unfold linkCompose withPath
  dsimp only
  -- what the dummy URLs parse to plays no part
  generalize ofString 0 (lit "gemini://localhost" ++ link) = dummy
  generalize ofString 0 (lit "gemini://localhost/" ++ link) false = dummy'
  split
  · exact ⟨rfl, rfl, rfl, rfl, rfl⟩
  · split
    · exact ⟨rfl, rfl, rfl, rfl, rfl⟩
    · exact ⟨rfl, rfl, rfl, rfl, rfl⟩

theorem linkCompose_query (a b : Url) (link : Str) :
    (linkCompose a link).param = (linkCompose b link).param ∧
      (linkCompose a link).fragment = (linkCompose b link).fragment := by
  simp only [linkCompose]
  split <;> exact ⟨rfl, rfl⟩

private theorem directoryNames_proper (path : Str) : ProperNames (directoryNames path) :=
  reduceNames_proper _ (fun _ member => not_mem_of_mem_splitOn (List.dropLast_subset _ member))

theorem linkCompose_path_eq_iff {a b : Url} (wfa : a.WellFormed) (wfb : b.WellFormed)
    (link : Str) :
    (linkCompose a link).path = (linkCompose b link).path ↔
      link.head? = some slash ∨ SameAncestor a b link := by
  by_cases rooted : link.head? = some slash
  · obtain ⟨rest, rfl⟩ := List.head?_eq_some_iff.mp rooted
    simp [linkCompose_rooted, rooted]
  · have path_relative := referencePath_relative rooted
    have proper : ∀ path : Str, ProperNames ((directoryNames path).rdrop
        (climb (referencePath link)).1 ++ (climb (referencePath link)).2.reverse) := by
      intro path name member
      rcases List.mem_append.mp member with above | below
      · exact directoryNames_proper path name ((List.take_subset _ _) above)
      · exact climb_proper _ name (List.mem_reverse.mp below)
    rw [linkCompose_relative a link wfa.path_rooted rooted,
      linkCompose_relative b link wfb.path_rooted rooted,
      lexicallyNormal_joinDirectory wfa.path_rooted path_relative,
      lexicallyNormal_joinDirectory wfb.path_rooted path_relative]
    simp only [rooted, false_or, SameAncestor]
    -- the names below are the link's own, so the two paths differ in those above only
    constructor
    · intro same
      exact List.append_cancel_right (renderAbsolute_injective (proper _) (proper _) same)
    · intro same
      rw [same]

/-! ### No link leads out of the capsule -/

/-- Whatever the link, what is composed against a canonical URL has that URL's scheme, host and
port and an absolute path without dot segments, and parsing what it prints changes nothing. -/
theorem linkCompose_confined (uninit uninit' : Int) {t : Str}
    (good : (ofString uninit t).good = true) (scheme : (ofString uninit t).protocol ≠ [])
    (canonical : (ofString uninit t).str = t) (link : Str) :
    let url := ofString uninit t
    let linkUrl := linkCompose url link
    (linkUrl.protocol = url.protocol ∧ linkUrl.host = url.host ∧ linkUrl.port_ = url.port_ ∧
        ∀ default_port, linkUrl.port default_port = url.port default_port) ∧
      (linkUrl.path.head? = some slash ∧
        (∀ segment ∈ linkUrl.path.splitOn slash, segment ≠ dot ∧ segment ≠ dotdot) ∧
        ∀ c ∈ linkUrl.path, c ≠ question ∧ c ≠ hash) ∧
      (ofString uninit' linkUrl.str).good = true ∧
        (ofString uninit' linkUrl.str).str = linkUrl.str := by
  intro url linkUrl
  have wf : url.WellFormed := wellFormed_of_good good
  have wf' : linkUrl.WellFormed := linkCompose_wellFormed wf link
  obtain ⟨protocol, host, port_, defaultPort, _⟩ := linkCompose_origin url link
  have printed : linkUrl.printedPort = url.printedPort := by
    simp only [printedPort]
    rw [port_, defaultPort]
  -- a canonical URL does not print its default port, and neither does the link
  have fixed : (ofString uninit url.str).str = url.str :=
    congrArg (fun s => (ofString uninit s).str) canonical
  refine ⟨⟨protocol, host, port_, fun default_port => ?_⟩,
    ⟨wf'.path_rooted, fun segment member => ?_,
    wf'.path_plain⟩, good_ofString_str uninit' wf', ?_⟩
  · simp only [port]
    rw [port_, defaultPort]
  · rw [← wf'.path_normal] at member
    exact not_dots_of_normal wf'.path_rooted member
  · rw [str_ofString_str_iff uninit' wf' (protocol ▸ scheme), printed, protocol]
    exact (str_ofString_str_iff uninit wf scheme).mp fixed

theorem linkCompose_confined_climbing :
    let url := ofString 0 (lit "gemini://h/a/b")
    let linkUrl := linkCompose url (lit "../../../c/./d?q#f")
    (linkUrl.protocol = url.protocol ∧ linkUrl.host = url.host ∧ linkUrl.port_ = url.port_ ∧
        ∀ default_port, linkUrl.port default_port = url.port default_port) ∧
      (linkUrl.path.head? = some slash ∧
        (∀ segment ∈ linkUrl.path.splitOn slash, segment ≠ dot ∧ segment ≠ dotdot) ∧
        ∀ c ∈ linkUrl.path, c ≠ question ∧ c ≠ hash) ∧
      (ofString 0 linkUrl.str).good = true ∧ (ofString 0 linkUrl.str).str = linkUrl.str :=
  linkCompose_confined 0 0 (by decide) (by decide) (by decide) _

end Url
end Tlgs

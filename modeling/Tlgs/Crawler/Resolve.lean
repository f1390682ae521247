import Tlgs.Crawler.Links

/-!
# What relative links are resolved against

A document may come from another URL than the call was asked for. Its relative links are
stored as if it came from the latter, which gives the same links only when the two URLs
agree in the parts that a link leaves open.
-/
namespace Tlgs

open Bytes LexicalPath Interactive Url

/-! ### Removing fragments and repeated URLs -/

theorem trimLink_origin (url : Url) :
    (trimLink url).protocol = url.protocol ∧ (trimLink url).host = url.host ∧
      (trimLink url).port_ = url.port_ ∧ (trimLink url).defaultPort = url.defaultPort ∧
      (trimLink url).path = url.path := by
  unfold trimLink
  dsimp only
  split <;> exact ⟨rfl, rfl, rfl, rfl, rfl⟩

theorem trimLink_printedPort (url : Url) : (trimLink url).printedPort = url.printedPort := by
  obtain ⟨_, _, port, default, _⟩ := trimLink_origin url
  simp only [printedPort]
  rw [port, default]

theorem linkCompose_printedPort (url : Url) (link : Str) :
    (linkCompose url link).printedPort = url.printedPort := by
  obtain ⟨_, _, port, default, _⟩ := linkCompose_origin url link
  simp only [printedPort]
  rw [port, default]

theorem wellFormed_withFragment {url : Url} (wf : url.WellFormed) (fragment : Str) :
    (url.withFragment fragment).WellFormed :=
  { wf with }

theorem trimLink_wellFormed {url : Url} (wf : url.WellFormed) : (trimLink url).WellFormed := by
  unfold trimLink
  dsimp only
  split
  · exact { wellFormed_withFragment wf [] with param_plain := List.not_mem_nil }
  · exact wellFormed_withFragment wf []

/-- Links with one query are stored alike when their origins and paths are the same. -/
theorem trimLink_str_eq_iff {a b : Url} (wfa : a.WellFormed) (wfb : b.WellFormed)
    (query : a.param = b.param) :
    (trimLink a).str = (trimLink b).str ↔ SameOrigin a b ∧ a.path = b.path := by
  obtain ⟨protocol, host, _, _, path⟩ := trimLink_origin a
  obtain ⟨protocol', host', _, _, path'⟩ := trimLink_origin b
  constructor
  · intro same
    obtain ⟨equal_protocol, equal_host, equal_port, equal_path, _⟩ :=
      components_of_str_eq (trimLink_wellFormed wfa) (trimLink_wellFormed wfb) same
    rw [protocol, protocol'] at equal_protocol
    rw [host, host'] at equal_host
    rw [trimLink_printedPort, trimLink_printedPort] at equal_port
    rw [path, path'] at equal_path
    exact ⟨⟨equal_protocol, equal_host, equal_port⟩, equal_path⟩
  · rintro ⟨⟨equal_protocol, equal_host, equal_port⟩, equal_path⟩
    -- whether the query is dropped depends on the text without the fragment
    have untrimmed : (a.withFragment []).str = (b.withFragment []).str :=
      str_eq_of_components equal_protocol equal_host equal_port equal_path query rfl
    have param : (trimLink a).param = (trimLink b).param ∧
        (trimLink a).fragment = (trimLink b).fragment := by
      unfold trimLink
      dsimp only
      have paths : (a.withFragment []).path = (b.withFragment []).path := equal_path
      have params : (a.withFragment []).param = (b.withFragment []).param := query
      rw [untrimmed, params, paths]
      split
      · exact ⟨rfl, rfl⟩
      · exact ⟨query, rfl⟩
    refine str_eq_of_components ?_ ?_ ?_ ?_ param.1 param.2
    · rw [protocol, protocol', equal_protocol]
    · rw [host, host', equal_host]
    · rw [trimLink_printedPort, trimLink_printedPort, equal_port]
    · rw [path, path', equal_path]

/-! ### Relative links -/

variable {env : Env} {index : Nat} {link : Str}

/-- A link that is resolved against the URL of the page. -/
structure Relative (env : Env) (index : Nat) (link : Str) : Prop where
  uri : isNonUriAction link = false
  relative : (Url.ofString (env.uninitLink index) link).good = false
  other_scheme : startsWith link (lit "gemini://") = false
  short : link.length ≤ 1024

/-- What is stored for a link of a document at `url`: the link, and whether it leads to
another site. -/
def storedLink (env : Env) (url : Url) (index : Nat) (link : Str) : Option (Str × Bool) :=
  (linkUrl env url index link).map fun linkUrl => (linkUrl.str, isCrossSite url linkUrl)

theorem linkUrl_relative (relative : Relative env index link) (url : Url) :
    linkUrl env url index link =
      if (linkCompose url link).good = false then none
        else some (trimLink (linkCompose url link)) := by
  simp only [linkUrl]
  simp only [relative.uri, relative.relative, relative.other_scheme, Bool.false_eq_true, if_false]
  rw [if_neg (Nat.not_lt.mpr relative.short)]

/-- A resolved link stays on the site of the page. -/
theorem isCrossSite_linkCompose (url : Url) (link : Str) :
    isCrossSite url (trimLink (linkCompose url link)) = false := by
  obtain ⟨_, host, port, default, _⟩ := trimLink_origin (linkCompose url link)
  obtain ⟨_, host', port', default', _⟩ := linkCompose_origin url link
  simp only [isCrossSite, Url.port]
  rw [host, host', port, port', default, default']
  simp

theorem storedLink_relative (relative : Relative env index link) (url : Url) :
    storedLink env url index link =
      if url.good = false then none else some ((trimLink (linkCompose url link)).str, false) := by
  obtain ⟨_, _, _, _, good⟩ := linkCompose_origin url link
  simp only [storedLink]
  rw [linkUrl_relative relative, good]
  split
  · rfl
  · rw [Option.map_some, isCrossSite_linkCompose]

/-- A relative link is stored alike for two URLs exactly when both are good, have one
origin, and agree in the directories that the link does not climb over. -/
theorem storedLink_eq_iff {a b : Url} (relative : Relative env index link) (wfa : a.WellFormed)
    (parsed : Parsed b) :
    storedLink env a index link = storedLink env b index link ↔
      b.good = true ∧ SameOrigin a b ∧ (link.head? = some slash ∨ SameAncestor a b link) := by
  rw [storedLink_relative relative, storedLink_relative relative, wfa.good]
  cases good : b.good with
  | false =>
    -- against a bad URL nothing would be stored
    simp
  | true =>
    have wfb := parsed.wellFormed good
    obtain ⟨protocol, host, _⟩ := linkCompose_origin a link
    obtain ⟨protocol', host', _⟩ := linkCompose_origin b link
    have same : SameOrigin (linkCompose a link) (linkCompose b link) ↔ SameOrigin a b := by
      simp only [SameOrigin]
      rw [protocol, protocol', host, host', linkCompose_printedPort, linkCompose_printedPort]
    simp only [Bool.true_eq_false, if_false, Option.some.injEq, Prod.mk.injEq, and_true, true_and]
    rw [trimLink_str_eq_iff (linkCompose_wellFormed wfa link) (linkCompose_wellFormed wfb link)
      (linkCompose_query a b link).1, linkCompose_path_eq_iff wfa wfb, same]

variable {fails : Op → Str → Prop}

/-- A call that stores content stores what the links of the document are for the URL it
was asked for. For a relative link this is what it is for the URL that the document was
fetched from exactly when that URL is good and the two agree in origin and, unless the
link starts with a slash, in the directories it does not climb over. -/
theorem crawlPage_storedLink_iff {w : World} {urlStr : Str} {result : Except Str Bool} {after : Rec}
    (run : env.Run fails (crawlPage env urlStr) ⟨w, []⟩ result after)
    (contentStored : ContentStored after.log) :
    ∃ crawlUrl status resp doc,
      FetchedDocument env (Url.ofString (env.uninitUrl urlStr) urlStr) after.log crawlUrl
        status resp doc ∧
      ⟨.updateContent urlStr
        (pageContent env (Url.ofString (env.uninitUrl urlStr) urlStr) status resp doc),
        .ok ()⟩ ∈ after.log ∧
      ∀ link index, (link, index) ∈ doc.links.zipIdx → Relative env index link →
        (storedLink env (Url.ofString (env.uninitUrl urlStr) urlStr) index link =
            storedLink env crawlUrl index link ↔
          crawlUrl.good = true ∧ SameOrigin (Url.ofString (env.uninitUrl urlStr) urlStr) crawlUrl ∧
            (link.head? = some slash ∨
              SameAncestor (Url.ofString (env.uninitUrl urlStr) urlStr) crawlUrl link)) := by
  obtain ⟨good, same, crawlUrl, status, resp, doc, row, r, r', storing⟩ :=
    crawlPage_stores run contentStored
  refine ⟨crawlUrl, status, resp, doc, ⟨storing.last, storing.processes.concrete, storing.document⟩,
    ?_, fun link index _ relative => ?_⟩
  · -- the content was stored under the URL asked for
    obtain ⟨events, log, _⟩ := storing.ends.log
    rw [log, storing.content.log, same]
    simp
  · exact storedLink_eq_iff relative (wellFormed_of_good good) storing.processes.parsed

/-- `gemini://h/a/` redirects to a document with the link `x`. -/
def redirected : Rec :=
  ((Outside.redirecting (lit "gemini://h/a/") (lit "gemini://h/b/") (lit "=> x x")).run Env.small
    (crawlPage Env.small (lit "gemini://h/a/")) ⟨World.empty, []⟩).2

private theorem redirected_run :
    Env.small.Run never (crawlPage Env.small (lit "gemini://h/a/")) ⟨World.empty, []⟩ (.ok true)
      redirected :=
  Outside.run_of_ends (fun _ _ failed => by cases failed) (by decide)

theorem crawlPage_storedLink_iff_redirected :
    ∃ crawlUrl status resp doc,
      FetchedDocument Env.small (Url.ofString 0 (lit "gemini://h/a/")) redirected.log
        crawlUrl status resp
        doc ∧
      ⟨.updateContent (lit "gemini://h/a/")
          (pageContent Env.small (Url.ofString 0 (lit "gemini://h/a/")) status resp doc), .ok ()⟩ ∈
        redirected.log ∧
      ∀ link index, (link, index) ∈ doc.links.zipIdx → Relative Env.small index link →
        (storedLink Env.small (Url.ofString 0 (lit "gemini://h/a/")) index link =
            storedLink Env.small crawlUrl index link ↔
          crawlUrl.good = true ∧ SameOrigin (Url.ofString 0 (lit "gemini://h/a/")) crawlUrl ∧
            (link.head? = some slash ∨
              SameAncestor (Url.ofString 0 (lit "gemini://h/a/")) crawlUrl link)) :=
  crawlPage_storedLink_iff redirected_run (by decide)

/-- The link `x` of a document fetched from `gemini://h/b/` is stored as a link to
`gemini://h/a/x`. -/
theorem redirected_link_misresolved :
    Env.small.Run never (crawlPage Env.small (lit "gemini://h/a/")) ⟨World.empty, []⟩ (.ok true)
      redirected ∧
    LastRequest redirected.log (Url.ofString 0 (lit "gemini://h/b/"))
      ⟨lit "20", lit "text/gemini", lit "=> x x"⟩ ∧
    (linkCompose (Url.ofString 0 (lit "gemini://h/b/")) (lit "x")).str = lit "gemini://h/b/x" ∧
    (redirected.state.pages (lit "gemini://h/a/")).map PageRow.listedLinks =
      some [lit "gemini://h/a/x"] :=
  ⟨redirected_run, by decide, by decide, by decide⟩

end Tlgs

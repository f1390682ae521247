import Tlgs.Crawler.Store

/-!
# The links of a page

The links of a document are stored twice, in two columns of `pages` and in rows of
`links`. Relative ones are resolved against the URL that the call was asked for.
-/
namespace Tlgs

open Bytes Interactive Interactive.Program

/-! ### The set of links -/

theorem insertUrl_ne_nil (url : Url) (set : List Url) : insertUrl url set ≠ [] := by
  cases set with
  | nil => exact List.cons_ne_nil _ _
  | cons first rest =>
    simp only [insertUrl]
    split
    · exact List.cons_ne_nil _ _
    · split <;> exact List.cons_ne_nil _ _

private theorem foldl_insertUrl_eq_nil {urls set : List Url} :
    urls.foldl (fun set linkUrl => insertUrl linkUrl set) set = [] ↔ urls = [] ∧ set = [] := by
  induction urls generalizing set with
  | nil => simp
  | cons url urls ih =>
    rw [List.foldl_cons, ih]
    simp [insertUrl_ne_nil]

variable {env : Env}

/-- The set is empty when every link is skipped. -/
theorem linkUrls_eq_nil_iff {url : Url} {links : List Str} :
    linkUrls env url links = [] ↔
      ∀ link index, (link, index) ∈ links.zipIdx → linkUrl env url index link = none := by
  simp only [linkUrls]
  -- an insertion never leaves the set empty
  rw [foldl_insertUrl_eq_nil, and_iff_left rfl, List.filterMap_eq_nil_iff]
  exact ⟨fun none link index member => none (link, index) member,
    fun none pair member => none pair.1 pair.2 member⟩

/-! ### Columns and rows -/

/-- A row of `links` leads from the page to this URL. -/
def LinksTo (w : World) (urlStr toUrl : Str) : Prop := ∃ row ∈ w.linksOf urlStr, row.toUrl = toUrl

/-- The two columns together. A new page has neither. -/
def PageRow.listedLinks (row : PageRow) : List Str :=
  row.internalLinks.getD [] ++ row.crossSiteLinks.getD []

/-- The columns of the page list this URL. -/
def Lists (w : World) (urlStr toUrl : Str) : Prop :=
  ∃ row, w.pages urlStr = some row ∧ toUrl ∈ row.listedLinks

/-- Rows and columns give the page the same links. -/
def LinksMatch (w : World) (urlStr : Str) : Prop :=
  ∀ toUrl, LinksTo w urlStr toUrl ↔ Lists w urlStr toUrl

section Match

variable {url : Url} {linkUrls : List Url} {after : World}

theorem mem_lists_iff (url : Url) (linkUrls : List Url) (toUrl : Str) :
    toUrl ∈ internalLinks url linkUrls ∨ toUrl ∈ crossSiteLinks url linkUrls ↔
      ∃ linkUrl ∈ linkUrls, linkUrl.str = toUrl := by
  simp only [internalLinks, crossSiteLinks, List.mem_map, List.mem_filter]
  constructor
  · rintro (⟨linkUrl, ⟨member, _⟩, rfl⟩ | ⟨linkUrl, ⟨member, _⟩, rfl⟩)
    · exact ⟨linkUrl, member, rfl⟩
    · exact ⟨linkUrl, member, rfl⟩
  · rintro ⟨linkUrl, member, rfl⟩
    -- every link goes to one of the two columns
    cases site : isCrossSite url linkUrl with
    | true => exact .inr ⟨linkUrl, ⟨member, site⟩, rfl⟩
    | false => exact .inl ⟨linkUrl, ⟨member, by simp [site]⟩, rfl⟩

/-- The columns hold the set of links. -/
theorem lists_iff {content : PageContent} {row row' : PageRow} {t : Time}
    (lists : content.internalLinks = internalLinks url linkUrls ∧
      content.crossSiteLinks = crossSiteLinks url linkUrls)
    (stored : after.pages url.str = some row')
    (indexed : Indexed env url (row.setContent t content) row') (toUrl : Str) :
    Lists after url.str toUrl ↔ ∃ linkUrl ∈ linkUrls, linkUrl.str = toUrl := by
  obtain ⟨_, rfl⟩ := indexed
  rw [← mem_lists_iff, ← lists.1, ← lists.2]
  constructor
  · rintro ⟨found, stored', member⟩
    cases stored.symm.trans stored'
    exact List.mem_append.mp member
  · intro member
    exact ⟨_, stored, List.mem_append.mpr member⟩

variable (literal : ∀ str, env.readLiteral (pgSQLRealEscape env.replaceAll str) = str)

include literal

/-- What a group of values in the INSERT denotes. -/
theorem readLink_linkValues (url linkUrl : Url) :
    (env.readLink (linkValues env url linkUrl)).url = url.str ∧
      (env.readLink (linkValues env url linkUrl)).toUrl = linkUrl.str := by
  simp only [Env.readLink, linkValues, literal, and_self]

/-- The new rows hold the set of links. -/
theorem mem_newLinks_iff (toUrl : Str) :
    (∃ row ∈ newLinks env url linkUrls, row.toUrl = toUrl) ↔
      ∃ linkUrl ∈ linkUrls, linkUrl.str = toUrl := by
  simp only [newLinks, Multiset.mem_filter, Multiset.mem_coe, List.mem_map]
  constructor
  · rintro ⟨row, ⟨⟨_, ⟨linkUrl, member, rfl⟩, rfl⟩, _⟩, rfl⟩
    exact ⟨linkUrl, member, (readLink_linkValues literal _ linkUrl).2.symm⟩
  · rintro ⟨linkUrl, member, rfl⟩
    obtain ⟨own, target⟩ := readLink_linkValues literal url linkUrl
    exact ⟨_, ⟨⟨_, ⟨linkUrl, member, rfl⟩, rfl⟩, own⟩, target⟩

/-- Once everything is stored, rows and columns agree unless the document has no links and
the page had rows. -/
theorem stored_linksMatch_iff {w : World} {content : PageContent} {row : PageRow} {t : Time}
    (lists : content.internalLinks = internalLinks url linkUrls ∧
      content.crossSiteLinks = crossSiteLinks url linkUrls)
    (stored : Stored env url linkUrls (row.setContent t content) w after) :
    LinksMatch after url.str ↔ linkUrls ≠ [] ∨ w.linksOf url.str = 0 := by
  obtain ⟨links, row', page, indexed⟩ := stored
  simp only [LinksMatch, LinksTo]
  simp only [lists_iff lists page indexed, links]
  by_cases empty : linkUrls = []
  · -- the early return: the columns are empty, and the rows are those from before
    subst empty
    simp only [if_true, ne_eq, not_true_eq_false, false_or, List.not_mem_nil,
      false_and, exists_false, iff_false]
    constructor
    · intro nothing
      exact Multiset.eq_zero_of_forall_notMem fun old member => nothing _ ⟨old, member, rfl⟩
    · intro none toUrl
      simp [none]
  · -- the rows were deleted and inserted anew
    simp only [empty, if_false]
    exact iff_of_true (mem_newLinks_iff literal) (.inl empty)

end Match

variable {fails : Op → Str → Prop}

/-- After a call that stored content and in which nothing failed, the rows of `links` for
the page lead to the URLs in its columns exactly when the document has a link that is not
skipped, or there were no rows for the page before. -/
theorem crawlPage_linksMatch_iff
    (literal : ∀ str, env.readLiteral (pgSQLRealEscape env.replaceAll str) = str) {w : World}
    {urlStr : Str} {result : Except Str Bool} {after : Rec}
    (run : env.Run fails (crawlPage env urlStr) ⟨w, []⟩ result after)
    (contentStored : ContentStored after.log) (succeeded : Succeeded after.log) :
    ∃ crawlUrl status resp doc,
      FetchedDocument env (Url.ofString (env.uninitUrl urlStr) urlStr) after.log crawlUrl
        status resp doc ∧
      (LinksMatch after.state urlStr ↔
        (∃ link index, (link, index) ∈ doc.links.zipIdx ∧
          linkUrl env (Url.ofString (env.uninitUrl urlStr) urlStr) index link ≠ none) ∨
        w.linksOf urlStr = 0) := by
  obtain ⟨_, same, crawlUrl, status, resp, doc, row, r, r', storing⟩ :=
    crawlPage_stores run contentStored
  refine ⟨crawlUrl, status, resp, doc, ⟨storing.last, storing.processes.concrete, storing.document⟩,
    ?_⟩
  obtain ⟨t, page⟩ := storing.content.stored
  obtain ⟨_, stored⟩ := storing.ends.completes ⟨rfl, rfl⟩ page succeeded
  have matching := stored_linksMatch_iff literal ⟨rfl, rfl⟩ stored
  -- rows are stored under the printed URL, which is the one asked for
  rw [same, ne_eq, linkUrls_eq_nil_iff] at matching
  have before := storing.content.links
  rw [same] at before
  rw [matching, before]
  simp only [not_forall, exists_prop, ne_eq]

/-- The document that answers is a single link line. -/
theorem crawlPage_linksMatch_iff_link :
    let after := ((Outside.serving (lit "=> /x x")).run Env.small
      (crawlPage Env.small (lit "gemini://h/")) ⟨World.empty, []⟩).2
    ∃ crawlUrl status resp doc,
      FetchedDocument Env.small (Url.ofString 0 (lit "gemini://h/")) after.log crawlUrl
        status resp doc ∧
      (LinksMatch after.state (lit "gemini://h/") ↔
        (∃ link index, (link, index) ∈ doc.links.zipIdx ∧
          linkUrl Env.small (Url.ofString 0 (lit "gemini://h/")) index link ≠ none) ∨
        World.empty.linksOf (lit "gemini://h/") = 0) := by
  intro after
  have literal : ∀ str, Env.small.readLiteral (pgSQLRealEscape Env.small.replaceAll str) = str :=
    readEscapes_pgSQLRealEscape fun _ _ _ _ => rfl
  have run : Env.small.Run never (crawlPage Env.small (lit "gemini://h/"))
      ⟨World.empty, []⟩ (.ok true)
      after := Outside.run_of_ends serving_never (by decide)
  exact crawlPage_linksMatch_iff literal run (by decide) (by decide)

/-- The row of a link that an earlier version of a page had. -/
def earlierLink : LinkRow where
  url := lit "gemini://h/"
  host := lit "h"
  port := 1965
  toUrl := lit "gemini://h/old"
  isCrossSite := false
  toHost := lit "h"
  toPort := 1965

/-- A page that loses its last link keeps the rows of its earlier links. -/
theorem earlier_link_remains :
    ∃ after, Env.small.Run never (crawlPage Env.small (lit "gemini://h/"))
        ⟨World.empty.setLinks {earlierLink}, []⟩ (.ok true) after ∧
      ContentStored after.log ∧ Succeeded after.log ∧
      LinksTo after.state (lit "gemini://h/") (lit "gemini://h/old") ∧
      ¬Lists after.state (lit "gemini://h/") (lit "gemini://h/old") := by
  let after := ((Outside.serving (lit "hello")).run Env.small
    (crawlPage Env.small (lit "gemini://h/")) ⟨World.empty.setLinks {earlierLink}, []⟩).2
  refine ⟨after, Outside.run_of_ends serving_never (by decide), by decide, by decide,
    ⟨earlierLink, by decide, rfl⟩, ?_⟩
  rintro ⟨row, stored, listed⟩
  have columns : (after.state.pages (lit "gemini://h/")).map PageRow.listedLinks = some [] := by
    decide
  rw [stored] at columns
  rw [Option.some.inj columns] at listed
  cases listed

end Tlgs

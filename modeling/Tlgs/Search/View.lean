import Tlgs.Base.Gemtext
import Tlgs.Search.Transparent

/-!
# The view of a page of results

The text that `search_result.csp` writes, with `header.csp` in front. Read as Gemini text it links
to the start of the site, to the same page in the other mode, to the results, and to the pages
before and after; a link that is followed is a request for that page of the same search. What a
capsule says of itself adds no link to it, as long as it stays within its line.
-/
namespace Tlgs

open Bytes FormEncoding

/-- What the view takes from elsewhere: decoding a URL, how a score is printed, and the members that
a URL has when the parser does not accept it. -/
structure ViewSite where
  urlDecode : Str → Str
  printScore : Rat → Str
  uninitUrl : Str → Int

/-- `tlgs::Url(result.url)` -/
def ViewSite.url (site : ViewSite) (result : SearchResult) : Url :=
  Url.ofString (site.uninitUrl result.url) result.url

/-! ### The text -/

def searchPath (verbose : Bool) : Str := if verbose then lit "/v/search" else lit "/search"

namespace SearchView

variable (view : SearchView)

def currentPage : UInt64 := view.currentPageIdx + 1

def maxPages : UInt64 :=
  let totalResults := UInt64.ofNat view.totalResults
  totalResults / view.itemPerPage + if totalResults % view.itemPerPage ≠ 0 then 1 else 0

/-- `{}/{}?{}` -/
def pageTarget (verbose : Bool) (page : UInt64) : Str :=
  searchPath verbose ++ lit "/" ++ decimal page.toNat ++ lit "?" ++ view.encodedSearchTerm

/-- `{}?{}` -/
def firstTarget : Str := searchPath view.verbose ++ lit "?" ++ view.encodedSearchTerm

/-- Where the line above the results leads: to this page in the other mode. -/
def modeTarget : Str := view.pageTarget (!view.verbose) view.currentPage

def previousTarget : Option Str :=
  if view.currentPage ≠ 1 then
    let pageNum := view.currentPage - 1
    some (if pageNum ≠ 1 then view.pageTarget view.verbose pageNum else view.firstTarget)
  else none

def nextTarget : Option Str :=
  if view.currentPage ≠ view.maxPages then some
    (view.pageTarget view.verbose (view.currentPage + 1)) else none

/-- `{}_jump/{}` -/
def jumpTarget : Option Str :=
  if view.maxPages ≠ 1 then some (searchPath view.verbose ++ lit "_jump/" ++ view.encodedSearchTerm)
    else none

/-- `header.csp`, and the two lines behind `<%view header %>`. -/
def headerLines : List Str :=
  (if view.title ≠ [] then [lit "# " ++ view.title, []]
    else [lit "# TLGS - \"Totally Legit\" Gemini Search"]) ++
  [lit "=> / 🏠 Home", lit "=> " ++ searchPath view.verbose ++ lit " 🔍 Search",
    lit "=> /backlinks? 🔙 Query backlinks", [], []]

def modeLines : List Str :=
  if view.verbose = false then
    [lit "## Search", lit "=> " ++ lit " " ++ view.modeTarget ++ lit " 📚 Enter verbose search"]
  else [lit "## Search [verbose]", lit "=> " ++ lit " " ++ view.modeTarget ++
    lit " 📚 Exit verbose search"]

/-- The body of the loop over the results. -/
def resultLines (site : ViewSite) (result : SearchResult) : List Str :=
  let sizeInKb := if result.size / 1000 < 1 then 1 else result.size / 1000
  let contentType := if result.contentType = [] then lit "unknown/none" else result.contentType
  let url := site.url result
  [if sizeInKb ≠ 0 then
      lit "=> " ++ url.str ++ lit " " ++ result.title ++ lit " (" ++ contentType ++ lit ", " ++
        decimal sizeInKb.toNat ++ lit "KB)"
    else lit "=> " ++ url.str ++ lit " " ++ result.title ++ lit " (" ++ contentType ++ lit ")"] ++
  (if result.title ≠ url.str then [lit "* " ++ site.urlDecode url.str] else []) ++
  (if view.verbose then
    [lit "* Score: " ++ site.printScore result.score,
      lit "* Last Crawled: " ++ result.lastCrawledAt] else []) ++
  [sanitizePreviw result.preview, []]

/-- What stands below the results. -/
def footLines : List Str :=
  if view.searchResult = [] then
    [lit "> WOW, such emptiness... - Totally not Doge", lit "0 search result found"]
  else
    [lit "Page " ++ decimal view.currentPage.toNat ++ lit " of " ++
      decimal view.maxPages.toNat ++ lit " (" ++
      decimal view.totalResults ++ lit " results)."] ++
    (view.previousTarget.map fun target => lit "=> " ++ target ++ lit " ⬅️ Previous Page").toList ++
    (view.nextTarget.map fun target => lit "=> " ++ target ++ lit " ➡️ Next Page").toList ++
    (view.jumpTarget.map fun target => lit "=> " ++ target ++ lit " ↗️ Go to page").toList

def lines (site : ViewSite) : List Str :=
  view.headerLines ++ view.modeLines ++ view.searchResult.flatMap (view.resultLines site) ++
    view.footLines

def text (site : ViewSite) : Str := (view.lines site).flatMap Gemtext.line

end SearchView

/-! ### What is read -/

namespace SearchView

variable {view : SearchView} {site : ViewSite}

end SearchView

end Tlgs

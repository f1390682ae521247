import Tlgs.Base.Program
import Tlgs.Base.Table
import Tlgs.Gemini.Document
import Tlgs.Crawler.Escape
import Mathlib.Data.Multiset.Filter

/-!
# The crawler's tables and what it asks of the outside

The rows of `pages`, `links` and `perma_redirects`, and one operation for each SQL
statement, request and check that the crawler waits for. A statement either takes effect
as a whole or fails and changes nothing. The clock never runs backwards, and may move on
before every operation. The robots check and the network may answer anything.
-/
namespace Tlgs

open Bytes Interactive

/-- Seconds. -/
abbrev Time := Int

def day : Time := 24 * 3600
def minute : Time := 60

structure PageRow where
  domainName : Str
  port : Int
  firstSeenAt : Time
  contentType : Option Str := none
  charset : Option Str := none
  lang : Option Str := none
  title : Option Str := none
  contentBody : Option Str := none
  feedType : Option Str := none
  size : Nat := 0
  lastIndexedAt : Option Time := none
  lastCrawledAt : Option Time := none
  lastCrawlSuccessAt : Option Time := none
  lastQueuedAt : Option Time := none
  lastStatus : Option Int := none
  lastMeta : Option Str := none
  searchVector : Option Str := none
  titleVector : Option Str := none
  crossSiteLinks : Option (List Str) := none
  internalLinks : Option (List Str) := none
  indexedContentHash : Str := []
  rawContentHash : Str := []
  deriving DecidableEq, Repr

structure LinkRow where
  url : Str
  host : Str
  port : Int
  toUrl : Str
  isCrossSite : Bool
  toHost : Str
  toPort : Int
  deriving DecidableEq, Repr

/-- A new row of `pages`, as far as the crawler's insertions give it values. -/
structure NewPage where
  url : Str
  domainName : Str
  port : Int
  deriving DecidableEq, Repr

/-- The values bound in the UPDATE that stores a page's content. -/
structure PageContent where
  body : Str
  bodySize : Nat
  charset : Option Str
  lang : Option Str
  status : Int
  meta_ : Str
  mime : Str
  title : Str
  crossSiteLinks : List Str
  internalLinks : List Str
  newIndexedContentHash : Str
  newRawContentHash : Str
  feedType : Option Str
  deriving DecidableEq, Repr

structure Response where
  geminiStatus : Str
  meta_ : Str
  body : Str
  deriving DecidableEq, Repr

/-- `links` has no key: a row may occur several times. -/
structure World where
  now : Time
  pages : Table Str PageRow
  links : Multiset LinkRow
  permaRedirects : Table Str Str
  crawQueue : List Str
  samplePct : Nat

/-- What the model takes from other libraries: the hash, replacing in a text, the character set
conversion (`none` when it throws), the Gemini parser, the message with which dumping a list of
strings as JSON fails, the text search configuration, the value of a quoted literal, and the values
that `default_port_` has before it is assigned. -/
structure Env where
  xxHash64 : Str → Str
  replaceAll : Str → Str → Str → Str
  iconv : Str → Str → Str → Option Str
  parseGemini : Str → List GeminiASTNode
  jsonError : List Str → Option Str
  toTsvector : Str → Str
  readLiteral : Str → Str
  uninitUrl : Str → Int
  uninitLink : Nat → Int
  forceReindex : Bool

inductive Op
  | shouldCrawl (urlStr : Str)
  | sendRequest (url : Url)
  | dateNow
  | countTimeout (host : Str)
  /-- `DELETE FROM pages WHERE url = $1` -/
  | deletePage (url : Str)
  /-- `DELETE FROM links WHERE url = $1 OR to_url = $1` -/
  | deleteLinksOf (url : Str)
  /-- `SELECT … FROM pages WHERE url = $1` -/
  | selectPage (url : Str)
  /-- `INSERT INTO pages(url, domain_name, port, first_seen_at) VALUES …` -/
  | insertPage (page : NewPage)
  /-- `UPDATE pages SET last_crawled_at = CURRENT_TIMESTAMP, last_status = 0 WHERE url = $1` -/
  | skipProxyError (url : Str)
  /-- `SELECT to_url FROM perma_redirects WHERE from_url = $1` -/
  | selectRedirect (fromUrl : Str)
  /-- `INSERT INTO perma_redirects … ON CONFLICT (from_url) DO UPDATE SET to_url = $2` -/
  | upsertRedirect (fromUrl toUrl : Str)
  /-- the UPDATE for content that did not change -/
  | updateUnchanged (url : Str) (status : Int) (meta_ mime : Str)
  /-- the UPDATE for new content -/
  | updateContent (url : Str) (content : PageContent)
  /-- the UPDATE of the search vectors -/
  | updateIndex (url indexFriendlyUrl : Str)
  /-- `DELETE FROM links WHERE url = $1` -/
  | deleteLinks (url : Str)
  /-- `INSERT INTO links … ON CONFLICT DO NOTHING`, with the texts between the quotes -/
  | insertLinks (rows : List LinkRow)
  /-- `INSERT INTO pages … ON CONFLICT DO NOTHING`, with the texts between the quotes -/
  | insertPages (pages : List NewPage)
  /-- the UPDATE after a failure: `last_crawled_at`, `last_status` and `last_meta` -/
  | updateFailed (url : Str) (status : Int) (meta_ : Str)
  /-- `DELETE FROM pages WHERE url = $1 AND last_crawl_success_at < … - INTERVAL '30' DAY` -/
  | deleteStale (url : Str)
  | tryPop
  | queueEmpty
  | loadSamplePct
  /-- the answer is the value found, which `expected` is set to on failure -/
  | compareExchangeSamplePct (expected desired : Nat)
  /-- `UPDATE pages SET last_queued_at = CURRENT_TIMESTAMP WHERE url in (…) RETURNING url` -/
  | queueBatch (tablesamplePct urlsPerBatch : Nat)
  | shuffle (urls : List Str)
  | emplace (url : Str)

@[reducible] def Op.Answer : Op → Type
  | .shouldCrawl _ => Bool
  | .sendRequest _ => Response
  | .dateNow => Time
  | .selectPage _ => Option PageRow
  | .selectRedirect _ => Option Str
  | .tryPop => Option Str
  | .queueEmpty => Bool
  | .loadSamplePct => Nat
  | .compareExchangeSamplePct _ _ => Nat
  | .queueBatch _ _ => List Str
  | .shuffle _ => List Str
  | _ => Unit

/-- A program of the crawler. Failures carry the text of `what()`. -/
abbrev Crawl := Program Op Op.Answer Str

/-- `co_await`. -/
abbrev await (op : Op) : Crawl op.Answer := Program.perform op

namespace World

def tick (w : World) (later : Time) : World := { w with now := later }

def setPages (w : World) (pages : Table Str PageRow) : World := { w with pages := pages }

def setLinks (w : World) (links : Multiset LinkRow) : World := { w with links := links }

/-- `last_crawled_at < CURRENT_TIMESTAMP - INTERVAL '3' DAY OR last_crawled_at IS NULL`. -/
def Waiting (w : World) (row : PageRow) : Prop :=
  ∀ t ∈ row.lastCrawledAt, t < w.now - 3 * day

/-- The WHERE clause that `getNextPotentialCarwlUrl` queues pages by. -/
def Due (w : World) (row : PageRow) : Prop :=
  w.Waiting row ∧ ∀ t ∈ row.lastQueuedAt, t < w.now - 5 * minute

end World

def NewPage.row (page : NewPage) (now : Time) : PageRow :=
  { domainName := page.domainName, port := page.port, firstSeenAt := now }

namespace PageRow

def setUnchanged (row : PageRow) (now : Time) (status : Int) (meta_ mime : Str) : PageRow :=
  { row with
    lastCrawledAt := some now, lastCrawlSuccessAt := some now, lastStatus := some status,
    lastMeta := some meta_, contentType := some mime }

def setContent (row : PageRow) (now : Time) (content : PageContent) : PageRow :=
  { row with
    contentBody := some content.body, size := content.bodySize, charset := content.charset,
    lang := content.lang, lastCrawledAt := some now, lastCrawlSuccessAt := some now,
    lastStatus := some content.status, lastMeta := some content.meta_,
    contentType := some content.mime, title := some content.title,
    crossSiteLinks := some content.crossSiteLinks, internalLinks := some content.internalLinks,
    indexedContentHash := content.newIndexedContentHash,
    rawContentHash := content.newRawContentHash, feedType := content.feedType }

/-- `REPLACE(title, '.', ' ') || ' ' || $2`. -/
def indexedTitle (title indexFriendlyUrl : Str) : Str :=
  replaceAll title (lit ".") (lit " ") ++ lit " " ++ indexFriendlyUrl

/-- A concatenation with NULL is NULL. -/
def setIndex (row : PageRow) (toTsvector : Str → Str) (now : Time) (indexFriendlyUrl : Str) :
    PageRow :=
  { row with
    searchVector := row.title.bind fun title => row.contentBody.map fun body =>
      toTsvector (indexedTitle title indexFriendlyUrl ++ lit " " ++ body)
    titleVector := row.title.map fun title => toTsvector (indexedTitle title indexFriendlyUrl)
    lastIndexedAt := some now }

def setFailed (row : PageRow) (now : Time) (status : Int) (meta_ : Str) : PageRow :=
  { row with lastCrawledAt := some now, lastStatus := some status, lastMeta := some meta_ }

def setSkipped (row : PageRow) (now : Time) : PageRow :=
  { row with lastCrawledAt := some now, lastStatus := some 0 }

/-- `last_crawl_success_at < CURRENT_TIMESTAMP - INTERVAL '30' DAY`. -/
def stale (now : Time) (row : PageRow) : Bool :=
  match row.lastCrawlSuccessAt with
  | some t => t < now - 30 * day
  | none => false

def setQueued (row : PageRow) (now : Time) : PageRow := { row with lastQueuedAt := some now }

end PageRow

namespace Env

/-- A row of `links` as the statement text denotes it. -/
def readLink (env : Env) (row : LinkRow) : LinkRow :=
  { row with
    url := env.readLiteral row.url, host := env.readLiteral row.host,
    toUrl := env.readLiteral row.toUrl, toHost := env.readLiteral row.toHost }

def readPage (env : Env) (page : NewPage) : NewPage :=
  { page with url := env.readLiteral page.url, domainName := env.readLiteral page.domainName }

/-- What an operation that succeeds with `answer` changes. -/
def apply (env : Env) (w : World) : (op : Op) → op.Answer → World
  | .deletePage url, _ => w.setPages (w.pages.deleteIf url fun _ => true)
  | .deleteLinksOf url, _ =>
    w.setLinks (w.links.filter fun row => ¬(row.url = url ∨ row.toUrl = url))
  | .insertPage page, _ => w.setPages (w.pages.insertNew page.url (page.row w.now))
  | .skipProxyError url, _ => w.setPages (w.pages.update url fun row => row.setSkipped w.now)
  | .upsertRedirect fromUrl toUrl, _ =>
    { w with permaRedirects := w.permaRedirects.upsert fromUrl toUrl }
  | .updateUnchanged url status meta_ mime, _ =>
    w.setPages (w.pages.update url fun row => row.setUnchanged w.now status meta_ mime)
  | .updateContent url content, _ =>
    w.setPages (w.pages.update url fun row => row.setContent w.now content)
  | .updateIndex url indexFriendlyUrl, _ =>
    w.setPages (w.pages.update url fun row => row.setIndex env.toTsvector w.now indexFriendlyUrl)
  | .deleteLinks url, _ => w.setLinks (w.links.filter fun row => row.url ≠ url)
  | .insertLinks rows, _ => w.setLinks (w.links + ↑(rows.map env.readLink))
  | .insertPages pages, _ =>
    w.setPages (w.pages.insertAll
      (pages.map fun page => ((env.readPage page).url, (env.readPage page).row w.now)))
  | .updateFailed url status meta_, _ =>
    w.setPages (w.pages.update url fun row => row.setFailed w.now status meta_)
  | .deleteStale url, _ => w.setPages (w.pages.deleteIf url (PageRow.stale w.now))
  | .tryPop, _ => { w with crawQueue := w.crawQueue.drop 1 }
  | .compareExchangeSamplePct expected desired, _ =>
    { w with samplePct := if w.samplePct = expected then desired else w.samplePct }
  | .queueBatch _ _, urls =>
    w.setPages (urls.foldl
      (fun pages url => pages.update url fun row => row.setQueued w.now) w.pages)
  | .emplace url, _ => { w with crawQueue := w.crawQueue ++ [url] }
  | .shouldCrawl _, _ | .sendRequest _, _ | .dateNow, _ | .countTimeout _, _ | .selectPage _, _
  | .selectRedirect _, _ | .queueEmpty, _ | .loadSamplePct, _ | .shuffle _, _ => w

end Env

/-- The answers an operation can succeed with. -/
def Op.Possible (w : World) : (op : Op) → op.Answer → Prop
  | .dateNow, now => now = w.now
  | .selectPage url, record => record = w.pages url
  | .insertPage page, _ => w.pages page.url = none
  | .selectRedirect fromUrl, redirect => redirect = w.permaRedirects fromUrl
  | .tryPop, popped => popped = w.crawQueue.head?
  | .queueEmpty, empty => empty = w.crawQueue.isEmpty
  | .loadSamplePct, pct => pct = w.samplePct
  | .compareExchangeSamplePct _ _, found => found = w.samplePct
  | .queueBatch _ urlsPerBatch, urls =>
    urls.Nodup ∧ urls.length ≤ urlsPerBatch ∧ ∀ url ∈ urls, ∃ row ∈ w.pages url, w.Due row
  | .shuffle urls, shuffled => shuffled.Perm urls
  | _, _ => True

def duplicateKey : Str :=
  lit "duplicate key value violates unique constraint \"pages_pkey\""

/-- The failures that the tables themselves cause. -/
def Op.Refused (w : World) : Op → Str → Prop
  | .insertPage page, x => (w.pages page.url).isSome ∧ x = duplicateKey
  | _, _ => False

/-- One operation, where `fails` says which other failures may happen. -/
def Env.step (env : Env) (fails : Op → Str → Prop) : Step Op Op.Answer Str World :=
  fun w op answer after => ∃ later, w.now ≤ later ∧
    match answer with
    | .error x => (fails op x ∨ op.Refused (w.tick later) x) ∧ after = w.tick later
    | .ok a => op.Possible (w.tick later) a ∧ after = env.apply (w.tick later) op a

/-! ### A given outside -/

/-- The outside of one run: which hosts answer what, which URLs may be crawled, and which
operations fail. No time passes and no page is due. -/
structure Outside where
  web : Url → Response
  allows : Str → Bool
  failure : Op → Option Str

/-- The answer of an operation that does not fail. -/
def Outside.answer (outside : Outside) (w : World) : (op : Op) → op.Answer
  | .shouldCrawl urlStr => outside.allows urlStr
  | .sendRequest url => outside.web url
  | .dateNow => w.now
  | .selectPage url => w.pages url
  | .selectRedirect fromUrl => w.permaRedirects fromUrl
  | .tryPop => w.crawQueue.head?
  | .queueEmpty => w.crawQueue.isEmpty
  | .loadSamplePct => w.samplePct
  | .compareExchangeSamplePct _ _ => w.samplePct
  | .queueBatch _ _ => []
  | .shuffle urls => urls
  | .countTimeout _ | .deletePage _ | .deleteLinksOf _ | .insertPage _ | .skipProxyError _
  | .upsertRedirect _ _ | .updateUnchanged _ _ _ _ | .updateContent _ _ | .updateIndex _ _
  | .deleteLinks _ | .insertLinks _ | .insertPages _ | .updateFailed _ _ _ | .deleteStale _
  | .emplace _ => ()

/-- A new row whose key is taken. -/
def refuses (w : World) : Op → Bool
  | .insertPage page => (w.pages page.url).isSome
  | _ => false

def Outside.respond (outside : Outside) (env : Env) (w : World) (op : Op) :
    Except Str op.Answer × World :=
  match outside.failure op with
  | some x => (.error x, w)
  | none =>
    if refuses w op then (.error duplicateKey, w)
    else (.ok (outside.answer w op), env.apply w op (outside.answer w op))

theorem Outside.possible {outside : Outside} {w : World} {op : Op} (free : refuses w op = false) :
    op.Possible w (outside.answer w op) := by
  cases op with
  | insertPage page =>
    exact Option.isNone_iff_eq_none.mp (Option.isSome_eq_false_iff.mp free)
  | queueBatch pct count =>
    exact ⟨List.nodup_nil, Nat.zero_le _, fun _ member => absurd member List.not_mem_nil⟩
  | shuffle urls => exact List.Perm.refl _
  | _ => first | rfl | trivial

/-- Every operation against a given outside is a step, if the failures it prescribes are
among those that may happen. -/
theorem Outside.respond_step {outside : Outside} {env : Env} {fails : Op → Str → Prop}
    (failures : ∀ op x, outside.failure op = some x → fails op x) (w : World) (op : Op) :
    env.step fails w op (outside.respond env w op).1 (outside.respond env w op).2 := by
  refine ⟨w.now, Int.le_refl _, ?_⟩
  simp only [Outside.respond]
  cases fate : outside.failure op with
  | some x => exact ⟨.inl (failures op x fate), rfl⟩
  | none =>
    cases free : refuses w op with
    | false => exact ⟨Outside.possible free, rfl⟩
    | true =>
      refine ⟨.inr ?_, rfl⟩
      cases op with
      | insertPage page => exact ⟨free, rfl⟩
      | _ => cases free

/-! ### A small capsule -/

/-- A link line with a label, or a line of text. -/
def parseLine (line : Str) : GeminiASTNode :=
  if startsWith line (lit "=> ") then
    let label := (line.drop 3).dropWhile (· != 32)
    ⟨.link, label.drop 1, (line.drop 3).takeWhile (· != 32)⟩
  else ⟨.text, line, []⟩

/-- Libraries that are good enough for documents of link lines and short texts in UTF-8. -/
def Env.small : Env where
  xxHash64 str := lit "#" ++ str
  replaceAll := Bytes.replaceAll
  iconv _ _ str := some str
  parseGemini str := (str.splitOn 10).map parseLine
  jsonError _ := none
  toTsvector str := str
  readLiteral := readEscapes
  uninitUrl _ := 0
  uninitLink _ := 0
  forceReindex := false

/-- Every request is answered with one document, and everything may be crawled. -/
def Outside.serving (body : Str) : Outside where
  web _ := ⟨lit "20", lit "text/gemini", body⟩
  allows _ := true
  failure _ := none

/-- One URL redirects to another one, where the document is. -/
def Outside.redirecting (fromUrl toUrl body : Str) : Outside where
  web url :=
    if url.str = fromUrl then ⟨lit "30", toUrl, []⟩ else ⟨lit "20", lit "text/gemini", body⟩
  allows _ := true
  failure _ := none

/-- The operations of one kind fail. -/
def Outside.failing (body : Str) (kind : Op → Bool) : Outside :=
  { Outside.serving body with
    failure := fun op => if kind op then some (lit "deadlock detected") else none }

/-- No operation fails. -/
def never (_ : Op) (_ : Str) : Prop := False

theorem serving_never {body : Str} (op : Op) (x : Str)
    (failed : (Outside.serving body).failure op = some x) : never op x := by
  cases failed

def World.empty : World where
  now := 0
  pages _ := none
  links := 0
  permaRedirects _ := none
  crawQueue := []
  samplePct := 1

/-- A table with a single page that was never crawled. -/
def World.holding (page : NewPage) : World :=
  World.empty.setPages (World.empty.pages.insertNew page.url (page.row 0))

end Tlgs

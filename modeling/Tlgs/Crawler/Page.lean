import Tlgs.Crawler.Tables

/-!
# `GeminiCrawler::crawlPage`

One call of `crawlPage` as a program over the operations of the crawler: the check of the
URL, the redirect loop, the processing of the response, and the statements that store
the page and its links. The `try` block is `crawlBody`, what follows its `catch` is
`crawlFailed`.
-/
namespace Tlgs

open Bytes Interactive Interactive.Program

/-! ### Helpers of `crawler.cpp` and `utils.cpp` -/

variable (env : Env)

def indexFriendly (url : Url) : Str :=
  let result := env.replaceAll url.str (lit "_") (lit " ")
  let result := env.replaceAll result (lit "-") (lit " ")
  env.replaceAll result (lit "~") (lit " ")

/-- Without a colon the loop runs on to the terminator, which is no letter. -/
def isNonUriAction (str : Str) : Bool :=
  if contains (lit "://") str then false
  else
    match find [colon] str with
    | none => false
    | some n => (str.take n).all isalpha

/-- `do { idx++; } while(idx < size && !stop(mime[idx]))`. -/
def advance (stop : UInt8 → Bool) (mime : Str) (idx : Nat) : Nat :=
  idx + 1 + ((mime.drop (idx + 1)).takeWhile (fun c => !stop c)).length

/-- A substring of the buffer, whose last character is the terminator. -/
def bufferSlice (mime : Str) (begin_ end_ : Nat) : Str :=
  ((mime ++ [0]).drop begin_).take (end_ - begin_)

/-- The loop over the parameters, from the semicolon at `idx` on, with the assignments to
the map in order. Every round moves `idx` forward. -/
def parseMimeParams (mime : Str) : Nat → Nat → List (Str × Str)
  | 0, _ => []
  | fuel + 1, idx =>
    if mime.length ≤ idx then []
    else
      let keyBegin := advance (fun c => c != 32 && c != 9) mime idx
      let keyEnd := advance (· == 61) mime keyBegin
      let valueEnd := advance (· == 59) mime keyEnd
      (bufferSlice mime keyBegin keyEnd, bufferSlice mime (keyEnd + 1) valueEnd) ::
        parseMimeParams mime fuel valueEnd

def parseMime (mime : Str) : Str × List (Str × Str) :=
  let mimeStr := mime.takeWhile (· != 59)
  (mimeStr, parseMimeParams mime mime.length mimeStr.length)

/-- The value assigned last to a key. -/
def mimeParam (params : List (Str × Str)) (key : Str) : Option Str :=
  params.reverse.lookup key

/-- `mime.erase` on both sides: blanks and tabs. -/
def trimBlanks (mime : Str) : Str :=
  (mime.dropWhile (fun c => c == 32 || c == 9)).rdropWhile (fun c => c == 32 || c == 9)

/-- The first argument of the converter is the encoding it writes. -/
def tryConvertEncoding (str srcEnc dstEnc : Str) : Str :=
  (env.iconv srcEnc dstEnc str).getD str

/-! ### Links -/

/-- `std::set<tlgs::Url>::insert`. -/
def insertUrl (url : Url) : List Url → List Url
  | [] => [url]
  | first :: rest =>
    if url.lt first then url :: first :: rest
    else if first.lt url then first :: insertUrl url rest
    else first :: rest

/-- No fragment, and no query that repeats the URL before a `.gmi` path. -/
def trimLink (linkUrl : Url) : Url :=
  let linkUrl := linkUrl.withFragment []
  if startsWith linkUrl.str linkUrl.param && endsWith linkUrl.path (lit ".gmi") then
    linkUrl.withParam []
  else linkUrl

/-- What the loop over the links records for the link at `index`; `none` is `continue`. -/
def linkUrl (url : Url) (index : Nat) (link : Str) : Option Url :=
  -- mailto: and the like
  if isNonUriAction link then none
  else
    let linkUrl := Url.ofString (env.uninitLink index) link
    if linkUrl.good then
      let linkUrl := if linkUrl.protocol = [] then linkUrl.withProtocol url.protocol else linkUrl
      if linkUrl.protocol ≠ lit "gemini" then none else some (trimLink linkUrl)
    -- an invalid host or port
    else if startsWith link (lit "gemini://") then none
    else if 1024 < link.length then none
    else
      -- `url`, not the URL that the document came from
      let linkUrl := linkCompose url link
      if linkUrl.good = false then none else some (trimLink linkUrl)

def linkUrls (url : Url) (links : List Str) : List Url :=
  (links.zipIdx.filterMap fun (link, index) => linkUrl env url index link).foldl
    (fun set linkUrl => insertUrl linkUrl set) []

def isCrossSite (url linkUrl : Url) : Bool :=
  linkUrl.host != url.host || url.port != linkUrl.port

def crossSiteLinks (url : Url) (linkUrls : List Url) : List Str :=
  (linkUrls.filter (isCrossSite url)).map Url.str

def internalLinks (url : Url) (linkUrls : List Url) : List Str :=
  (linkUrls.filter fun linkUrl => !isCrossSite url linkUrl).map Url.str

/-- One group of values in `link_query`. -/
def linkValues (url linkUrl : Url) : LinkRow where
  url := pgSQLRealEscape env.replaceAll url.str
  host := pgSQLRealEscape env.replaceAll url.host
  port := url.port
  toUrl := pgSQLRealEscape env.replaceAll linkUrl.str
  isCrossSite := isCrossSite url linkUrl
  toHost := pgSQLRealEscape env.replaceAll linkUrl.host
  toPort := linkUrl.port

/-- One group of values in `page_query`. -/
def pageValues (linkUrl : Url) : NewPage where
  url := pgSQLRealEscape env.replaceAll linkUrl.str
  domainName := pgSQLRealEscape env.replaceAll linkUrl.host
  port := linkUrl.port

/-! ### Processing the response -/

/-- The local variables that a response fills in. -/
structure Document where
  mime : Str
  charset : Option Str := none
  lang : Option Str := none
  title : Str
  body : Str
  links : List Str := []
  bodySize : Nat
  feedType : Option Str := none
  deriving DecidableEq, Repr

/-- The 2x branch from the conversion to UTF-8 on. -/
def processBody (url : Url) (mime : Str) (charset lang : Option Str) (respBody : Str) :
    Except Str Document :=
  let bodyRaw := tryConvertEncoding env respBody (charset.getD (lit "utf-8")) (lit "utf-8")
  -- less than a fifth of the response is left only of a binary file
  if bodyRaw.length < respBody.length / 5 then .error (lit "Possible binary files sent as text")
  else if mime = lit "text/gemini" then
    let nodes := env.parseGemini bodyRaw
    let doc := extractGeminiConcise nodes
    .ok {
      mime, charset, lang
      title := if doc.title = [] then url.str else doc.title
      body := doc.text
      links := doc.links.filter (· != [])
      bodySize := respBody.length
      feedType := if isGemsub nodes url (lit "gemini") then some (lit "gemsub") else none }
  else if mime = lit "text/plain" ∨ mime = lit "plaintext" ∨ mime = lit "text/markdown" ∨
      mime = lit "text/x-rst" then
    .ok {
      mime, charset, lang
      title := url.str
      body := bodyRaw
      bodySize := respBody.length
      feedType := if endsWith url.path (lit "/twtxt.txt") then some (lit "twtxt") else none }
  else
    .ok {
      mime, charset, lang
      title := url.str
      body := []
      bodySize := 0
      feedType :=
        if mime = lit "application/rss+xml" then some (lit "rss")
        else if mime = lit "application/atom+xml" then some (lit "atom")
        else none }

/-- The 1x branch. -/
def processInput (meta_ : Str) : Document where
  mime := lit "<gemini-request-info>"
  title := meta_
  body := meta_
  bodySize := meta_.length

/-- "safeguard in case title is too long for Postgres". -/
def limitTitle (title : Str) : Str :=
  if 1000 < title.length then title.take 1000 ++ lit "..." else title

/-- The hashes of the stored version; empty for a new page. -/
structure Hashes where
  indexedContentHash : Str
  rawContentHash : Str
  deriving DecidableEq, Repr

/-- The values of the UPDATE that stores a document fetched with `status` and `meta_`. -/
def pageContent (url : Url) (status : Int) (resp : Response) (doc : Document) : PageContent where
  body := doc.body
  bodySize := doc.bodySize
  charset := doc.charset
  lang := doc.lang
  status := status
  meta_ := resp.meta_
  mime := doc.mime
  title := limitTitle doc.title
  crossSiteLinks := crossSiteLinks url (linkUrls env url doc.links)
  internalLinks := internalLinks url (linkUrls env url doc.links)
  newIndexedContentHash := env.xxHash64 doc.body
  newRawContentHash := env.xxHash64 resp.body
  feedType := doc.feedType

/-! ### Storing -/

/-- The loop that asks for every link whether to queue it. -/
def checkLinks : List Url → Crawl (List NewPage)
  | [] => pure []
  | linkUrl :: rest => do
    let allowed ← await (.shouldCrawl linkUrl.str)
    let pages ← checkLinks rest
    pure (if allowed then pageValues env linkUrl :: pages else pages)

/-- From "Update link formation" on. -/
def storeLinks (url : Url) (linkUrls : List Url) : Crawl Bool := do
  let pages ← checkLinks env linkUrls
  -- each statement is a transaction of its own
  await (.deleteLinks url.str)
  await (.insertLinks (linkUrls.map (linkValues env url)))
  if pages = [] then pure true
  else do
    await (.insertPages pages)
    pure true

/-- `nlohmann::json(…).dump()` of both lists of links. -/
def dumpLinks (content : PageContent) : Crawl Unit :=
  match env.jsonError content.crossSiteLinks with
  | some x => throw x
  | none =>
    match env.jsonError content.internalLinks with
    | some x => throw x
    | none => pure ()

/-- From "Full text index update" on. -/
def storeIndex (url : Url) (content : PageContent) (linkUrls : List Url) : Crawl Bool := do
  await (.updateIndex url.str (indexFriendly env url))
  -- a document without links leaves here, before the rows of `links` are deleted
  if content.internalLinks = [] ∧ content.crossSiteLinks = [] then pure true
  else storeLinks env url linkUrls

/-- From the UPDATE of the content on. -/
def storeContent (url : Url) (status : Int) (resp : Response) (doc : Document) : Crawl Bool := do
  let content := pageContent env url status resp doc
  dumpLinks env content
  await (.updateContent url.str content)
  storeIndex env url content (linkUrls env url doc.links)

def storeUnchanged (url : Url) (status : Int) (resp : Response) (mime : Str) : Crawl Bool := do
  await (.updateUnchanged url.str status resp.meta_ mime)
  pure true

/-- From the safeguard for the title on. -/
def storeDocument (url : Url) (hashes : Hashes) (status : Int) (resp : Response) (doc : Document) :
    Crawl Bool :=
  if env.xxHash64 doc.body = hashes.indexedContentHash ∧
      env.xxHash64 resp.body = hashes.rawContentHash then
    storeUnchanged url status resp doc.mime
  else storeContent env url status resp doc

/-- The statements after a failure, in the body and after the `catch`. -/
def storeFailure (url : Url) (status : Int) (meta_ : Str) : Crawl Bool := do
  await (.updateFailed url.str status meta_)
  await (.deleteStale url.str)
  pure false

/-- The three branches on the kind of status. -/
def indexResponse (url : Url) (hashes : Hashes) (status : Int) (resp : Response) : Crawl Bool :=
  if status.tdiv 10 = 2 then
    let (mimeStr, mimeParams) := parseMime resp.meta_
    let mime := trimBlanks mimeStr
    -- `force_reindex_` is off and the bytes are those of the stored version
    if env.forceReindex = false ∧ hashes.rawContentHash = env.xxHash64 resp.body then
      storeUnchanged url status resp mime
    else
      match processBody env url mime (mimeParam mimeParams (lit "charset"))
          (mimeParam mimeParams (lit "lang")) resp.body with
      | .error x => throw x
      | .ok doc => storeDocument env url hashes status resp doc
  else if status.tdiv 10 = 1 then
    storeDocument env url hashes status resp (processInput resp.meta_)
  else storeFailure url status resp.meta_

/-! ### Fetching -/

/-- Where one round of the redirect loop ends. -/
structure Hop where
  crawlUrl : Url
  resp : Option Response
  status : Int
  stored : Bool
  deriving DecidableEq, Repr

/-- A permanent redirect is stored. -/
def rememberRedirect (crawlUrl redirectUrl : Url) (status : Int) : Crawl Unit :=
  if status = 31 then await (.upsertRedirect crawlUrl.str redirectUrl.str) else pure ()

/-- A response with a status of 3x. -/
def followRedirect (url crawlUrl : Url) (status : Int) (resp : Response) : Crawl Hop :=
  let redirectUrl := Url.ofString (env.uninitUrl resp.meta_) resp.meta_
  if redirectUrl.good = false ∨ crawlUrl.str = redirectUrl.str then throw (lit "Bad redirect")
  -- the scheme of `url`, not of the redirect, is tested
  else if url.protocol ≠ lit "gemini" then throw (lit "Redirected to non-gemini URL")
  else do
    let allowed ← await (.shouldCrawl redirectUrl.str)
    if allowed = false then throw (lit "Redirected to blocked URL")
    else do
      rememberRedirect crawlUrl redirectUrl status
      pure ⟨redirectUrl, some resp, status, false⟩

/-- The round after no stored redirect was found. -/
def request (url crawlUrl : Url) : Crawl Hop := do
  let resp ← await (.sendRequest crawlUrl)
  match stoi resp.geminiStatus with
  | none => throw (lit "stoi")
  | some status =>
    if status.tdiv 10 = 3 then followRedirect env url crawlUrl status resp
    else pure ⟨crawlUrl, some resp, status, false⟩

/-- One round of the redirect loop. `resp` is the response of an earlier round. -/
def hop (url crawlUrl : Url) (resp : Option Response) : Crawl Hop := do
  let redirect ← await (.selectRedirect crawlUrl.str)
  match redirect with
  -- `continue`: the target is requested in the next round without a check
  | some toUrl => pure ⟨Url.ofString (env.uninitUrl toUrl) toUrl, resp, 30, true⟩
  | none => request env url crawlUrl

/-- `redirection_count` at the end of a round: a stored redirect counts in the body too. -/
def Hop.count (next : Hop) (redirectionCount : Nat) : Nat :=
  if next.stored then redirectionCount + 1 else redirectionCount

theorem Hop.le_count (next : Hop) (redirectionCount : Nat) :
    redirectionCount ≤ next.count redirectionCount := by
  simp only [Hop.count]
  split <;> omega

/-- The loop, with `redirection_count` as it is at the start of a round. Every round that
another one follows raises the count, so six rounds are enough. -/
def followRedirects (url : Url) : Nat → Nat → Url → Option Response → Crawl (Int × Option Response)
  | 0, _, _, resp => pure (30, resp)
  | fuel + 1, redirectionCount, crawlUrl, resp => do
    let next ← hop env url crawlUrl resp
    if next.status.tdiv 10 = 3 ∧ next.count redirectionCount < 5 then
      followRedirects url fuel (next.count redirectionCount + 1) next.crawlUrl next.resp
    else pure (next.status, next.resp)

/-- More rounds than six never make a difference. -/
theorem followRedirects_fuel (url : Url) {fuel count : Nat} (enough : 5 ≤ fuel + count)
    (crawlUrl : Url) (resp : Option Response) :
    followRedirects env url (fuel + 2) count crawlUrl resp =
      followRedirects env url (fuel + 1) count crawlUrl resp := by
  induction fuel generalizing count crawlUrl resp with
  | zero =>
    refine congrArg (hop env url crawlUrl resp >>= ·) (funext fun next => ?_)
    have least := next.le_count count
    rw [if_neg (by omega), if_neg (by omega)]
  | succ fuel ih =>
    refine congrArg (hop env url crawlUrl resp >>= ·) (funext fun next => ?_)
    have least := next.le_count count
    split
    · exact ih (by omega) _ _
    · rfl

/-- From the redirect loop to the end of the `try` block. -/
def fetchAndIndex (url : Url) (hashes : Hashes) : Crawl Bool := do
  let (status, resp) ← followRedirects env url 6 0 url none
  match resp with
  | none => throw (lit "No concrete response. Too many redirects?")
  | some resp => indexResponse env url hashes status resp

/-! ### The whole call -/

/-- What follows once the record of the page was read. -/
def crawlRecord (url : Url) : Option PageRow → Crawl Bool
  | none => do
    await (.insertPage ⟨url.str, url.host, url.port⟩)
    fetchAndIndex env url ⟨[], []⟩
  | some row =>
    if row.lastStatus.getD 0 = 53 then do
      let now ← await .dateNow
      -- 21 weeks, for the 21 days of the comment
      if row.lastCrawledAt.getD 0 + 21 * 7 * day < now then do
        await (.skipProxyError url.str)
        pure true
      else fetchAndIndex env url ⟨row.indexedContentHash, row.rawContentHash⟩
    else fetchAndIndex env url ⟨row.indexedContentHash, row.rawContentHash⟩

/-- The `try` block. -/
def crawlBody (url : Url) : Crawl Bool := do
  let allowed ← await (.shouldCrawl url.str)
  if allowed = false then throw (lit "Blocked by robots.txt")
  else do
    let record ← await (.selectPage url.str)
    crawlRecord env url record

/-- `host_timeout_count_` of a host that did not answer. -/
def countFailure (url : Url) (error : Str) : Crawl Unit :=
  if error = lit "Timeout" ∨ error = lit "NetworkFailure" then
    await (.countTimeout (url.hostWithPort 1965))
  else pure ()

/-- After the `catch`, for the text of the exception. -/
def crawlFailed (url : Url) (error : Str) : Crawl Bool := do
  countFailure url error
  if error = [] then pure true else storeFailure url 0 error

def removePage (urlStr : Str) : Crawl Bool := do
  await (.deletePage urlStr)
  await (.deleteLinksOf urlStr)
  pure false

def crawlPage (urlStr : Str) : Crawl Bool :=
  let url := Url.ofString (env.uninitUrl urlStr) urlStr
  if url.good = false ∨ url.str ≠ urlStr then removePage urlStr
  else (crawlBody env url).tryCatch (crawlFailed url)

end Tlgs

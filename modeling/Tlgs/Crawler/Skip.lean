import Tlgs.Crawler.Versions

/-!
# Responses that are not processed again

`crawlPage` compares the hash of the bytes with the stored one and processes the response
only if they differ. What is stored depends on the MIME type and its parameters as well:
"The conent doesn't change means the content_type doesn't change, right...?"
-/
namespace Tlgs

open Bytes Interactive Interactive.Program

/-! ### What a response is read as -/

inductive Feed
  | rss
  | atom
  deriving DecidableEq, Repr

def Feed.name : Feed → Str
  | rss => lit "rss"
  | atom => lit "atom"

theorem Feed.name_injective : Function.Injective Feed.name := by
  intro left right same
  cases left <;> cases right <;> first | rfl | (revert same; decide)

/-- The kinds of documents that the 2x branch tells apart. -/
inductive Medium
  | gemini
  | plain
  | other (feed : Option Feed)
  deriving DecidableEq, Repr

def medium (mime : Str) : Medium :=
  if mime = lit "text/gemini" then .gemini
  else if mime = lit "text/plain" ∨ mime = lit "plaintext" ∨ mime = lit "text/markdown" ∨
      mime = lit "text/x-rst" then .plain
  else if mime = lit "application/rss+xml" then .other (some .rss)
  else if mime = lit "application/atom+xml" then .other (some .atom)
  else .other none

namespace Response

def mime (resp : Response) : Str := trimBlanks (parseMime resp.meta_).1

def charset (resp : Response) : Option Str := mimeParam (parseMime resp.meta_).2 (lit "charset")

def lang (resp : Response) : Option Str := mimeParam (parseMime resp.meta_).2 (lit "lang")

/-- The bytes in UTF-8. -/
def text (env : Env) (resp : Response) : Str :=
  tryConvertEncoding env resp.body (resp.charset.getD (lit "utf-8")) (lit "utf-8")

end Response

structure Reading where
  title : Str
  body : Str
  feedType : Option Str
  deriving DecidableEq, Repr

variable (env : Env) (url : Url)

/-- Title, text and type of feed that are stored for a text. -/
def readAs (text : Str) : Medium → Reading
  | .gemini =>
    let doc := extractGeminiConcise (env.parseGemini text)
    { title := limitTitle (if doc.title = [] then url.str else doc.title)
      body := doc.text
      feedType := if isGemsub (env.parseGemini text) url (lit "gemini") then some (lit "gemsub")
        else none }
  | .plain =>
    { title := limitTitle url.str
      body := text
      feedType := if endsWith url.path (lit "/twtxt.txt") then some (lit "twtxt") else none }
  | .other feed => { title := limitTitle url.str, body := [], feedType := feed.map Feed.name }

/-- Read as `medium`, the text has this title and this body, and it is no feed. -/
def ReadsPlainly (text title body : Str) : Medium → Prop
  | .gemini =>
    let doc := extractGeminiConcise (env.parseGemini text)
    limitTitle (if doc.title = [] then url.str else doc.title) = limitTitle title ∧
      doc.text = body ∧
      isGemsub (env.parseGemini text) url (lit "gemini") = false
  | .plain =>
    limitTitle url.str = limitTitle title ∧ text = body ∧
      endsWith url.path (lit "/twtxt.txt") = false
  | .other feed => limitTitle url.str = limitTitle title ∧ body = [] ∧ feed = none

/-- Read as the one medium or the other, the text makes the same page. -/
def Alike (text : Str) : Medium → Medium → Prop
  | .gemini, .gemini | .plain, .plain => True
  | .other feed, .other feed' => feed = feed'
  | .gemini, .plain | .plain, .gemini =>
    ReadsPlainly env url text url.str text .gemini ∧ endsWith url.path (lit "/twtxt.txt") = false
  | .gemini, .other feed | .other feed, .gemini =>
    ReadsPlainly env url text url.str [] .gemini ∧ feed = none
  | .plain, .other feed | .other feed, .plain =>
    text = [] ∧ endsWith url.path (lit "/twtxt.txt") = false ∧ feed = none

variable {env url}

theorem readsPlainly_iff {text title body : Str} {m : Medium} :
    readAs env url text m = ⟨limitTitle title, body, none⟩ ↔
      ReadsPlainly env url text title body m := by
  cases m with
  | gemini => simp [readAs, ReadsPlainly]
  | plain => simp [readAs, ReadsPlainly]
  | other feed => simp [readAs, ReadsPlainly, eq_comm]

private theorem gemini_eq_plain {text : Str} :
    readAs env url text .gemini = readAs env url text .plain ↔
      Alike env url text .gemini .plain := by
  cases twtxt : endsWith url.path (lit "/twtxt.txt") with
  | false =>
    have plain : readAs env url text .plain = ⟨limitTitle url.str, text, none⟩ := by
      simp [readAs, twtxt]
    rw [plain, readsPlainly_iff, Alike, and_iff_left twtxt]
  | true =>
    refine iff_of_false (fun same => ?_) (fun alike => by cases twtxt.symm.trans alike.2)
    have feeds := congrArg Reading.feedType same
    simp only [readAs, twtxt] at feeds
    split at feeds <;> revert feeds <;> decide

private theorem gemini_eq_other {text : Str} {feed : Option Feed} :
    readAs env url text .gemini = readAs env url text (.other feed) ↔
      Alike env url text .gemini (.other feed) := by
  cases feed with
  | none =>
    change readAs env url text .gemini = ⟨limitTitle url.str, [], none⟩ ↔ _
    rw [readsPlainly_iff, Alike, and_iff_left rfl]
  | some feed =>
    refine iff_of_false (fun same => ?_) (fun alike => by cases alike.2)
    have feeds := congrArg Reading.feedType same
    simp only [readAs] at feeds
    cases feed <;> split at feeds <;> revert feeds <;> decide

private theorem plain_eq_other {text : Str} {feed : Option Feed} :
    readAs env url text .plain = readAs env url text (.other feed) ↔
      Alike env url text .plain (.other feed) := by
  cases feed with
  | none =>
    change readAs env url text .plain = ⟨limitTitle url.str, [], none⟩ ↔ _
    rw [readsPlainly_iff, Alike, ReadsPlainly, and_iff_right rfl, and_iff_left rfl]
  | some feed =>
    refine iff_of_false (fun same => ?_) (fun alike => by cases alike.2.2)
    have feeds := congrArg Reading.feedType same
    simp only [readAs] at feeds
    cases feed <;> split at feeds <;> revert feeds <;> decide

theorem alike_iff {text : Str} {m m' : Medium} :
    readAs env url text m = readAs env url text m' ↔ Alike env url text m m' := by
  cases m with
  | gemini =>
    cases m' with
    | gemini => exact iff_of_true rfl trivial
    | plain => exact gemini_eq_plain
    | other feed => exact gemini_eq_other
  | plain =>
    cases m' with
    | gemini => exact eq_comm.trans gemini_eq_plain
    | plain => exact iff_of_true rfl trivial
    | other feed => exact plain_eq_other
  | other feed =>
    cases m' with
    | gemini => exact eq_comm.trans gemini_eq_other
    | plain => exact eq_comm.trans plain_eq_other
    | other feed' =>
      -- of these only the type of feed is stored
      have stored : readAs env url text (.other feed) = readAs env url text (.other feed') ↔
          feed.map Feed.name = feed'.map Feed.name := by simp [readAs]
      exact stored.trans (Option.map_injective Feed.name_injective).eq_iff

/-! ### Documents and what they are read from -/

/-- The columns that are stored for a reading. -/
def Reading.columns (reading : Reading) (mime : Str) (charset lang : Option Str) : Columns where
  contentType := some mime
  charset := charset
  lang := lang
  title := some reading.title
  contentBody := some reading.body
  feedType := reading.feedType

theorem Reading.columns_inj {reading reading' : Reading} {mime : Str}
    {charset charset' lang lang' : Option Str} :
    reading.columns mime charset lang = reading'.columns mime charset' lang' ↔
      charset = charset' ∧ lang = lang' ∧ reading = reading' := by
  cases reading
  cases reading'
  simp [Reading.columns]

theorem columns_of_processed {mime respBody : Str} {charset lang : Option Str} {doc : Document}
    (processed : processBody env url mime charset lang respBody = .ok doc) :
    doc.columns = (readAs env url
      (tryConvertEncoding env respBody (charset.getD (lit "utf-8")) (lit "utf-8"))
        (medium mime)).columns
        mime charset lang := by
  unfold processBody at processed
  dsimp only at processed
  split at processed
  · -- the conversion lost too much, and there is no document
    cases processed
  · split at processed
    next gemini =>
      cases processed
      rw [medium, if_pos gemini]
      rfl
    next notGemini =>
      split at processed
      next plain =>
        cases processed
        rw [medium, if_neg notGemini, if_pos plain]
        rfl
      next notPlain =>
        cases processed
        rw [medium, if_neg notGemini, if_neg notPlain]
        -- no text is kept of any other type; two of them are feeds
        split
        next rss => simp [Document.columns, Reading.columns, readAs, Feed.name, rss]
        next notRss =>
          split
          next atom => simp [Document.columns, Reading.columns, readAs, Feed.name, atom]
          next => simp [Document.columns, Reading.columns, readAs]

/-- Read with its own MIME type and parameters, a response makes the page that the stored
one makes, but for the content type. -/
def SamePage (env : Env) (url : Url) (status₀ : Int) (resp₀ resp : Response) : Prop :=
  (status₀.tdiv 10 = 2 ∧ resp₀.charset = resp.charset ∧ resp₀.lang = resp.lang ∧
      Alike env url (resp.text env) (medium resp₀.mime) (medium resp.mime)) ∨
    (status₀.tdiv 10 = 1 ∧ resp.charset = none ∧ resp.lang = none ∧
      ReadsPlainly env url (resp.text env) resp₀.meta_ resp₀.meta_ (medium resp.mime))

section Documents

variable {resp₀ resp : Response} {doc₀ doc : Document} {status₀ status : Int}

theorem columns_of_document (kind : status.tdiv 10 = 2)
    (document : DocumentOf env url status resp doc) :
    doc.columns =
      (readAs env url (resp.text env) (medium resp.mime)).columns resp.mime resp.charset
        resp.lang := by
  rcases document with ⟨_, processed⟩ | ⟨input, _⟩
  · exact columns_of_processed processed
  · omega

/-- For the same bytes, the columns of both documents differ at most in the content type
exactly if they make the same page. -/
theorem samePage_iff (stored : DocumentOf env url status₀ resp₀ doc₀) (kind : status.tdiv 10 = 2)
    (document : DocumentOf env url status resp doc) (bytes : resp.body = resp₀.body) :
    { doc₀.columns with contentType := some resp.mime } = doc.columns ↔
      SamePage env url status₀ resp₀ resp := by
  rw [columns_of_document kind document]
  rcases stored with ⟨kind₀, processed⟩ | ⟨kind₀, rfl⟩
  · -- with the same character set the bytes are the same text
    have other : ¬status₀.tdiv 10 = 1 := by omega
    have shown : { doc₀.columns with contentType := some resp.mime } =
        (readAs env url (resp₀.text env) (medium resp₀.mime)).columns resp.mime resp₀.charset
          resp₀.lang := by
      rw [columns_of_processed processed]
      rfl
    rw [shown, Reading.columns_inj, SamePage, or_iff_left fun input =>
      other input.1, and_iff_right kind₀]
    refine and_congr_right fun charsets => and_congr_right fun _ => ?_
    have texts : resp₀.text env = resp.text env := by
      rw [Response.text, Response.text, bytes, charsets]
    rw [texts, alike_iff]
  · -- the page shows the prompt of the input request
    have other : ¬status₀.tdiv 10 = 2 := by omega
    have shown : { (processInput resp₀.meta_).columns with contentType := some resp.mime } =
        (⟨limitTitle resp₀.meta_, resp₀.meta_, none⟩ : Reading).columns resp.mime none none := rfl
    rw [shown, Reading.columns_inj, SamePage, or_iff_right fun success => other success.1,
      and_iff_right kind₀, ← readsPlainly_iff]
    rw [@eq_comm _ none resp.charset, @eq_comm _ none resp.lang, @eq_comm Reading]

end Documents

/-! ### What a call leaves in the row -/

/-- The columns of a page, if it has a row. -/
def World.columnsOf (w : World) (urlStr : Str) : Option Columns :=
  (w.pages urlStr).map PageRow.columns

/-- A document comes of the response, and its links can be dumped as JSON. -/
def Processable (env : Env) (url : Url) (status : Int) (resp : Response) : Prop :=
  ∃ doc, DocumentOf env url status resp doc ∧ Dumped env (pageContent env url status resp doc)

/-- A response with other bytes than those of the stored hash is processed, and an
exception goes to the handler. -/
theorem indexResponse_changed {env : Env} {url : Url} {hashes : Hashes} {status : Int}
    {resp : Response} (dumping : ∀ links x, env.jsonError links = some x → x ≠ [])
    (kind : status.tdiv 10 = 2) (changed : hashes.rawContentHash ≠ env.xxHash64 resp.body) :
    (∃ doc, DocumentOf env url status resp doc ∧ Dumped env (pageContent env url status resp doc) ∧
      indexResponse env url hashes status resp = storeContent env url status resp doc) ∨
    ¬Processable env url status resp ∧
      ∃ x, x ≠ [] ∧ indexResponse env url hashes status resp = throw x := by
  cases processed : processBody env url (trimBlanks (parseMime resp.meta_).1)
      (mimeParam (parseMime resp.meta_).2 (lit "charset"))
      (mimeParam (parseMime resp.meta_).2 (lit "lang")) resp.body with
  | error x =>
    refine .inr ⟨?_, x, processBody_error (fun _ text => text) processed, ?_⟩
    · rintro ⟨doc, ⟨_, processed'⟩ | ⟨input, _⟩, _⟩
      · cases processed.symm.trans processed'
      · omega
    · unfold indexResponse
      rw [if_pos kind]
      dsimp only
      rw [if_neg (fun same => changed same.2)]
      rw [processed]
  | ok doc =>
    have document : DocumentOf env url status resp doc := .inl ⟨kind, processed⟩
    have stores := indexResponse_new document changed
    have refused : ¬Dumped env (pageContent env url status resp doc) →
        ¬Processable env url status resp := by
      rintro undumped ⟨doc', document', dumped⟩
      cases document.unique document'
      exact undumped dumped
    rw [storeContent] at stores
    simp only [dumpLinks] at stores
    split at stores
    next x failed =>
      -- dumping the links throws before the UPDATE
      refine .inr ⟨refused fun dumped => ?_, x, dumping _ x failed, stores⟩
      cases failed.symm.trans dumped.1
    next cross =>
      split at stores
      next x failed =>
        refine .inr ⟨refused fun dumped => ?_, x, dumping _ x failed, stores⟩
        cases failed.symm.trans dumped.2
      next internal =>
        exact .inl ⟨doc, document, ⟨cross, internal⟩, indexResponse_new document changed⟩

/-- The one UPDATE of a response with the bytes of the stored hash. -/
theorem indexResponse_skips {env : Env} {url : Url} {hashes : Hashes} {status : Int}
    {resp : Response} (off : env.forceReindex = false) (kind : status.tdiv 10 = 2)
    (raw : hashes.rawContentHash = env.xxHash64 resp.body) :
    indexResponse env url hashes status resp = storeUnchanged url status resp resp.mime := by
  unfold indexResponse
  rw [if_pos kind]
  dsimp only
  rw [if_pos ⟨off, raw⟩]
  rfl

section Leaves

variable {env : Env} {fails : Op → Str → Prop} {url crawlUrl : Url} {w : World} {status : Int}
  {resp : Response} {row : PageRow} {r after : Rec} {result : Except Str Bool}

/-- The handler marks the row as failed, and deletes it when the last success is long past. -/
theorem columns_of_failed {x : Str} (text : x ≠ []) (stored : r.state.pages url.str = some row)
    (run : env.Run fails (crawlFailed url x) r result after) (succeeded : Succeeded after.log) :
    after.state.columnsOf url.str = if row.stale after.state.now then none
      else some row.columns := by
  obtain ⟨counted, pages, run⟩ : ∃ counted : Rec, counted.state.pages = r.state.pages ∧
      env.Run fails (storeFailure url 0 x) counted result after := by
    simp only [crawlFailed, countFailure, if_neg text] at run
    split at run
    · -- a time-out is counted before
      obtain ⟨_, counted, taken, rest⟩ := runs_perform_ok run succeeded
      obtain ⟨later, _, _, effect, _⟩ := step_ok taken
      exact ⟨counted, by rw [effect]; rfl, rest⟩
    · exact ⟨r, rfl, run⟩
  -- the row is marked, then deleted if it is old
  obtain ⟨_, marked, taken, rest⟩ := runs_perform_ok run succeeded
  obtain ⟨_, last, deleted, _, rfl⟩ := runs_perform_ok rest succeeded
  obtain ⟨t, _, _, effect, _⟩ := step_ok taken
  obtain ⟨t', _, _, effect', _⟩ := step_ok deleted
  have page : marked.state.pages url.str = some (row.setFailed t 0 x) := by
    rw [effect]
    exact (Table.update_self _).trans (congrArg _ ((congrFun pages _).trans stored))
  have left : after.state.pages url.str = (some (row.setFailed t 0 x)).filter fun row =>
      !row.stale t' := by
    rw [effect', ← page]
    exact Table.deleteIf_self _
  have now : after.state.now = t' := by rw [effect', apply_now]; rfl
  have same : (row.setFailed t 0 x).stale t' = row.stale t' := rfl
  rw [World.columnsOf, left, now, Option.filter_some, same]
  cases row.stale t' <;> rfl

/-- The columns that a call leaves that takes the page to be unchanged. -/
theorem columns_of_unchanged {mime : Str} (processes : Processes url w crawlUrl status resp row r)
    (run : env.Run fails ((indexResponse env url row.hashes status resp).tryCatch (crawlFailed url))
      r result after) (succeeded : Succeeded after.log)
    (known : indexResponse env url row.hashes status resp = storeUnchanged url status resp mime) :
    after.state.columnsOf url.str = some { row.columns with contentType := some mime } := by
  obtain ⟨later, effect⟩ := unchanged_of_run run succeeded known
  rw [effect]
  change ((r.state.pages.update url.str _) url.str).map PageRow.columns = _
  rw [Table.update_self, processes.stored]
  rfl

/-- The columns that a call leaves that processes the response. -/
theorem columns_of_changed (dumping : ∀ links x, env.jsonError links = some x → x ≠ [])
    (kind : status.tdiv 10 = 2) (changed : row.hashes.rawContentHash ≠ env.xxHash64 resp.body)
    (processes : Processes url w crawlUrl status resp row r)
    (run : env.Run fails ((indexResponse env url row.hashes status resp).tryCatch (crawlFailed url))
      r result after) (succeeded : Succeeded after.log) :
    (Processable env url status resp ∧ ∃ doc, DocumentOf env url status resp doc ∧
      after.state.columnsOf url.str = some doc.columns) ∨
    ¬Processable env url status resp ∧
      after.state.columnsOf url.str = if row.stale after.state.now then none
        else some row.columns := by
  rcases indexResponse_changed dumping kind changed with
    ⟨doc, document, dumped, stores⟩ | ⟨refused, x, text, failed⟩
  · -- the document was stored
    obtain ⟨t, before, _, _, row', page, _, rfl⟩ :=
      stored_of_run processes run succeeded document dumped stores
    refine .inl ⟨⟨doc, document, dumped⟩, doc, document, ?_⟩
    rw [World.columnsOf, page]
    rfl
  · -- the bytes could not be processed
    rw [failed] at run
    exact .inr ⟨refused, columns_of_failed text processes.stored run succeeded⟩

end Leaves

/-! ### The comparison -/

/-- The row without its hashes. -/
def PageRow.unhashed (row : PageRow) : PageRow :=
  { row with indexedContentHash := [], rawContentHash := [] }

/-- What a failure keeps shows the new content type only if it is the old one. -/
private theorem kept_columns_iff {row : PageRow} {mime : Str} {t : Time} :
    some { row.columns with contentType := some mime } =
        (if row.unhashed.stale t then none else some row.unhashed.columns) ↔
      row.contentType = some mime ∧ row.stale t = false := by
  change _ = (if row.stale t then none else some row.columns) ↔ _
  cases row.stale t with
  | true => simp
  | false =>
    simp only [Bool.false_eq_true, if_false, Option.some_inj, and_true]
    constructor
    · exact fun same => (congrArg Columns.contentType same).symm
    · intro same
      rw [← same]
      rfl

private theorem deleted_alike_iff {row : PageRow} {t t' : Time} :
    (if row.stale t then none else some row.columns) =
        (if row.unhashed.stale t' then none else some row.unhashed.columns) ↔
      row.stale t = row.stale t' := by
  change _ = (if row.stale t' then none else some row.columns) ↔ _
  cases row.stale t <;> cases row.stale t' <;> simp

/-- When a call treats the row that was stored for `resp₀` as it treats one without hashes.
The two calls end at `ends` and `ends'`. -/
def SkipAgrees (env : Env) (url : Url) (row : PageRow) (status₀ : Int) (resp₀ : Response)
    (status : Int) (resp : Response) (ends ends' : Time) : Prop :=
  -- other bytes are processed in both calls, and what fails in both is deleted once it is old
  (resp.body ≠ resp₀.body ∧
      (Processable env url status resp ∨ row.stale ends = row.stale ends')) ∨
    -- the same bytes are not processed again
    (resp.body = resp₀.body ∧
      (Processable env url status resp ∧ SamePage env url status₀ resp₀ resp ∨
        ¬Processable env url status resp ∧ row.contentType = some resp.mime ∧
          row.stale ends' = false))

/-- A call whose response may be skipped leaves the columns that a call from a row without
hashes leaves, exactly when the bytes are new or what they are read as makes no difference. -/
theorem skip_agrees_iff {env : Env} {fails : Op → Str → Prop} (off : env.forceReindex = false)
    (collisionFree : Function.Injective env.xxHash64) (hashed : ∀ str, env.xxHash64 str ≠ [])
    (dumping : ∀ links x, env.jsonError links = some x → x ≠ []) {urlStr : Str}
    {status₀ status : Int} {resp₀ resp : Response} {row : PageRow}
    (crawled : CrawledAs env fails urlStr status₀ resp₀ row) {w w' : World}
    (found : w.pages urlStr = some row) (unhashed : w'.pages urlStr = some row.unhashed)
    {result result' : Except Str Bool} {after scratch : Rec}
    (run : env.Run fails (crawlPage env urlStr) ⟨w, []⟩ result after)
    (succeeded : Succeeded after.log)
    (run' : env.Run fails (crawlPage env urlStr) ⟨w', []⟩ result' scratch)
    (succeeded' : Succeeded scratch.log) {crawlUrl crawlUrl' : Url}
    (last : LastRequest after.log crawlUrl resp) (last' : LastRequest scratch.log crawlUrl' resp)
    (concrete : resp.Concrete status) (kind : status.tdiv 10 = 2) :
    after.state.columnsOf urlStr = scratch.state.columnsOf urlStr ↔
      SkipAgrees env (Url.ofString (env.uninitUrl urlStr) urlStr) row status₀ resp₀ status resp
        after.state.now scratch.state.now := by
  obtain ⟨doc₀, stored, holds⟩ := crawled.holds
  obtain ⟨same, row₁, r, processes, rest⟩ := processes_of_run run last concrete
  obtain ⟨_, row₂, r', processes', rest'⟩ := processes_of_run run' last' concrete
  clear run run' crawled
  generalize Url.ofString (env.uninitUrl urlStr) urlStr = url at *
  subst same
  -- the rows that the calls read are those of the tables
  have first : row₁ = row := processes.origin.eq_of_stored found
  have second : row₂ = row.unhashed := processes'.origin.eq_of_stored unhashed
  subst first second
  have raw : row₁.hashes.rawContentHash = env.xxHash64 resp₀.body :=
    congrArg Hashes.rawContentHash holds.hashes
  have fresh : row₁.unhashed.hashes.rawContentHash ≠ env.xxHash64 resp.body := (hashed _).symm
  have scratched := columns_of_changed dumping kind fresh processes' rest' succeeded'
  rw [SkipAgrees]
  by_cases bytes : resp.body = resp₀.body
  · -- the hash is the stored one, so nothing but the content type is set
    have known : indexResponse env url row₁.hashes status resp =
        storeUnchanged url status resp resp.mime :=
          indexResponse_skips off kind (by rw [raw, bytes])
    rw [columns_of_unchanged processes rest succeeded known, or_iff_right fun new => new.1 bytes,
      and_iff_right bytes]
    rcases scratched with ⟨processable, doc, document, columns⟩ | ⟨refused, columns⟩
    · rw [columns, or_iff_left fun failed => failed.1 processable, and_iff_right processable,
        Option.some_inj, holds.columns]
      exact samePage_iff stored kind document bytes
    · rw [columns, or_iff_right fun made => refused made.1, and_iff_right refused]
      exact kept_columns_iff
  · -- both calls process the response
    have changed : row₁.hashes.rawContentHash ≠ env.xxHash64 resp.body := by
      rw [raw]
      exact fun same => bytes (collisionFree same).symm
    rw [or_iff_left fun old => bytes old.1, and_iff_right bytes]
    rcases columns_of_changed dumping kind changed processes rest succeeded with
      ⟨processable, doc, document, columns⟩ | ⟨refused, columns⟩
    · rcases scratched with ⟨_, doc', document', columns'⟩ | ⟨refused, _⟩
      · rw [columns, columns', document.unique document']
        exact iff_of_true rfl (.inl processable)
      · exact absurd processable refused
    · rcases scratched with ⟨processable, _⟩ | ⟨_, columns'⟩
      · exact absurd processable refused
      · rw [columns, columns', or_iff_right refused]
        exact deleted_alike_iff

/-! ### A document served with another type -/

/-- One line for every request, with a MIME type. -/
def Outside.typed (meta_ : Str) : Outside :=
  { Outside.serving (lit "=> /x x") with web := fun _ => ⟨lit "20", meta_, lit "=> /x x"⟩ }

def crawlTyped (meta_ : Str) (w : World) : Rec :=
  ((Outside.typed meta_).run Env.small (crawlPage Env.small (lit "gemini://h/")) ⟨w, []⟩).2

private theorem crawlTyped_run (meta_ : Str) (w : World) :
    ∃ result, Env.small.Run never (crawlPage Env.small (lit "gemini://h/")) ⟨w, []⟩ result
      (crawlTyped meta_ w) :=
  ⟨_, Outside.run_of_ends (fun _ _ failed => by cases failed) rfl⟩

/-- The tables with the hashes of the page cleared. -/
def World.unhashed (w : World) : World :=
  w.setPages (w.pages.update (lit "gemini://h/") PageRow.unhashed)

private theorem crawlTyped_crawled {row : PageRow}
    (left : (crawlTyped (lit "text/gemini") World.empty).state.pages (lit "gemini://h/") =
      some row) :
    CrawledAs Env.small never (lit "gemini://h/") 20
      ⟨lit "20", lit "text/gemini", lit "=> /x x"⟩ row := by
  obtain ⟨_, run⟩ := crawlTyped_run (lit "text/gemini") World.empty
  have last : LastRequest (crawlTyped (lit "text/gemini") World.empty).log
      (Url.ofString 0 (lit "gemini://h/")) ⟨lit "20", lit "text/gemini", lit "=> /x x"⟩ := by decide
  exact .stored run (by decide) last ⟨by decide, by decide⟩ left

theorem skip_agrees_iff_retyped :
    let first := crawlTyped (lit "text/gemini") World.empty
    let again := crawlTyped (lit "text/plain") first.state
    let scratch := crawlTyped (lit "text/plain") first.state.unhashed
    ∃ row, first.state.pages (lit "gemini://h/") = some row ∧
      (again.state.columnsOf (lit "gemini://h/") = scratch.state.columnsOf (lit "gemini://h/") ↔
        SkipAgrees Env.small (Url.ofString 0 (lit "gemini://h/")) row 20
          ⟨lit "20", lit "text/gemini", lit "=> /x x"⟩ 20
            ⟨lit "20", lit "text/plain", lit "=> /x x"⟩
          again.state.now scratch.state.now) := by
  intro first again scratch
  obtain ⟨row, left⟩ : ∃ row, first.state.pages (lit "gemini://h/") = some row :=
    Option.isSome_iff_exists.mp (by decide)
  obtain ⟨_, run⟩ := crawlTyped_run (lit "text/plain") first.state
  obtain ⟨_, run'⟩ := crawlTyped_run (lit "text/plain") first.state.unhashed
  -- the row that processing from scratch starts from differs in its hashes only
  have unhashed : first.state.unhashed.pages (lit "gemini://h/") = some row.unhashed :=
    (Table.update_self _).trans (congrArg _ left)
  have last : LastRequest again.log (Url.ofString 0 (lit "gemini://h/"))
      ⟨lit "20", lit "text/plain", lit "=> /x x"⟩ := by decide
  have last' : LastRequest scratch.log (Url.ofString 0 (lit "gemini://h/"))
      ⟨lit "20", lit "text/plain", lit "=> /x x"⟩ := by decide
  exact ⟨row, left, skip_agrees_iff rfl (fun _ _ same => List.append_cancel_left same)
    (fun _ => List.cons_ne_nil _ _) (fun _ _ failed => by cases failed)
      (crawlTyped_crawled left) left
    unhashed run (by decide) run' (by decide) last last' ⟨by decide, by decide⟩ rfl⟩

/-- A document of links that is served as plain text the second time keeps the text that
was extracted from the links. -/
theorem retyped_page_keeps_text :
    let first := crawlTyped (lit "text/gemini") World.empty
    let again := crawlTyped (lit "text/plain") first.state
    let scratch := crawlTyped (lit "text/plain") first.state.unhashed
    (∃ row, first.state.pages (lit "gemini://h/") = some row ∧
      CrawledAs Env.small never (lit "gemini://h/") 20
        ⟨lit "20", lit "text/gemini", lit "=> /x x"⟩ row) ∧
    (∃ result, Env.small.Run never (crawlPage Env.small (lit "gemini://h/"))
      ⟨first.state, []⟩ result
      again) ∧ Succeeded again.log ∧
    (∃ result, Env.small.Run never (crawlPage Env.small (lit "gemini://h/"))
      ⟨first.state.unhashed, []⟩ result scratch) ∧ Succeeded scratch.log ∧
    LastRequest again.log (Url.ofString 0 (lit "gemini://h/"))
      ⟨lit "20", lit "text/plain", lit "=> /x x"⟩ ∧
    LastRequest scratch.log (Url.ofString 0 (lit "gemini://h/"))
      ⟨lit "20", lit "text/plain", lit "=> /x x"⟩ ∧
    again.state.columnsOf (lit "gemini://h/") ≠ scratch.state.columnsOf (lit "gemini://h/") := by
  intro first again scratch
  obtain ⟨row, left⟩ : ∃ row, first.state.pages (lit "gemini://h/") = some row :=
    Option.isSome_iff_exists.mp (by decide)
  exact ⟨⟨row, left, crawlTyped_crawled left⟩, crawlTyped_run _ _, by decide, crawlTyped_run _ _,
    by decide, by decide, by decide, by decide⟩

end Tlgs

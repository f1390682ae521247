import Tlgs.Crawler.Changes

/-!
# Coherent rows

The columns of a page are set by several statements, in transactions of their own, and any number
of crawls may work on one page. Still the columns that one statement sets from a document are all of
one document, which was made of a response that a crawl received for that page; the times of a row
are in order; and what the search finds has the columns that the search reads.
-/
namespace Tlgs

open Bytes Interactive

/-! ### What a row shows -/

/-- The columns that only the UPDATE of the content sets, all together. It sets `content_type`,
`last_status` and `last_meta` too, which later responses overwrite without it. -/
structure StoredContent where
  contentBody : Option Str
  size : Nat
  charset : Option Str
  lang : Option Str
  title : Option Str
  crossSiteLinks : Option (List Str)
  internalLinks : Option (List Str)
  indexedContentHash : Str
  rawContentHash : Str
  feedType : Option Str
  deriving DecidableEq, Repr

def PageRow.storedContent (row : PageRow) : StoredContent where
  contentBody := row.contentBody
  size := row.size
  charset := row.charset
  lang := row.lang
  title := row.title
  crossSiteLinks := row.crossSiteLinks
  internalLinks := row.internalLinks
  indexedContentHash := row.indexedContentHash
  rawContentHash := row.rawContentHash
  feedType := row.feedType

def PageContent.storedContent (content : PageContent) : StoredContent where
  contentBody := some content.body
  size := content.bodySize
  charset := content.charset
  lang := content.lang
  title := some content.title
  crossSiteLinks := some content.crossSiteLinks
  internalLinks := some content.internalLinks
  indexedContentHash := content.newIndexedContentHash
  rawContentHash := content.newRawContentHash
  feedType := content.feedType

/-- The columns of a page that was never stored. -/
def StoredContent.blank : StoredContent where
  contentBody := none
  size := 0
  charset := none
  lang := none
  title := none
  crossSiteLinks := none
  internalLinks := none
  indexedContentHash := []
  rawContentHash := []
  feedType := none

/-- The content is that of a document which was made of a response received for the page. -/
def ShowsDocument (env : Env) (received : (op : Op) → Except Str op.Answer → Prop) (key : Str)
    (content : StoredContent) : Prop :=
  ∃ url status resp doc, url.WellFormed ∧ url.protocol = lit "gemini" ∧ url.str = key ∧
    Received env received url status resp ∧ DocumentOf env url status resp doc ∧
    content = (pageContent env url status resp doc).storedContent

/-- A time at which something happened to a page. -/
def PageRow.Dates (row : PageRow) (now : Time) (event : Option Time) : Prop :=
  ∀ t ∈ event, row.firstSeenAt ≤ t ∧ t ≤ now

structure PageRow.Coherent (env : Env) (received : (op : Op) → Except Str op.Answer → Prop)
    (key : Str) (now : Time) (row : PageRow) : Prop where
  seen : row.firstSeenAt ≤ now
  crawled : row.Dates now row.lastCrawledAt
  queued : row.Dates now row.lastQueuedAt
  indexed : row.Dates now row.lastIndexedAt
  succeeded : ∀ t ∈ row.lastCrawlSuccessAt, row.firstSeenAt ≤ t ∧
  ∃ last ∈ row.lastCrawledAt, t ≤ last
  status : row.lastStatus.isSome = row.lastCrawledAt.isSome
  typed : row.contentType.isSome = row.lastCrawlSuccessAt.isSome
  content : row.storedContent = .blank ∨ ShowsDocument env received key row.storedContent
  crawledContent : row.title.isSome → row.lastCrawlSuccessAt.isSome
  vectors : row.searchVector.isSome = row.titleVector.isSome
  searchable : row.searchVector.isSome → row.title.isSome

namespace PageRow

variable {env : Env} {received : (op : Op) → Except Str op.Answer → Prop} {key : Str}
  {now later : Time} {row : PageRow}

theorem Dates.wait {event : Option Time} (dates : row.Dates now event) (forward : now ≤ later) :
    row.Dates later event :=
  fun t member => ⟨(dates t member).1, (dates t member).2.trans forward⟩

theorem dates_now (seen : row.firstSeenAt ≤ now) : row.Dates now (some now) := by
  rintro t ⟨⟩
  exact ⟨seen, le_refl _⟩

namespace Coherent

theorem mono {received' : (op : Op) → Except Str op.Answer → Prop}
    (coherent : row.Coherent env received key now)
    (more : ∀ op answer, received op answer → received' op answer) :
    row.Coherent env received' key now := by
  refine { coherent with content := coherent.content.imp_right ?_ }
  rintro ⟨url, status, resp, doc, wf, gemini, same, got, document, shows⟩
  exact ⟨url, status, resp, doc, wf, gemini, same, got.mono fun op answer _ => more op answer,
    document, shows⟩

theorem wait (coherent : row.Coherent env received key now) (forward : now ≤ later) :
    row.Coherent env received key later :=
  { coherent with
    seen := coherent.seen.trans forward
    crawled := coherent.crawled.wait forward
    queued := coherent.queued.wait forward
    indexed := coherent.indexed.wait forward }

theorem new (page : NewPage) (now : Time) : (page.row now).Coherent env received key now where
  seen := le_refl _
  crawled := nofun
  queued := nofun
  indexed := nofun
  succeeded := nofun
  status := rfl
  typed := rfl
  content := .inl rfl
  crawledContent := nofun
  vectors := rfl
  searchable := nofun

/-- The last success is no later than any time from now on. -/
theorem succeeded_now (coherent : row.Coherent env received key now) :
    ∀ t ∈ row.lastCrawlSuccessAt, row.firstSeenAt ≤ t ∧ ∃ last ∈ some now, t ≤ last := by
  intro t member
  obtain ⟨seen, last, crawled, before⟩ := coherent.succeeded t member
  exact ⟨seen, now, rfl, before.trans (coherent.crawled last crawled).2⟩

theorem setSkipped (coherent : row.Coherent env received key now) :
    (row.setSkipped now).Coherent env received key now :=
  { coherent with
    crawled := dates_now coherent.seen
    succeeded := coherent.succeeded_now
    status := rfl }

theorem setFailed (coherent : row.Coherent env received key now) (status : Int) (meta_ : Str) :
    (row.setFailed now status meta_).Coherent env received key now :=
  { coherent with
    crawled := dates_now coherent.seen
    succeeded := coherent.succeeded_now
    status := rfl }

theorem success_now (seen : row.firstSeenAt ≤ now) :
    ∀ t ∈ some now, row.firstSeenAt ≤ t ∧ ∃ last ∈ some now, t ≤ last := by
  rintro t ⟨⟩
  exact ⟨seen, now, rfl, le_refl _⟩

theorem setUnchanged (coherent : row.Coherent env received key now) (status : Int)
    (meta_ mime : Str) :
    (row.setUnchanged now status meta_ mime).Coherent env received key now :=
  { coherent with
    crawled := dates_now coherent.seen
    succeeded := success_now coherent.seen
    status := rfl
    typed := rfl
    crawledContent := fun _ => rfl }

theorem setQueued (coherent : row.Coherent env received key now) :
    (row.setQueued now).Coherent env received key now :=
  { coherent with queued := dates_now coherent.seen }

theorem setContent (coherent : row.Coherent env received key now) {content : PageContent}
    (shows : ShowsDocument env received key content.storedContent) :
    (row.setContent now content).Coherent env received key now :=
  { coherent with
    crawled := dates_now coherent.seen
    succeeded := success_now coherent.seen
    status := rfl
    typed := rfl
    content := .inr shows
    crawledContent := fun _ => rfl
    searchable := fun _ => rfl }

/-- The columns of the content are set together. -/
theorem contentBody_isSome (coherent : row.Coherent env received key now) :
    row.contentBody.isSome = row.title.isSome := by
  have body : row.contentBody = row.storedContent.contentBody := rfl
  have title : row.title = row.storedContent.title := rfl
  rw [body, title]
  rcases coherent.content with blank | ⟨url, status, resp, doc, _, _, _, _, _, shows⟩
  · rw [blank]
    rfl
  · rw [shows]
    rfl

theorem setIndex (coherent : row.Coherent env received key now) (indexFriendlyUrl : Str) :
    (row.setIndex env.toTsvector now indexFriendlyUrl).Coherent env received key now := by
  -- both vectors are null unless there is a title, and then there is a body
  have together := coherent.contentBody_isSome
  have vectors : (row.setIndex env.toTsvector now indexFriendlyUrl).searchVector.isSome =
      row.title.isSome ∧
      (row.setIndex env.toTsvector now indexFriendlyUrl).titleVector.isSome = row.title.isSome := by
    simp only [PageRow.setIndex, Option.isSome_map]
    refine ⟨?_, trivial⟩
    cases title : row.title with
    | none => rfl
    | some text =>
      rw [title] at together
      obtain ⟨body, stored⟩ := Option.isSome_iff_exists.mp together
      rw [stored]
      rfl
  exact { coherent with
    indexed := dates_now coherent.seen
    vectors := vectors.1.trans vectors.2.symm
    searchable := fun found => by rwa [vectors.1] at found }

end Coherent

end PageRow

/-! ### In every state -/

def RowsCoherent (env : Env) (received : (op : Op) → Except Str op.Answer → Prop) (w : World) :
    Prop :=
  ∀ key row, w.pages key = some row → row.Coherent env received key w.now

/-- The content that is stored is that of a document for the page. -/
def Op.showsDocuments (env : Env) (received : (op : Op) → Except Str op.Answer → Prop) : Op → Prop
  | .updateContent url content => ShowsDocument env received url content.storedContent
  | _ => True

theorem writing_shows (env : Env) (web : RobotsWeb)
    (received : (op : Op) → Except Str op.Answer → Prop) :
    Writing env (recordedAnswers web received) (Op.showsDocuments env received) where
  plain op plain := by cases op <;> trivial
  deletes _ _ := trivial
  inserts _ _ := trivial
  contents url approved status resp doc got document :=
    ⟨url, status, resp, doc, approved.wellFormed, approved.gemini, rfl,
      got.mono fun _ _ direct known =>
      known.2 direct, document, rfl⟩
  links _ _ _ := trivial
  pages _ _ := trivial

variable {env : Env} {fails : Op → Str → Prop} {web : RobotsWeb} {robots : RobotsAnswers}
  {received : (op : Op) → Except Str op.Answer → Prop}

theorem coherent_rewritten {now : Time} {key : Str} {old row : PageRow} {op : Op}
    (shows : op.showsDocuments env received) (coherent : old.Coherent env received key now)
    (rewritten : Rewritten env now key old op row) : row.Coherent env received key now := by
  cases rewritten with
  | skipped => exact coherent.setSkipped
  | unchanged status meta_ mime => exact coherent.setUnchanged status meta_ mime
  | content content => exact coherent.setContent shows
  | indexed indexFriendlyUrl => exact coherent.setIndex indexFriendlyUrl
  | failed status meta_ => exact coherent.setFailed status meta_
  | queued pct count => exact coherent.setQueued

theorem RowsCoherent.tick {w : World} (coherent : RowsCoherent env received w) {later : Time}
    (forward : w.now ≤ later) : RowsCoherent env received (w.tick later) :=
  fun key row stored => (coherent key row stored).wait forward

theorem rowsCoherent_step {w after : World} {op : Op} {answer : Except Str op.Answer}
    (shows : op.showsDocuments env received) (coherent : RowsCoherent env received w)
    (taken : env.step fails w op answer after) : RowsCoherent env received after := by
  obtain ⟨later, forward, effect⟩ := taken
  have waited := coherent.tick forward
  cases answer with
  | error x =>
    rw [effect.2]
    exact waited
  | ok a =>
    obtain ⟨_, rfl⟩ := effect
    intro key row stored
    rw [apply_now]
    rcases row_after a stored with ⟨old, before, rfl | rewritten⟩ | ⟨_, page, _, rfl, rfl⟩
    · exact waited key _ before
    · exact coherent_rewritten shows (waited key old before) rewritten
    · exact .new page later

theorem rowsCoherent_move {s after : System} (coherent : RowsCoherent env received s.world)
    (moved : SystemMove env s after) : RowsCoherent env received after.world := by
  intro key row stored
  have forward := move_now moved
  rcases row_after_move moved stored with before | ⟨_, _, page, _, _, rfl, rfl⟩
  · exact (coherent key row before).wait forward
  · exact (PageRow.Coherent.new page _).wait forward

/-! ### What follows for a document -/

/-- `allowed_type` of `known_feeds`. -/
def allowedType : List Str := [lit "atom", lit "rss", lit "twtxt", lit "gemsub"]

theorem feedType_allowed {url : Url} {status : Int} {resp : Response} {doc : Document}
    (document : DocumentOf env url status resp doc) :
    ∀ feed ∈ doc.feedType, feed ∈ allowedType := by
  -- a response is processed into a feed only where its kind has one
  rcases document with ⟨_, processed⟩ | ⟨_, rfl⟩
  · simp only [processBody] at processed
    split at processed
    · cases processed
    · split at processed
      · cases processed
        dsimp only
        split
        · rintro feed ⟨⟩
          decide
        · exact nofun
      · split at processed
        · cases processed
          dsimp only
          split
          · rintro feed ⟨⟩
            decide
          · exact nofun
        · cases processed
          dsimp only
          split
          · rintro feed ⟨⟩
            decide
          · split
            · rintro feed ⟨⟩
              decide
            · exact nofun
  · exact nofun

theorem length_limitTitle (title : Str) : (limitTitle title).length ≤ 1003 := by
  simp only [limitTitle]
  split
  · rw [List.length_append, List.length_take]
    change min 1000 title.length + 3 ≤ 1003
    omega
  · omega

/-- In every run of any number of crawls, in any interleaving, every row stays coherent: its content
is that of one document, made of one response that is on the record of a crawl as the answer to a
request for that page or for where redirects on record lead from it, or was on record before, or it
has none; its times are in order; a row with a search vector has the columns that the search shows.
So the feed type of a row is one that `known_feeds` can be asked for, and its title is at most 1003
bytes long. -/
theorem rows_stay_coherent {init : System} {pool : Crawls}
    {earlier : (op : Op) → Except Str op.Answer → Prop}
    (initially : RowsCoherent env earlier init.world)
    (reached : Crawling env fails web robots init pool) :
    RowsCoherent env (fun op answer => earlier op answer ∨ OnRecord pool op answer)
        pool.state.world ∧
      ∀ key row, pool.state.world.pages key = some row →
        (∀ feed ∈ row.feedType, feed ∈ allowedType) ∧ ∀ title ∈ row.title, title.length ≤ 1003 := by
  have coherent : RowsCoherent env (fun op answer => earlier op answer ∨ OnRecord pool op answer)
      pool.state.world := by
    refine tables_invariant _ (fun _ _ => .inr) (writing_shows env web _)
      (fun _ _ _ _ shows => rowsCoherent_step shows) (fun _ _ => rowsCoherent_move) ?_ reached
    exact fun key row stored => (initially key row stored).mono fun _ _ => .inl
  refine ⟨coherent, fun key row stored => ?_⟩
  have feed : row.feedType = row.storedContent.feedType := rfl
  have title : row.title = row.storedContent.title := rfl
  rw [feed, title]
  -- a row without a document has neither, and else both are those of the document
  rcases (coherent key row stored).content
    with blank | ⟨url, status, resp, doc, _, _, _, _, document, shows⟩
  · rw [blank]
    exact ⟨nofun, nofun⟩
  · rw [shows]
    refine ⟨feedType_allowed document, ?_⟩
    rintro text ⟨⟩
    exact length_limitTitle doc.title

theorem rowsCoherent_seeded (urls : List Str) :
    RowsCoherent env (fun _ _ => False) (System.seeded urls).world := by
  intro key row stored
  cases stored

theorem rows_stay_coherent_served :
    let web := RobotsWeb.serving (lit "")
    let init := System.seeded [lit "gemini://h/"]
    ∃ pool : Crawls, Crawling Env.small never web web.serves init pool ∧
      ((pool.state.world.pages (lit "gemini://h/")).bind PageRow.contentBody).isSome = true ∧
      RowsCoherent Env.small (fun op answer => False ∨ OnRecord pool op answer) pool.state.world ∧
      ∀ key row, pool.state.world.pages key = some row →
        (∀ feed ∈ row.feedType, feed ∈ allowedType) ∧ ∀ title ∈ row.title, title.length ≤ 1003 := by
  intro web init
  obtain ⟨pool, reached, state⟩ :=
    Outside.crawling (@serving_never (lit "hello")) Env.small web init 3
  refine ⟨pool, reached, ?_, rows_stay_coherent (rowsCoherent_seeded _) reached⟩
  rw [state]
  decide +kernel

end Tlgs

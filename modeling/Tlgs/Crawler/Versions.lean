import Tlgs.Crawler.Store

/-!
# The version that a row holds

The UPDATE of the content stores what a response was made into, with the hashes of the
bytes and of the text. Until a later call stores content again, the row holds that
version: only the content type is set anew when a call takes the page to be unchanged.
-/
namespace Tlgs

open Bytes Interactive Interactive.Program

/-! ### What a page shows -/

/-- The columns that say what a page shows. -/
structure Columns where
  contentType : Option Str
  charset : Option Str
  lang : Option Str
  title : Option Str
  contentBody : Option Str
  feedType : Option Str
  deriving DecidableEq, Repr

def PageRow.columns (row : PageRow) : Columns where
  contentType := row.contentType
  charset := row.charset
  lang := row.lang
  title := row.title
  contentBody := row.contentBody
  feedType := row.feedType

def Document.columns (doc : Document) : Columns where
  contentType := some doc.mime
  charset := doc.charset
  lang := doc.lang
  title := some (limitTitle doc.title)
  contentBody := some doc.body
  feedType := doc.feedType

/-- The row holds the version that `doc`, made of `resp`, was stored as. -/
structure Holds (env : Env) (resp : Response) (doc : Document) (row : PageRow) : Prop where
  hashes : row.hashes = ⟨env.xxHash64 doc.body, env.xxHash64 resp.body⟩
  columns : row.columns = { doc.columns with contentType := row.contentType }

variable {env : Env} {fails : Op → Str → Prop} {url : Url} {resp : Response} {doc : Document}
  {row : PageRow} {r after : Rec}

theorem Holds.setUnchanged (holds : Holds env resp doc row) (t : Time) (status : Int)
    (meta_ mime : Str) : Holds env resp doc (row.setUnchanged t status meta_ mime) :=
  ⟨holds.hashes, congrArg (fun shown => { shown with contentType := some mime }) holds.columns⟩

theorem Holds.setFailed (holds : Holds env resp doc row) (t : Time) (status : Int) (meta_ : Str) :
    Holds env resp doc (row.setFailed t status meta_) :=
  ⟨holds.hashes, holds.columns⟩

theorem Holds.setSkipped (holds : Holds env resp doc row) (t : Time) :
    Holds env resp doc (row.setSkipped t) :=
  ⟨holds.hashes, holds.columns⟩

theorem Holds.setQueued (holds : Holds env resp doc row) (t : Time) :
    Holds env resp doc (row.setQueued t) :=
  ⟨holds.hashes, holds.columns⟩

theorem Holds.setIndex (holds : Holds env resp doc row) (toTsvector : Str → Str) (t : Time)
    (index : Str) : Holds env resp doc (row.setIndex toTsvector t index) :=
  ⟨holds.hashes, holds.columns⟩

theorem holds_setContent (env : Env) (url : Url) (status : Int) (resp : Response) (doc : Document)
    (row : PageRow) (t : Time) :
    Holds env resp doc (row.setContent t (pageContent env url status resp doc)) :=
  ⟨rfl, rfl⟩

/-! ### Operations that leave the version -/

/-- If the page has a row, that row holds the version. -/
def Kept (env : Env) (resp : Response) (doc : Document) (urlStr : Str) (w : World) : Prop :=
  ∀ row, w.pages urlStr = some row → Holds env resp doc row

/-- The operations of a call that neither store content nor insert a row. -/
def Op.keepsVersion : Op → Prop
  | insertPage _ | insertPages _ | updateContent _ _ | queueBatch _ _ => False
  | _ => True

theorem Kept.update {w : World} {urlStr key : Str} {change : PageRow → PageRow}
    (kept : Kept env resp doc urlStr w)
    (closed : ∀ row, Holds env resp doc row → Holds env resp doc (change row)) :
    Kept env resp doc urlStr (w.setPages (w.pages.update key change)) := by
  intro row stored
  obtain ⟨old, before, rfl | rfl⟩ := Table.of_update stored
  · exact kept _ before
  · exact closed old (kept old before)

theorem Kept.deleteIf {w : World} {urlStr key : Str} {condition : PageRow → Bool}
    (kept : Kept env resp doc urlStr w) :
    Kept env resp doc urlStr (w.setPages (w.pages.deleteIf key condition)) :=
  fun row stored => kept row (Table.of_deleteIf stored)

theorem Kept.apply {w : World} {urlStr : Str} {op : Op} (kept : Kept env resp doc urlStr w)
    (a : op.Answer) (keeps : op.keepsVersion) : Kept env resp doc urlStr (env.apply w op a) := by
  cases op with
  | deletePage u => exact kept.deleteIf
  | deleteStale u => exact kept.deleteIf
  | skipProxyError u => exact kept.update fun _ holds => holds.setSkipped _
  | updateUnchanged u status meta_ mime =>
    exact kept.update fun _ holds => holds.setUnchanged _ _ _ _
  | updateIndex u index => exact kept.update fun _ holds => holds.setIndex _ _ _
  | updateFailed u status meta_ => exact kept.update fun _ holds => holds.setFailed _ _ _
  | insertPage page => cases keeps
  | insertPages pages => cases keeps
  | updateContent u content => cases keeps
  | queueBatch pct count => cases keeps
  | _ => exact kept

/-- The call has stored content, or the version is kept. -/
def StoredOrKept (env : Env) (resp : Response) (doc : Document) (urlStr : Str) (r : Rec) : Prop :=
  ContentStored r.log ∨ Kept env resp doc urlStr r.state

theorem ContentStored.run {α : Type} {p : Crawl α} {result : Except Str α}
    (stored : ContentStored r.log) (run : env.Run fails p r result after) :
    ContentStored after.log := by
  obtain ⟨events, log⟩ := log_extends run
  obtain ⟨event, member, stores⟩ := stored
  rw [log]
  exact ⟨event, List.mem_append_left _ member, stores⟩

theorem Kept.step {urlStr : Str} {op : Op} {answer : Except Str op.Answer}
    (kept : Kept env resp doc urlStr r.state) (keeps : op.keepsVersion)
    (taken : record (env.step fails) r op answer after) : Kept env resp doc urlStr after.state := by
  cases answer with
  | error x =>
    simp only [Kept, (step_error taken).1]
    exact kept
  | ok a =>
    obtain ⟨later, _, _, effect, _⟩ := step_ok taken
    rw [effect]
    exact Kept.apply (w := r.state.tick later) kept a keeps

theorem kept_of_within {α : Type} {p : Crawl α} {result : Except Str α} {urlStr : Str}
    (kept : Kept env resp doc urlStr r.state) (within : Within Op.keepsVersion (fun _ => True) p)
    (run : env.Run fails p r result after) : Kept env resp doc urlStr after.state := by
  refine (wp_iff_runs.mp (wp_of_within (fun s => Kept env resp doc urlStr s.state)
    (fun _ _ _ _ _ => trivial) ?_ within kept) result after run).1
  exact fun s op answer next keeps kept taken => kept.step keeps taken

/-- Programs that leave the version, unless they store content. -/
def StoresOrKeeps (env : Env) (fails : Op → Str → Prop) (resp : Response) (doc : Document)
    (urlStr : Str) {α : Type} (p : Crawl α) : Prop :=
  ∀ r result after, StoredOrKept env resp doc urlStr r → env.Run fails p r result after →
    StoredOrKept env resp doc urlStr after

section StoresOrKeeps

variable {α β : Type} {p : Crawl α} {urlStr : Str}

theorem keeps_of_within (within : Within Op.keepsVersion (fun _ => True) p) :
    StoresOrKeeps env fails resp doc urlStr p := by
  rintro r result after (stored | kept) run
  · exact .inl (stored.run run)
  · exact .inr (kept_of_within kept within run)

theorem keeps_bind {f : α → Crawl β} (first : StoresOrKeeps env fails resp doc urlStr p)
    (rest : ∀ a, StoresOrKeeps env fails resp doc urlStr (f a)) :
    StoresOrKeeps env fails resp doc urlStr (p >>= f) := by
  intro r result after either run
  rcases runs_bind.mp run with ⟨a, middle, ran, later⟩ | ⟨x, failed, _⟩
  · exact rest a middle result after (first r _ middle either ran) later
  · exact first r _ after either failed

theorem keepsVersion_of_fetches {op : Op} (fetches : op.fetches) : op.keepsVersion := by
  cases op <;> trivial

theorem keeps_storeFailure (url : Url) (status : Int) (meta_ : Str) :
    StoresOrKeeps env fails resp doc urlStr (storeFailure url status meta_) :=
  keeps_of_within (within_storeFailure (fun _ _ => trivial) trivial status meta_)

theorem keepsVersion_crawlFailed (url : Url) (error : Str) :
    Within Op.keepsVersion (fun _ => True) (crawlFailed url error) :=
  within_crawlFailed (fun _ _ => trivial) trivial (fun _ => trivial) error

/-- Once content is stored, it does not matter what follows. -/
theorem keeps_storeContent (url : Url) (status : Int) (resp' : Response) (doc' : Document) :
    StoresOrKeeps env fails resp doc urlStr (storeContent env url status resp' doc') := by
  refine keeps_bind (keeps_of_within (within_dumpLinks _ fun _ _ _ => trivial)) fun _ => ?_
  rintro r result after (stored | kept) run
  · exact .inl (stored.run run)
  · rcases runs_bind.mp run with ⟨a, middle, ran, later⟩ | ⟨x, failed, _⟩
    · -- the UPDATE is on record, whatever the later statements do
      have content : ContentStored middle.log := by
        rw [(runs_perform.mp ran).2]
        exact ⟨_, List.mem_append_right _ List.mem_cons_self, rfl⟩
      exact .inl (content.run later)
    · refine .inr ?_
      simp only [Kept, (step_error (runs_perform.mp failed)).1]
      exact kept

theorem keeps_indexResponse (url : Url) (hashes : Hashes) (status : Int) (resp' : Response) :
    StoresOrKeeps env fails resp doc urlStr (indexResponse env url hashes status resp') := by
  rcases indexResponse_kinds env url hashes status resp' with
    ⟨doc', _, stores⟩ | ⟨mime, known⟩ | ⟨x, failed⟩ | failure
  · rw [stores]
    exact keeps_storeContent url status resp' doc'
  · rw [known]
    exact keeps_of_within (within_bind (within_perform trivial) fun _ => within_pure)
  · rw [failed]
    exact keeps_of_within trivial
  · rw [failure]
    exact keeps_storeFailure url status resp'.meta_

theorem keeps_fetchAndIndex (url : Url) (hashes : Hashes) :
    StoresOrKeeps env fails resp doc urlStr (fetchAndIndex env url hashes) := by
  refine keeps_bind (keeps_of_within (within_mono (fun _ => keepsVersion_of_fetches)
    (within_followRedirects (fun _ _ => trivial) url _ _ _ _))) fun fetched => ?_
  obtain ⟨status, resp'⟩ := fetched
  cases resp' with
  | none => exact keeps_of_within trivial
  | some resp' => exact keeps_indexResponse url hashes status resp'

/-- The part of a call after the record of the page was found. -/
theorem keeps_crawlRecord (url : Url) (row : PageRow) :
    StoresOrKeeps env fails resp doc urlStr (crawlRecord env url (some row)) := by
  simp only [crawlRecord]
  split
  · refine keeps_bind (keeps_of_within (within_perform trivial)) fun now => ?_
    split
    · exact keeps_of_within (within_bind (within_perform trivial) fun _ => within_pure)
    · exact keeps_fetchAndIndex url _
  · exact keeps_fetchAndIndex url _

theorem keeps_removePage (url : Str) : StoresOrKeeps env fails resp doc urlStr (removePage url) :=
  keeps_bind (keeps_of_within (within_perform trivial)) fun _ =>
    keeps_bind (keeps_of_within (within_perform trivial)) fun _ => keeps_of_within within_pure

/-- The `try` block of a call that finds a row of the page. -/
theorem crawlBody_keeps {url : Url} {w : World} {result : Except Str Bool}
    (stored : w.pages url.str = some row) (kept : Kept env resp doc urlStr w)
    (run : env.Run fails (crawlBody env url) ⟨w, []⟩ result after) :
    StoredOrKept env resp doc urlStr after := by
  suffices body : env.Wp fails (crawlBody env url)
      (fun _ after => StoredOrKept env resp doc urlStr after) ⟨w, []⟩ from
    wp_iff_runs.mp body result after run
  refine wp_perform_bind.mpr fun answer asked taken => ?_
  have still : Kept env resp doc urlStr asked.state :=
    Kept.step (r := ⟨w, []⟩) kept (by trivial) taken
  cases answer with
  | error x => exact .inr still
  | ok allowed =>
    rw [then_ok]
    split
    · -- "Blocked by robots.txt"
      exact .inr still
    · refine wp_perform_bind.mpr fun answer read selected => ?_
      have found : Kept env resp doc urlStr read.state := still.step (by trivial) selected
      cases answer with
      | error x => exact .inr found
      | ok record =>
        obtain ⟨later, _, possible, _, _⟩ := step_ok selected
        have same : record = some row := by
          rw [← stored, ← (step_fetches (by trivial) taken).1]
          exact possible
        rw [then_ok, same]
        exact wp_iff_runs.mpr fun result after run =>
          keeps_crawlRecord url row read result after (.inr found) run

/-- A call that finds a row of the page leaves the version that it holds, or stores
another one. -/
theorem crawlPage_keeps {w : World} {result : Except Str Bool}
    (stored : w.pages urlStr = some row) (holds : Holds env resp doc row)
    (run : env.Run fails (crawlPage env urlStr) ⟨w, []⟩ result after) :
    StoredOrKept env resp doc urlStr after := by
  have kept : Kept env resp doc urlStr w := by
    intro row' stored'
    cases stored.symm.trans stored'
    exact holds
  unfold crawlPage at run
  dsimp only at run
  split at run
  · -- a URL that is not canonical loses its row
    exact keeps_removePage urlStr ⟨w, []⟩ result after (.inr kept) run
  next canonical =>
    have same := not_not.mp (not_or.mp canonical).2
    have found : w.pages (Url.ofString (env.uninitUrl urlStr) urlStr).str = some row := by
      rw [same, stored]
    rcases runs_tryCatch.mp run with ⟨a, _, ran⟩ | ⟨x, middle, failed, handled⟩
    · exact crawlBody_keeps found kept ran
    · exact keeps_of_within (keepsVersion_crawlFailed _ x) middle result after
        (crawlBody_keeps found kept failed) handled

end StoresOrKeeps

/-! ### Calls that store a document -/

/-- What is stored stays in the row to the end of the call, if the row does. -/
theorem StoringCall.holds {w : World} {crawlUrl : Url} {status : Int} {before r' : Rec}
    {result : Except Str Bool}
    (storing : StoringCall env fails url w crawlUrl status resp doc row before r' result after) :
    Kept env resp doc url.str after.state := by
  obtain ⟨t, page⟩ := storing.content.stored
  have indexed : ∀ outcome last, env.Run fails
      (storeIndex env url (pageContent env url status resp doc)
      (linkUrls env url doc.links)) r' outcome last →
      ∃ row, last.state.pages url.str = some row ∧ Holds env resp doc row := by
    intro outcome last run
    refine (wp_iff_runs.mp (wp_of_within
      (fun s => ∃ row, s.state.pages url.str = some row ∧ Holds env resp doc row)
      (fun _ _ _ _ _ => trivial) ?_ (within_storeIndex url _ _)
      ⟨_, page, holds_setContent env url status resp doc row t⟩) outcome last run).1
    rintro s op (x | a) next relinks ⟨row, stored, holds⟩ taken
    · rw [(step_error taken).1]
      exact ⟨row, stored, holds⟩
    · obtain ⟨later, _, _, effect, _⟩ := step_ok taken
      rw [effect]
      exact apply_relinks_row a (fun _ _ _ holds => holds.setIndex _ _ _) relinks
        ⟨row, stored, holds⟩
  -- no failing statement takes the row back, and the handler may only delete it
  have kept : ∀ {outcome last}, env.Run fails
      (storeIndex env url (pageContent env url status resp doc)
      (linkUrls env url doc.links)) r' outcome last → Kept env resp doc url.str last.state := by
    intro outcome last run row' stored'
    obtain ⟨row, stored, holds⟩ := indexed outcome last run
    cases stored.symm.trans stored'
    exact holds
  rcases storing.ends with ⟨b, rfl, index⟩ | ⟨x, middle, index, handled⟩
  · exact kept index
  · exact kept_of_within (kept index) (keepsVersion_crawlFailed url x) handled

/-! ### The history of a row -/

/-- The rows that calls leave for a page, with the response that was stored last and its
status. Between two calls the queue marks the row as queued or blocked. -/
inductive CrawledAs (env : Env) (fails : Op → Str → Prop) (urlStr : Str) (status : Int)
    (resp : Response) : PageRow → Prop
  | stored {w : World} {result : Except Str Bool} {after : Rec} {crawlUrl : Url} {row : PageRow}
      (run : env.Run fails (crawlPage env urlStr) ⟨w, []⟩ result after)
      (content : ContentStored after.log) (last : LastRequest after.log crawlUrl resp)
      (concrete : resp.Concrete status) (left : after.state.pages urlStr = some row) :
      CrawledAs env fails urlStr status resp row
  | kept {w : World} {result : Except Str Bool} {after : Rec} {row row' : PageRow}
      (earlier : CrawledAs env fails urlStr status resp row) (found : w.pages urlStr = some row)
      (run : env.Run fails (crawlPage env urlStr) ⟨w, []⟩ result after)
      (nothing : ¬ContentStored after.log) (left : after.state.pages urlStr = some row') :
      CrawledAs env fails urlStr status resp row'
  | queued {row : PageRow} (earlier : CrawledAs env fails urlStr status resp row) (t : Time) :
      CrawledAs env fails urlStr status resp (row.setQueued t)
  | blocked {row : PageRow} (earlier : CrawledAs env fails urlStr status resp row) (t : Time) :
      CrawledAs env fails urlStr status resp (row.setFailed t 0 (lit "blocked"))

/-- The row holds the version that the response was made into. -/
theorem CrawledAs.holds {urlStr : Str} {status : Int}
    (crawled : CrawledAs env fails urlStr status resp row) :
    ∃ doc, DocumentOf env (Url.ofString (env.uninitUrl urlStr) urlStr) status resp doc ∧
      Holds env resp doc row := by
  induction crawled with
  | stored run content last concrete left =>
    obtain ⟨_, same, _, _, _, doc, _, _, _, storing⟩ := crawlPage_stores run content
    obtain ⟨_, rfl⟩ := last.unique storing.last
    cases concrete.1.symm.trans storing.processes.concrete.1
    refine ⟨doc, storing.document, storing.holds _ ?_⟩
    rw [same, left]
  | kept earlier found run nothing left ih =>
    -- the version is that of the earlier row
    obtain ⟨doc, document, holds⟩ := ih
    rcases crawlPage_keeps found holds run with content | kept
    · exact absurd content nothing
    · exact ⟨doc, document, kept _ left⟩
  | queued earlier t ih =>
    obtain ⟨doc, document, holds⟩ := ih
    exact ⟨doc, document, holds.setQueued t⟩
  | blocked earlier t ih =>
    obtain ⟨doc, document, holds⟩ := ih
    exact ⟨doc, document, holds.setFailed t 0 _⟩

end Tlgs

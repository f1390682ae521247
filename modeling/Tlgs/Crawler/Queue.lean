import Tlgs.Crawler.Effects

/-!
# The crawl queue

`getNextPotentialCarwlUrl` takes a URL from the queue and refills the queue from the
table; `getNextCrawlPage` hands out the first one that may be crawled. The pass over one
queued row ends with `crawlPage` on the URL handed out.
-/
namespace Tlgs

open Bytes Interactive Interactive.Program

/-! ### The source -/

/-- A loop that ended, or one still running after the rounds it was given. -/
inductive Progress (α : Type)
  | finished (a : α)
  | running
  deriving DecidableEq, Repr

def urlsPerBatch : Nat := 360

def emplaceAll : List Str → Crawl Unit
  | [] => pure ()
  | url :: urls => do
    await (.emplace url)
    emplaceAll urls

/-- Fewer than `urls_per_batch*0.9` URLs raise the share of the table that is sampled. -/
def advanceSample (found tablesamplePct : Nat) : Crawl Nat :=
  if found < 324 then await
    (.compareExchangeSamplePct tablesamplePct (min (tablesamplePct + 10) 100))
  else pure tablesamplePct

/-- The `try` block of a round; `true` when no page is left to queue. -/
def queueRound : Crawl Bool := do
  let tablesamplePct ← await .loadSamplePct
  let urls ← await (.queueBatch tablesamplePct urlsPerBatch)
  let tablesamplePct ← advanceSample urls.length tablesamplePct
  if urls = [] ∧ 100 ≤ tablesamplePct then pure true
  else do
    let vec ← await (.shuffle urls)
    emplaceAll vec
    pure false

/-- "Only keep trying if is a transaction rollback". -/
def retryRollback (what : Str) : Crawl Bool :=
  if contains (lit "deadlock") what || contains (lit "transaction") what then pure false
  else throw what

/-- The loop that fills an empty queue; `true` when there was nothing to fill it with. -/
def fillQueue : Nat → Crawl (Progress Bool)
  | 0 => pure .running
  | rounds + 1 => do
    let empty ← await .queueEmpty
    if empty = false then pure (.finished false)
    else do
      let exhausted ← queueRound.tryCatch retryRollback
      if exhausted then pure (.finished true) else fillQueue rounds

def getNextPotentialCarwlUrl (rounds : Nat) : Crawl (Progress (Option Str)) := do
  let result ← await .tryPop
  match result with
  | some url => pure (.finished (some url))
  | none => do
    let filled ← fillQueue rounds
    match filled with
    | .running => pure .running
    | .finished true => pure (.finished none)
    | .finished false => do
      let result ← await .tryPop
      pure (.finished result)

/-- `c < 0x20` for a `char`, which is signed. -/
def hasControl (urlStr : Str) : Bool := urlStr.any fun c => decide (c.toInt8 < 0x20)

def canCrawl (urlStr : Str) : Crawl Bool :=
  if hasControl urlStr then pure false else await (.shouldCrawl urlStr)

/-- A URL that must not be crawled is marked as blocked. -/
def markBlocked (urlStr : Str) : Crawl Unit := do
  await (.updateFailed urlStr 0 (lit "blocked"))
  await (.deleteStale urlStr)

variable (env : Env)

/-- The loop of `getNextCrawlPage` for one URL: the URL it hands out, if any. -/
def offer (urlStr : Str) : Crawl (Option Str) := do
  let allowed ← canCrawl urlStr
  if allowed = false then do
    markBlocked urlStr
    pure none
  else pure (some (Url.ofString (env.uninitUrl urlStr) urlStr).str)

def getNextCrawlPage : Nat → Crawl (Progress (Option Str))
  | 0 => pure .running
  | rounds + 1 => do
    let nextUrl ← getNextPotentialCarwlUrl rounds
    match nextUrl with
    | .running => pure .running
    | .finished none => pure (.finished none)
    | .finished (some urlStr) => do
      let handedOut ← offer env urlStr
      match handedOut with
      | none => getNextCrawlPage rounds
      | some url => pure (.finished (some url))

/-- A queued URL from the moment `getNextCrawlPage` takes it up until `crawlPage` has
finished on what was handed out. -/
def pass (urlStr : Str) : Crawl Unit := do
  let handedOut ← offer env urlStr
  match handedOut with
  | none => pure ()
  | some url => do
    let _ ← crawlPage env url
    pure ()

/-! ### Rows that a call leaves alone -/

theorem apply_keeps_row (w : World) {op : Op} (a : op.Answer) {key url : Str} {row : PageRow}
    (ofPage : op.ofPage url) (other : key ≠ url) (stored : w.pages key = some row) :
    (env.apply w op a).pages key = some row := by
  cases op with
  | deletePage u =>
    cases ofPage
    exact (Table.deleteIf_of_ne _ other).trans stored
  | skipProxyError u =>
    cases ofPage
    exact (Table.update_of_ne _ other).trans stored
  -- a new row does not replace one
  | insertPage page => exact Table.insertNew_of_some stored
  | updateUnchanged u status meta_ mime =>
    cases ofPage.resolve_left id
    exact (Table.update_of_ne _ other).trans stored
  | updateContent u content =>
    cases ofPage.resolve_left id
    exact (Table.update_of_ne _ other).trans stored
  | updateIndex u index =>
    cases ofPage.resolve_left id
    exact (Table.update_of_ne _ other).trans stored
  | updateFailed u status meta_ =>
    cases ofPage.resolve_left id
    exact (Table.update_of_ne _ other).trans stored
  | deleteStale u =>
    cases ofPage.resolve_left id
    exact (Table.deleteIf_of_ne _ other).trans stored
  | insertPages pages => exact Table.insertAll_of_some stored
  -- the query of the batch is about no page
  | queueBatch pct count =>
    exact absurd ofPage (by simp [Op.ofPage, Op.fetches, Op.stores, Op.relinks])
  | _ => exact stored

variable {env} {fails : Op → Str → Prop}

/-- `crawlPage` on one URL changes no row of another. -/
theorem crawlPage_keeps_row {key url : Str} {row : PageRow} {r after : Rec}
    {result : Except Str Bool} (other : key ≠ url) (stored : r.state.pages key = some row)
    (run : env.Run fails (crawlPage env url) r result after) :
    after.state.pages key = some row := by
  have within : Within (Op.ofPage url) (fun _ => True) (crawlPage env url) :=
    within_crawlPage (fun _ _ => trivial) (fun _ _ _ => trivial) url
  refine (wp_iff_runs.mp (wp_of_within (fun s => s.state.pages key = some row)
    (fun _ _ _ _ _ => trivial) ?_ within stored) result after run).1
  intro s op answer next ofPage kept taken
  cases answer with
  | error x =>
    -- a failing operation changes no row
    rw [(step_error taken).1, kept]
  | ok a =>
    obtain ⟨later, _, _, effect, _⟩ := step_ok taken
    rw [effect]
    exact apply_keeps_row env _ a ofPage other kept

/-! ### Rows that a call marks as crawled -/

/-- Crawled since `start`. -/
def CrawledSince (start : Time) (row : PageRow) : Prop :=
  ∃ t, row.lastCrawledAt = some t ∧ start ≤ t

/-- The row is deleted or was crawled since `start`. -/
def Handled (start : Time) (url : Str) (w : World) : Prop :=
  ∀ row, w.pages url = some row → CrawledSince start row

def Crawled (start : Time) (url : Str) (w : World) : Prop :=
  ∃ row, w.pages url = some row ∧ CrawledSince start row

theorem Crawled.handled {start : Time} {url : Str} {w : World} (crawled : Crawled start url w) :
    Handled start url w := by
  intro row stored
  obtain ⟨row', stored', since⟩ := crawled
  rw [stored] at stored'
  cases stored'
  exact since

/-- Nothing after the UPDATE of the content undoes it. -/
theorem apply_relinks_crawled {w : World} {op : Op} (a : op.Answer) {start : Time} {url : Str}
    (relinks : op.relinks url) (crawled : Crawled start url w) :
    Crawled start url (env.apply w op a) :=
  apply_relinks_row a (fun _ _ _ since => since) relinks crawled

/-- SQL statements succeed, and every other failure has a text. -/
structure OnlyOutsideFails (fails : Op → Str → Prop) : Prop where
  outside : ∀ op x, fails op x → (∃ url, op = .shouldCrawl url) ∨ ∃ url, op = .sendRequest url
  text : ∀ op x, fails op x → x ≠ []

/-- A statement that the tables cannot refuse. -/
def Op.isStatement : Op → Bool
  | .shouldCrawl _ | .sendRequest _ | .insertPage _ => false
  | _ => true

section Marks

variable (sql : OnlyOutsideFails fails) {start : Time} {r : Rec}

include sql

theorem step_text (r : Rec) (op : Op) (x : Str) (after : Rec)
    (taken : record (env.step fails) r op (.error x) after) : x ≠ [] := by
  obtain ⟨⟨later, _, failure, _⟩, _⟩ := taken
  rcases failure with failed | refused
  · exact sql.text op x failed
  · cases op with
    | insertPage page =>
      -- the message of the unique key
      rw [refused.2]
      decide
    | _ => cases refused

/-- A statement that cannot be refused takes effect. -/
theorem statement_ok {op : Op} {answer : Except Str op.Answer} {after : Rec}
    (statement : op.isStatement = true) (taken : record (env.step fails) r op answer after) :
    ∃ a, answer = .ok a := by
  cases answer with
  | ok a => exact ⟨a, rfl⟩
  | error x =>
    obtain ⟨⟨later, _, failure, _⟩, _⟩ := taken
    rcases failure with failed | refused
    · rcases sql.outside op x failed with ⟨u, rfl⟩ | ⟨u, rfl⟩ <;> cases statement
    · cases op with
      | insertPage page => cases statement
      | _ => cases refused

theorem wp_statement {α : Type} {op : Op} {f : op.Answer → Crawl α}
    {post : Except Str α → Rec → Prop} (statement : op.isStatement = true)
    (next : ∀ a later after, r.state.now ≤ later → op.Possible (r.state.tick later) a →
      after.state = env.apply (r.state.tick later) op a → env.Wp fails (f a) post after) :
    env.Wp fails (await op >>= f) post r := by
  apply wp_bind.mpr
  intro answer after taken
  obtain ⟨a, rfl⟩ := statement_ok sql statement taken
  obtain ⟨later, forward, possible, effect, _⟩ := step_ok taken
  exact next a later after forward possible effect

/-- The row is handled, or an exception with a text is on its way to the handler. -/
def Finishes {α : Type} (start : Time) (url : Str) : Except Str α → Rec → Prop
  | .ok _, after => Handled start url after.state
  | .error x, after => x ≠ [] ∧ start ≤ after.state.now

omit sql in
theorem handled_update {w : World} {url : Str} {change : PageRow → PageRow}
    (marks : ∀ row, (change row).lastCrawledAt = some w.now) (reached : start ≤ w.now) :
    Handled start url (w.setPages (w.pages.update url change)) := by
  intro row stored
  obtain ⟨old, _, rfl⟩ := Option.map_eq_some_iff.mp ((Table.update_self _).symm.trans stored)
  exact ⟨w.now, marks old, reached⟩

omit sql in
theorem handled_deleteIf {w : World} {url : Str} {condition : PageRow → Bool}
    (handled : Handled start url w) :
    Handled start url (w.setPages (w.pages.deleteIf url condition)) := by
  intro row stored
  have kept := (Table.deleteIf_self _).symm.trans stored
  exact handled row (Option.filter_eq_some_iff.mp kept).1

variable {url : Url} (reached : start ≤ r.state.now)

include reached

theorem storeUnchanged_finishes (status : Int) (resp : Response) (mime : Str) :
    env.Wp fails (storeUnchanged url status resp mime) (Finishes start url.str) r := by
  apply wp_statement sql rfl
  intro _ later after forward _ effect
  change Handled start url.str after.state
  rw [effect]
  exact handled_update (fun _ => rfl) (Int.le_trans reached forward)

theorem storeFailure_finishes (status : Int) (meta_ : Str) :
    env.Wp fails (storeFailure url status meta_)
      (fun result after => (∃ b, result = .ok b) ∧ Handled start url.str after.state) r := by
  apply wp_statement sql rfl
  intro _ later after forward _ effect
  have marked : Handled start url.str after.state := by
    rw [effect]
    exact handled_update (fun _ => rfl) (Int.le_trans reached forward)
  refine wp_statement sql rfl fun _ _ last _ _ effect => ⟨⟨false, rfl⟩, ?_⟩
  rw [effect]
  exact handled_deleteIf (w := after.state.tick _) marked

variable (dumping : ∀ links x, env.jsonError links = some x → x ≠ [])

include dumping

theorem storeContent_finishes (present : (r.state.pages url.str).isSome) (status : Int)
    (resp : Response) (doc : Document) :
    env.Wp fails (storeContent env url status resp doc) (Finishes start url.str) r := by
  refine wp_bind.mpr ?_
  simp only [dumpLinks]
  split
  next x failed => exact ⟨dumping _ x failed, reached⟩
  · split
    next x failed => exact ⟨dumping _ x failed, reached⟩
    · -- the UPDATE marks the row, and what follows keeps the mark even when it fails
      apply wp_statement sql rfl
      intro _ later after forward _ effect
      have crawled : Crawled start url.str after.state := by
        obtain ⟨row, stored⟩ := Option.isSome_iff_exists.mp present
        rw [effect]
        refine ⟨_, (Table.update_self _).trans (congrArg _ stored), later, rfl, ?_⟩
        exact Int.le_trans reached forward
      refine wp_mono ?_ (wp_of_within
        (fun s => Crawled start url.str s.state ∧ start ≤ s.state.now)
        (step_text sql) ?_ (within_storeIndex url _ _) ⟨crawled, ?_⟩)
      · rintro (x | b) last ⟨⟨crawled, reached⟩, text⟩
        · -- the handler marks the row once more
          exact ⟨text x rfl, reached⟩
        · exact crawled.handled
      · rintro s op (x | a) next relinks ⟨crawled, reached⟩ taken
        · have forward := step_now taken
          refine ⟨?_, Int.le_trans reached forward⟩
          obtain ⟨row, stored, since⟩ := crawled
          exact ⟨row, by rw [(step_error taken).1, stored], since⟩
        · have forward := step_now taken
          obtain ⟨later, _, _, effect, _⟩ := step_ok taken
          refine ⟨?_, Int.le_trans reached forward⟩
          rw [effect]
          exact apply_relinks_crawled a relinks crawled
      · rw [effect, apply_now]
        exact Int.le_trans reached forward

theorem storeDocument_finishes (present : (r.state.pages url.str).isSome) (hashes : Hashes)
    (status : Int) (resp : Response) (doc : Document) :
    env.Wp fails (storeDocument env url hashes status resp doc) (Finishes start url.str) r := by
  simp only [storeDocument]
  split
  · exact storeUnchanged_finishes sql reached status resp _
  · exact storeContent_finishes sql reached dumping present status resp doc

theorem indexResponse_finishes (present : (r.state.pages url.str).isSome) (hashes : Hashes)
    (status : Int) (resp : Response) :
    env.Wp fails (indexResponse env url hashes status resp) (Finishes start url.str) r := by
  unfold indexResponse
  split
  · -- 2x
    dsimp only
    split
    · exact storeUnchanged_finishes sql reached status resp _
    · split
      next x failed => exact ⟨(processBody_error (fun _ => id) failed : x ≠ []), reached⟩
      · exact storeDocument_finishes sql reached dumping present hashes status resp _
  · split
    · -- 1x
      exact storeDocument_finishes sql reached dumping present hashes status resp _
    · -- a failure status is stored in the body already
      refine wp_mono ?_ (storeFailure_finishes sql reached status _)
      rintro result after ⟨⟨b, rfl⟩, handled⟩
      exact handled

theorem fetchAndIndex_finishes (present : (r.state.pages url.str).isSome) (hashes : Hashes) :
    env.Wp fails (fetchAndIndex env url hashes) (Finishes start url.str) r := by
  have within : Within Op.fetches (· ≠ []) (followRedirects env url 6 0 url none) :=
    within_followRedirects (fun _ => id) url _ _ _ _
  refine wp_bind.mpr (wp_mono ?_ (wp_of_within
    (fun s => s.state.pages = r.state.pages ∧ start ≤ s.state.now) (step_text sql) ?_ within
    ⟨rfl, reached⟩))
  · rintro (x | ⟨status, resp⟩) after ⟨⟨pages, reached⟩, text⟩
    · exact ⟨text x rfl, reached⟩
    · cases resp with
      | none => exact ⟨by decide, reached⟩
      | some resp =>
        exact indexResponse_finishes sql reached dumping
          (by rw [pages]; exact present) hashes status resp
  · intro s op answer next fetches kept taken
    exact ⟨(step_fetches fetches taken).1.trans kept.1, Int.le_trans kept.2 (step_now taken)⟩

theorem crawlRecord_finishes (record : Option PageRow) (selected : record = r.state.pages url.str) :
    env.Wp fails (crawlRecord env url record) (Finishes start url.str) r := by
  cases record with
  | none =>
    apply wp_bind.mpr
    intro answer after taken
    cases answer with
    | error x => exact ⟨step_text sql _ _ _ _ taken, Int.le_trans reached (step_now taken)⟩
    | ok a =>
      -- the row is there from now on
      obtain ⟨later, _, _, effect, _⟩ := step_ok taken
      refine fetchAndIndex_finishes sql (Int.le_trans reached (step_now taken)) dumping ?_ _
      rw [effect]
      change (Table.insertNew r.state.pages url.str _ url.str).isSome = true
      rw [Table.insertNew_self]
      cases r.state.pages url.str <;> rfl
  | some row =>
    have present : (r.state.pages url.str).isSome := by
      rw [← selected]
      rfl
    simp only [crawlRecord]
    split
    · apply wp_statement sql rfl
      intro now later after forward _ effect
      have kept : after.state.pages = r.state.pages := by
        rw [effect]
        rfl
      have reached' : start ≤ after.state.now := by
        rw [effect, apply_now]
        exact Int.le_trans reached forward
      split
      · -- skipped after a proxy error, which marks the row too
        apply wp_statement sql rfl
        intro _ last final forward _ effect
        change Handled start url.str final.state
        rw [effect]
        exact handled_update (fun _ => rfl) (Int.le_trans reached' forward)
      · exact fetchAndIndex_finishes sql reached' dumping (by rw [kept]; exact present) _
    · exact fetchAndIndex_finishes sql reached dumping present _

theorem crawlBody_finishes : env.Wp fails (crawlBody env url) (Finishes start url.str) r := by
  apply wp_perform_bind.mpr
  intro answer after taken
  have reached' : start ≤ after.state.now := Int.le_trans reached (step_now taken)
  cases answer with
  -- the check itself failed
  | error x => exact ⟨step_text sql _ _ _ _ taken, reached'⟩
  | ok allowed =>
    rw [then_ok]
    split
    · -- not allowed to crawl
      exact ⟨by decide, reached'⟩
    · -- the row is read, and time goes on meanwhile
      apply wp_statement sql rfl
      intro record later last forward selected effect
      have kept : last.state.pages = after.state.pages := by
        rw [effect]
        rfl
      have reached'' : start ≤ last.state.now := by
        rw [effect, apply_now]
        exact Int.le_trans reached' forward
      exact crawlRecord_finishes sql reached'' dumping record (by rw [kept]; exact selected)

omit dumping in
theorem crawlFailed_handles {error : Str} (text : error ≠ []) :
    env.Wp fails (crawlFailed url error)
      (fun result after => (∃ b, result = .ok b) ∧ Handled start url.str after.state) r := by
  refine wp_bind.mpr ?_
  simp only [countFailure]
  split
  · apply wp_perform.mpr
    intro answer after taken
    obtain ⟨a, rfl⟩ := statement_ok sql rfl taken
    rw [then_ok]
    exact storeFailure_finishes sql (Int.le_trans reached (step_now taken)) 0 error
  · rw [wp_pure, then_ok]
    exact storeFailure_finishes sql reached 0 error

/-- `crawlPage` returns, and has deleted the row or marked it as crawled. -/
theorem crawlPage_handles (urlStr : Str) :
    env.Wp fails (crawlPage env urlStr)
      (fun result after => (∃ b, result = .ok b) ∧ Handled start urlStr after.state) r := by
  unfold crawlPage
  dsimp only
  split
  · -- the URL is not canonical, and its row is deleted
    apply wp_statement sql rfl
    intro _ later after _ _ effect
    have gone : after.state.pages urlStr = none := by
      rw [effect]
      refine (Table.deleteIf_self _).trans ?_
      cases (r.state.tick later).pages urlStr <;> rfl
    refine wp_statement sql rfl fun _ _ last _ _ effect => ⟨⟨false, rfl⟩, ?_⟩
    intro row stored
    rw [effect] at stored
    exact absurd (gone.symm.trans stored) (by simp)
  next canonical =>
    have same : (Url.ofString (env.uninitUrl urlStr) urlStr).str = urlStr := by
      by_contra different
      exact canonical (.inr different)
    refine wp_tryCatch.mpr (wp_mono ?_ (crawlBody_finishes sql reached dumping))
    rintro (x | b) after finishes
    · have handles : env.Wp fails (crawlFailed _ x) (fun result final => (∃ b, result = .ok b) ∧
          Handled start (Url.ofString (env.uninitUrl urlStr) urlStr).str final.state) after :=
        crawlFailed_handles sql finishes.2 finishes.1
      rwa [same] at handles
    · rw [same] at finishes
      exact ⟨⟨b, rfl⟩, finishes⟩

omit dumping in
theorem markBlocked_handles (urlStr : Str) :
    env.Wp fails (markBlocked urlStr) (fun _ after => Handled start urlStr after.state) r := by
  apply wp_statement sql rfl
  intro _ later after forward _ effect
  have marked : Handled start urlStr after.state := by
    rw [effect]
    exact handled_update (fun _ => rfl) (Int.le_trans reached forward)
  apply wp_perform.mpr
  intro answer last taken
  obtain ⟨a, rfl⟩ := statement_ok sql rfl taken
  obtain ⟨_, _, _, effect, _⟩ := step_ok taken
  rw [effect]
  exact handled_deleteIf (w := after.state.tick _) marked

end Marks

/-! ### The pass over a queued row -/

/-- The first thing asked about the URL was whether to crawl it, with this answer. -/
def FirstAnswer (log : List (Event Op Op.Answer Str)) (urlStr : Str) (allowed : Bool) : Prop :=
  log.head? = some ⟨.shouldCrawl urlStr, .ok allowed⟩

theorem firstAnswer_iff {log events : List (Event Op Op.Answer Str)} {urlStr : Str}
    {answer : Except Str Bool} {allowed : Bool}
    (first : log = ⟨.shouldCrawl urlStr, answer⟩ :: events) :
    FirstAnswer log urlStr allowed ↔ answer = .ok allowed := by
  rw [first]
  constructor
  · intro head
    cases head
    rfl
  · rintro rfl
    rfl

/-- A row that was not crawled for three days is not handled before something marks it. -/
theorem not_handled_of_waiting {w after : World} {urlStr : Str} {row : PageRow}
    (waiting : w.Waiting row) (stored : after.pages urlStr = some row) :
    ¬Handled w.now urlStr after := by
  intro handled
  obtain ⟨t, crawled, since⟩ := handled row stored
  have before : t < w.now - 3 * (24 * 3600 : Int) := waiting t crawled
  exact absurd (Int.lt_of_lt_of_le before (Int.sub_le_self _ (by decide))) (Int.not_lt.mpr since)

/-- What `offer` does with a URL free of control characters. -/
theorem offer_of_run {urlStr : Str} (plain : hasControl urlStr = false) {r after : Rec}
    {result : Except Str (Option Str)} (run : env.Run fails (offer env urlStr) r result after) :
    ∃ answer asked, record (env.step fails) r (.shouldCrawl urlStr) answer asked ∧
      ((∃ x, answer = .error x ∧ result = .error x ∧ after = asked) ∨
        (answer = .ok false ∧ (∀ handedOut, result = .ok handedOut → handedOut = none) ∧
          ∃ marked, env.Run fails (markBlocked urlStr) asked marked after) ∨
        (answer = .ok true ∧ after = asked ∧
          result = .ok (some (Url.ofString (env.uninitUrl urlStr) urlStr).str))) := by
  simp only [offer, canCrawl] at run
  rw [plain] at run
  rcases runs_bind.mp run with ⟨allowed, asked, first, rest⟩ | ⟨x, first, rfl⟩
  · refine ⟨.ok allowed, asked, runs_perform.mp first, .inr ?_⟩
    cases allowed with
    | false =>
      -- a blocked URL is marked, and none is handed out
      refine .inl ⟨rfl, ?_⟩
      rw [if_pos rfl] at rest
      rcases runs_bind.mp rest with ⟨_, last, marked, ended⟩ | ⟨_, marked, failed⟩
      · obtain ⟨equal, rfl⟩ := ended
        subst equal
        exact ⟨fun _ equal => (Except.ok.inj equal).symm, _, marked⟩
      · exact ⟨fun _ equal => (by cases failed.symm.trans equal), _, marked⟩
    | true => exact .inr ⟨rfl, rest.2, rest.1⟩
  · exact ⟨.error x, after, runs_perform.mp first, .inl ⟨x, rfl, rfl, rfl⟩⟩

/-- A pass over a URL free of control characters asks whether to crawl it, and then fails,
marks it as blocked, or crawls what `str()` makes of it. -/
theorem pass_of_run {urlStr : Str} (plain : hasControl urlStr = false) {r after : Rec}
    {result : Except Str Unit} (run : env.Run fails (pass env urlStr) r result after) :
    ∃ answer asked, record (env.step fails) r (.shouldCrawl urlStr) answer asked ∧
      ((∃ x, answer = .error x ∧ after = asked) ∨
        (answer = .ok false ∧ ∃ marked, env.Run fails (markBlocked urlStr) asked marked after) ∨
        (answer = .ok true ∧ ∃ crawled, env.Run fails
          (crawlPage env (Url.ofString (env.uninitUrl urlStr) urlStr).str) asked
            crawled after)) := by
  -- `getNextCrawlPage` came to an end
  rcases runs_bind.mp run with ⟨handedOut, middle, offered, rest⟩ | ⟨x, offered, rfl⟩
  · obtain ⟨answer, asked, taken,
        ⟨x, _, failed, _⟩ | ⟨blocked, none, marked⟩ | ⟨allowed, rfl, equal⟩⟩ :=
      offer_of_run plain offered
    · cases failed
    · have nothing := none handedOut rfl
      subst nothing
      obtain ⟨_, rfl⟩ := rest
      exact ⟨answer, asked, taken, .inr (.inl ⟨blocked, marked⟩)⟩
    · -- the URL was handed out, and `crawlPage` ends with or without a failure
      cases equal
      refine ⟨answer, middle, taken, .inr (.inr ⟨allowed, ?_⟩)⟩
      rcases runs_bind.mp rest with ⟨_, last, crawled, ended⟩ | ⟨_, crawled, _⟩
      · obtain ⟨_, rfl⟩ := ended
        exact ⟨_, crawled⟩
      · exact ⟨_, crawled⟩
  · -- it failed, so that `crawlPage` was not called
    obtain ⟨answer, asked, taken, ⟨x, failed, _, same⟩ | ⟨blocked, _, marked⟩ | ⟨_, _, equal⟩⟩ :=
      offer_of_run plain offered
    · exact ⟨answer, asked, taken, .inl ⟨x, failed, same⟩⟩
    · exact ⟨answer, asked, taken, .inr (.inl ⟨blocked, marked⟩)⟩
    · cases equal

/-- After the pass over a row that was waiting for it, the row is deleted or marked as
crawled in this pass exactly when the URL was not handed out, or was handed out as it
stands in the table. -/
theorem pass_handles_iff (sql : OnlyOutsideFails fails)
    (dumping : ∀ links x, env.jsonError links = some x → x ≠ []) {w : World} {urlStr : Str}
    {row : PageRow} (stored : w.pages urlStr = some row) (waiting : w.Waiting row)
    {result : Except Str Unit} {after : Rec}
    (run : env.Run fails (pass env urlStr) ⟨w, []⟩ result after) :
    Handled w.now urlStr after.state ↔
      hasControl urlStr = true ∨ FirstAnswer after.log urlStr false ∨
        (FirstAnswer after.log urlStr true ∧
          (Url.ofString (env.uninitUrl urlStr) urlStr).str = urlStr) := by
  cases plain : hasControl urlStr with
  | true =>
    -- a URL with a control character is blocked without asking
    refine iff_of_true ?_ (.inl rfl)
    have blocked : env.Wp fails (pass env urlStr)
        (fun _ after => Handled w.now urlStr after.state) ⟨w, []⟩ := by
      simp only [pass, offer, canCrawl]
      rw [plain]
      refine wp_bind.mpr (wp_bind.mpr (wp_bind.mpr (wp_mono ?_ (markBlocked_handles sql
        (Int.le_refl _) urlStr))))
      rintro (x | _) after handled
      · exact handled
      · exact handled
    exact wp_iff_runs.mp blocked result after run
  | false =>
    obtain ⟨answer, asked, taken, outcome⟩ := pass_of_run plain run
    have asks : Within Op.fetches (fun _ => True) (await (.shouldCrawl urlStr)) :=
      within_perform trivial
    have pages : asked.state.pages = w.pages := (run_fetches asks (runs_perform.mpr taken)).1
    have kept : asked.state.pages urlStr = some row := by
      rw [pages]
      exact stored
    have later : w.now ≤ asked.state.now := step_now taken
    have begins : asked.log = [⟨.shouldCrawl urlStr, answer⟩] := taken.2
    simp only [Bool.false_eq_true, false_or]
    rcases outcome with ⟨x, rfl, rfl⟩ | ⟨rfl, marked, blocked⟩ | ⟨rfl, crawled, crawling⟩
    · -- the exception leaves `getNextCrawlPage`, and the row is as it was
      refine iff_of_false (not_handled_of_waiting waiting kept) ?_
      rw [firstAnswer_iff begins, firstAnswer_iff begins]
      rintro (equal | ⟨equal, _⟩) <;> cases equal
    · -- the URL is marked, and none is handed out
      obtain ⟨events, log⟩ := log_extends blocked
      rw [begins] at log
      refine iff_of_true ?_ (.inl ((firstAnswer_iff log).mpr rfl))
      exact wp_iff_runs.mp (markBlocked_handles sql later urlStr) marked after blocked
    · -- the URL is handed out as `str()` prints it
      obtain ⟨events, log⟩ := log_extends crawling
      rw [begins] at log
      rw [firstAnswer_iff log, firstAnswer_iff log]
      by_cases same : (Url.ofString (env.uninitUrl urlStr) urlStr).str = urlStr
      · rw [same] at crawling
        refine iff_of_true ?_ (.inr ⟨rfl, same⟩)
        exact (wp_iff_runs.mp (crawlPage_handles sql later dumping urlStr) crawled after crawling).2
      · -- another row is crawled, so this one keeps waiting
        refine iff_of_false (not_handled_of_waiting waiting
          (crawlPage_keeps_row (Ne.symm same) kept crawling)) ?_
        rintro (equal | ⟨_, equal⟩)
        · cases equal
        · exact same equal

theorem onlyOutsideFails_never : OnlyOutsideFails never :=
  ⟨fun _ _ failed => failed.elim, fun _ _ failed => failed.elim⟩

theorem pass_handles_iff_canonical :
    let serving := Outside.serving (lit "hello")
    let w := World.holding ⟨lit "gemini://h/", lit "h", 1965⟩
    let after := (serving.run Env.small (pass Env.small (lit "gemini://h/")) ⟨w, []⟩).2
    w.Waiting (NewPage.row ⟨lit "gemini://h/", lit "h", 1965⟩ 0) ∧
      Handled w.now (lit "gemini://h/") after.state := by
  have waiting : (World.holding ⟨lit "gemini://h/", lit "h", 1965⟩).Waiting
      (NewPage.row ⟨lit "gemini://h/", lit "h", 1965⟩ 0) := nofun
  refine ⟨waiting, ?_⟩
  refine (pass_handles_iff onlyOutsideFails_never
    (by intro links x failed; cases failed) (by decide)
    waiting (Outside.run_of_ends serving_never rfl)).mpr ?_
  exact .inr (.inr ⟨by with_unfolding_all rfl, by decide⟩)

/-- A link `GEMINI://h:1965/x` is stored as the page `gemini://h:1965/x`, which is due and
may be crawled, but is handed out and crawled as `gemini://h/x`. -/
theorem uppercase_link_never_handled :
    ∃ crawled passed row,
      Env.small.Run never (crawlPage Env.small (lit "gemini://h/")) ⟨World.empty, []⟩
        (.ok true) crawled ∧
      crawled.state.pages (lit "gemini://h:1965/x") = some row ∧ crawled.state.Due row ∧
      Env.small.Run never (pass Env.small (lit "gemini://h:1965/x")) ⟨crawled.state, []⟩
        (.ok ()) passed ∧
      ¬Handled crawled.state.now (lit "gemini://h:1965/x") passed.state := by
  let serving := Outside.serving (lit "=> GEMINI://h:1965/x x")
  let crawled := (serving.run Env.small (crawlPage Env.small (lit "gemini://h/"))
    ⟨World.empty, []⟩).2
  let passed := (serving.run Env.small (pass Env.small (lit "gemini://h:1965/x"))
    ⟨crawled.state, []⟩).2
  let row := NewPage.row ⟨lit "gemini://h:1965/x", lit "h", 1965⟩ 0
  have waiting : crawled.state.Waiting row := nofun
  -- the row is stored under a text that the pass prints in another way
  have kept : passed.state.pages (lit "gemini://h:1965/x") = some row := by decide
  exact ⟨crawled, passed, row, Outside.run_of_ends serving_never (by decide), by decide,
    ⟨waiting, nofun⟩, Outside.run_of_ends serving_never (by decide),
    not_handled_of_waiting waiting kept⟩

end Tlgs

import Tlgs.Base.Traces
import Tlgs.Crawler.Writes

/-!
# What happens to a row

Every row after a step was there before, perhaps with columns set anew, or it was inserted by
that step. A row is only lost to the two statements that delete pages, and to a purge. Invariants
of the tables are shown from these cases.
-/
namespace Tlgs

open Bytes Interactive

/-! ### Operations -/

/-- The columns that an operation sets in the row of `key`. -/
inductive Rewritten (env : Env) (now : Time) (key : Str) (old : PageRow) : Op → PageRow → Prop
  | skipped : Rewritten env now key old (.skipProxyError key) (old.setSkipped now)
  | unchanged (status : Int) (meta_ mime : Str) :
      Rewritten env now key old (.updateUnchanged key status meta_ mime)
        (old.setUnchanged now status meta_ mime)
  | content (content : PageContent) :
      Rewritten env now key old (.updateContent key content) (old.setContent now content)
  | indexed (indexFriendlyUrl : Str) :
      Rewritten env now key old (.updateIndex key indexFriendlyUrl)
        (old.setIndex env.toTsvector now indexFriendlyUrl)
  | failed (status : Int) (meta_ : Str) :
      Rewritten env now key old (.updateFailed key status meta_) (old.setFailed now status meta_)
  | queued (tablesamplePct urlsPerBatch : Nat) :
      Rewritten env now key old (.queueBatch tablesamplePct urlsPerBatch) (old.setQueued now)

/-- The page that an operation inserts. -/
inductive Inserted (env : Env) : Op → NewPage → Prop
  | page (page : NewPage) : Inserted env (.insertPage page) page
  | pages {pages : List NewPage} {page : NewPage} (member : page ∈ pages) :
      Inserted env (.insertPages pages) (env.readPage page)

variable {env : Env} {w : World} {key : Str} {row old : PageRow}

theorem row_of_queued {now : Time} {urls : List Str} {pages : Table Str PageRow}
    (stored : urls.foldl (fun pages url => pages.update url fun row => row.setQueued now) pages
      key = some row) :
    ∃ old, pages key = some old ∧ (row = old ∨ row = old.setQueued now) := by
  induction urls generalizing pages with
  | nil => exact ⟨row, stored, .inl rfl⟩
  | cons url urls ih =>
    obtain ⟨middle, before, rewritten⟩ := ih stored
    obtain ⟨old, first, rfl | rfl⟩ := Table.of_update before
    · exact ⟨_, first, rewritten⟩
    · -- the same time is written again
      exact ⟨old, first, .inr (by rcases rewritten with rfl | rfl <;> rfl)⟩

private theorem row_of_update {op : Op} {url : Str} {change : PageRow → PageRow}
    (stored : (w.pages.update url change) key = some row)
    (rewrites : ∀ old, key = url → Rewritten env w.now key old op (change old)) :
    ∃ old, w.pages key = some old ∧ (row = old ∨ Rewritten env w.now key old op row) := by
  by_cases same : key = url
  · obtain ⟨old, before, rfl | rfl⟩ := Table.of_update stored
    · exact ⟨_, before, .inl rfl⟩
    · exact ⟨old, before, .inr (rewrites old same)⟩
  · rw [Table.update_of_ne change same] at stored
    exact ⟨row, stored, .inl rfl⟩

/-- A row after an operation. -/
theorem row_after {op : Op} (a : op.Answer) (stored : (env.apply w op a).pages key = some row) :
    (∃ old, w.pages key = some old ∧ (row = old ∨ Rewritten env w.now key old op row)) ∨
      w.pages key = none ∧ ∃ page, Inserted env op page ∧ key = page.url ∧
        row = page.row w.now := by
  cases op with
  -- the statements that delete leave every other row as it was
  | deletePage url => exact .inl ⟨row, Table.of_deleteIf stored, .inl rfl⟩
  | deleteStale url => exact .inl ⟨row, Table.of_deleteIf stored, .inl rfl⟩
  | insertPage page =>
    rcases Table.key_of_insertNew stored with before | ⟨free, named, new⟩
    · exact .inl ⟨row, before, .inl rfl⟩
    · exact .inr ⟨free, page, .page page, named, new⟩
  | insertPages pages =>
    rcases Table.key_of_insertAll stored with before | ⟨free, added⟩
    · exact .inl ⟨row, before, .inl rfl⟩
    · obtain ⟨page, member, same⟩ := List.mem_map.mp added
      cases same
      exact .inr ⟨free, env.readPage page, .pages member, rfl, rfl⟩
  -- the updates set columns of the row with their key
  | skipProxyError url =>
    refine .inl (row_of_update stored ?_)
    rintro old rfl
    exact .skipped
  | updateUnchanged url status meta_ mime =>
    refine .inl (row_of_update stored ?_)
    rintro old rfl
    exact .unchanged status meta_ mime
  | updateContent url content =>
    refine .inl (row_of_update stored ?_)
    rintro old rfl
    exact .content content
  | updateIndex url indexFriendlyUrl =>
    refine .inl (row_of_update stored ?_)
    rintro old rfl
    exact .indexed indexFriendlyUrl
  | updateFailed url status meta_ =>
    refine .inl (row_of_update stored ?_)
    rintro old rfl
    exact .failed status meta_
  | queueBatch tablesamplePct urlsPerBatch =>
    obtain ⟨old, before, rfl | rfl⟩ := row_of_queued stored
    · exact .inl ⟨_, before, .inl rfl⟩
    · exact .inl ⟨old, before, .inr (.queued tablesamplePct urlsPerBatch)⟩
  | _ => exact .inl ⟨row, stored, .inl rfl⟩

/-- The statements that may delete the row of `key`. -/
def Op.deletes (now : Time) (key : Str) (row : PageRow) : Op → Prop
  | .deletePage url => url = key
  | .deleteStale url => url = key ∧ row.stale now = true
  | _ => False

private theorem kept_of_update {url : Str} {change : PageRow → PageRow} {pages : Table Str PageRow}
    (stored : pages key = some old) : ∃ row, (pages.update url change) key = some row := by
  by_cases same : key = url
  · subst same
    exact ⟨change old, (Table.update_self change).trans (congrArg _ stored)⟩
  · exact ⟨old, (Table.update_of_ne change same).trans stored⟩

private theorem kept_of_deleteIf {url : Str} {condition : PageRow → Bool}
    (stored : w.pages key = some old) (spared : url = key → condition old = false) :
    ∃ row, (w.pages.deleteIf url condition) key = some row := by
  by_cases same : key = url
  · subst same
    exact ⟨old, by rw [Table.deleteIf_self, stored, Option.filter_some, spared rfl]; rfl⟩
  · exact ⟨old, (Table.deleteIf_of_ne condition same).trans stored⟩

theorem kept_of_queued {now : Time} (urls : List Str) {pages : Table Str PageRow}
    (stored : pages key = some old) :
    ∃ row, urls.foldl (fun pages url => pages.update url fun row => row.setQueued now) pages key =
      some row := by
  induction urls generalizing pages old with
  | nil => exact ⟨old, stored⟩
  | cons url urls ih =>
    obtain ⟨row, updated⟩ := kept_of_update stored
    exact ih updated

variable (env) in
private theorem present_after {op : Op} (a : op.Answer) (stored : w.pages key = some old)
    (spared : ¬op.deletes w.now key old) : ∃ row, (env.apply w op a).pages key = some row := by
  cases op with
  | deletePage url => exact kept_of_deleteIf stored fun same => absurd same spared
  | deleteStale url =>
    refine kept_of_deleteIf stored fun same => ?_
    exact Bool.eq_false_of_not_eq_true fun stale => spared ⟨same, stale⟩
  | insertPage page => exact ⟨old, Table.insertNew_of_some stored⟩
  | insertPages pages => exact ⟨old, Table.insertAll_of_some stored⟩
  | skipProxyError url => exact kept_of_update stored
  | updateUnchanged url status meta_ mime => exact kept_of_update stored
  | updateContent url content => exact kept_of_update stored
  | updateIndex url indexFriendlyUrl => exact kept_of_update stored
  | updateFailed url status meta_ => exact kept_of_update stored
  | queueBatch tablesamplePct urlsPerBatch => exact kept_of_queued a stored
  | _ => exact ⟨old, stored⟩

variable (env) in
/-- Nothing else loses the row. -/
theorem row_kept {op : Op} (a : op.Answer) (stored : w.pages key = some old)
    (spared : ¬op.deletes w.now key old) :
    ∃ row, (env.apply w op a).pages key = some row ∧
      (row = old ∨ Rewritten env w.now key old op row) := by
  obtain ⟨row, present⟩ := present_after env a stored spared
  refine ⟨row, present, ?_⟩
  rcases row_after a present with ⟨old', before, rewritten⟩ | ⟨free, _⟩
  · cases stored.symm.trans before
    exact rewritten
  · cases stored.symm.trans free

/-! ### Moves -/

variable {s after : System}

/-- A row after a move was there before, or it is that of a seed. -/
theorem row_after_move (moved : SystemMove env s after)
    (stored : after.world.pages key = some row) :
    s.world.pages key = some row ∨ ∃ input protocol page body,
      addSeed env.uninitUrl input protocol = .added page body ∧ key = page.url ∧
        row = page.row s.world.now := by
  cases moved with
  | addSeed added =>
    rcases Table.key_of_insertNew stored with before | ⟨_, named, new⟩
    · exact .inl before
    · exact .inr ⟨_, _, _, _, added, named, new⟩
  | purgePages like =>
    change (if like key then none else s.world.pages key) = some row at stored
    split at stored
    · cases stored
    · exact .inl stored
  | _ => exact .inl stored

theorem move_now (moved : SystemMove env s after) : s.world.now ≤ after.world.now := by
  cases moved with
  | pass forward => exact forward
  | _ => exact le_refl _

/-! ### Invariants of the tables -/

/-- The check lets through the URLs of Gemini pages only. -/
def geminiAnswers (web : RobotsWeb) : (op : Op) → Except Str op.Answer → Prop
  | .shouldCrawl urlStr, answer =>
    answer = .ok true → GeminiUrl (Url.ofString (web.uninitUrl urlStr) urlStr)
  | _, _ => True

/-- The answers to the operations on the tables and to the requests are on some record, too. -/
def recordedAnswers (web : RobotsWeb) (received : (op : Op) → Except Str op.Answer → Prop)
    (op : Op) (answer : Except Str op.Answer) : Prop :=
  geminiAnswers web op answer ∧ (op.direct → received op answer)

theorem Vetted.gemini {web : RobotsWeb} {received : (op : Op) → Except Str op.Answer → Prop}
    {url : Url} (approved : Vetted (recordedAnswers web received) url) :
    url.protocol = lit "gemini" := by
  have protocol := (approved.allowed.1 rfl).protocol
  rwa [Url.ofString_str _ approved.wellFormed] at protocol

/-- Either the check turns the URL away at once, or it is that of a Gemini page. -/
theorem shouldCrawl_gemini (web : RobotsWeb) (urlStr : Str) :
    shouldCrawl web urlStr = pure false ∨
      GeminiUrl (Url.ofString (web.uninitUrl urlStr) urlStr) := by
  unfold shouldCrawl
  split
  · exact .inl rfl
  · dsimp only
    split
    · exact .inl rfl
    next good =>
      split
      · exact .inl rfl
      next protocol =>
        exact .inr (geminiUrl_of_good (Bool.eq_true_of_not_eq_false good) (not_not.mp protocol))

variable {fails : Op → Str → Prop} {web : RobotsWeb} {robots : RobotsAnswers} {inv : World → Prop}
  {ops : Op → Prop}

theorem shouldCrawl_safe {step : Step SystemOp SystemOp.Answer Str System}
    (policies : ∀ s op answer after, step s (.policy op) answer after → after.world = s.world)
    (urlStr : Str) (s : System) (log : List (Event SystemOp SystemOp.Answer Str)) :
    Safe step (fun s => inv s.world) (fun _ _ => True)
      (fun outcome _ => geminiAnswers web (.shouldCrawl urlStr) outcome)
      ((shouldCrawl web urlStr).lift SystemOp.policy) s log := by
  -- the check turns away what is no Gemini URL without asking anything
  rcases shouldCrawl_gemini web urlStr with turned_away | gemini
  · rw [turned_away]
    exact fun equal => by cases equal
  · generalize shouldCrawl web urlStr = p
    induction p generalizing s log with
    | done outcome => exact fun _ => gemini
    | call op next ih =>
      intro now answer after _ holds taken
      refine ⟨⟨?_, trivial⟩, ih answer after _⟩
      change inv after.world
      rw [policies now op answer after taken]
      exact holds

/-- A crawl has this answer on its record. -/
def OnRecord (pool : Crawls) (op : Op) (answer : Except Str op.Answer) : Prop :=
  ∃ thread ∈ pool.threads, ⟨.crawl op, answer⟩ ∈ thread.log

/-- What is received is asked of the operations of the crawl only. -/
def CrawlEvent (received : (op : Op) → Except Str op.Answer → Prop) :
    Event SystemOp SystemOp.Answer Str → Prop
  | ⟨.crawl op, answer⟩ => received op answer
  | ⟨.policy _, _⟩ => True

/-- What the operations of the crawls and the moves keep holds of the tables in every state that
the crawls reach. -/
theorem tables_invariant {ambient : System → System → Prop} {init : System} {pool : Crawls}
    (received : (op : Op) → Except Str op.Answer → Prop)
    (recorded : ∀ op answer, OnRecord pool op answer → received op answer)
    (writing : Writing env (recordedAnswers web received) ops)
    (applied : ∀ w op answer after, ops op → inv w → env.step fails w op answer after → inv after)
    (moves : ∀ s after, inv s.world → ambient s after → inv after.world)
    (initially : inv init.world)
    (reached : Reachable (systemStep env fails web robots) ambient (crawlTask env web) init pool) :
    inv pool.state.world := by
  -- only steps whose answers are on record were taken
  have reached := reached.of_recorded (CrawlEvent received) fun thread member event inside => by
    obtain ⟨op | op, answer⟩ := event
    · exact recorded op answer ⟨thread, member, inside⟩
    · trivial
  have carried : Carried (fun s op answer after =>
      CrawlEvent received ⟨op, answer⟩ ∧ systemStep env fails web robots s op answer after)
      web (fun s => inv s.world) (fun _ _ => True) (recordedAnswers web received) ops := by
    refine ⟨fun s op answer after direct allowed holds taken => ?_,
      fun s host answer after holds taken => ?_, fun urlStr s log => ?_⟩
    · have received : received op answer := taken.1
      refine ⟨⟨applied s.world op answer after.world allowed holds taken.2.2.1, trivial⟩, ?_,
        fun _ => received⟩
      cases op with
      | shouldCrawl urlStr => cases direct
      | _ => trivial
    · rw [(policy_step taken.2).2.1]
      exact ⟨⟨holds, trivial⟩, trivial, nofun⟩
    · exact (shouldCrawl_safe (fun _ _ _ _ taken => (policy_step taken.2).2.1) urlStr s log).weaken
        fun _ _ gemini => ⟨gemini, nofun⟩
  exact crawling_invariant (fun _ => trivial) (fun _ _ _ _ _ => trivial)
    (fun s after holds moved => ⟨moves s after holds moved, trivial⟩) carried
    (crawlNext_writes writing) initially reached

end Tlgs

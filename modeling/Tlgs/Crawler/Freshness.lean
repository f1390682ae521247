import Tlgs.Crawler.Changes

/-!
# Pages that were crawled lately

A page whose URL is printed as it is stored is deleted by the crawls only when its last success is
more than thirty days back. Every crawl of it that ends sets `last_crawled_at`, whether it succeeds
or fails, and no batch queues the page within three days from then on. That holds for any number of
crawls, each of which may have queued the page before the others crawled it.
-/
namespace Tlgs

open Bytes Interactive

/-- A move that leaves the row of a page as it is: no purge of that page. -/
def Sparing (env : Env) (key : Str) (s after : System) : Prop :=
  SystemMove env s after ∧ ∀ row, s.world.pages key = some row → after.world.pages key = some row

/-- A page that was crawled with success at `t` or later, and crawled at `c` or later. -/
structure SucceededSince (t c now : Time) (row : PageRow) : Prop where
  success : ∃ last ∈ row.lastCrawlSuccessAt, t ≤ last
  crawled : ∃ last ∈ row.lastCrawledAt, c ≤ last ∧ last ≤ now

/-- The page is stored until thirty days have passed. -/
structure Fresh (key : Str) (t c : Time) (w : World) : Prop where
  success : t ≤ w.now
  crawled : c ≤ w.now
  stored : w.now ≤ t + 30 * day → ∃ row, w.pages key = some row ∧ SucceededSince t c w.now row

/-- The page is not deleted outright. -/
def Op.keepsPage (key : Str) : Op → Prop
  | .deletePage url => url ≠ key
  | _ => True

variable {env : Env} {fails : Op → Str → Prop} {web : RobotsWeb}
  {robots : RobotsAnswers} {key : Str}
  {t c : Time}

theorem writing_keepsPage {answers : (op : Op) → Except Str op.Answer → Prop}
    (canonical : NamesItself env key) :
    Writing env answers (Op.keepsPage key) where
  plain op plain := by cases op <;> trivial
  deletes urlStr other := by
    rintro rfl
    exact other canonical
  inserts _ _ := trivial
  contents _ _ _ _ _ _ _ := trivial
  links _ _ _ := trivial
  pages _ _ := trivial

theorem SucceededSince.wait {now later : Time} {row : PageRow} (since : SucceededSince t c now row)
    (forward : now ≤ later) : SucceededSince t c later row := by
  obtain ⟨last, found, after, before⟩ := since.crawled
  exact ⟨since.success, last, found, after, before.trans forward⟩

theorem SucceededSince.rewritten {now : Time} {old row : PageRow} {op : Op}
    (since : SucceededSince t c now old) (success : t ≤ now) (crawled : c ≤ now)
    (rewritten : Rewritten env now key old op row) : SucceededSince t c now row := by
  have succeeded : ∃ last ∈ some now, t ≤ last := ⟨now, rfl, success⟩
  have again : ∃ last ∈ some now, c ≤ last ∧ last ≤ now := ⟨now, rfl, crawled, le_refl _⟩
  cases rewritten with
  | skipped => exact ⟨since.success, again⟩
  | unchanged status meta_ mime => exact ⟨succeeded, again⟩
  | content content => exact ⟨succeeded, again⟩
  | indexed indexFriendlyUrl => exact ⟨since.success, since.crawled⟩
  | failed status meta_ => exact ⟨since.success, again⟩
  | queued pct count => exact ⟨since.success, since.crawled⟩

/-- Within thirty days of a success the row is not stale. -/
theorem SucceededSince.not_stale {now : Time} {row : PageRow} (since : SucceededSince t c now row)
    (within : now ≤ t + 30 * day) : row.stale now = false := by
  obtain ⟨last, found, after⟩ := since.success
  rw [Option.mem_def] at found
  simp only [PageRow.stale, found, decide_eq_false_iff_not]
  exact not_lt.mpr ((Int.sub_right_le_of_le_add within).trans after)

theorem fresh_step {w after : World} {op : Op} {answer : Except Str op.Answer}
    (keeps : op.keepsPage key) (fresh : Fresh key t c w)
    (taken : env.step fails w op answer after) : Fresh key t c after := by
  obtain ⟨later, forward, effect⟩ := taken
  have waited : Fresh key t c (w.tick later) := by
    refine ⟨fresh.success.trans forward, fresh.crawled.trans forward, fun within => ?_⟩
    obtain ⟨row, stored, since⟩ := fresh.stored (forward.trans within)
    exact ⟨row, stored, since.wait forward⟩
  cases answer with
  -- a statement that fails changes nothing but the time
  | error x =>
    rw [effect.2]
    exact waited
  | ok a =>
    obtain ⟨_, rfl⟩ := effect
    refine ⟨by rw [apply_now]; exact waited.success, by rw [apply_now]; exact waited.crawled,
      fun within => ?_⟩
    rw [apply_now] at within ⊢
    obtain ⟨old, before, since⟩ := waited.stored within
    -- a row with a recent success is not stale
    have spared : ¬op.deletes later key old := by
      intro deletes
      cases op with
      | deletePage url => exact keeps deletes
      | deleteStale url =>
        cases (since.not_stale within).symm.trans deletes.2
      | _ => exact deletes
    obtain ⟨row, stored, rfl | rewritten⟩ := row_kept env a before spared
    · exact ⟨_, stored, since⟩
    · exact ⟨row, stored, since.rewritten waited.success waited.crawled rewritten⟩

theorem fresh_move {s after : System} (fresh : Fresh key t c s.world)
    (moved : Sparing env key s after) :
    Fresh key t c after.world := by
  have forward := move_now moved.1
  refine ⟨fresh.success.trans forward, fresh.crawled.trans forward, fun within => ?_⟩
  obtain ⟨row, stored, since⟩ := fresh.stored (forward.trans within)
  exact ⟨row, moved.2 row stored, since.wait forward⟩

/-- The crawls that are under way while nobody purges the page. -/
abbrev CrawlingPast (env : Env) (fails : Op → Str → Prop) (web : RobotsWeb) (robots : RobotsAnswers)
    (key : Str) (init : System) : Crawls → Prop :=
  Reachable (systemStep env fails web robots) (Sparing env key) (crawlTask env web) init

/-! ### The next batch -/

/-- A batch that queues the page. -/
def Queues (key : Str) : Event SystemOp SystemOp.Answer Str → Prop
  | ⟨.crawl (.queueBatch _ _), .ok urls⟩ => key ∈ urls
  | _ => False

/-- A crawl of the page ends: one of the four statements for that. -/
def EndsCrawl (key : Str) : Event SystemOp SystemOp.Answer Str → Prop
  | ⟨.crawl (.skipProxyError url), .ok _⟩ | ⟨.crawl (.updateUnchanged url _ _ _), .ok _⟩
  | ⟨.crawl (.updateContent url _), .ok _⟩ | ⟨.crawl (.updateFailed url _ _), .ok _⟩ => url = key
  | _ => False

theorem step_world_now {s after : System} {op : SystemOp} {answer : Except Str op.Answer}
    (taken : systemStep env fails web robots s op answer after) :
    s.world.now ≤ after.world.now := by
  cases op with
  | policy op =>
    rw [(policy_step taken).2.1]
  | crawl op =>
    obtain ⟨_, _, later, forward, ⟨x, _, _, effect⟩ | ⟨a, _, _, effect⟩⟩ := crawl_step taken
    · rw [effect]
      exact forward
    · rw [effect, apply_now]
      exact forward

theorem not_queues_step {s after : System} {op : SystemOp} {answer : Except Str op.Answer}
    (fresh : Fresh key t c s.world) (taken : systemStep env fails web robots s op answer after)
    (month : after.world.now ≤ t + 30 * day) (within : after.world.now ≤ c + 3 * day) :
    ¬Queues key ⟨op, answer⟩ := by
  intro queues
  have before := (step_world_now taken).trans month
  cases op with
  | policy op => cases queues
  | crawl op =>
    obtain ⟨_, _, later, forward, ⟨x, failed, _⟩ | ⟨a, done, possible, effect⟩⟩ := crawl_step taken
    · subst failed
      cases op <;> exact queues
    · subst done
      rw [effect, apply_now] at within
      cases op with
      | queueBatch pct count =>
        -- a page of the batch was due when it was queued
        obtain ⟨row, stored, waiting, _⟩ := possible.2.2 key queues
        obtain ⟨row', stored', since⟩ := fresh.stored before
        cases stored'.symm.trans stored
        obtain ⟨last, crawled, after, _⟩ := since.crawled
        exact absurd (waiting last crawled)
          (not_lt.mpr ((Int.sub_right_le_of_le_add within).trans after))
      | _ => exact queues

/-- The statements at the end of a crawl write the time. -/
theorem ended_step {s after : System} {op : SystemOp} {answer : Except Str op.Answer}
    {old : PageRow} (taken : systemStep env fails web robots s op answer after)
    (ends : EndsCrawl key ⟨op, answer⟩) (stored : s.world.pages key = some old) :
    ∃ row, after.world.pages key = some row ∧ row.lastCrawledAt = some after.world.now := by
  cases op with
  | policy op => cases ends
  | crawl op =>
    obtain ⟨_, _, later, _, ⟨x, failed, _⟩ | ⟨a, done, _, effect⟩⟩ := crawl_step taken
    · -- an operation that failed ends no crawl
      subst failed
      cases op <;> cases ends
    · subst done
      rw [effect, apply_now]
      have updated : ∀ change : PageRow → PageRow,
          (s.world.pages.update key change) key = some (change old) := by
        intro change
        rw [Table.update_self, stored]
        rfl
      -- the four statements that end a crawl set the column to the time
      cases op with
      | skipProxyError url =>
        cases ends
        exact ⟨_, updated _, rfl⟩
      | updateUnchanged url status meta_ mime =>
        cases ends
        exact ⟨_, updated _, rfl⟩
      | updateContent url content =>
        cases ends
        exact ⟨_, updated _, rfl⟩
      | updateFailed url status meta_ =>
        cases ends
        exact ⟨_, updated _, rfl⟩
      | _ => cases ends

/-- The operations of the system that do not delete the page outright. -/
def SystemOp.keepsPage (key : Str) : SystemOp → Prop
  | .crawl op => op.keepsPage key
  | .policy _ => True

theorem crawlTask_keepsPage (canonical : NamesItself env key) (rounds : Nat) :
    Meets (fun _ _ => True) (SystemOp.keepsPage key) (fun _ => True)
      (crawlTask env web rounds) := by
  have writes : Meets (fun _ _ => True) (Op.keepsPage key) (fun _ => True) (crawlNext env rounds) :=
    crawlNext_writes (writing_keepsPage canonical) rounds
  refine writes.expand fun op keeps => ?_
  cases op with
  | shouldCrawl urlStr => exact (meets_all (shouldCrawl web urlStr)).lift SystemOp.Answer _
  | _ => exact ⟨keeps, fun _ _ => trivial⟩

theorem continues_now {pool later : Crawls} {events : List (Event SystemOp SystemOp.Answer Str)}
    (continues : Continues (systemStep env fails web robots) (Sparing env key) (crawlTask env web)
      pool events later) : pool.state.world.now ≤ later.state.world.now := by
  induction continues with
  | here => exact le_refl _
  | spawn _ _ ih => exact ih
  | call _ taken ih => exact ih.trans (step_world_now taken)
  | ambient _ moved ih => exact ih.trans (move_now moved.1)

theorem fresh_continues (canonical : NamesItself env key) {init : System} {pool later : Crawls}
    {events : List (Event SystemOp SystemOp.Answer Str)} (fresh : Fresh key t c pool.state.world)
    (reached : CrawlingPast env fails web robots key init pool)
    (continues : Continues (systemStep env fails web robots) (Sparing env key) (crawlTask env web)
      pool events later) :
    Fresh key t c later.state.world ∧
      (later.state.world.now ≤ t + 30 * day → later.state.world.now ≤ c + 3 * day →
        ∀ event ∈ events, ¬Queues key event) := by
  induction continues with
  | here => exact ⟨fresh, fun _ _ _ => nofun⟩
  | spawn _ label ih => exact ih
  | @call events s after front back label op next log answer earlier taken ih =>
    have keeps : op.keepsPage key :=
      (reached.continue earlier).allowed_call (crawlTask_keepsPage canonical)
    obtain ⟨before, quiet⟩ := ih
    have forward := step_world_now taken
    constructor
    · -- the row stays fresh, whatever is called
      cases op with
      | crawl op => exact fresh_step keeps before taken.2.1
      | policy op =>
        rw [(policy_step taken).2.1]
        exact before
    · -- the event is one of the earlier ones or this one
      intro month within event member
      rcases List.mem_append.mp member with earlier | last
      · exact quiet (forward.trans month) (forward.trans within) event earlier
      · cases List.mem_singleton.mp last
        exact not_queues_step before taken month within
  | ambient _ moved ih =>
    have forward := move_now moved.1
    exact ⟨fresh_move ih.1 moved,
      fun month within => ih.2 (forward.trans month) (forward.trans within)⟩

/-- A page that was crawled with success at `t` stays in the table for thirty days, in every run of
any number of crawls, in any interleaving, in which nobody purges it. Meanwhile every statement that
ends a crawl of it sets `last_crawled_at` to its time, and from any state on no batch queues the
page within three days of the `last_crawled_at` that it has there. -/
theorem fresh_page_left_alone (canonical : NamesItself env key) {init : System}
    (fresh : Fresh key t t init.world) {pool : Crawls}
    (reached : CrawlingPast env fails web robots key init pool) :
    (pool.state.world.now ≤ t + 30 * day →
      ∃ row, pool.state.world.pages key = some row ∧ SucceededSince t t pool.state.world.now row) ∧
    (∀ op answer after, systemStep env fails web robots pool.state op answer after →
      EndsCrawl key ⟨op, answer⟩ → after.world.now ≤ t + 30 * day →
        ∃ row, after.world.pages key = some row ∧ row.lastCrawledAt = some after.world.now) ∧
    ∀ row, pool.state.world.pages key = some row → ∀ c ∈ row.lastCrawledAt, ∀ events later,
      Continues (systemStep env fails web robots) (Sparing env key) (crawlTask env web)
        pool events later →
      later.state.world.now ≤ t + 30 * day → later.state.world.now ≤ c + 3 * day →
        ∀ event ∈ events, ¬Queues key event := by
  obtain ⟨first, continues⟩ := reached.continues
  have fresh : Fresh key t t pool.state.world :=
    (fresh_continues canonical fresh .start continues).1
  refine ⟨fresh.stored, fun op answer after taken ends month => ?_,
    fun row stored c crawled events later continues month within => ?_⟩
  · obtain ⟨old, stored, _⟩ := fresh.stored ((step_world_now taken).trans month)
    exact ended_step taken ends stored
  · -- the page was crawled at `c`, and this goes on to be so
    obtain ⟨row', stored', since⟩ := fresh.stored ((continues_now continues).trans month)
    cases stored.symm.trans stored'
    obtain ⟨last, found, _, past⟩ := since.crawled
    cases found.symm.trans crawled
    have rested : Fresh key t c pool.state.world :=
      ⟨fresh.success, past, fun _ => ⟨row, stored, since.success, c, crawled, le_refl _, past⟩⟩
    exact (fresh_continues canonical rested reached continues).2 month within

/-- The page of `h` was just crawled with success, and is in the queue again. -/
def System.justCrawled : System where
  world := { World.empty with crawQueue := [lit "gemini://h/"] }.setPages fun key =>
    if key = lit "gemini://h/" then
      some { (NewPage.mk key (lit "h") 1965).row 0 with
        lastCrawledAt := some 0, lastCrawlSuccessAt := some 0 }
    else none
  policy := .empty 0 fun _ => none
  requested := []

theorem fresh_page_left_alone_crawled :
    let web := RobotsWeb.serving (lit "")
    let init := System.justCrawled
    NamesItself Env.small (lit "gemini://h/") ∧ Fresh (lit "gemini://h/") 0 0 init.world ∧
      ∃ events, ∃ later : Crawls,
        Continues (systemStep Env.small never web web.serves)
          (Sparing Env.small (lit "gemini://h/"))
          (crawlTask Env.small web) ⟨init, []⟩ events later ∧ later.state.requested ≠ [] ∧
        (later.state.world.now ≤ 0 + 30 * day → later.state.world.now ≤ 0 + 3 * day →
          ∀ event ∈ events, ¬Queues (lit "gemini://h/") event) := by
  intro web init
  have canonical : NamesItself Env.small (lit "gemini://h/") := by
    constructor <;> decide +kernel
  have fresh : Fresh (lit "gemini://h/") 0 0 init.world := by
    refine ⟨le_refl _, le_refl _, fun _ => ⟨_, rfl, ?_⟩⟩
    exact ⟨⟨0, rfl, le_refl _⟩, ⟨0, rfl, le_refl _, le_refl _⟩⟩
  obtain ⟨later, reached, state⟩ := Outside.reaching (@serving_never (lit "hello")) Env.small web
    (Sparing Env.small (lit "gemini://h/")) init 3
  obtain ⟨events, continues⟩ := reached.continues
  refine ⟨canonical, fresh, events, later, continues, ?_, ?_⟩
  · rw [state]
    decide +kernel
  · exact (fresh_page_left_alone canonical fresh .start).2.2 _ rfl 0 rfl events later continues

end Tlgs

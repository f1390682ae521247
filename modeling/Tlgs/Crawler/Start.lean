import Tlgs.Crawler.Queue

/-!
# Up to the redirect loop

A call that gets to the redirect loop has asked whether the URL may be crawled, and there
is a row for the page. Everything else that it does outside the loop and the processing
of the response is bookkeeping. A call that does not get there was told not to, met a failure,
or found the proxy error of the page to be old.
-/
namespace Tlgs

open Bytes Interactive Interactive.Program

/-- The operations on the record of a page. -/
def Op.keepsBooks : Op → Prop
  | shouldCrawl _ | selectPage _ | insertPage _ | dateNow | skipProxyError _ | deletePage _
  | deleteLinksOf _ | countTimeout _ | updateFailed _ _ _ | deleteStale _ => True
  | _ => False

def Bookkeeping (log : Log) : Prop := ∀ event ∈ log, event.op.keepsBooks

variable {env : Env} {fails : Op → Str → Prop} {r after : Rec}

theorem bookkeeping_nil : Bookkeeping [] := fun _ member => absurd member List.not_mem_nil

theorem bookkeeping_step {op : Op} {answer : Except Str op.Answer}
    (taken : record (env.step fails) r op answer after) (books : Bookkeeping r.log)
    (keeps : op.keepsBooks) : Bookkeeping after.log :=
  all_of_record taken books keeps

theorem keepsBooks_storeFailure (url : Url) (status : Int) (meta_ : Str) :
    Within Op.keepsBooks (fun _ => True) (storeFailure url status meta_) :=
  within_storeFailure (fun _ _ => trivial) trivial status meta_

theorem keepsBooks_crawlFailed (url : Url) (error : Str) :
    Within Op.keepsBooks (fun _ => True) (crawlFailed url error) :=
  within_crawlFailed (fun _ _ => trivial) trivial (fun _ => trivial) error

def PageRow.hashes (row : PageRow) : Hashes := ⟨row.indexedContentHash, row.rawContentHash⟩

/-- The row of the page, which the call inserts when there is none. -/
def StoredOrNew (url : Url) (w : World) (row : PageRow) : Prop :=
  w.pages url.str = some row ∨
    w.pages url.str = none ∧ ∃ t, row = (⟨url.str, url.host, url.port⟩ : NewPage).row t

/-- A call on the tables of `w` has come to the redirect loop. -/
structure Starts (url : Url) (w : World) (row : PageRow) (r : Rec) : Prop where
  approved : ⟨.shouldCrawl url.str, .ok true⟩ ∈ r.log
  books : Bookkeeping r.log
  links : r.state.links = w.links
  stored : r.state.pages url.str = some row
  origin : StoredOrNew url w row

/-- At the time that the call reads, the check for a proxy error holds of the row. -/
def SkipsProxyError (urlStr : Str) (w : World) (log : Log) : Prop :=
  ∃ row now, w.pages urlStr = some row ∧ row.lastStatus.getD 0 = 53 ∧ ⟨.dateNow, .ok now⟩ ∈ log ∧
    row.lastCrawledAt.getD 0 + 21 * 7 * day < now

/-- Nothing has kept the call from the loop. -/
structure Passes (url : Url) (w : World) (r : Rec) : Prop where
  first : FirstAnswer r.log url.str true
  asked : ∀ event ∈ r.log, ∀ urlStr, event.op = .shouldCrawl urlStr → urlStr = url.str
  succeeded : Succeeded r.log
  redirects : r.state.permaRedirects = w.permaRedirects
  kept : ¬SkipsProxyError url.str w r.log

/-- Something has. -/
structure Stops (urlStr : Str) (w : World) (log : Log) : Prop where
  books : Bookkeeping log
  nonempty : log ≠ []
  stopped : ¬FirstAnswer log urlStr true ∨ ¬Succeeded log ∨ SkipsProxyError urlStr w log

/-- The call has read the row of the page and did nothing else so far. -/
structure Reads (url : Url) (w : World) (r : Rec) : Prop where
  log : r.log = [⟨.shouldCrawl url.str, .ok true⟩, ⟨.selectPage url.str, .ok (w.pages url.str)⟩]
  pages : r.state.pages = w.pages
  links : r.state.links = w.links
  redirects : r.state.permaRedirects = w.permaRedirects

variable {url : Url} {urlStr : Str} {w : World} {log events : Log}

theorem FirstAnswer.append {allowed : Bool} (first : FirstAnswer log urlStr allowed)
    (events : Log) :
    FirstAnswer (log ++ events) urlStr allowed := by
  rw [FirstAnswer, List.head?_append, first]
  rfl

theorem firstAnswer_append_iff {allowed : Bool} (nonempty : log ≠ []) :
    FirstAnswer (log ++ events) urlStr allowed ↔ FirstAnswer log urlStr allowed := by
  rw [FirstAnswer, List.head?_append_of_ne_nil _ nonempty, FirstAnswer]

/-- A call stays stopped. -/
theorem Stops.run {α : Type} {p : Crawl α} {result : Except Str α} (stops : Stops urlStr w r.log)
    (within : Within Op.keepsBooks (fun _ => True) p) (run : env.Run fails p r result after) :
    Stops urlStr w after.log := by
  obtain ⟨events, log, keeps⟩ := log_of_runs within run
  rw [log]
  refine ⟨?_, fun empty => stops.nonempty (List.append_eq_nil_iff.mp empty).1, ?_⟩
  · intro event member
    rcases List.mem_append.mp member with before | later
    · exact stops.books event before
    · exact keeps event later
  · rcases stops.stopped with denied | failed | ⟨row, now, stored, error, member, late⟩
    · exact .inl (mt (firstAnswer_append_iff stops.nonempty).mp denied)
    · exact .inr (.inl (not_succeeded_append failed))
    · exact .inr (.inr ⟨row, now, stored, error, List.mem_append_left _ member, late⟩)

/-- A failure before the loop. -/
theorem stops_step {op : Op} {x : Str} (books : Bookkeeping r.log) (keeps : op.keepsBooks)
    (taken : record (env.step fails) r op (.error x) after) : Stops urlStr w after.log := by
  refine ⟨bookkeeping_step taken books keeps, ?_, .inr (.inl (not_succeeded_step taken))⟩
  rw [taken.2]
  exact List.append_ne_nil_of_right_ne_nil _ (List.cons_ne_nil _ _)

theorem Reads.books (reads : Reads url w r) : Bookkeeping r.log := by
  rw [reads.log]
  simp [Bookkeeping, Op.keepsBooks]

theorem Reads.approved (reads : Reads url w r) : ⟨.shouldCrawl url.str, .ok true⟩ ∈ r.log := by
  rw [reads.log]
  exact List.mem_cons_self

theorem Reads.approved_step {op : Op} {answer : Except Str op.Answer} (reads : Reads url w r)
    (taken : record (env.step fails) r op answer after) :
    ⟨.shouldCrawl url.str, .ok true⟩ ∈ after.log := by
  rw [taken.2]
  exact List.mem_append_left _ reads.approved

theorem Reads.unread (reads : Reads url w r) (now : Time) : ⟨.dateNow, .ok now⟩ ∉ r.log := by
  rw [reads.log]
  simp

theorem Reads.passes (reads : Reads url w r) : Passes url w r := by
  refine ⟨?_, ?_, ?_, reads.redirects, ?_⟩
  · rw [reads.log]
    rfl
  · rw [reads.log]
    simp
  · rw [reads.log]
    exact List.forall_mem_cons.mpr ⟨⟨_, rfl⟩, List.forall_mem_singleton.mpr ⟨_, rfl⟩⟩
  · rintro ⟨_, now, _, _, member, _⟩
    exact reads.unread now member

/-- The call goes on to the loop with one more operation that succeeds. -/
theorem Reads.passes_step {op : Op} {a : op.Answer} (reads : Reads url w r)
    (taken : record (env.step fails) r op (.ok a) after)
    (other : ∀ urlStr, op ≠ .shouldCrawl urlStr)
    (same : after.state.permaRedirects = r.state.permaRedirects)
    (kept : ¬SkipsProxyError url.str w after.log) : Passes url w after := by
  refine ⟨?_, ?_, succeeded_step reads.passes.succeeded taken, same.trans reads.redirects, kept⟩
  · rw [taken.2]
    exact reads.passes.first.append _
  · exact all_of_record taken reads.passes.asked fun urlStr asks => absurd asks (other urlStr)

/-- The page is new, and the call inserts it. -/
theorem Reads.inserts (reads : Reads url w r) (absent : w.pages url.str = none)
    (taken : record (env.step fails) r (.insertPage ⟨url.str, url.host, url.port⟩) (.ok ()) after) :
    ∃ t, Starts url w ((⟨url.str, url.host, url.port⟩ : NewPage).row t) after ∧
      Passes url w after := by
  obtain ⟨later, _, _, effect, _⟩ := step_ok taken
  have links : after.state.links = w.links := by
    rw [effect]
    exact reads.links
  have redirects : after.state.permaRedirects = r.state.permaRedirects := by
    rw [effect]
    rfl
  have stored : after.state.pages url.str =
      some ((⟨url.str, url.host, url.port⟩ : NewPage).row later) := by
    rw [effect]
    change Table.insertNew r.state.pages url.str _ url.str = _
    rw [Table.insertNew_self, reads.pages, absent]
    rfl
  refine ⟨later, ⟨reads.approved_step taken, bookkeeping_step taken reads.books (by trivial),
    links, stored, .inr ⟨absent, later, rfl⟩⟩, reads.passes_step taken nofun redirects ?_⟩
  -- there was no row with an error
  rintro ⟨_, _, found, _⟩
  cases absent.symm.trans found

/-- The time that the call reads is not late enough for the check. -/
theorem Reads.looks {row : PageRow} {now : Time} (reads : Reads url w r)
    (record : w.pages url.str = some row) (early : ¬row.lastCrawledAt.getD 0 + 21 * 7 * day < now)
    (taken : Interactive.record (env.step fails) r .dateNow (.ok now) after) :
    Starts url w row after ∧ Passes url w after := by
  obtain ⟨later, _, _, effect, log⟩ := step_ok taken
  have same : after.state.links = r.state.links ∧ after.state.pages = r.state.pages ∧
      after.state.permaRedirects = r.state.permaRedirects := by
    rw [effect]
    exact ⟨rfl, rfl, rfl⟩
  refine ⟨⟨reads.approved_step taken, bookkeeping_step taken reads.books (by trivial),
    same.1.trans reads.links,
    by rw [same.2.1, reads.pages, record], .inl record⟩, reads.passes_step taken nofun same.2.2 ?_⟩
  -- it is the only time that was read
  rintro ⟨row', now', found, _, member, late⟩
  cases record.symm.trans found
  rw [log] at member
  rcases List.mem_append.mp member with before | last
  · exact reads.unread now' before
  · cases List.mem_singleton.mp last
    exact early late

/-- What follows once the call has come to its redirect loop. -/
def Fetches (env : Env) (fails : Op → Str → Prop) (url : Url) (w : World) (result : Except Str Bool)
    (after : Rec) : Prop :=
  ∃ row r, Starts url w row r ∧ Passes url w r ∧
    env.Run fails (fetchAndIndex env url row.hashes) r result after

theorem fetches_of_starts {row : PageRow} (starts : Starts url w row r) (passes : Passes url w r) :
    env.Wp fails (fetchAndIndex env url row.hashes) (fun result after =>
      Stops url.str w after.log ∨ Fetches env fails url w result after) r :=
  wp_iff_runs.mpr fun _ _ run => .inr ⟨row, r, starts, passes, run⟩

/-- The part of the call between the record of the page and the loop. -/
theorem crawlRecord_starts (reads : Reads url w r) :
    env.Wp fails (crawlRecord env url (w.pages url.str)) (fun result after =>
      Stops url.str w after.log ∨ Fetches env fails url w result after) r := by
  cases record : w.pages url.str with
  | none =>
    apply wp_perform_bind.mpr
    intro answer inserted taken
    cases answer with
    | error x => exact .inl (stops_step reads.books (by trivial) taken)
    | ok _ =>
      obtain ⟨t, starts, passes⟩ := reads.inserts record taken
      exact fetches_of_starts starts passes
  | some row =>
    simp only [crawlRecord]
    split
    next error =>
      -- a proxy error was recorded, which may end the call
      apply wp_perform_bind.mpr
      intro answer read taken
      cases answer with
      | error x => exact .inl (stops_step reads.books (by trivial) taken)
      | ok now =>
        rw [then_ok]
        split
        next late =>
          have known : ⟨.dateNow, .ok now⟩ ∈ read.log := by
            rw [taken.2]
            exact List.mem_append_right _ List.mem_cons_self
          have stops : Stops url.str w read.log :=
            ⟨bookkeeping_step taken reads.books (by trivial), List.ne_nil_of_mem known,
              .inr (.inr ⟨row, now, record, error, known, late⟩)⟩
          have skips : Within Op.keepsBooks (fun _ => True)
              (await (.skipProxyError url.str) >>= fun _ => pure true) :=
            within_bind (within_perform trivial) fun _ => within_pure
          exact wp_iff_runs.mpr fun _ _ run => .inl (stops.run skips run)
        next early =>
          obtain ⟨starts, passes⟩ := reads.looks record early taken
          exact fetches_of_starts starts passes
    · have stored : r.state.pages url.str = some row := by rw [reads.pages, record]
      exact fetches_of_starts
        ⟨reads.approved, reads.books, reads.links, stored, .inl record⟩ reads.passes

theorem crawlBody_starts (env : Env) (fails : Op → Str → Prop) (w : World) (url : Url) :
    env.Wp fails (crawlBody env url) (fun result after =>
      Stops url.str w after.log ∨ Fetches env fails url w result after) ⟨w, []⟩ := by
  apply wp_perform_bind.mpr
  intro answer asked taken
  have books := bookkeeping_step taken bookkeeping_nil (by trivial)
  cases answer with
  | error x => exact .inl (stops_step bookkeeping_nil (by trivial) taken)
  | ok allowed =>
    obtain ⟨_, _, _, effect, log⟩ := step_ok taken
    cases allowed with
    | false =>
      -- "Blocked by robots.txt"
      refine .inl ⟨books, ?_, .inl ?_⟩
      · rw [log]
        exact List.cons_ne_nil _ _
      · rw [log]
        exact nofun
    | true =>
      apply wp_perform_bind.mpr
      intro answer read found
      cases answer with
      | error x => exact .inl (stops_step books (by trivial) found)
      | ok record =>
        obtain ⟨_, _, selected, effect', log'⟩ := step_ok found
        have same : record = w.pages url.str := by
          rw [← (step_fetches (by trivial) taken).1]
          exact selected
        have unchanged : read.state.pages = w.pages ∧ read.state.links = w.links ∧
            read.state.permaRedirects = w.permaRedirects := by
          rw [effect', effect]
          exact ⟨rfl, rfl, rfl⟩
        rw [then_ok, same]
        refine crawlRecord_starts ⟨?_, unchanged.1, unchanged.2.1, unchanged.2.2⟩
        rw [log', log, same]
        rfl

/-- Nobody is asked whether a URL that is not canonical may be crawled. -/
theorem removePage_stops (env : Env) (fails : Op → Str → Prop) (urlStr : Str) (w : World) :
    env.Wp fails (removePage urlStr) (fun _ after => Stops urlStr w after.log) ⟨w, []⟩ := by
  apply wp_perform_bind.mpr
  intro answer deleted taken
  have stops : Stops urlStr w deleted.log := by
    refine ⟨bookkeeping_step taken bookkeeping_nil (by trivial), ?_, .inl ?_⟩
    · rw [taken.2]
      exact List.cons_ne_nil _ _
    · rw [taken.2]
      exact nofun
  cases answer with
  | error x => exact stops
  | ok _ =>
    have deletes : Within Op.keepsBooks (fun _ => True)
        (await (.deleteLinksOf urlStr) >>= fun _ => pure false) :=
      within_bind (within_perform trivial) fun _ => within_pure
    exact wp_iff_runs.mpr fun _ _ run => stops.run deletes run

/-- A call is stopped, or it comes to the redirect loop and handles what is thrown from there
on. -/
theorem crawlPage_stops {result : Except Str Bool}
    (run : env.Run fails (crawlPage env urlStr) ⟨w, []⟩ result after) :
    Stops urlStr w after.log ∨
      (Url.ofString (env.uninitUrl urlStr) urlStr).good = true ∧
      (Url.ofString (env.uninitUrl urlStr) urlStr).str = urlStr ∧
      ∃ row r', Starts (Url.ofString (env.uninitUrl urlStr) urlStr) w row r' ∧
        Passes (Url.ofString (env.uninitUrl urlStr) urlStr) w r' ∧
        env.Run fails
          ((fetchAndIndex env (Url.ofString (env.uninitUrl urlStr) urlStr) row.hashes).tryCatch
            (crawlFailed (Url.ofString (env.uninitUrl urlStr) urlStr))) r' result after := by
  unfold crawlPage at run
  dsimp only at run
  split at run
  · -- the URL is not canonical and is removed
    exact .inl (wp_iff_runs.mp (removePage_stops env fails urlStr w) _ _ run)
  next canonical =>
    obtain ⟨good, same⟩ := not_or.mp canonical
    rw [Bool.not_eq_false] at good
    rw [ne_eq, not_not] at same
    have body := wp_iff_runs.mp (crawlBody_starts env fails w
      (Url.ofString (env.uninitUrl urlStr) urlStr))
    rw [same] at body
    rcases runs_tryCatch.mp run with ⟨b, rfl, tried⟩ | ⟨x, middle, tried, handled⟩
    · rcases body _ _ tried with stops | ⟨row, r', starts, passes, rest⟩
      · exact .inl stops
      · exact .inr ⟨good, same, row, r', starts, passes, runs_tryCatch.mpr (.inl ⟨b, rfl, rest⟩)⟩
    · rcases body _ _ tried with stops | ⟨row, r', starts, passes, rest⟩
      · exact .inl (stops.run (keepsBooks_crawlFailed _ x) handled)
      · exact .inr ⟨good, same, row, r', starts, passes,
          runs_tryCatch.mpr (.inr ⟨x, middle, rest, handled⟩)⟩

/-- A call does nothing but bookkeeping, or it comes to the redirect loop. -/
theorem crawlPage_starts {result : Except Str Bool}
    (run : env.Run fails (crawlPage env urlStr) ⟨w, []⟩ result after) :
    Bookkeeping after.log ∨
      (Url.ofString (env.uninitUrl urlStr) urlStr).good = true ∧
      (Url.ofString (env.uninitUrl urlStr) urlStr).str = urlStr ∧
      ∃ row r', Starts (Url.ofString (env.uninitUrl urlStr) urlStr) w row r' ∧
        env.Run fails
          ((fetchAndIndex env (Url.ofString (env.uninitUrl urlStr) urlStr) row.hashes).tryCatch
            (crawlFailed (Url.ofString (env.uninitUrl urlStr) urlStr))) r' result after := by
  rcases crawlPage_stops run with stops | ⟨good, same, row, r', starts, _, rest⟩
  · exact .inl stops.books
  · exact .inr ⟨good, same, row, r', starts, rest⟩

end Tlgs

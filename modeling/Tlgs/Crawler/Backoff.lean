import Tlgs.Crawler.Fetched

/-!
# After a proxy error

A page that answered with 53 is not to be requested again for 21 days. The check for it
holds when the error is older than 21 weeks, so that within the 21 days no call is ended by
it, and a call sends its request unless something else keeps it from that.
-/
namespace Tlgs

open Bytes Interactive Interactive.Program

def Sends (log : Log) (crawlUrl : Url) : Prop := ∃ answer, ⟨.sendRequest crawlUrl, answer⟩ ∈ log

def Unsent (log : Log) : Prop := ∀ event ∈ log, requested event = none

/-- What comes before the first request. -/
def lead (log : Log) : Log := log.takeWhile fun event => (requested event).isNone

/-- Nothing keeps the call from the redirect loop: the robots check, which comes first, says
yes, nothing fails before the first request, and the check for a proxy error does not hold. -/
structure Proceeds (urlStr : Str) (w : World) (log : Log) : Prop where
  first : FirstAnswer log urlStr true
  succeeded : Succeeded (lead log)
  kept : ¬SkipsProxyError urlStr w (lead log)

/-- So many stored redirects lead on from the URL. -/
def LeadsOn (env : Env) (redirects : Table Str Str) : Nat → Url → Prop
  | 0, _ => True
  | n + 1, url => ∃ toUrl, redirects url.str = some toUrl ∧
    LeadsOn env redirects n (Url.ofString (env.uninitUrl toUrl) toUrl)

/-- The first request of the call is for `crawlUrl`, and nothing failed before it. -/
def FirstRequest (log : Log) (crawlUrl : Url) : Prop :=
  ∃ before answer rest, log = before ++ ⟨.sendRequest crawlUrl, answer⟩ :: rest ∧
    Unsent before ∧ Succeeded before

/-- A loop from `crawlUrl` on sends no request, because something fails or `n` stored
redirects lead on, or it sends one, which is for `crawlUrl` if no redirect is stored. -/
def LoopSends (env : Env) (redirects : Table Str Str) (n : Nat) (crawlUrl : Url) (log : Log) :
    Prop :=
  Unsent log ∧ (¬Succeeded log ∨ LeadsOn env redirects n crawlUrl) ∨
    ¬LeadsOn env redirects n crawlUrl ∧
      ∃ target, FirstRequest log target ∧ (redirects crawlUrl.str = none → target = crawlUrl)

variable {env : Env} {fails : Op → Str → Prop} {redirects : Table Str Str} {url crawlUrl : Url}
  {urlStr : Str} {w : World} {log events : Log} {r after : Rec}

/-! ### Logs without a request -/

theorem unsent_nil : Unsent [] := fun _ member => absurd member List.not_mem_nil

theorem Unsent.append (unsent : Unsent log) (others : Unsent events) : Unsent (log ++ events) := by
  intro event member
  rcases List.mem_append.mp member with before | later
  · exact unsent event before
  · exact others event later

theorem Unsent.step {op : Op} {answer : Except Str op.Answer} (unsent : Unsent r.log)
    (taken : record (env.step fails) r op answer after) (other : requested ⟨op, answer⟩ = none) :
    Unsent after.log :=
  all_of_record taken unsent other

theorem Unsent.not_sends (unsent : Unsent log) : ¬Sends log crawlUrl := by
  rintro ⟨answer, member⟩
  cases unsent _ member

theorem lead_of_unsent (unsent : Unsent log) : lead log = log :=
  List.takeWhile_eq_self_iff.mpr fun event member =>
    Option.isNone_iff_eq_none.mpr (unsent event member)

theorem lead_of_request {answer : Except Str Response} (unsent : Unsent log) :
    lead (log ++ ⟨.sendRequest crawlUrl, answer⟩ :: events) = log := by
  rw [lead, List.takeWhile_append_of_pos fun event member =>
    Option.isNone_iff_eq_none.mpr (unsent event member)]
  exact List.append_nil log

theorem FirstRequest.append (first : FirstRequest log crawlUrl) (events : Log) :
    FirstRequest (log ++ events) crawlUrl := by
  obtain ⟨before, answer, rest, rfl, unsent, succeeded⟩ := first
  exact ⟨before, answer, rest ++ events, by simp, unsent, succeeded⟩

theorem LoopSends.append {n : Nat} (sends : LoopSends env redirects n crawlUrl log)
    (others : Unsent events) : LoopSends env redirects n crawlUrl (log ++ events) := by
  rcases sends with ⟨unsent, failed | leads⟩ | ⟨leads, target, first, plain⟩
  · exact .inl ⟨unsent.append others, .inl (not_succeeded_append failed)⟩
  · exact .inl ⟨unsent.append others, .inr leads⟩
  · exact .inr ⟨leads, target, first.append events, plain⟩

/-- The loop from the target of a stored redirect on. -/
theorem LoopSends.stored {n : Nat} {toUrl : Str} (found : redirects crawlUrl.str = some toUrl)
    (sends : LoopSends env redirects n (Url.ofString (env.uninitUrl toUrl) toUrl) log) :
    LoopSends env redirects (n + 1) crawlUrl log := by
  rcases sends with ⟨unsent, failed | leads⟩ | ⟨leads, target, first, _⟩
  · exact .inl ⟨unsent, .inl failed⟩
  · exact .inl ⟨unsent, .inr ⟨toUrl, found, leads⟩⟩
  · refine .inr ⟨?_, target, first, fun missing => ?_⟩
    · rintro ⟨toUrl', found', leads'⟩
      cases found.symm.trans found'
      exact leads leads'
    · cases found.symm.trans missing

/-! ### The redirect loop -/

theorem FirstRequest.run {α : Type} {p : Crawl α} {result : Except Str α}
    (first : FirstRequest r.log crawlUrl) (run : env.Run fails p r result after) :
    FirstRequest after.log crawlUrl := by
  obtain ⟨events, log⟩ := log_extends run
  rw [log]
  exact first.append events

theorem stored_redirect {answer : Option Str}
    (taken : record (env.step fails) r (.selectRedirect crawlUrl.str) (.ok answer) after) :
    answer = r.state.permaRedirects crawlUrl.str ∧
      after.state.permaRedirects = r.state.permaRedirects := by
  obtain ⟨later, _, possible, effect, _⟩ := step_ok taken
  rw [effect]
  exact ⟨possible, rfl⟩

/-- The first round of a loop that has sent nothing. -/
theorem hop_sends {resp : Option Response} (unsent : Unsent r.log) (succeeded : Succeeded r.log) :
    env.Wp fails (hop env url crawlUrl resp) (fun result after =>
      (Unsent after.log ∧ ¬Succeeded after.log ∧ ∃ x, result = .error x) ∨
      (Unsent after.log ∧ Succeeded after.log ∧
        ∃ toUrl, r.state.permaRedirects crawlUrl.str = some toUrl ∧
        after.state.permaRedirects = r.state.permaRedirects ∧
        result = .ok ⟨Url.ofString (env.uninitUrl toUrl) toUrl, resp, 30, true⟩) ∨
      (r.state.permaRedirects crawlUrl.str = none ∧ FirstRequest after.log crawlUrl)) r := by
  apply wp_perform_bind.mpr
  intro answer middle taken
  have looked : Unsent middle.log := unsent.step taken rfl
  rcases answer with x | redirect
  · exact .inl ⟨looked, not_succeeded_step taken, x, rfl⟩
  · obtain ⟨found, same⟩ := stored_redirect taken
    have going := succeeded_step succeeded taken
    cases redirect with
    | some toUrl => exact .inr (.inl ⟨looked, going, toUrl, found.symm, same, rfl⟩)
    | none =>
      apply wp_perform_bind.mpr
      intro answer asked requested
      have first : FirstRequest asked.log crawlUrl :=
        ⟨middle.log, answer, [], requested.2, looked, going⟩
      cases answer with
      | error x => exact .inr (.inr ⟨found.symm, first⟩)
      | ok answered =>
        -- whatever follows the request
        exact wp_iff_runs.mpr fun _ _ run => .inr (.inr ⟨found.symm, first.run run⟩)

/-- Every stored redirect takes two of the five, so the loop ends after the third. -/
theorem followRedirects_sends {resp : Option Response} {n fuel : Nat} (few : n ≤ 2)
    (enough : n < fuel) (unsent : Unsent r.log) (succeeded : Succeeded r.log)
    (same : r.state.permaRedirects = redirects) :
    env.Wp fails (followRedirects env url fuel (4 - 2 * n) crawlUrl resp)
      (fun _ after => LoopSends env redirects (n + 1) crawlUrl after.log) r := by
  induction fuel generalizing n crawlUrl resp r with
  | zero => omega
  | succ fuel ih =>
    refine wp_bind.mpr (wp_mono ?_ (hop_sends unsent succeeded))
    rintro result middle (⟨unsent, failed, x, rfl⟩ | ⟨unsent, going, toUrl, found, kept, rfl⟩ |
      ⟨missing, first⟩)
    · exact .inl ⟨unsent, .inl failed⟩
    · rw [same] at found
      rw [then_ok, Hop.count, if_pos rfl]
      cases n with
      | zero =>
        rw [if_neg (by omega)]
        exact .inl ⟨unsent, .inr ⟨toUrl, found, trivial⟩⟩
      | succ n =>
        have redirect : (30 : Int).tdiv 10 = 3 := by decide
        have count : 4 - 2 * (n + 1) + 1 + 1 = 4 - 2 * n := by omega
        rw [if_pos ⟨redirect, by omega⟩, count]
        exact wp_mono (fun _ _ sends => sends.stored found)
          (ih (by omega) (by omega) unsent going (kept.trans same))
    · -- the request is sent, whatever comes after it
      rw [same] at missing
      have sends : ∀ {log : Log}, FirstRequest log crawlUrl →
          LoopSends env redirects (n + 1) crawlUrl log := by
        refine fun first => .inr ⟨?_, crawlUrl, first, fun _ => rfl⟩
        rintro ⟨toUrl, found, _⟩
        cases missing.symm.trans found
      cases result with
      | error x => exact sends first
      | ok next => exact wp_iff_runs.mpr fun _ _ run => sends (first.run run)

/-! ### The whole call -/

theorem wp_loopSends {α : Type} {p : Crawl α} {n : Nat}
    (within : Within Op.silent (fun _ => True) p)
    (sends : LoopSends env redirects n crawlUrl r.log) :
    env.Wp fails p (fun _ after => LoopSends env redirects n crawlUrl after.log) r := by
  refine wp_iff_runs.mpr fun result after run => ?_
  obtain ⟨events, log, silent⟩ := log_of_runs within run
  rw [log]
  exact sends.append fun event member => silent event member event.answer

theorem fetchAndIndex_sends {hashes : Hashes} {result : Except Str Bool} (unsent : Unsent r.log)
    (succeeded : Succeeded r.log)
    (run : env.Run fails ((fetchAndIndex env url hashes).tryCatch (crawlFailed url)) r
      result after) :
    LoopSends env r.state.permaRedirects 3 url after.log :=
  of_loop (fun s => LoopSends env r.state.permaRedirects 3 url s.log)
    (followRedirects_sends (Nat.le_refl 2) (by decide) unsent succeeded rfl) wp_loopSends run

/-! ### What a call sends -/

theorem unsent_of_bookkeeping (books : Bookkeeping log) : Unsent log :=
  fun event member => silent_of_quiet (quiet_of_keepsBooks (books event member)) event.answer

theorem Stops.not_proceeds (stops : Stops urlStr w log) : ¬Proceeds urlStr w log := by
  rintro ⟨first, succeeded, kept⟩
  rw [lead_of_unsent (unsent_of_bookkeeping stops.books)] at succeeded kept
  rcases stops.stopped with denied | failed | skips
  · exact denied first
  · exact failed succeeded
  · exact kept skips

/-- The clock is read before the loop only. -/
theorem unread_fetchAndIndex (hashes : Hashes) :
    Within (· ≠ .dateNow) (fun _ => True)
      ((fetchAndIndex env url hashes).tryCatch (crawlFailed url)) := by
  refine within_tryCatch (within_bind (within_mono ?_
    (within_followRedirects (fun _ _ => trivial) url _ _ _ _)) fun fetched => ?_) fun x =>
      within_crawlFailed (fun _ _ => nofun) nofun (fun _ => nofun) x
  · rintro op fetches rfl
    cases fetches
  · obtain ⟨status, resp⟩ := fetched
    cases resp with
    | none => trivial
    | some resp =>
      refine within_mono ?_ (within_indexResponse (fun _ _ => trivial) url hashes status resp
        fun _ _ _ => trivial)
      rintro op stores rfl
      cases stores

theorem Passes.proceeds {target : Url} (passes : Passes url w r) (books : Bookkeeping r.log)
    (first : FirstRequest events target) (unread : ∀ event ∈ events, event.op ≠ .dateNow) :
    Proceeds url.str w (r.log ++ events) := by
  obtain ⟨before, answer, rest, rfl, unsent, succeeded⟩ := first
  have lead_eq : lead (r.log ++ (before ++ ⟨.sendRequest target, answer⟩ :: rest)) =
      r.log ++ before := by
    rw [← List.append_assoc]
    exact lead_of_request ((unsent_of_bookkeeping books).append unsent)
  constructor
  · exact passes.first.append _
  · rw [lead_eq]
    exact succeeded_append passes.succeeded succeeded
  · rw [lead_eq]
    rintro ⟨row, now, stored, error, member, late⟩
    rcases List.mem_append.mp member with prior | looked
    · exact passes.kept ⟨row, now, stored, error, prior, late⟩
    · exact unread _ (List.mem_append_left _ looked) rfl

/-- A call keeps from all requests, or comes to its loop and sends there what follows from
the stored redirects. -/
theorem crawlPage_sends {result : Except Str Bool}
    (run : env.Run fails (crawlPage env urlStr) ⟨w, []⟩ result after) :
    (Unsent after.log ∧ (¬Proceeds urlStr w after.log ∨
      (Url.ofString (env.uninitUrl urlStr) urlStr).str = urlStr ∧
        LeadsOn env w.permaRedirects 3 (Url.ofString (env.uninitUrl urlStr) urlStr))) ∨
    (Url.ofString (env.uninitUrl urlStr) urlStr).str = urlStr ∧ Proceeds urlStr w after.log ∧
      ¬LeadsOn env w.permaRedirects 3 (Url.ofString (env.uninitUrl urlStr) urlStr) ∧
      ∃ target, Sends after.log target ∧
        (w.permaRedirects urlStr = none → target = Url.ofString (env.uninitUrl urlStr) urlStr) := by
  -- a call that stops before the redirect loop sends nothing
  rcases crawlPage_stops run with stops | ⟨_, same, row, r, starts, passes, rest⟩
  · exact .inl ⟨unsent_of_bookkeeping stops.books, .inl stops.not_proceeds⟩
  · obtain ⟨events, log, ran⟩ := runs_from_empty rest
    obtain ⟨events', log', unread⟩ := log_of_runs (unread_fetchAndIndex row.hashes) ran
    cases log'
    have loop := fetchAndIndex_sends unsent_nil succeeded_nil ran
    rw [passes.redirects] at loop
    rw [log]
    -- no request: either the chain led on past the budget, or something failed
    rcases loop with ⟨unsent, held⟩ | ⟨leads, target, first, plain⟩
    · have silent := (unsent_of_bookkeeping starts.books).append unsent
      refine .inl ⟨silent, held.imp (fun failed proceeds => failed fun event member => ?_)
        (⟨same, ·⟩)⟩
      have succeeded := proceeds.succeeded
      rw [lead_of_unsent silent] at succeeded
      exact succeeded event (List.mem_append_right _ member)
    · -- the first request is where the stored redirects lead
      have proceeds := passes.proceeds starts.books first unread
      rw [same] at proceeds plain
      obtain ⟨before, answer, rest, rfl, _⟩ := first
      refine .inr ⟨same, proceeds, leads, target, ⟨answer, ?_⟩, plain⟩
      exact List.mem_append_right _ (List.mem_append_right _ List.mem_cons_self)

/-- Some request is sent exactly when nothing keeps the call from the loop and fewer than
three stored redirects lead on. -/
theorem sends_iff {result : Except Str Bool}
    (run : env.Run fails (crawlPage env urlStr) ⟨w, []⟩ result after) :
    (∃ crawlUrl, Sends after.log crawlUrl) ↔ Proceeds urlStr w after.log ∧
      ¬LeadsOn env w.permaRedirects 3 (Url.ofString (env.uninitUrl urlStr) urlStr) := by
  rcases crawlPage_sends run with ⟨unsent, held⟩ | ⟨_, proceeds, leads, target, sends, _⟩
  · apply iff_of_false
    · rintro ⟨_, sends⟩
      exact unsent.not_sends sends
    · rintro ⟨proceeds, leads⟩
      exact held.elim (· proceeds) fun stored => leads stored.2
  · exact iff_of_true ⟨target, sends⟩ ⟨proceeds, leads⟩

/-- A redirect is stored for the URL, which was not requested so far. -/
structure Elsewhere (urlStr : Str) (r : Rec) : Prop where
  stored : r.state.permaRedirects urlStr ≠ none
  unrequested : ∀ crawlUrl, crawlUrl.str = urlStr → ¬Sends r.log crawlUrl

theorem Elsewhere.step {op : Op} {answer : Except Str op.Answer} (elsewhere : Elsewhere urlStr r)
    (taken : record (env.step fails) r op answer after)
    (other : ∀ crawlUrl, op = .sendRequest crawlUrl → crawlUrl.str ≠ urlStr) :
    Elsewhere urlStr after := by
  constructor
  · cases answer with
    | error x =>
      obtain ⟨⟨later, _, _, effect⟩, _⟩ := taken
      rw [effect]
      exact elsewhere.stored
    | ok a =>
      obtain ⟨later, _, _, effect, _⟩ := step_ok taken
      rw [effect]
      cases op with
      -- an entry is replaced or added, never taken away
      | upsertRedirect fromUrl toUrl =>
        change Table.upsert _ fromUrl toUrl urlStr ≠ none
        simp only [Table.upsert]
        split
        · exact Option.some_ne_none _
        · exact elsewhere.stored
      | _ => exact elsewhere.stored
  · rintro crawlUrl same ⟨answer', member⟩
    rw [taken.2] at member
    rcases List.mem_append.mp member with before | last
    · exact elsewhere.unrequested crawlUrl same ⟨answer', before⟩
    · cases List.mem_singleton.mp last
      exact other crawlUrl rfl same

theorem elsewhere_of_silent {α : Type} {p : Crawl α} (within : Within Op.silent (fun _ => True) p)
    (elsewhere : Elsewhere urlStr r) :
    env.Wp fails p (fun _ after => Elsewhere urlStr after) r := by
  refine wp_mono (fun _ _ kept => kept.1)
    (wp_of_within (Elsewhere urlStr) (fun _ _ _ _ _ => trivial) ?_
    within elsewhere)
  intro s op answer next silent kept taken
  refine kept.step taken ?_
  rintro crawlUrl rfl
  cases silent answer

/-- A URL with a stored redirect is left for it whenever a round comes to it. -/
theorem hop_elsewhere {resp : Option Response} (elsewhere : Elsewhere urlStr r) :
    env.Wp fails (hop env url crawlUrl resp) (fun _ after => Elsewhere urlStr after) r := by
  apply wp_perform_bind.mpr
  intro answer middle taken
  have looked : Elsewhere urlStr middle := elsewhere.step taken nofun
  rcases answer with x | redirect
  · exact looked
  · obtain ⟨found, _⟩ := stored_redirect taken
    -- a stored redirect from here, so nothing is requested in this round
    cases redirect with
    | some toUrl => exact looked
    -- what is requested has no stored redirect, but the page has one
    | none =>
      apply wp_perform_bind.mpr
      intro answer asked requested
      have other : Elsewhere urlStr asked := by
        refine looked.step requested ?_
        rintro _ ⟨⟩ rfl
        exact elsewhere.stored found.symm
      cases answer with
      | error x => exact other
      | ok answered =>
        rw [then_ok]
        split
        · exact other
        · split
          · exact elsewhere_of_silent (within_followRedirect (fun _ _ => trivial) (fun _ _ => rfl)
              (fun _ _ _ => rfl) url crawlUrl _ answered) other
          · exact other

theorem followRedirects_elsewhere {fuel count : Nat} {resp : Option Response}
    (elsewhere : Elsewhere urlStr r) :
    env.Wp fails (followRedirects env url fuel count crawlUrl resp)
      (fun _ after => Elsewhere urlStr after) r := by
  induction fuel generalizing count crawlUrl resp r with
  | zero => exact elsewhere
  | succ fuel ih =>
    refine wp_bind.mpr (wp_mono ?_ (hop_elsewhere elsewhere))
    rintro (x | next) middle elsewhere
    · exact elsewhere
    · rw [then_ok]
      split
      · exact ih elsewhere
      · exact elsewhere

/-- The URL itself is requested exactly when nothing keeps the call from the loop and no
redirect is stored for it. -/
theorem sends_own_iff {result : Except Str Bool}
    (run : env.Run fails (crawlPage env urlStr) ⟨w, []⟩ result after) :
    (∃ crawlUrl, crawlUrl.str = urlStr ∧ Sends after.log crawlUrl) ↔
      Proceeds urlStr w after.log ∧ w.permaRedirects urlStr = none := by
  constructor
  · -- an own request would come after a stored redirect, which leads elsewhere
    rintro ⟨crawlUrl, own, sends⟩
    refine ⟨((sends_iff run).mp ⟨crawlUrl, sends⟩).1, ?_⟩
    by_contra stored
    rcases crawlPage_stops run with stops | ⟨_, _, row, r, starts, passes, rest⟩
    · exact (unsent_of_bookkeeping stops.books).not_sends sends
    · have elsewhere : Elsewhere urlStr r :=
        ⟨by rwa [passes.redirects], fun _ _ => (unsent_of_bookkeeping starts.books).not_sends⟩
      have kept : Elsewhere urlStr after :=
        of_loop (Elsewhere urlStr) (followRedirects_elsewhere elsewhere) elsewhere_of_silent rest
      exact kept.unrequested crawlUrl own sends
  · -- the first request is for the page if no redirect is stored for it
    rintro ⟨proceeds, missing⟩
    rcases crawlPage_sends run
      with ⟨_, held | ⟨same, toUrl, found, _⟩⟩ | ⟨same, _, _, target, sends, plain⟩
    · exact absurd proceeds held
    · rw [same, missing] at found
      cases found
    · exact ⟨target, by rw [plain missing, same], sends⟩

/-! ### The time of the error -/

/-- A proxy error that the row records dates from `t` or later. -/
def ErrorSince (t : Time) (row : PageRow) : Prop := row.lastStatus.getD 0 = 53 → CrawledSince t row

/-- The clock shows at least `t`, and so does the time of a proxy error of the page. -/
structure DatedSince (t : Time) (urlStr : Str) (w : World) : Prop where
  now : t ≤ w.now
  rows : ∀ row, w.pages urlStr = some row → ErrorSince t row

variable {t : Time}

theorem errorSince_new (page : NewPage) (now : Time) : ErrorSince t (page.row now) := by
  intro error
  cases error

/-- An UPDATE sets status and time together, or leaves both. -/
theorem errorSince_now {row : PageRow} {now : Time} (past : t ≤ now)
    (stamped : row.lastCrawledAt = some now) :
    ErrorSince t row :=
  fun _ => ⟨now, stamped, past⟩

theorem DatedSince.update {key : Str} {change : PageRow → PageRow} (dated : DatedSince t urlStr w)
    (closed : ∀ row, ErrorSince t row → ErrorSince t (change row)) :
    DatedSince t urlStr (w.setPages (w.pages.update key change)) := by
  refine ⟨dated.now, fun row stored => ?_⟩
  obtain ⟨old, before, rfl | rfl⟩ := Table.of_update stored
  · exact dated.rows _ before
  · exact closed old (dated.rows old before)

theorem DatedSince.deleteIf {key : Str} {condition : PageRow → Bool}
    (dated : DatedSince t urlStr w) :
    DatedSince t urlStr (w.setPages (w.pages.deleteIf key condition)) :=
  ⟨dated.now, fun row stored => dated.rows row (Table.of_deleteIf stored)⟩

theorem DatedSince.queueBatch {urls : List Str} (dated : DatedSince t urlStr w) :
    DatedSince t urlStr (w.setPages
      (urls.foldl (fun pages url => pages.update url fun row => row.setQueued w.now) w.pages)) := by
  induction urls generalizing w with
  | nil => exact dated
  | cons url urls ih =>
    exact ih (w := w.setPages (w.pages.update url fun row => row.setQueued w.now))
      (dated.update fun _ since => since)

/-- No operation of the crawler dates an error back. -/
theorem DatedSince.apply {op : Op} (dated : DatedSince t urlStr w) (a : op.Answer) :
    DatedSince t urlStr (env.apply w op a) := by
  cases op with
  | deletePage u => exact dated.deleteIf
  | deleteStale u => exact dated.deleteIf
  -- these statements set the time of the crawl
  | skipProxyError u => exact dated.update fun _ _ => errorSince_now dated.now rfl
  | updateUnchanged u status meta_ mime =>
    exact dated.update fun _ _ => errorSince_now dated.now rfl
  | updateContent u content => exact dated.update fun _ _ => errorSince_now dated.now rfl
  | updateFailed u status meta_ => exact dated.update fun _ _ => errorSince_now dated.now rfl
  | updateIndex u index => exact dated.update fun _ since => since
  | queueBatch pct count => exact dated.queueBatch
  -- a row that was inserted has no error
  | insertPage page =>
    refine ⟨dated.now, fun row stored => ?_⟩
    rcases Table.of_insertNew stored with before | rfl
    · exact dated.rows row before
    · exact errorSince_new page _
  | insertPages pages =>
    refine ⟨dated.now, fun row stored => ?_⟩
    rcases Table.of_insertAll stored with before | ⟨entry, member, rfl⟩
    · exact dated.rows row before
    · obtain ⟨page, _, rfl⟩ := List.mem_map.mp member
      exact errorSince_new _ _
  | _ => exact ⟨dated.now, dated.rows⟩

theorem DatedSince.step {op : Op} {answer : Except Str op.Answer} {next : World}
    (dated : DatedSince t urlStr w) (taken : env.step fails w op answer next) :
    DatedSince t urlStr next := by
  obtain ⟨later, forward, happened⟩ := taken
  have ticked : DatedSince t urlStr (w.tick later) := ⟨Int.le_trans dated.now forward, dated.rows⟩
  cases answer with
  | error x =>
    rw [happened.2]
    exact ticked
  | ok a =>
    rw [happened.2]
    exact ticked.apply a

/-- The time that a call reads is over when the call is. -/
theorem clock_of_run {result : Except Str Bool} {now : Time}
    (run : env.Run fails (crawlPage env urlStr) ⟨w, []⟩ result after)
    (read : ⟨.dateNow, .ok now⟩ ∈ after.log) : now ≤ after.state.now := by
  suffices past : ∀ now, ⟨.dateNow, .ok now⟩ ∈ after.log → now ≤ after.state.now from past now read
  refine runs_invariant (fun r => ∀ now, ⟨.dateNow, .ok now⟩ ∈ r.log → now ≤ r.state.now) ?_ run
    fun now member => absurd member List.not_mem_nil
  intro r op answer next past taken now member
  have forward := step_now taken
  rw [taken.2] at member
  rcases List.mem_append.mp member with before | last
  · exact Int.le_trans (past now before) forward
  · cases List.mem_singleton.mp last
    obtain ⟨later, _, possible, effect, _⟩ := step_ok taken
    rw [effect]
    exact Int.le_of_eq possible

/-! ### Histories of calls -/

structure PageCall where
  before : World
  result : Except Str Bool
  after : Rec

/-- Calls of `crawlPage` on one URL, from the tables of `w` on. Between two of them anything
may happen that the crawler does, as often as it likes and at any time. -/
inductive Calls (env : Env) (fails : Op → Str → Prop) (urlStr : Str) : World → List PageCall → Prop
  | none {w : World} : Calls env fails urlStr w []
  | next {w : World} {call : PageCall} {later : List PageCall}
      (between : Steps (env.step fails) w call.before)
      (run : env.Run fails (crawlPage env urlStr) ⟨call.before, []⟩ call.result call.after)
      (rest : Calls env fails urlStr call.after.state later) :
        Calls env fails urlStr w (call :: later)

/-- The call leaves a row with the status 53, which it wrote at `t`. -/
def PageCall.Records53 (urlStr : Str) (t : Time) (call : PageCall) : Prop :=
  call.before.now ≤ t ∧ t ≤ call.after.state.now ∧
    ∃ row, call.after.state.pages urlStr = some row ∧ row.lastStatus = some 53 ∧
      row.lastCrawledAt = some t

/-- The call begins before the 21 days are over. -/
def PageCall.Early (t : Time) (call : PageCall) : Prop := call.before.now < t + 21 * day

instance (t : Time) (call : PageCall) : Decidable (call.Early t) :=
  inferInstanceAs (Decidable (_ < _))

variable {calls : List PageCall}

theorem Calls.run_of_mem (history : Calls env fails urlStr w calls) :
    ∀ call ∈ calls, env.Run fails (crawlPage env urlStr)
      ⟨call.before, []⟩ call.result call.after := by
  induction history with
  | none => exact fun call member => absurd member List.not_mem_nil
  | next _ run _ ih => exact List.forall_mem_cons.mpr ⟨run, ih⟩

theorem DatedSince.run {α : Type} {p : Crawl α} {result : Except Str α}
    (dated : DatedSince t urlStr r.state) (run : env.Run fails p r result after) :
    DatedSince t urlStr after.state :=
  runs_invariant (fun r => DatedSince t urlStr r.state)
    (fun _ _ _ _ dated taken => dated.step taken.1) run dated

/-- An error is not dated back in the course of a history. -/
theorem Calls.datedSince (history : Calls env fails urlStr w calls)
    (dated : DatedSince t urlStr w) :
    ∀ call ∈ calls, DatedSince t urlStr call.before := by
  induction history with
  | none => exact fun call member => absurd member List.not_mem_nil
  | @next w call later between run _ ih =>
    have begun : DatedSince t urlStr call.before :=
      between.invariant (DatedSince t urlStr) (fun _ _ _ _ dated taken => dated.step taken) dated
    exact List.forall_mem_cons.mpr ⟨begun, ih (DatedSince.run (r := ⟨call.before, []⟩) begun run)⟩

/-- What a call recorded stays the oldest error that later calls find. -/
theorem Calls.tail_datedSince {call : PageCall} {later : List PageCall}
    (history : Calls env fails urlStr w (call :: later)) (recorded : call.Records53 urlStr t) :
    ∀ next ∈ later, DatedSince t urlStr next.before := by
  obtain ⟨_, past, row, stored, _, crawled⟩ := recorded
  cases history with
  | next _ _ rest =>
    refine rest.datedSince ⟨past, fun row' stored' => ?_⟩
    cases stored.symm.trans stored'
    exact errorSince_now (Int.le_refl t) crawled

/-- A call that is over 21 weeks after the error at most is not ended by it. -/
theorem not_skipsProxyError {call : PageCall} (dated : DatedSince t urlStr call.before)
    (run : env.Run fails (crawlPage env urlStr) ⟨call.before, []⟩ call.result call.after)
    (ended : call.after.state.now ≤ t + 21 * 7 * day) :
    ¬SkipsProxyError urlStr call.before call.after.log := by
  rintro ⟨row, now, stored, error, read, late⟩
  obtain ⟨crawled, found, since⟩ := dated.rows row stored error
  have past := clock_of_run run read
  rw [found, Option.getD_some] at late
  have least : t + 21 * 7 * day ≤ crawled + 21 * 7 * day := Int.add_le_add_right since _
  exact Int.lt_irrefl _ (Int.lt_of_lt_of_le late (Int.le_trans past (Int.le_trans ended least)))

/-- After a call that recorded a proxy error, no call that begins within 21 days requests
the URL exactly when each of them is kept from its redirect loop or finds a redirect stored
for the URL; none requests anything exactly when each is kept from the loop or finds three
stored redirects in a row. The check for the proxy error keeps no call from the loop that is
over within 21 weeks. -/
theorem backoff_iff {call : PageCall} {later : List PageCall}
    (history : Calls env fails urlStr w (call :: later)) (recorded : call.Records53 urlStr t) :
    ((∀ next ∈ later, next.Early t → ∀ crawlUrl, crawlUrl.str = urlStr →
      ¬Sends next.after.log crawlUrl) ↔
      ∀ next ∈ later, next.Early t → Proceeds urlStr next.before next.after.log →
        next.before.permaRedirects urlStr ≠ none) ∧
    ((∀ next ∈ later, next.Early t → ∀ crawlUrl, ¬Sends next.after.log crawlUrl) ↔
      ∀ next ∈ later, next.Early t → Proceeds urlStr next.before next.after.log →
        LeadsOn env next.before.permaRedirects 3 (Url.ofString (env.uninitUrl urlStr) urlStr)) ∧
    ∀ next ∈ later, next.after.state.now ≤ t + 21 * 7 * day →
      ¬SkipsProxyError urlStr next.before next.after.log := by
  have runs := (List.forall_mem_cons.mp history.run_of_mem).2
  refine ⟨?_, ?_, ?_⟩
  · -- requests for the page itself
    refine forall_congr' fun next => forall_congr' fun member => forall_congr' fun _ => ?_
    have own := sends_own_iff (runs next member)
    constructor
    · intro silent proceeds missing
      obtain ⟨crawlUrl, same, sends⟩ := own.mpr ⟨proceeds, missing⟩
      exact silent crawlUrl same sends
    · intro held crawlUrl same sends
      obtain ⟨proceeds, missing⟩ := own.mp ⟨crawlUrl, same, sends⟩
      exact held proceeds missing
  · -- requests for whatever URL
    refine forall_congr' fun next => forall_congr' fun member => forall_congr' fun _ => ?_
    have any := sends_iff (runs next member)
    constructor
    · intro silent proceeds
      by_contra short
      obtain ⟨crawlUrl, sends⟩ := any.mpr ⟨proceeds, short⟩
      exact silent crawlUrl sends
    · intro held crawlUrl sends
      obtain ⟨proceeds, short⟩ := any.mp ⟨crawlUrl, sends⟩
      exact short (held proceeds)
  · -- the check of the age of the error ends no call
    intro next member ended
    exact not_skipsProxyError (history.tail_datedSince recorded next member)
      (runs next member) ended

/-- Every request is refused, and everything may be crawled. -/
def Outside.refusing : Outside where
  web _ := ⟨lit "53", lit "Proxy request refused", []⟩
  allows _ := true
  failure _ := none

/-- A call of `crawlPage` on the tables of `w`. -/
def Outside.call (outside : Outside) (env : Env) (urlStr : Str) (w : World) : PageCall where
  before := w
  result := (outside.run env (crawlPage env urlStr) ⟨w, []⟩).1
  after := (outside.run env (crawlPage env urlStr) ⟨w, []⟩).2

def refusedCall : PageCall := Outside.refusing.call Env.small (lit "gemini://h/") World.empty

/-- The next call, a day later. -/
def nextDayCall : PageCall :=
  Outside.refusing.call Env.small (lit "gemini://h/") (refusedCall.after.state.tick day)

theorem refused_history :
    Calls Env.small never (lit "gemini://h/") World.empty [refusedCall, nextDayCall] := by
  have reliable : ∀ op x, Outside.refusing.failure op = some x → never op x :=
    fun _ _ failed => by cases failed
  have passing : Env.small.step never refusedCall.after.state .dateNow
      (.ok day) nextDayCall.before :=
    ⟨day, by decide, rfl, rfl⟩
  exact .next .none (Outside.run_of_ends reliable rfl)
    (.next (.next .none passing) (Outside.run_of_ends reliable rfl) .none)

theorem refusedCall_records : refusedCall.Records53 (lit "gemini://h/") 0 := by
  have written : (refusedCall.after.state.pages (lit "gemini://h/")).map
      (fun row => (row.lastStatus, row.lastCrawledAt)) = some (some 53, some 0) := by decide
  obtain ⟨row, stored, same⟩ := Option.map_eq_some_iff.mp written
  exact ⟨by decide, by decide, row, stored, (Prod.mk.inj same).1, (Prod.mk.inj same).2⟩

theorem LastRequest.sends {resp : Response} (last : LastRequest log crawlUrl resp) :
    Sends log crawlUrl := by
  obtain ⟨event, member, answered⟩ := List.mem_filterMap.mp (List.mem_of_getLast? last)
  rw [answered_of_requested answered] at member
  exact ⟨_, member⟩

theorem backoff_iff_next_day :
    ((∀ next ∈ [nextDayCall], next.Early 0 → ∀ crawlUrl, crawlUrl.str = lit "gemini://h/" →
        ¬Sends next.after.log crawlUrl) ↔
      ∀ next ∈ [nextDayCall], next.Early 0 →
        Proceeds (lit "gemini://h/") next.before next.after.log →
        next.before.permaRedirects (lit "gemini://h/") ≠ none) ∧
    ((∀ next ∈ [nextDayCall], next.Early 0 → ∀ crawlUrl, ¬Sends next.after.log crawlUrl) ↔
      ∀ next ∈ [nextDayCall], next.Early 0 →
        Proceeds (lit "gemini://h/") next.before next.after.log →
        LeadsOn Env.small next.before.permaRedirects 3 (Url.ofString 0 (lit "gemini://h/"))) ∧
    ∀ next ∈ [nextDayCall], next.after.state.now ≤ 0 + 21 * 7 * day →
      ¬SkipsProxyError (lit "gemini://h/") next.before next.after.log :=
  backoff_iff refused_history refusedCall_records

/-- A day after a call recorded the status 53, the URL is requested again. -/
theorem requested_next_day :
    Calls Env.small never (lit "gemini://h/") World.empty [refusedCall, nextDayCall] ∧
      Env.small.forceReindex = false ∧ refusedCall.Records53 (lit "gemini://h/") 0 ∧
      nextDayCall.Early 0 ∧ (Url.ofString 0 (lit "gemini://h/")).str = lit "gemini://h/" ∧
      Sends nextDayCall.after.log (Url.ofString 0 (lit "gemini://h/")) := by
  have last : LastRequest nextDayCall.after.log (Url.ofString 0 (lit "gemini://h/"))
      ⟨lit "53", lit "Proxy request refused", []⟩ := by decide
  exact ⟨refused_history, rfl, refusedCall_records, by decide, by decide, last.sends⟩

end Tlgs

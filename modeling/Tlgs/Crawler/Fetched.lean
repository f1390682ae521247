import Tlgs.Crawler.Start

/-!
# The response that a call processes

A call of `crawlPage` either records no response but redirects and stores no content, or
it goes on from the response to its last request. What it does with that response
depends on the stored row of the page.
-/
namespace Tlgs

open Bytes Interactive Interactive.Program

/-- A response with a readable status other than 3x. -/
def Response.Concrete (resp : Response) (status : Int) : Prop :=
  stoi resp.geminiStatus = some status ∧ status.tdiv 10 ≠ 3

/-- No concrete response, and no UPDATE of the content. -/
def Quiet : Event Op Op.Answer Str → Prop
  | ⟨.sendRequest _, .ok resp⟩ => ∀ status, ¬resp.Concrete status
  | ⟨.updateContent _ _, _⟩ => False
  | _ => True

def QuietLog (log : Log) : Prop := ∀ event ∈ log, Quiet event

/-- Neither a request nor the UPDATE of the content. -/
def Op.quiet : Op → Prop
  | sendRequest _ | updateContent _ _ => False
  | _ => True

theorem quiet_of_op {event : Event Op Op.Answer Str} (quiet : event.op.quiet) : Quiet event := by
  obtain ⟨op, answer⟩ := event
  cases op <;> trivial

variable {env : Env} {fails : Op → Str → Prop} {r after : Rec}

theorem quiet_step {op : Op} {answer : Except Str op.Answer}
    (taken : record (env.step fails) r op answer after) (quiet : QuietLog r.log)
    (event : Quiet ⟨op, answer⟩) : QuietLog after.log :=
  all_of_record taken quiet event

theorem wp_quiet {α : Type} {p : Crawl α} (within : Within Op.quiet (fun _ => True) p)
    (quiet : QuietLog r.log) : env.Wp fails p (fun _ after => QuietLog after.log) r :=
  wp_all_record within (fun _ _ calm => quiet_of_op calm) quiet

/-! ### The redirect loop -/

/-- The last operation was a request, and the first one with a concrete response. -/
def FetchedFrom (log : Log) (crawlUrl : Url) (resp : Response) : Prop :=
  ∃ before, QuietLog before ∧ log = before ++ [⟨.sendRequest crawlUrl, .ok resp⟩]

/-- A URL that the parser made, good or not. -/
def Parsed (url : Url) : Prop := ∃ uninit str, url = Url.ofString uninit str

theorem Parsed.wellFormed {url : Url} (parsed : Parsed url) (good : url.good = true) :
    url.WellFormed := by
  obtain ⟨uninit, str, rfl⟩ := parsed
  exact Url.wellFormed_of_good good

variable {url crawlUrl : Url}

/-- A round that follows a redirect. -/
theorem followRedirect_quiet {status : Int} {resp : Response} (quiet : QuietLog r.log) :
    env.Wp fails (followRedirect env url crawlUrl status resp) (fun result after =>
      QuietLog after.log ∧
        ∀ next, result = .ok next → next.status = status ∧ Parsed next.crawlUrl) r := by
  unfold followRedirect
  dsimp only
  split
  · -- "Bad redirect"
    exact ⟨quiet, nofun⟩
  · split
    · -- "Redirected to non-gemini URL"
      exact ⟨quiet, nofun⟩
    · apply wp_perform_bind.mpr
      intro answer asked taken
      have quiet := quiet_step taken quiet (quiet_of_op (by trivial))
      cases answer with
      | error x => exact ⟨quiet, nofun⟩
      | ok allowed =>
        rw [then_ok]
        split
        · -- "Redirected to blocked URL"
          exact ⟨quiet, nofun⟩
        · have calm : Within Op.quiet (fun _ => True)
              (rememberRedirect crawlUrl
                (Url.ofString (env.uninitUrl resp.meta_) resp.meta_) status) :=
            within_rememberRedirect (fun _ _ => trivial) _ _ _
          refine wp_bind.mpr (wp_mono ?_ (wp_quiet calm quiet))
          rintro (x | _) last quiet
          · exact ⟨quiet, nofun⟩
          · refine ⟨quiet, ?_⟩
            rintro next ended
            cases ended
            exact ⟨rfl, _, _, rfl⟩

/-- A round ends in a redirect or a failure, or with a concrete response. -/
theorem hop_outcome {resp : Option Response} (quiet : QuietLog r.log) :
    env.Wp fails (hop env url crawlUrl resp) (fun result after =>
      (QuietLog after.log ∧
        ∀ next, result = .ok next → next.status.tdiv 10 = 3 ∧ Parsed next.crawlUrl) ∨
      ∃ next answered, result = .ok next ∧ next.resp = some answered ∧
        answered.Concrete next.status ∧ FetchedFrom after.log crawlUrl answered) r := by
  apply wp_perform_bind.mpr
  intro answer middle taken
  have quiet := quiet_step taken quiet (quiet_of_op (by trivial))
  rcases answer with x | _ | toUrl
  · exact .inl ⟨quiet, nofun⟩
  · -- no stored redirect, so the URL is requested
    apply wp_perform_bind.mpr
    intro answer asked taken
    cases answer with
    | error x => exact .inl ⟨quiet_step taken quiet trivial, nofun⟩
    | ok answered =>
      rw [then_ok]
      cases number : stoi answered.geminiStatus with
      | none =>
        -- `stoi` throws
        refine .inl ⟨quiet_step taken quiet ?_, nofun⟩
        rintro status ⟨found, _⟩
        cases number.symm.trans found
      | some status =>
        by_cases redirects : status.tdiv 10 = 3
        · have calm : Quiet ⟨.sendRequest crawlUrl, .ok answered⟩ := by
            rintro status' ⟨found, other⟩
            cases number.symm.trans found
            exact other redirects
          simp only [redirects, if_true]
          refine wp_mono ?_ (followRedirect_quiet (quiet_step taken quiet calm))
          rintro result last ⟨quiet, same⟩
          refine .inl ⟨quiet, fun next ended => ?_⟩
          obtain ⟨number, parsed⟩ := same next ended
          rw [number]
          exact ⟨redirects, parsed⟩
        · -- the loop ends with this response
          simp only [redirects, if_false]
          exact .inr ⟨_, answered, rfl, rfl, ⟨number, redirects⟩, _, quiet, taken.2⟩
  · -- the round follows a stored redirect
    refine .inl ⟨quiet, ?_⟩
    rintro next ended
    cases ended
    exact ⟨rfl, _, _, rfl⟩

/-- The loop ends in a failure or in a redirect, or with a concrete response. -/
theorem followRedirects_outcome {fuel count : Nat} {resp : Option Response}
    (parsed : Parsed crawlUrl) (quiet : QuietLog r.log) :
    env.Wp fails (followRedirects env url fuel count crawlUrl resp) (fun result after =>
      (QuietLog after.log ∧ ∀ status resp, result = .ok (status, resp) → status.tdiv 10 = 3) ∨
      ∃ status lastUrl answered, result = .ok (status, some answered) ∧ Parsed lastUrl ∧
        answered.Concrete status ∧ FetchedFrom after.log lastUrl answered) r := by
  induction fuel generalizing count crawlUrl resp r with
  | zero =>
    refine .inl ⟨quiet, ?_⟩
    rintro status resp ended
    cases ended
    rfl
  | succ fuel ih =>
    refine wp_bind.mpr (wp_mono ?_ (hop_outcome quiet))
    rintro (x | next) after (⟨quiet, redirects⟩ | ⟨_, answered, ended, final, concrete, fetched⟩)
    · -- the round failed
      exact .inl ⟨quiet, nofun⟩
    · cases ended
    · rw [then_ok]
      split
      · -- a redirect: the rest starts from its target
        exact ih (redirects next rfl).2 quiet
      · -- the redirects are used up
        refine .inl ⟨quiet, ?_⟩
        rintro status resp ended
        cases ended
        exact (redirects next rfl).1
    · cases ended
      -- a response that is no redirect ends the loop
      rw [then_ok, if_neg (fun again => concrete.2 again.1), final]
      exact .inr ⟨_, crawlUrl, answered, rfl, parsed, concrete, fetched⟩

/-! ### From the start of the call to the response -/

/-- The call processes `resp`, fetched from `crawlUrl`, when `row` is stored for the page. -/
structure Processes (url : Url) (w : World) (crawlUrl : Url) (status : Int) (resp : Response)
    (row : PageRow) (r : Rec) : Prop where
  parsed : Parsed crawlUrl
  concrete : resp.Concrete status
  fetched : FetchedFrom r.log crawlUrl resp
  links : r.state.links = w.links
  stored : r.state.pages url.str = some row
  origin : StoredOrNew url w row

theorem quiet_of_keepsBooks {op : Op} (keeps : op.keepsBooks) : op.quiet := by
  cases op <;> trivial

theorem quietLog_of_bookkeeping {log : Log} (books : Bookkeeping log) : QuietLog log :=
  fun event member => quiet_of_op (quiet_of_keepsBooks (books event member))

theorem quiet_crawlFailed (url : Url) (error : Str) :
    Within Op.quiet (fun _ => True) (crawlFailed url error) :=
  within_mono (fun _ => quiet_of_keepsBooks) (keepsBooks_crawlFailed url error)

theorem quiet_storeFailure (url : Url) (status : Int) (meta_ : Str) :
    Within Op.quiet (fun _ => True) (storeFailure url status meta_) :=
  within_mono (fun _ => quiet_of_keepsBooks) (keepsBooks_storeFailure url status meta_)

theorem fetchAndIndex_outcome (env : Env) (fails : Op → Str → Prop) {w : World} {row : PageRow}
    (requested : Parsed url)
    (starts : Starts url w row r) :
    env.Wp fails (fetchAndIndex env url row.hashes) (fun result after =>
      QuietLog after.log ∨ ∃ crawlUrl status resp r', Processes url w crawlUrl status resp row r' ∧
        env.Run fails (indexResponse env url row.hashes status resp) r' result after) r := by
  have within : Within Op.fetches (fun _ => True) (followRedirects env url 6 0 url none) :=
    within_followRedirects (fun _ _ => trivial) url _ _ _ _
  have untouched : env.Wp fails (followRedirects env url 6 0 url none) (fun _ after =>
      after.state.pages = r.state.pages ∧ after.state.links = r.state.links) r :=
    wp_iff_runs.mpr fun _ _ run => run_fetches within run
  refine wp_bind.mpr (wp_mono ?_ (wp_and untouched
    (followRedirects_outcome requested (quietLog_of_bookkeeping starts.books))))
  rintro (x | ⟨status, resp⟩) middle ⟨⟨pages, links⟩,
    ⟨quiet, redirects⟩ | ⟨status', lastUrl, answered, ended, parsed, concrete, fetched⟩⟩
  · exact .inl quiet
  · cases ended
  · cases resp with
    | none => exact .inl quiet
    | some resp =>
      -- too many redirects: the status of the last one is stored as a failure
      have other : ¬status.tdiv 10 = 2 ∧ ¬status.tdiv 10 = 1 := by
        rw [redirects status _ rfl]
        decide
      refine wp_mono (fun _ _ quiet => .inl quiet) (wp_quiet ?_ quiet)
      change Within _ _ (indexResponse env url row.hashes status resp)
      simp only [indexResponse]
      rw [if_neg other.1, if_neg other.2]
      exact quiet_storeFailure url status _
  · cases ended
    refine wp_iff_runs.mpr fun result after run => .inr ⟨lastUrl, status, answered, middle, ?_, run⟩
    exact ⟨parsed, concrete, fetched, links.trans starts.links, by rw [pages, starts.stored],
      starts.origin⟩

/-- A call stays quiet, or it processes the response to its last request and then handles
what that throws. -/
theorem crawlPage_outcome {w : World} {urlStr : Str} {result : Except Str Bool}
    (run : env.Run fails (crawlPage env urlStr) ⟨w, []⟩ result after) :
    QuietLog after.log ∨
      (Url.ofString (env.uninitUrl urlStr) urlStr).good = true ∧
      (Url.ofString (env.uninitUrl urlStr) urlStr).str = urlStr ∧
      ∃ crawlUrl status resp row r',
        Processes (Url.ofString (env.uninitUrl urlStr) urlStr) w crawlUrl status resp row r' ∧
        env.Run fails
          ((indexResponse env (Url.ofString (env.uninitUrl urlStr) urlStr)
              row.hashes status resp).tryCatch
            (crawlFailed (Url.ofString (env.uninitUrl urlStr) urlStr))) r' result after := by
  rcases crawlPage_starts run with books | ⟨good, same, row, r₁, starts, rest⟩
  · exact .inl (quietLog_of_bookkeeping books)
  · have outcome := wp_iff_runs.mp (fetchAndIndex_outcome env fails ⟨_, _, rfl⟩ starts)
    rcases runs_tryCatch.mp rest with ⟨b, rfl, tried⟩ | ⟨x, middle, tried, handled⟩
    · -- nothing was thrown
      rcases outcome _ _ tried with quiet | ⟨crawlUrl, status, resp, r', processes, index⟩
      · exact .inl quiet
      · exact .inr ⟨good, same, crawlUrl, status, resp, row, r', processes,
          runs_tryCatch.mpr (.inl ⟨b, rfl, index⟩)⟩
    · -- an exception was thrown, and its handler stores no content
      rcases outcome _ _ tried with quiet | ⟨crawlUrl, status, resp, r', processes, index⟩
      · exact .inl (wp_iff_runs.mp (wp_quiet (quiet_crawlFailed _ x) quiet) _ _ handled)
      · exact .inr ⟨good, same, crawlUrl, status, resp, row, r', processes,
          runs_tryCatch.mpr (.inr ⟨x, middle, index, handled⟩)⟩

/-! ### The last request -/

/-- The URL that an operation requests, and the response if there was one. -/
def requested : Event Op Op.Answer Str → Option (Url × Option Response)
  | ⟨.sendRequest url, answer⟩ => some (url, answer.toOption)
  | _ => none

/-- The last request was for `crawlUrl`, and `resp` answered it. -/
def LastRequest (log : Log) (crawlUrl : Url) (resp : Response) : Prop :=
  (log.filterMap requested).getLast? = some (crawlUrl, some resp)

instance (log : Log) (crawlUrl : Url) (resp : Response) :
    Decidable (LastRequest log crawlUrl resp) :=
  inferInstanceAs (Decidable (_ = _))

theorem LastRequest.unique {log : Log} {firstUrl secondUrl : Url} {first second : Response}
    (left : LastRequest log firstUrl first) (right : LastRequest log secondUrl second) :
    firstUrl = secondUrl ∧ first = second := by
  have same := Option.some.inj (left.symm.trans right)
  cases same
  exact ⟨rfl, rfl⟩

theorem answered_of_requested {event : Event Op Op.Answer Str} {resp : Response}
    (answered : requested event = some (crawlUrl, some resp)) :
    event = ⟨.sendRequest crawlUrl, .ok resp⟩ := by
  obtain ⟨op, answer⟩ := event
  cases op with
  | sendRequest url =>
    cases answer with
    | error x => cases answered
    | ok found =>
      cases answered
      rfl
  | _ => cases answered

theorem LastRequest.not_quiet {log : Log} {resp : Response} {status : Int}
    (last : LastRequest log crawlUrl resp) (concrete : resp.Concrete status) : ¬QuietLog log := by
  intro quiet
  obtain ⟨event, member, answered⟩ := List.mem_filterMap.mp (List.mem_of_getLast? last)
  have calm := quiet event member
  rw [answered_of_requested answered] at calm
  exact calm status concrete

theorem lastRequest_of_fetched {log events : Log} {resp : Response}
    (fetched : FetchedFrom log crawlUrl resp) (others : ∀ event ∈ events, requested event = none) :
    LastRequest (log ++ events) crawlUrl resp := by
  obtain ⟨before, _, rfl⟩ := fetched
  have nothing : events.filterMap requested = [] := List.filterMap_eq_nil_iff.mpr others
  have request : requested ⟨.sendRequest crawlUrl, .ok resp⟩ = some (crawlUrl, some resp) := rfl
  simp [LastRequest, nothing, request]

/-! ### From the response on -/

/-- What a response with this status is made into. -/
def DocumentOf (env : Env) (url : Url) (status : Int) (resp : Response) (doc : Document) : Prop :=
  status.tdiv 10 = 2 ∧
      processBody env url (trimBlanks (parseMime resp.meta_).1)
        (mimeParam (parseMime resp.meta_).2 (lit "charset"))
        (mimeParam (parseMime resp.meta_).2 (lit "lang")) resp.body = .ok doc ∨
    status.tdiv 10 = 1 ∧ doc = processInput resp.meta_

theorem DocumentOf.unique {status : Int} {resp : Response} {doc doc' : Document}
    (left : DocumentOf env url status resp doc) (right : DocumentOf env url status resp doc') :
    doc = doc' := by
  rcases left with ⟨kind, processed⟩ | ⟨kind, rfl⟩
  · rcases right with ⟨_, processed'⟩ | ⟨kind', _⟩
    · exact Except.ok.inj (processed.symm.trans processed')
    · omega
  · rcases right with ⟨kind', _⟩ | ⟨_, rfl⟩
    · omega
    · rfl

theorem DocumentOf.not_redirect {status : Int} {resp : Response} {doc : Document}
    (document : DocumentOf env url status resp doc) : status.tdiv 10 ≠ 3 := by
  rcases document with ⟨kind, _⟩ | ⟨kind, _⟩
  · omega
  · omega

/-- The ways a response is dealt with. -/
theorem indexResponse_kinds (env : Env) (url : Url) (hashes : Hashes) (status : Int)
    (resp : Response) :
    (∃ doc, DocumentOf env url status resp doc ∧
      indexResponse env url hashes status resp = storeContent env url status resp doc) ∨
    (∃ mime, indexResponse env url hashes status resp = storeUnchanged url status resp mime) ∨
    (∃ x, indexResponse env url hashes status resp = throw x) ∨
    indexResponse env url hashes status resp = storeFailure url status resp.meta_ := by
  unfold indexResponse
  split
  next kind =>
    dsimp only
    -- a 2x response; the first test compares the raw bytes
    split
    · exact .inr (.inl ⟨_, rfl⟩)
    · cases processed : processBody env url (trimBlanks (parseMime resp.meta_).1)
          (mimeParam (parseMime resp.meta_).2 (lit "charset"))
          (mimeParam (parseMime resp.meta_).2 (lit "lang")) resp.body with
      | error x => exact .inr (.inr (.inl ⟨x, rfl⟩))
      | ok doc =>
        dsimp only
        simp only [storeDocument]
        -- the second test compares the extracted text
        split
        · exact .inr (.inl ⟨_, rfl⟩)
        · exact .inl ⟨doc, .inl ⟨kind, processed⟩, rfl⟩
  · split
    -- a 1x response
    next kind =>
      simp only [storeDocument]
      split
      · exact .inr (.inl ⟨_, rfl⟩)
      · exact .inl ⟨_, .inr ⟨kind, rfl⟩, rfl⟩
    · exact .inr (.inr (.inr rfl))

/-- A response is stored as new content, or without the UPDATE of the content. -/
theorem indexResponse_cases (env : Env) (url : Url) (hashes : Hashes) (status : Int)
    (resp : Response) :
    (∃ doc, DocumentOf env url status resp doc ∧
      indexResponse env url hashes status resp = storeContent env url status resp doc) ∨
    Within Op.quiet (fun _ => True) (indexResponse env url hashes status resp) := by
  rcases indexResponse_kinds env url hashes status resp with
    stores | ⟨mime, known⟩ | ⟨x, failed⟩ | failure
  · exact .inl stores
  · rw [known]
    exact .inr (within_bind (within_perform trivial) fun _ => within_pure)
  · rw [failed]
    exact .inr trivial
  · rw [failure]
    exact .inr (quiet_storeFailure url status _)

/-- A document with another hash than the stored one is stored. -/
theorem indexResponse_new {hashes : Hashes} {status : Int} {resp : Response} {doc : Document}
    (document : DocumentOf env url status resp doc)
    (changed : hashes.rawContentHash ≠ env.xxHash64 resp.body) :
    indexResponse env url hashes status resp = storeContent env url status resp doc := by
  unfold indexResponse storeDocument
  rcases document with ⟨kind, processed⟩ | ⟨kind, rfl⟩
  · rw [if_pos kind]
    dsimp only
    rw [if_neg (fun same => changed same.2), processed]
    dsimp only
    rw [if_neg (fun same => changed same.2.symm)]
  · rw [if_neg (by omega), if_pos kind, if_neg (fun same => changed same.2.symm)]

/-- A document with the stored hashes is taken to be stored. -/
theorem indexResponse_known {hashes : Hashes} {status : Int} {resp : Response} {doc : Document}
    (document : DocumentOf env url status resp doc) (off : env.forceReindex = false)
    (indexed : hashes.indexedContentHash = env.xxHash64 doc.body)
    (raw : hashes.rawContentHash = env.xxHash64 resp.body) :
    ∃ mime, indexResponse env url hashes status resp = storeUnchanged url status resp mime := by
  unfold indexResponse storeDocument
  rcases document with ⟨kind, processed⟩ | ⟨kind, rfl⟩
  · refine ⟨trimBlanks (parseMime resp.meta_).1, ?_⟩
    rw [if_pos kind]
    dsimp only
    rw [if_pos ⟨off, raw⟩]
  · refine ⟨(processInput resp.meta_).mime, ?_⟩
    rw [if_neg (by omega), if_pos kind, if_pos ⟨indexed.symm, raw.symm⟩]

/-- Operations that request nothing. -/
def Op.silent (op : Op) : Prop := ∀ answer, requested ⟨op, answer⟩ = none

theorem silent_of_quiet {op : Op} (quiet : op.quiet) : op.silent := by
  intro answer
  cases op <;> first | rfl | cases quiet

theorem silent_crawlFailed (url : Url) (error : Str) :
    Within Op.silent (fun _ => True) (crawlFailed url error) :=
  within_mono (fun _ => silent_of_quiet) (quiet_crawlFailed url error)

theorem silent_indexResponse (url : Url) (hashes : Hashes) (status : Int) (resp : Response) :
    Within Op.silent (fun _ => True) (indexResponse env url hashes status resp) := by
  refine within_mono ?_ (within_indexResponse (fun _ _ => trivial) url hashes status resp
    fun _ _ _ => trivial)
  intro op stores answer
  cases op <;> first | rfl | cases stores

/-- What the loop establishes and programs that request nothing preserve holds when the call
has ended. -/
theorem of_loop (property : Rec → Prop) {hashes : Hashes} {result : Except Str Bool}
    (loop : env.Wp fails (followRedirects env url 6 0 url none) (fun _ after => property after) r)
    (silent : ∀ {α : Type} {p : Crawl α} {r : Rec}, Within Op.silent (fun _ => True) p →
      property r → env.Wp fails p (fun _ after => property after) r)
    (run : env.Run fails ((fetchAndIndex env url hashes).tryCatch (crawlFailed url)) r
      result after) :
    property after := by
  suffices fetched : env.Wp fails ((fetchAndIndex env url hashes).tryCatch (crawlFailed url))
      (fun _ after => property after) r from wp_iff_runs.mp fetched result after run
  -- behind the loop nothing is left but silent operations
  refine wp_tryCatch.mpr (wp_bind.mpr (wp_mono ?_ loop))
  rintro (x | ⟨status, resp⟩) middle holds
  · exact silent (silent_crawlFailed url x) holds
  · cases resp with
    | none => exact silent (silent_crawlFailed url _) holds
    | some resp =>
      refine wp_mono ?_ (silent (silent_indexResponse url hashes status resp) holds)
      rintro (x | b) last holds
      · exact silent (silent_crawlFailed url x) holds
      · exact holds

/-- The response that is processed is the answer to the last request of the whole call. -/
theorem Processes.lastRequest {w : World} {resp : Response} {status : Int} {row : PageRow}
    {result : Except Str Bool} (processes : Processes url w crawlUrl status resp row r)
    (run : env.Run fails ((indexResponse env url row.hashes status resp).tryCatch (crawlFailed url))
      r result after) : LastRequest after.log crawlUrl resp := by
  obtain ⟨events, log, others⟩ := log_of_runs
    (within_tryCatch (silent_indexResponse url _ status resp) (silent_crawlFailed url)) run
  rw [log]
  exact lastRequest_of_fetched processes.fetched fun event member =>
    others event member event.answer

/-- A call whose last request got a concrete response processes it. -/
theorem processes_of_run {w : World} {urlStr : Str} {resp : Response} {status : Int}
    {result : Except Str Bool} (run : env.Run fails (crawlPage env urlStr) ⟨w, []⟩ result after)
    (last : LastRequest after.log crawlUrl resp) (concrete : resp.Concrete status) :
    (Url.ofString (env.uninitUrl urlStr) urlStr).str = urlStr ∧
    ∃ row r, Processes (Url.ofString (env.uninitUrl urlStr) urlStr) w crawlUrl status resp row r ∧
      env.Run fails
        ((indexResponse env (Url.ofString (env.uninitUrl urlStr) urlStr)
            row.hashes status resp).tryCatch
          (crawlFailed (Url.ofString (env.uninitUrl urlStr) urlStr))) r result after := by
  rcases crawlPage_outcome run with quiet | ⟨_, same, _, _, _, row, r, processes, rest⟩
  · exact absurd quiet (last.not_quiet concrete)
  · obtain ⟨rfl, rfl⟩ := last.unique (processes.lastRequest rest)
    cases concrete.1.symm.trans processes.concrete.1
    exact ⟨same, row, r, processes, rest⟩

end Tlgs

import Tlgs.Crawler.Fetched

/-!
# How many redirects are followed

The redirect loop along a chain of redirects, each of them answered by the host or found among
the stored ones. Nothing fails and everything may be crawled; time may pass at every step.
-/
namespace Tlgs

open Bytes Interactive Interactive.Program

/-- What the robots check and the hosts answer, whenever they are asked. -/
def Outside.Answers (outside : Outside) : (op : Op) → Except Str op.Answer → Prop
  | .shouldCrawl urlStr, answer => answer = .ok (outside.allows urlStr)
  | .sendRequest url, answer => answer = .ok (outside.web url)
  | _, _ => True

/-- The steps in which nothing fails and the outside answers. -/
def Env.stepAmong (env : Env) (outside : Outside) : Step Op Op.Answer Str World :=
  fun w op answer after => env.step never w op answer after ∧ outside.Answers op answer

inductive HopKind
  | stored
  | live
  deriving DecidableEq, Repr

/-- A chain of redirects from a URL to the one it ends at, with the kind of each hop and the
URLs on the way, no two of which are the same. -/
inductive RedirectChain (env : Env) (outside : Outside) (redirects : Table Str Str) :
    Url → List HopKind → List Str → Url → Prop
  | done {url : Url} (none : redirects url.str = none) :
      RedirectChain env outside redirects url [] [url.str] url
  | stored {url last : Url} {toUrl : Str} {kinds : List HopKind} {seen : List Str}
      (found : redirects url.str = some toUrl) (new : url.str ∉ seen)
      (rest : RedirectChain env outside redirects
        (Url.ofString (env.uninitUrl toUrl) toUrl) kinds seen last) :
      RedirectChain env outside redirects url (.stored :: kinds) (url.str :: seen) last
  | live {url last : Url} {status : Int} {kinds : List HopKind} {seen : List Str}
      (none : redirects url.str = none) (number : stoi (outside.web url).geminiStatus = some status)
      (redirect : status.tdiv 10 = 3)
      (good : (Url.ofString (env.uninitUrl (outside.web url).meta_) (outside.web url).meta_).good =
        true)
      (allowed : outside.allows
        (Url.ofString (env.uninitUrl (outside.web url).meta_) (outside.web url).meta_).str = true)
      (new : url.str ∉ seen)
      (rest : RedirectChain env outside redirects
        (Url.ofString (env.uninitUrl (outside.web url).meta_) (outside.web url).meta_)
          kinds seen last) :
      RedirectChain env outside redirects url (.live :: kinds) (url.str :: seen) last

variable {env : Env} {outside : Outside} {redirects : Table Str Str} {url crawlUrl last : Url}
  {kinds : List HopKind} {seen : List Str} {r after : Rec}

theorem RedirectChain.mem_seen
    (chain : RedirectChain env outside redirects crawlUrl kinds seen last) :
    crawlUrl.str ∈ seen := by
  cases chain with
  | done _ => exact List.mem_cons_self
  | stored _ _ _ => exact List.mem_cons_self
  | live _ _ _ _ _ _ _ => exact List.mem_cons_self

/-! ### Single steps -/

/-- Only the insertion of a row can fail. -/
theorem stepAmong_ok {op : Op} {answer : Except Str op.Answer}
    (taken : record (env.stepAmong outside) r op answer after) (free : ∀ w x, ¬op.Refused w x) :
    ∃ a, answer = .ok a := by
  obtain ⟨⟨⟨later, _, happened⟩, _⟩, _⟩ := taken
  cases answer with
  | ok a => exact ⟨a, rfl⟩
  | error x =>
    rcases happened.1 with failed | refused
    · exact failed.elim
    · exact absurd refused (free _ x)

theorem stepAmong_select {fromUrl : Str} {answer : Except Str (Option Str)}
    (taken : record (env.stepAmong outside) r (.selectRedirect fromUrl) answer after) :
    answer = .ok (r.state.permaRedirects fromUrl) ∧
      after.state.permaRedirects = r.state.permaRedirects := by
  obtain ⟨a, rfl⟩ := stepAmong_ok taken fun _ _ refused => refused
  obtain ⟨⟨⟨later, _, possible, effect⟩, _⟩, _⟩ := taken
  rw [effect]
  exact ⟨congrArg Except.ok possible, rfl⟩

theorem stepAmong_request {answer : Except Str Response}
    (taken : record (env.stepAmong outside) r (.sendRequest crawlUrl) answer after) :
    answer = .ok (outside.web crawlUrl) ∧ after.state.permaRedirects = r.state.permaRedirects ∧
      LastRequest after.log crawlUrl (outside.web crawlUrl) := by
  obtain ⟨⟨⟨later, _, happened⟩, rfl⟩, log⟩ := taken
  obtain ⟨_, effect⟩ := happened
  rw [effect, log]
  have request : requested ⟨.sendRequest crawlUrl, .ok (outside.web crawlUrl)⟩ =
      some (crawlUrl, some (outside.web crawlUrl)) := rfl
  exact ⟨rfl, rfl, by simp [LastRequest, request]⟩

theorem stepAmong_shouldCrawl {urlStr : Str} {answer : Except Str Bool}
    (taken : record (env.stepAmong outside) r (.shouldCrawl urlStr) answer after) :
    answer = .ok (outside.allows urlStr) ∧ after.state.permaRedirects = r.state.permaRedirects := by
  obtain ⟨⟨⟨later, _, happened⟩, rfl⟩, _⟩ := taken
  obtain ⟨_, effect⟩ := happened
  rw [effect]
  exact ⟨rfl, rfl⟩

theorem stepAmong_upsert {fromUrl toUrl : Str} {answer : Except Str Unit}
    (taken : record (env.stepAmong outside) r (.upsertRedirect fromUrl toUrl) answer after) :
    answer = .ok () ∧ ∀ s ≠ fromUrl, after.state.permaRedirects s = r.state.permaRedirects s := by
  obtain ⟨a, rfl⟩ := stepAmong_ok taken fun _ _ refused => refused
  obtain ⟨⟨⟨later, _, _, effect⟩, _⟩, _⟩ := taken
  rw [effect]
  exact ⟨rfl, fun s other => if_neg other⟩

/-! ### Rounds -/

/-- A round that finds a stored redirect. -/
theorem hop_stored {resp : Option Response} {toUrl : Str}
    (found : r.state.permaRedirects crawlUrl.str = some toUrl) :
    wp (record (env.stepAmong outside)) (hop env url crawlUrl resp) (fun result after =>
      result = .ok ⟨Url.ofString (env.uninitUrl toUrl) toUrl, resp, 30, true⟩ ∧
        after.state.permaRedirects = r.state.permaRedirects) r := by
  apply wp_perform_bind.mpr
  intro answer middle taken
  obtain ⟨rfl, kept⟩ := stepAmong_select taken
  rw [then_ok, found]
  exact ⟨rfl, kept⟩

/-- A round whose request is answered with something else than a redirect. -/
theorem hop_last {resp : Option Response} {status : Int}
    (none : r.state.permaRedirects crawlUrl.str = none)
    (concrete : (outside.web crawlUrl).Concrete status) :
    wp (record (env.stepAmong outside)) (hop env url crawlUrl resp) (fun result after =>
      result = .ok ⟨crawlUrl, some (outside.web crawlUrl), status, false⟩ ∧
        LastRequest after.log crawlUrl (outside.web crawlUrl)) r := by
  apply wp_perform_bind.mpr
  intro answer middle taken
  obtain ⟨rfl, _⟩ := stepAmong_select taken
  rw [then_ok, none]
  apply wp_perform_bind.mpr
  intro answer asked taken
  obtain ⟨rfl, _, fetched⟩ := stepAmong_request taken
  rw [then_ok, concrete.1]
  dsimp only
  rw [if_neg concrete.2]
  exact ⟨rfl, fetched⟩

/-- A round whose request is answered with a redirect that may be followed. -/
theorem hop_live {resp : Option Response} {status : Int} (gemini : url.protocol = lit "gemini")
    (none : r.state.permaRedirects crawlUrl.str = none)
    (number : stoi (outside.web crawlUrl).geminiStatus = some status)
    (redirect : status.tdiv 10 = 3) {redirectUrl : Url}
    (parsed : redirectUrl = Url.ofString (env.uninitUrl (outside.web crawlUrl).meta_)
      (outside.web crawlUrl).meta_)
    (good : redirectUrl.good = true) (other : crawlUrl.str ≠ redirectUrl.str)
    (allowed : outside.allows redirectUrl.str = true) :
    wp (record (env.stepAmong outside)) (hop env url crawlUrl resp) (fun result after =>
      result = .ok ⟨redirectUrl, some (outside.web crawlUrl), status, false⟩ ∧
        ∀ s ≠ crawlUrl.str, after.state.permaRedirects s = r.state.permaRedirects s) r := by
  -- the table has no redirect from here, so a request is sent
  apply wp_perform_bind.mpr
  intro answer middle taken
  obtain ⟨rfl, kept⟩ := stepAmong_select taken
  rw [then_ok, none]
  apply wp_perform_bind.mpr
  intro answer asked taken
  obtain ⟨rfl, kept', _⟩ := stepAmong_request taken
  rw [then_ok, number]
  dsimp only
  rw [if_pos redirect, followRedirect]
  rw [← parsed, if_neg (by simp [good, other]), if_neg (by simp [gemini])]
  -- the target is good and a Gemini URL, and the check lets it through
  apply wp_perform_bind.mpr
  intro answer checked taken
  obtain ⟨rfl, kept''⟩ := stepAmong_shouldCrawl taken
  rw [then_ok, allowed, if_neg nofun, rememberRedirect]
  have same : checked.state.permaRedirects = r.state.permaRedirects := by rw [kept'', kept', kept]
  -- only a permanent redirect is stored, under the URL that was requested
  by_cases permanent : status = 31
  · rw [if_pos permanent]
    apply wp_perform_bind.mpr
    intro answer stored taken
    obtain ⟨rfl, others⟩ := stepAmong_upsert taken
    exact ⟨rfl, fun s different => by rw [others s different, same]⟩
  · rw [if_neg permanent]
    exact ⟨rfl, fun s _ => by rw [same]⟩

/-! ### The loop along a chain -/

/-- What the loop has to do at the end of a chain: the last URL was fetched, and its response
is the one that is used. -/
def Arrives (outside : Outside) (last : Url) (status : Int)
    (result : Except Str (Int × Option Response)) (log : Log) : Prop :=
  result = .ok (status, some (outside.web last)) ∧ LastRequest log last (outside.web last)

/-- A stored redirect takes two of the five that are left, any other one. -/
theorem followRedirects_chain {status : Int} (gemini : url.protocol = lit "gemini")
    (chain : RedirectChain env outside redirects crawlUrl kinds seen last)
    (concrete : (outside.web last).Concrete status) {resp : Option Response} {count fuel : Nat}
    (low : count ≤ 5) (enough : 6 ≤ fuel + count)
    (kept : ∀ s ∈ seen, r.state.permaRedirects s = redirects s) :
    wp (record (env.stepAmong outside)) (followRedirects env url fuel count crawlUrl resp)
      (fun result after => Arrives outside last status result after.log ↔
        count + kinds.length + kinds.count .stored ≤ 5) r := by
  induction chain generalizing resp count fuel r with
  | done none =>
    cases fuel with
    | zero => omega
    | succ fuel =>
      have missing := (kept _ List.mem_cons_self).trans none
      refine wp_bind.mpr (wp_mono ?_ (hop_last missing concrete))
      rintro result middle ⟨rfl, fetched⟩
      rw [then_ok, if_neg fun again => concrete.2 again.1]
      exact iff_of_true ⟨rfl, fetched⟩ (by simpa using low)
  | stored found new rest ih =>
    cases fuel with
    | zero => omega
    | succ fuel =>
      have stored := (kept _ List.mem_cons_self).trans found
      refine wp_bind.mpr (wp_mono ?_ (hop_stored stored))
      rintro result middle ⟨rfl, same⟩
      rw [then_ok, List.length_cons, List.count_cons_self, Hop.count, if_pos rfl]
      have redirect : (30 : Int).tdiv 10 = 3 := by decide
      by_cases more : count + 1 < 5
      · rw [if_pos ⟨redirect, more⟩]
        refine wp_mono (fun _ _ arrives => arrives.trans (by omega))
          (ih concrete (by omega) (by omega) ?_)
        intro s member
        rw [same]
        exact kept s (List.mem_cons_of_mem _ member)
      · -- the count is used up, and the status is that of a redirect
        rw [if_neg fun again => more again.2]
        refine iff_of_false (fun arrives => ?_) (by omega)
        cases arrives.1
        exact concrete.2 redirect
  | @live crawlUrl last status' kinds seen none number redirect good allowed new rest ih =>
    cases fuel with
    | zero => omega
    | succ fuel =>
      have missing := (kept _ List.mem_cons_self).trans none
      have other : crawlUrl.str ≠
          (Url.ofString (env.uninitUrl (outside.web crawlUrl).meta_)
            (outside.web crawlUrl).meta_).str :=
        fun same => new (same ▸ rest.mem_seen)
      refine wp_bind.mpr (wp_mono ?_
        (hop_live gemini missing number redirect rfl good other allowed))
      rintro result middle ⟨rfl, same⟩
      rw [then_ok, List.length_cons, List.count_cons_of_ne (by decide), Hop.count,
        if_neg Bool.false_ne_true]
      by_cases more : count < 5
      · rw [if_pos ⟨redirect, more⟩]
        refine wp_mono (fun _ _ arrives => arrives.trans (by omega))
          (ih concrete (by omega) (by omega) ?_)
        intro s member
        rw [same s fun equal => new (equal ▸ member)]
        exact kept s (List.mem_cons_of_mem _ member)
      · rw [if_neg fun again => more again.2]
        refine iff_of_false (fun arrives => ?_) (by omega)
        have same : status' = status := (Prod.mk.inj (Except.ok.inj arrives.1)).1
        exact concrete.2 (same ▸ redirect)

/-- The redirect loop of a call for `url`. -/
def LoopRun (env : Env) (outside : Outside) (url : Url) (w : World)
    (result : Except Str (Int × Option Response)) (after : Rec) : Prop :=
  Runs (record (env.stepAmong outside)) (followRedirects env url 6 0 url none) ⟨w, []⟩ result after

/-- The given answers without the failures. -/
def Outside.reliable (outside : Outside) : Outside := { outside with failure := fun _ => none }

theorem Outside.reliable_stepAmong (outside : Outside) (w : World) (op : Op) :
    env.stepAmong outside w op (outside.reliable.respond env w op).1
      (outside.reliable.respond env w op).2 := by
  refine ⟨Outside.respond_step (fun _ _ failed => by cases failed) w op, ?_⟩
  cases op <;> trivial

theorem LoopRun.arrives_iff {w : World} {status : Int} {result : Except Str (Int × Option Response)}
    (run : LoopRun env outside url w result after) (gemini : url.protocol = lit "gemini")
    (chain : RedirectChain env outside w.permaRedirects url kinds seen last)
    (concrete : (outside.web last).Concrete status) :
    Arrives outside last status result after.log ↔ kinds.length + kinds.count .stored ≤ 5 := by
  have along : wp (record (env.stepAmong outside)) (followRedirects env url 6 0 url none)
      (fun result after => Arrives outside last status result after.log ↔
        0 + kinds.length + kinds.count .stored ≤ 5) ⟨w, []⟩ :=
    followRedirects_chain gemini chain concrete (Nat.zero_le 5) (Nat.le_refl 6) fun _ _ => rfl
  rw [← Nat.zero_add kinds.length]
  exact wp_iff_runs.mp along result after run

/-- The loop always ends, and it ends with the response of the last URL exactly when the
redirects, each stored one counted twice, are at most five. -/
theorem redirects_arrive_iff {w : World} {status : Int} (gemini : url.protocol = lit "gemini")
    (chain : RedirectChain env outside w.permaRedirects url kinds seen last)
    (concrete : (outside.web last).Concrete status) :
    (∃ result after, LoopRun env outside url w result after) ∧
      ∀ result after, LoopRun env outside url w result after →
        (Arrives outside last status result after.log ↔ kinds.length + kinds.count .stored ≤ 5) :=
  ⟨⟨_, _, runs_simulate (record_recording outside.reliable_stepAmong) rfl⟩,
    fun _ _ run => run.arrives_iff gemini chain concrete⟩

/-- Three URLs with a stored redirect to the next one each. -/
def World.redirecting : World :=
  { World.empty with
    permaRedirects := ((World.empty.permaRedirects.upsert (lit "gemini://h/a")
      (lit "gemini://h/b")).upsert
      (lit "gemini://h/b") (lit "gemini://h/c")).upsert (lit "gemini://h/c") (lit "gemini://h/d") }

theorem redirects_arrive_iff_two :
    let outside := Outside.redirecting (lit "gemini://h/d") (lit "gemini://h/e") (lit "hello")
    (∃ result after, LoopRun Env.small outside
      (Url.ofString 0 (lit "gemini://h/c")) World.redirecting
        result after) ∧
      ∀ result after, LoopRun Env.small outside
        (Url.ofString 0 (lit "gemini://h/c")) World.redirecting
          result after →
        (Arrives outside (Url.ofString 0 (lit "gemini://h/e")) 20 result after.log ↔
          [HopKind.stored, .live].length + [HopKind.stored, .live].count .stored ≤ 5) := by
  have found : World.redirecting.permaRedirects (Url.ofString 0 (lit "gemini://h/c")).str =
      some (lit "gemini://h/d") := by decide
  have number : stoi ((Outside.redirecting (lit "gemini://h/d") (lit "gemini://h/e")
      (lit "hello")).web
      (Url.ofString 0 (lit "gemini://h/d"))).geminiStatus = some 30 := by decide
  have fetched : RedirectChain Env.small
      (Outside.redirecting (lit "gemini://h/d") (lit "gemini://h/e") (lit "hello"))
      World.redirecting.permaRedirects (Url.ofString 0 (lit "gemini://h/d")) [.live]
      [lit "gemini://h/d", lit "gemini://h/e"] (Url.ofString 0 (lit "gemini://h/e")) :=
    .live (by decide) number (by decide) (by decide) (by decide) (by decide) (.done (by decide))
  exact redirects_arrive_iff (by decide) (.stored found (by decide) fetched) ⟨by decide, by decide⟩

/-- After three stored redirects the loop gives up without a request, though the last URL
answers. -/
theorem three_stored_redirects :
    RedirectChain Env.small (Outside.serving (lit "hello")) World.redirecting.permaRedirects
        (Url.ofString 0 (lit "gemini://h/a")) [.stored, .stored, .stored]
        [lit "gemini://h/a", lit "gemini://h/b", lit "gemini://h/c", lit "gemini://h/d"]
        (Url.ofString 0 (lit "gemini://h/d")) ∧
      ((Outside.serving (lit "hello")).web (Url.ofString 0 (lit "gemini://h/d"))).Concrete 20 ∧
      (∃ after, LoopRun Env.small (Outside.serving (lit "hello"))
        (Url.ofString 0 (lit "gemini://h/a"))
        World.redirecting (.ok (30, none)) after) ∧
      ∀ result after, LoopRun Env.small (Outside.serving (lit "hello"))
          (Url.ofString 0 (lit "gemini://h/a")) World.redirecting result after →
        ¬Arrives (Outside.serving (lit "hello")) (Url.ofString 0 (lit "gemini://h/d")) 20 result
          after.log := by
  have first : World.redirecting.permaRedirects (Url.ofString 0 (lit "gemini://h/a")).str =
      some (lit "gemini://h/b") := by decide
  have second : World.redirecting.permaRedirects (Url.ofString 0 (lit "gemini://h/b")).str =
      some (lit "gemini://h/c") := by decide
  have third : World.redirecting.permaRedirects (Url.ofString 0 (lit "gemini://h/c")).str =
      some (lit "gemini://h/d") := by decide
  have chain : RedirectChain Env.small (Outside.serving (lit "hello"))
      World.redirecting.permaRedirects
      (Url.ofString 0 (lit "gemini://h/a")) [.stored, .stored, .stored]
      [lit "gemini://h/a", lit "gemini://h/b", lit "gemini://h/c", lit "gemini://h/d"]
      (Url.ofString 0 (lit "gemini://h/d")) :=
    .stored first (by decide)
      (.stored second (by decide) (.stored third (by decide) (.done (by decide))))
  have concrete : ((Outside.serving (lit "hello")).web
      (Url.ofString 0 (lit "gemini://h/d"))).Concrete 20 :=
    ⟨by decide, by decide⟩
  -- three stored redirects are counted as six
  refine ⟨chain, concrete, ⟨_, runs_simulate
    (record_recording (Outside.serving (lit "hello")).reliable_stepAmong) (by decide)⟩, ?_⟩
  intro result after run arrives
  exact absurd ((run.arrives_iff (by decide) chain concrete).mp arrives) (by decide)

end Tlgs

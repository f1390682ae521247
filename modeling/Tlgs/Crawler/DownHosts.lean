import Tlgs.Crawler.Requests

/-!
# Hosts that are down

`host_timeout_count_` never falls while the crawler runs. Once it is above three for a host,
the crawls ask the host for nothing any more, except where a redirect leads that was stored
before: redirects from the table are followed without a check.
-/
namespace Tlgs

open Bytes Interactive

/-- More than three requests to the host were not answered. -/
def PolicyWorld.Down (w : PolicyWorld) (host : Str) : Prop :=
  ∃ count, w.hostTimeoutCount host = some count ∧ 3 < count

variable {env : Env} {fails : Op → Str → Prop} {web : RobotsWeb} {robots : RobotsAnswers}
  {init : System} {host : Str}

/-- A redirect that was stored before leads to the URL. -/
def StoredBefore (env : Env) (init : System) (url : Url) : Prop :=
  ∃ fromUrl toUrl, init.world.permaRedirects fromUrl = some toUrl ∧
    url = Url.ofString (env.uninitUrl toUrl) toUrl

/-- A request for the robots.txt of another host: of whichever URL it is, the host is another
one. -/
def RobotsElsewhere (host text : Str) : Prop :=
  (∃ url, GeminiUrl url ∧ text = robotUrl url) ∧
    ∀ url, GeminiUrl url → text = robotUrl url → url.hostWithPort 1965 ≠ host

/-- The request is not for the host, or follows a redirect that was stored before. -/
def Request.Spares (env : Env) (init : System) (host : Str) : Request → Prop
  | .content url => url.hostWithPort 1965 ≠ host ∨ StoredBefore env init url
  | .robots text => RobotsElsewhere host text

/-- The host is down and was spared since the crawls began. -/
structure LeavesAlone (env : Env) (init : System) (host : Str) (s : System) : Prop where
  down : s.policy.Down host
  redirects : ∀ fromUrl toUrl, s.world.permaRedirects fromUrl = some toUrl →
    (Url.ofString (env.uninitUrl toUrl) toUrl).hostWithPort 1965 ≠ host ∨
      StoredBefore env init (Url.ofString (env.uninitUrl toUrl) toUrl)
  sent : ∃ sent, s.requested = init.requested ++ sent ∧
    ∀ request ∈ sent, request.Spares env init host

/-! ### The check -/

/-- A Gemini URL on another host. -/
def AwayFrom (web : RobotsWeb) (host urlStr : Str) : Prop :=
  GeminiUrl (Url.ofString (web.uninitUrl urlStr) urlStr) ∧
    (Url.ofString (web.uninitUrl urlStr) urlStr).hostWithPort 1965 ≠ host

/-- The count of the host is found. -/
def downAnswers (host : Str) : (op : SystemOp) → Except Str op.Answer → Prop
  | .policy (.findTimeout asked), answer =>
    asked = host → ∃ count, answer = .ok (some count) ∧ 3 < count
  | _, _ => True

/-- The check asks no robots.txt of the host. -/
def SystemOp.sparing (host : Str) : SystemOp → Prop
  | .policy (.sendRequest text) => RobotsElsewhere host text
  | .policy _ => True
  | .crawl _ => False

/-- Operations of the check other than a request. -/
private def PolicyOp.asksNothing : PolicyOp → Prop
  | .sendRequest _ => False
  | _ => True

private theorem sparing_of_asksNothing (op : PolicyOp) (nothing : op.asksNothing) :
    (SystemOp.policy op).sparing host := by
  cases op <;> trivial

/-- What the check calls among the operations of the system. -/
private abbrev Spared (host : Str) (p : Policy Bool) : Prop :=
  Meets (fun op => downAnswers host (.policy op)) (fun op => (SystemOp.policy op).sparing host)
    (fun _ => True) p

private theorem decideBy_spared (url : Url) (cacheKey : Str) (paths : List Str) :
    Spared host (decideBy url cacheKey paths) :=
  meets_of_within (within_mono sparing_of_asksNothing
    (within_bind (within_perform trivial) fun _ => within_pure))

private theorem storePolicy_spared (url : Url) (cacheKey : Str) (resp : RobotsResponse)
    (status : Int) :
    Spared host (storePolicy web url cacheKey resp status) := by
  refine Meets.bind (q := fun _ => True) ?_ (fun _ _ => decideBy_spared url cacheKey _) fun _ _ =>
    trivial
  refine Meets.tryCatch (q := fun _ => True) ?_ (fun _ _ => trivial) fun _ _ => trivial
  exact ⟨trivial, fun _ _ => trivial⟩

/-- URLs with the same robots.txt are on one host. -/
theorem hostWithPort_of_robotUrl {url url' : Url} (gemini : GeminiUrl url)
    (gemini' : GeminiUrl url') (same : robotUrl url = robotUrl url') :
    url.hostWithPort 1965 = url'.hostWithPort 1965 := by
  have documented := RobotsWeb.serving_documented []
  have server : serverOf url = serverOf url' := by
    rw [← gemini.reaches_robotUrl documented, same, gemini'.reaches_robotUrl documented]
  have printed : ∀ url : Url, url.hostWithPort 1965 =
      (serverOf url).1 ++ colon :: Url.toStringInt (serverOf url).2 := by
    intro url
    simp only [Url.hostWithPort, serverOf]
    by_cases own : url.port_ = 0 <;> simp [own]
  rw [printed, printed, server]

private theorem askHost_spared {url : Url} (gemini : GeminiUrl url)
    (elsewhere : url.hostWithPort 1965 ≠ host) (cacheKey : Str) :
    Spared host (askHost web url cacheKey) := by
  refine Meets.bind (q := fun _ => True) ?_ (fun fetched _ => ?_) fun _ _ => trivial
  · -- the request for robots.txt, and the count when it fails
    refine Meets.tryCatch (q := fun _ => True) ?_ (fun _ _ => trivial) fun error _ => ?_
    · have away : RobotsElsewhere host (robotUrl url) := by
        refine ⟨⟨url, gemini, rfl⟩, fun url' gemini' same => ?_⟩
        rwa [hostWithPort_of_robotUrl gemini' gemini same.symm]
      refine ⟨away, fun answer _ => ?_⟩
      cases answer <;> trivial
    · split
      · refine ⟨trivial, fun answer _ => ?_⟩
        cases answer <;> trivial
      · trivial
  · cases fetched with
    | none => trivial
    | some resp =>
      dsimp only
      split
      · trivial
      · exact storePolicy_spared url cacheKey resp _

private theorem consultCache_spared {url : Url} (gemini : GeminiUrl url)
    (elsewhere : url.hostWithPort 1965 ≠ host) : Spared host (consultCache web url) := by
  refine ⟨trivial, fun answer _ => ?_⟩
  match answer with
  | .error x => trivial
  | .ok (some paths) => trivial
  | .ok none =>
    refine ⟨trivial, fun answer _ => ?_⟩
    match answer with
    | .error x => trivial
    | .ok none => exact askHost_spared gemini elsewhere _
    | .ok (some false) => exact decideBy_spared url _ []
    | .ok (some true) =>
      refine ⟨trivial, fun answer _ => ?_⟩
      cases answer with
      | error x => trivial
      | ok paths => exact decideBy_spared url _ paths

/-- The check turns the host away before it asks it anything. -/
theorem shouldCrawl_spared (web : RobotsWeb) (urlStr : Str) :
    Meets (fun op => downAnswers host (.policy op)) (fun op => (SystemOp.policy op).sparing host)
      (fun outcome => outcome = .ok true → AwayFrom web host urlStr) (shouldCrawl web urlStr) := by
  have early : (Except.ok false : Except Str Bool) = .ok true → AwayFrom web host urlStr := by
    intro equal
    cases equal
  rw [shouldCrawl]
  split
  · exact early
  · dsimp only
    split
    · exact early
    next good =>
      split
      · exact early
      next protocol =>
        split
        · exact early
        · have gemini := geminiUrl_of_good (Bool.eq_true_of_not_eq_false good) (not_not.mp protocol)
          apply meets_perform_bind.mpr
          refine ⟨trivial, fun answer found => ?_⟩
          cases answer with
          | error x => exact fun equal => by cases equal
          | ok timeout =>
            simp only [Before]
            split
            · exact early
            next few =>
              -- the count of the host is too high to come this far
              have elsewhere : (Url.ofString (web.uninitUrl urlStr) urlStr).hostWithPort 1965 ≠
                  host := by
                intro same
                obtain ⟨count, equal, many⟩ := found same
                cases equal
                exact few ⟨count, rfl, many⟩
              exact (consultCache_spared gemini elsewhere).mono fun _ _ _ => ⟨gemini, elsewhere⟩

/-! ### What the crawls are answered and ask for -/

def sparingAnswers (web : RobotsWeb) (env : Env) (init : System) (host : Str) :
    (op : Op) → Except Str op.Answer → Prop
  | .shouldCrawl urlStr, answer => answer = .ok true → AwayFrom web host urlStr
  | .selectRedirect _, answer => ∀ toUrl, answer = .ok (some toUrl) →
      (Request.content (Url.ofString (env.uninitUrl toUrl) toUrl)).Spares env init host
  | _, _ => True

def Op.Sparing (env : Env) (init : System) (host : Str) : Op → Prop
  | .sendRequest url => (Request.content url).Spares env init host
  | .upsertRedirect _ toUrl => (Url.ofString (env.uninitUrl toUrl) toUrl).hostWithPort 1965 ≠ host
  | _ => True

/-- What is read again is at the same host and port. -/
theorem AwayFrom.of_printed {uninit : Int} {text : Str}
    (good : (Url.ofString uninit text).good = true)
    (elsewhere : AwayFrom web host (Url.ofString uninit text).str) :
    (Url.ofString uninit text).hostWithPort 1965 ≠ host := by
  have wf := Url.wellFormed_of_good good
  have protocol := elsewhere.1.protocol
  rw [Url.ofString_str _ wf] at protocol
  rw [hostWithPort_eq, ← (geminiUrl_of_good good protocol).serverOf_reread, ← hostWithPort_eq]
  exact elsewhere.2

theorem requesting_sparing (web : RobotsWeb) (env : Env) (init : System) (host : Str) :
    Requesting env (sparingAnswers web env init host) (Op.Sparing env init host)
      (fun url => (Request.content url).Spares env init host) where
  isLocal op isLocal := by cases op <;> trivial
  requests _ spares := spares
  approved _ _ good answered := by
    refine ⟨.inl ((answered rfl).of_printed good), fun _ => ?_⟩
    change (Url.ofString _ _).hostWithPort 1965 ≠ host
    rw [(answered rfl).1.of_uninit]
    exact (answered rfl).2
  stored _ toUrl answered := answered toUrl rfl

/-! ### Steps and moves -/

/-- A count never falls. -/
theorem down_step {w after : PolicyWorld} {op : PolicyOp} {answer : Except Str op.Answer}
    (down : w.Down host) (taken : robotsStep web robots w op answer after) : after.Down host := by
  obtain ⟨count, found, many⟩ := down
  cases op with
  -- the only operation that changes a count, and it raises it
  | countTimeout counted =>
    cases answer with
    | error x => cases taken
    | ok done =>
      cases taken
      by_cases same : host = counted
      · subst same
        refine ⟨count + 1, ?_, by omega⟩
        simp [Table.upsert, found]
      · exact ⟨count, by simp [Table.upsert, same, found], many⟩
  -- the others leave the counts alone, whether they fail or not
  | insertPolicy cacheKey disallowed =>
    cases answer with
    | error x => cases taken
    | ok done => rcases taken with rfl | ⟨_, rfl⟩ <;> exact ⟨count, found, many⟩
  | sendRequest text =>
    obtain ⟨_, rfl⟩ := taken
    exact ⟨count, found, many⟩
  | updatePolicies at_ port disallowed have_ =>
    cases answer <;> cases taken <;> exact ⟨count, found, many⟩
  | findTimeout asked =>
    cases answer with
    | error x => cases taken
    | ok timeout =>
      obtain ⟨_, rfl⟩ := taken
      exact ⟨count, found, many⟩
  | findAndFetch cacheKey =>
    cases answer with
    | error x => cases taken
    | ok paths =>
      obtain ⟨_, rfl⟩ := taken
      exact ⟨count, found, many⟩
  | selectStatus at_ port =>
    cases answer with
    | error x =>
      cases taken
      exact ⟨count, found, many⟩
    | ok status =>
      obtain ⟨_, rfl⟩ := taken
      exact ⟨count, found, many⟩
  | selectPolicies at_ port =>
    cases answer with
    | error x =>
      cases taken
      exact ⟨count, found, many⟩
    | ok paths =>
      obtain ⟨_, rfl⟩ := taken
      exact ⟨count, found, many⟩

theorem leavesAlone_policy {s after : System} {op : SystemOp} {answer : Except Str op.Answer}
    (sparing : op.sparing host) (alone : LeavesAlone env init host s)
    (taken : systemStep env fails web robots s op answer after) :
    LeavesAlone env init host after := by
  cases op with
  | crawl op => cases sparing
  | policy op =>
    obtain ⟨requested, world, step⟩ := policy_step taken
    refine ⟨down_step alone.down step, ?_, ?_⟩
    · rw [world]
      exact alone.redirects
    · obtain ⟨sent, before, spared⟩ := alone.sent
      refine ⟨sent ++ (SystemOp.policy op).sends, by rw [requested, before, List.append_assoc], ?_⟩
      intro request member
      rcases List.mem_append.mp member with earlier | last
      · exact spared request earlier
      · -- only a request is new on the list
        cases op with
        | sendRequest text =>
          cases List.mem_singleton.mp last
          exact sparing
        | _ => cases last

theorem leavesAlone_crawl {s after : System} {op : Op} {answer : Except Str op.Answer}
    (sparing : op.Sparing env init host) (alone : LeavesAlone env init host s)
    (taken : systemStep env fails web robots s (.crawl op) answer after) :
    LeavesAlone env init host after := by
  obtain ⟨requested, policy, _⟩ := crawl_step taken
  refine ⟨?_, ?_, ?_⟩
  · rw [policy]
    exact alone.down
  · -- a redirect that is stored by this step was asked about and spares the host
    intro fromUrl toUrl stored
    rcases crawl_redirects taken stored with before | ⟨source, rfl⟩
    · exact alone.redirects fromUrl toUrl before
    · exact .inl sparing
  · obtain ⟨sent, before, spared⟩ := alone.sent
    refine ⟨sent ++ (SystemOp.crawl op).sends, by rw [requested, before, List.append_assoc], ?_⟩
    intro request member
    rcases List.mem_append.mp member with earlier | last
    · exact spared request earlier
    · cases op with
      | sendRequest url =>
        cases List.mem_singleton.mp last
        exact sparing
      | _ => cases last

theorem leavesAlone_move {s after : System} (alone : LeavesAlone env init host s)
    (moved : SystemMove env s after) : LeavesAlone env init host after := by
  obtain ⟨requested, redirects⟩ := move_requested moved
  refine ⟨?_, ?_, ?_⟩
  · rw [PolicyWorld.Down, (move_policy moved).1]
    exact alone.down
  · rw [redirects]
    exact alone.redirects
  · rw [requested]
    exact alone.sent

theorem carried_leavesAlone :
    Carried (systemStep env fails web robots) web (LeavesAlone env init host)
    (fun _ _ => True) (sparingAnswers web env init host) (Op.Sparing env init host) where
  direct s op answer after direct sparing alone taken := by
    refine ⟨⟨leavesAlone_crawl sparing alone taken, trivial⟩, ?_⟩
    cases op with
    | shouldCrawl urlStr => cases direct
    -- a stored redirect that is read spares the host, as all of them do
    | selectRedirect fromUrl =>
      intro toUrl found
      subst found
      obtain ⟨_, _, later, _, ⟨x, failed, _⟩ | ⟨a, found, possible, _⟩⟩ := crawl_step taken
      · cases failed
      · cases found
        exact alone.redirects fromUrl toUrl possible.symm
    | _ => trivial
  counts s counted answer after alone taken := by
    have sparing : (SystemOp.policy (.countTimeout counted)).sparing host := trivial
    exact ⟨⟨leavesAlone_policy sparing alone taken, trivial⟩, trivial⟩
  checks urlStr s log := by
    refine ((shouldCrawl_spared web urlStr).lift SystemOp.Answer SystemOp.policy).safe ?_ s log
    intro s op answer after sparing alone taken
    refine ⟨⟨leavesAlone_policy sparing alone taken, trivial⟩, ?_⟩
    cases op with
    | crawl op => trivial
    | policy op =>
      cases op with
      -- the count that is read is the one that is above the limit
      | findTimeout asked =>
        rintro rfl
        obtain ⟨count, found, many⟩ := alone.down
        have step := (policy_step taken).2.2
        cases answer with
        | error x => cases step
        | ok timeout =>
          obtain ⟨rfl, _⟩ := step
          exact ⟨count, congrArg _ found, many⟩
      | _ => trivial

/-- In every run of any number of crawls, whatever the servers answer, a host that was down when
they began is asked for no robots.txt, and for a page only where a redirect leads that was stored
before. -/
theorem down_host_left_alone (down : init.policy.Down host) {pool : Crawls}
    (reached : Crawling env fails web robots init pool) :
    ∃ sent, pool.state.requested = init.requested ++ sent ∧
      ∀ request ∈ sent, request.Spares env init host := by
  have initially : LeavesAlone env init host init := by
    refine ⟨down, fun fromUrl toUrl stored => .inr ⟨fromUrl, toUrl, stored, rfl⟩, [], ?_, ?_⟩
    · rw [List.append_nil]
    · exact fun _ member => absurd member List.not_mem_nil
  have holds : LeavesAlone env init host pool.state :=
    crawling_invariant (fun _ => trivial) (fun _ _ _ _ _ => trivial)
      (fun _ _ alone moved => ⟨leavesAlone_move alone moved, trivial⟩) carried_leavesAlone
      (crawlNext_meets (requesting_sparing web env init host)) initially reached
  exact holds.sent

/-- The host `h` is down, but a redirect to it is stored. -/
def System.redirectingDown : System where
  world := { World.empty with
    crawQueue := [lit "gemini://h/", lit "gemini://g/"]
    permaRedirects := fun url => if url = lit "gemini://g/" then some (lit "gemini://h/x")
      else none }
  policy := .empty 0 fun host => if host = lit "h:1965" then some 4 else none
  requested := []

theorem down_host_left_alone_redirected :
    let web := RobotsWeb.serving (lit "")
    let init := System.redirectingDown
    init.policy.Down (lit "h:1965") ∧ ∃ pool : Crawls,
      Crawling Env.small never web web.serves init pool ∧
      Request.content (Url.ofString 0 (lit "gemini://h/x")) ∈ pool.state.requested ∧
      ∃ sent, pool.state.requested = [] ++ sent ∧
        ∀ request ∈ sent, request.Spares Env.small init (lit "h:1965") := by
  intro web init
  have down : init.policy.Down (lit "h:1965") := ⟨4, rfl, by decide⟩
  obtain ⟨pool, reached, state⟩ :=
    Outside.crawling (@serving_never (lit "hello")) Env.small web init 3
  refine ⟨down, pool, reached, ?_, down_host_left_alone down reached⟩
  rw [state]
  decide +kernel

end Tlgs

import Tlgs.Crawler.Requests

/-!
# The crawls obey robots.txt

While no server changes its robots.txt and every request for one is answered, what the crawls
request is permitted: a Gemini URL that is not on the blacklist and that its server does not
disallow. That holds for redirects from the table as well, which are followed without a check,
because each was checked when it was stored.
-/
namespace Tlgs

open Bytes Interactive

/-- A Gemini URL that is neither on the blacklist nor disallowed by its server. -/
structure Permitted (web : RobotsWeb) (urlStr : Str) : Prop where
  good : (Url.ofString (web.uninitUrl urlStr) urlStr).good = true
  protocol : (Url.ofString (web.uninitUrl urlStr) urlStr).protocol = lit "gemini"
  listed : web.inBlacklist (Url.ofString (web.uninitUrl urlStr) urlStr).str = false
  allowed : isPathBlocked (Url.ofString (web.uninitUrl urlStr) urlStr).path
    (web.policy (serverOf (Url.ofString (web.uninitUrl urlStr) urlStr))) = false

/-- What was requested was permitted, and so is what a stored redirect leads to. -/
structure Obeys (web : RobotsWeb) (s : System) : Prop where
  redirects : ∀ fromUrl toUrl, s.world.permaRedirects fromUrl = some toUrl →
    ∃ url : Url, url.WellFormed ∧ toUrl = url.str ∧ Permitted web toUrl
  requested : ∀ url, .content url ∈ s.requested → Permitted web url.str

/-- The policies agree with the servers, and the crawls obey them. -/
def Lawful (web : RobotsWeb) (s : System) : Prop := Agrees web s.policy ∧ Obeys web s

variable {web : RobotsWeb} {env : Env} {fails : Op → Str → Prop}

/-! ### The check -/

/-- The check lets through only what is permitted. -/
theorem shouldCrawl_permits (documented : web.Documented) (urlStr : Str) (w : PolicyWorld) :
    Safe (policyStep web) (Agrees web) KeepsStatus
      (fun outcome _ => outcome = .ok true → Permitted web urlStr)
      (shouldCrawl web urlStr) w [] := by
  have early : (Except.ok false : Except Str Bool) = .ok true → Permitted web urlStr := by
    intro equal
    cases equal
  rw [shouldCrawl]
  split
  · exact early
  · dsimp only
    split
    · exact early
    next good =>
      split
      · exact early
      next protocol =>
        split
        · exact early
        next listed =>
          have good := Bool.eq_true_of_not_eq_false good
          have protocol := not_not.mp protocol
          rw [safe_perform_bind]
          intro now answer after _ agrees taken
          cases answer with
          | error x => cases taken
          | ok timeout =>
            obtain ⟨_, rfl⟩ := taken
            refine ⟨⟨agrees, keepsStatus_refl _⟩, ?_⟩
            rw [bind_ok]
            split
            · exact early
            · -- from the cache on, the answer is that of the policy
              refine (safe_consultCache documented (geminiUrl_of_good good protocol) after).weaken
                ?_
              rintro outcome log (answers | ⟨_, x, _, _, failed⟩) allowed
              · rw [allowed] at answers
                refine ⟨good, protocol, Bool.eq_false_of_not_eq_true listed, ?_⟩
                simpa using (Except.ok.inj answers).symm
              · cases failed.symm.trans allowed

/-! ### What the crawls are answered and ask for -/

/-- What is known of the answers: the check permits, and a stored redirect was permitted. -/
def obeyingAnswers (web : RobotsWeb) : (op : Op) → Except Str op.Answer → Prop
  | .shouldCrawl urlStr, answer => answer = .ok true → Permitted web urlStr
  | .selectRedirect _, answer => ∀ toUrl, answer = .ok (some toUrl) →
      ∃ url : Url, url.WellFormed ∧ toUrl = url.str ∧ Permitted web toUrl
  | _, _ => True

/-- What is asked for and stored is permitted. -/
def Op.Obeying (web : RobotsWeb) : Op → Prop
  | .sendRequest url => Permitted web url.str
  | .upsertRedirect _ toUrl => ∃ url : Url, url.WellFormed ∧ toUrl = url.str ∧ Permitted web toUrl
  | _ => True

/-- A printed URL that is permitted is so when it is read and printed again. -/
theorem Permitted.reread {url : Url} (wf : url.WellFormed) (permitted : Permitted web url.str)
    (uninit : Int) : Permitted web (Url.ofString uninit url.str).str := by
  have gemini := geminiUrl_of_good permitted.good permitted.protocol
  rw [gemini.of_uninit uninit]
  -- the default port is that of the scheme, which is printed in lower case
  have default : (Url.ofString (web.uninitUrl url.str) url.str).defaultPort = 1965 := by
    have protocol := permitted.protocol
    rw [Url.ofString_str _ wf] at protocol ⊢
    rw [show url.protocol = lit "gemini" from protocol]
    rfl
  have path : ∀ again, (Url.ofString again
      (Url.ofString (web.uninitUrl url.str) url.str).str).path =
      (Url.ofString (web.uninitUrl url.str) url.str).path := by
    intro again
    rw [gemini.reread again]
  have again := gemini.of_reread (web.uninitUrl (Url.ofString (web.uninitUrl url.str) url.str).str)
  refine ⟨again.wellFormed.good, again.protocol, ?_, ?_⟩
  · rw [gemini.str_reread default]
    exact permitted.listed
  · rw [gemini.serverOf_reread, path]
    exact permitted.allowed

theorem requesting_permitted (web : RobotsWeb) (env : Env) :
    Requesting env (obeyingAnswers web) (Op.Obeying web) (fun url => Permitted web url.str) where
  isLocal op isLocal := by cases op <;> trivial
  requests _ permitted := permitted
  approved _ _ good answered :=
    ⟨answered rfl, fun _ => ⟨_, Url.wellFormed_of_good good, rfl, answered rfl⟩⟩
  stored _ toUrl answered := by
    obtain ⟨url, wf, rfl, permitted⟩ := answered toUrl rfl
    exact permitted.reread wf _

/-! ### Steps and moves -/

theorem obeys_crawl {s after : System} {op : Op} {answer : Except Str op.Answer}
    (obeying : op.Obeying web) (obeys : Obeys web s)
    (taken : systemStep env fails web web.serves s (.crawl op) answer after) :
    Obeys web after := by
  constructor
  · intro fromUrl toUrl stored
    rcases crawl_redirects taken stored with before | ⟨source, rfl⟩
    · exact obeys.redirects fromUrl toUrl before
    · exact obeying
  · intro url member
    rw [(crawl_step taken).1] at member
    rcases List.mem_append.mp member with before | sent
    · exact obeys.requested url before
    · -- the request that the step sends
      cases op with
      | sendRequest target =>
        cases List.mem_singleton.mp sent
        exact obeying
      | _ => cases sent

theorem obeys_policy {s after : System} {op : PolicyOp} {answer : Except Str op.Answer}
    (obeys : Obeys web s)
    (taken : systemStep env fails web web.serves s (.policy op) answer after) :
    Obeys web after := by
  obtain ⟨sent, world, _⟩ := policy_step taken
  refine ⟨?_, fun url member => ?_⟩
  · rw [world]
    exact obeys.redirects
  · rw [sent] at member
    rcases List.mem_append.mp member with before | robots
    · exact obeys.requested url before
    · -- a request for robots.txt is not one for a page
      cases op with
      | sendRequest robotUrl => cases List.mem_singleton.mp robots
      | _ => cases robots

theorem lawful_move {s after : System} (lawful : Lawful web s) (moved : SystemMove env s after) :
    Lawful web after ∧ KeepsStatus s.policy after.policy := by
  obtain ⟨sent, redirects⟩ := move_requested moved
  have obeys : Obeys web after := by
    refine ⟨?_, ?_⟩
    · rw [redirects]
      exact lawful.2.redirects
    · rw [sent]
      exact lawful.2.requested
  rcases (move_policy moved).2 with same | moved
  · rw [Lawful, same]
    exact ⟨⟨lawful.1, obeys⟩, keepsStatus_refl _⟩
  · obtain ⟨agrees, keeps⟩ := agrees_move lawful.1 moved
    exact ⟨⟨agrees, obeys⟩, keeps⟩

/-- A count of time-outs changes nothing that is agreed on. -/
theorem agrees_countTimeout {w after : PolicyWorld} {host : Str} {answer : Except Str Unit}
    (agrees : Agrees web w) (taken : policyStep web w (.countTimeout host) answer after) :
    Agrees web after ∧ KeepsStatus w after := by
  cases answer with
  | error x => cases taken
  | ok done =>
    cases taken
    exact ⟨⟨agrees.cached, agrees.stored, agrees.complete, agrees.pending⟩, keepsStatus_refl _⟩

theorem carried_lawful (documented : web.Documented) :
    Carried (systemStep env fails web web.serves) web (Lawful web)
      (fun s after => KeepsStatus s.policy after.policy) (obeyingAnswers web) (Op.Obeying web) where
  direct s op answer after direct obeying lawful taken := by
    have policy := (crawl_step taken).2.1
    refine ⟨⟨⟨?_, obeys_crawl obeying lawful.2 taken⟩, ?_⟩, ?_⟩
    · rw [policy]
      exact lawful.1
    · rw [policy]
      exact keepsStatus_refl _
    · cases op with
      | shouldCrawl urlStr => cases direct
      | selectRedirect fromUrl =>
        -- the redirect found is one of the table
        intro toUrl found
        subst found
        obtain ⟨_, _, later, _, ⟨x, failed, _⟩ | ⟨a, found, possible, _⟩⟩ := crawl_step taken
        · cases failed
        · cases found
          exact lawful.2.redirects fromUrl toUrl possible.symm
      | _ => trivial
  counts s host answer after lawful taken := by
    obtain ⟨_, _, step⟩ := policy_step taken
    obtain ⟨agrees, keeps⟩ := agrees_countTimeout lawful.1 (robotsStep_serves.mp step)
    exact ⟨⟨⟨agrees, obeys_policy lawful.2 taken⟩, keeps⟩, trivial⟩
  checks urlStr s log := by
    refine (shouldCrawl_permits documented urlStr s.policy).lift SystemOp.Answer
      SystemOp.policy System.policy
      (Obeys web) ?_ ?_ rfl log
    · intro t op answer after taken
      exact robotsStep_serves.mp (policy_step taken).2.2
    · intro t op answer after _ obeys taken
      exact obeys_policy obeys taken

/-- In every run of any number of crawls, in any interleaving with each other, with seeds, purges,
expiries and transactions, every page that was requested is a Gemini URL that is not on the
blacklist and that the robots.txt of its server does not disallow, if that was so of what was
requested and stored when the crawls began. -/
theorem requests_obey_robots (documented : web.Documented) {init : System}
    (lawful : Lawful web init) {pool : Crawls}
    (reached : Crawling env fails web web.serves init pool) :
    ∀ url, .content url ∈ pool.state.requested → Permitted web url.str := by
  have holds : Lawful web pool.state := by
    refine crawling_invariant (fun s => keepsStatus_refl s.policy) ?_ (fun _ _ => lawful_move)
      (carried_lawful documented) (crawlNext_meets (requesting_permitted web env)) lawful reached
    exact fun a b c => keepsStatus_trans a.policy b.policy c.policy
  exact holds.2.requested

/-- Before anything is stored, everything is lawful. -/
theorem lawful_seeded (web : RobotsWeb) (urls : List Str) : Lawful web (.seeded urls) :=
  ⟨agrees_empty web 0 _, nofun, nofun⟩

theorem requests_obey_robots_public :
    let web := RobotsWeb.serving (lit "User-agent: tlgs\nDisallow: /private\n")
    let init := System.seeded [lit "gemini://h/private/x", lit "gemini://h/public"]
    ∃ pool : Crawls, Crawling Env.small never web web.serves init pool ∧
      Request.content (Url.ofString 0 (lit "gemini://h/public")) ∈ pool.state.requested ∧
      Permitted web (Url.ofString 0 (lit "gemini://h/public")).str := by
  intro web init
  obtain ⟨pool, reached, state⟩ :=
    Outside.crawling (@serving_never (lit "hello")) Env.small web init 3
  have requested : Request.content (Url.ofString 0 (lit "gemini://h/public")) ∈
      pool.state.requested := by
    rw [state]
    decide +kernel
  exact ⟨pool, reached, requested, requests_obey_robots (RobotsWeb.serving_documented _)
    (lawful_seeded web _) reached _ requested⟩

end Tlgs

import Tlgs.Base.Substitution
import Tlgs.Crawler.Queue
import Tlgs.Crawler.PolicySources
import Tlgs.Server.Tools

/-!
# The system

Any number of crawls over the same tables, each from `getNextCrawlPage` to the end of
`crawlPage`, with every call of `shouldCrawl` carried out in between. Beside them the server
takes in seeds, `tlgs_ctl` purges pages, transactions commit and cache entries expire. The
requests that were sent are on record in the order in which they were sent.
-/
namespace Tlgs

open Bytes Interactive

/-! ### State and operations -/

/-- What a host is asked for. -/
inductive Request
  | content (url : Url)
  | robots (robotUrl : Str)
  deriving DecidableEq, Repr

structure System where
  world : World
  policy : PolicyWorld
  requested : List Request

inductive SystemOp
  | crawl (op : Op)
  | policy (op : PolicyOp)

@[reducible] def SystemOp.Answer : SystemOp → Type
  | .crawl op => op.Answer
  | .policy op => op.Answer

/-- The request that an operation sends. -/
def SystemOp.sends : SystemOp → List Request
  | .crawl (.sendRequest url) => [.content url]
  | .policy (.sendRequest robotUrl) => [.robots robotUrl]
  | _ => []

abbrev Task := Program SystemOp SystemOp.Answer Str

/-! ### The crawls -/

/-- `shouldCrawl` is a call, and `host_timeout_count_` belongs to what it reads. -/
def carry (web : RobotsWeb) : (op : Op) → Task op.Answer
  | .shouldCrawl urlStr => (shouldCrawl web urlStr).lift SystemOp.policy
  | .countTimeout host => Program.perform (SystemOp.policy (.countTimeout host))
  | op => Program.perform (SystemOp.crawl op)

/-- What the coroutine of `dispatchCrawl` waits for: the next URL, and the crawl of it. -/
def crawlNext (env : Env) (rounds : Nat) : Crawl Unit := do
  let urlStr ← getNextCrawlPage env rounds
  match urlStr with
  | .finished (some url) => do
    let _ ← crawlPage env url
    pure ()
  | _ => pure ()

def crawlTask (env : Env) (web : RobotsWeb) (rounds : Nat) : Task Unit :=
  (crawlNext env rounds).expand (carry web)

/-! ### Steps -/

/-- What requests for robots.txt may be answered. -/
abbrev RobotsAnswers := Str → Except Str RobotsResponse → Prop

/-- As `policyStep`, for servers that answer as `robots` says. -/
def robotsStep (web : RobotsWeb) (robots : RobotsAnswers) :
    Step PolicyOp PolicyOp.Answer Str PolicyWorld :=
  fun w op answer after =>
    match op, answer with
    | .sendRequest robotUrl, answer => robots robotUrl answer ∧ after = w
    | op, answer => policyStep web w op answer after

/-- Every request for a robots.txt is answered with the one of its server. -/
def RobotsWeb.serves (web : RobotsWeb) : RobotsAnswers :=
  fun robotUrl answer => answer = .ok (web.response (web.reaches robotUrl))

theorem robotsStep_serves {web : RobotsWeb} {w after : PolicyWorld} {op : PolicyOp}
    {answer : Except Str op.Answer} :
    robotsStep web web.serves w op answer after ↔ policyStep web w op answer after := by
  cases op with
  | sendRequest robotUrl =>
    cases answer with
    | error x => exact iff_of_false (fun taken => by cases taken.1) id
    | ok resp => exact and_congr_left fun _ => ⟨Except.ok.inj, congrArg _⟩
  | _ => exact Iff.rfl

def systemStep (env : Env) (fails : Op → Str → Prop) (web : RobotsWeb) (robots : RobotsAnswers) :
    Step SystemOp SystemOp.Answer Str System :=
  fun s op answer after => after.requested = s.requested ++ op.sends ∧
    match op, answer with
    | .crawl op, answer => env.step fails s.world op answer after.world ∧ after.policy = s.policy
    | .policy op, answer =>
      robotsStep web robots s.policy op answer after.policy ∧ after.world = s.world

/-- What happens beside the crawls. A purge is three statements, for the URLs that its pattern
selects. -/
inductive SystemMove (env : Env) : System → System → Prop
  | pass {s : System} {later : Time} (forward : s.world.now ≤ later) :
      SystemMove env s { s with world := s.world.tick later }
  /-- an entry of the cache expires, a transaction ends, or time passes for the policies -/
  | policies {s : System} {policy : PolicyWorld} (moved : PolicyMove s.policy policy)
      (counts : policy.hostTimeoutCount = s.policy.hostTimeoutCount) :
      SystemMove env s { s with policy := policy }
  /-- `addUrl`, for a line of the seed file -/
  | addUrl {s : System} (url : Str) :
      SystemMove env s { s with world := { s.world with crawQueue := s.world.crawQueue ++ [url] } }
  | addSeed {s : System} {input protocol body : Str} {page : NewPage}
      (added : addSeed env.uninitUrl input protocol = .added page body) :
      SystemMove env s { s with
        world := s.world.setPages (s.world.pages.insertNew page.url (page.row s.world.now)) }
  /-- `DELETE FROM pages WHERE url like $1` -/
  | purgePages {s : System} (like : Str → Bool) :
      SystemMove env s { s with
        world := s.world.setPages fun key => if like key then none else s.world.pages key }
  /-- `DELETE FROM links WHERE url like $1` -/
  | purgeLinks {s : System} (like : Str → Bool) :
      SystemMove env s { s with
        world := s.world.setLinks (s.world.links.filter fun row => like row.url = false) }
  /-- `DELETE FROM links WHERE to_url like $1` -/
  | purgeBacklinks {s : System} (like : Str → Bool) :
      SystemMove env s { s with
        world := s.world.setLinks (s.world.links.filter fun row => like row.toUrl = false) }

/-- The crawls under way; each is given a number of rounds of its loops. -/
abbrev Crawls := Pool SystemOp SystemOp.Answer Str Unit System Nat

abbrev Crawling (env : Env) (fails : Op → Str → Prop) (web : RobotsWeb) (robots : RobotsAnswers)
    (init : System) : Crawls → Prop :=
  Reachable (systemStep env fails web robots) (SystemMove env) (crawlTask env web) init

/-! ### What a step does -/

section Steps

variable {env : Env} {fails : Op → Str → Prop} {web : RobotsWeb} {robots : RobotsAnswers}
  {s after : System}

/-- An operation on the tables fails and leaves them, or takes effect at some later time. -/
theorem crawl_step {op : Op} {answer : Except Str op.Answer}
    (taken : systemStep env fails web robots s (.crawl op) answer after) :
    after.requested = s.requested ++ (SystemOp.crawl op).sends ∧ after.policy = s.policy ∧
      ∃ later, s.world.now ≤ later ∧
        ((∃ x, answer = .error x ∧ (fails op x ∨ op.Refused (s.world.tick later) x) ∧
            after.world = s.world.tick later) ∨
          ∃ a, answer = .ok a ∧ op.Possible (s.world.tick later) a ∧
            after.world = env.apply (s.world.tick later) op a) := by
  obtain ⟨sent, ⟨later, forward, effect⟩, policy⟩ := taken
  refine ⟨sent, policy, later, forward, ?_⟩
  cases answer with
  | error x => exact .inl ⟨x, rfl, effect⟩
  | ok a => exact .inr ⟨a, rfl, effect⟩

/-- An operation of the check leaves the tables of the crawl alone. -/
theorem policy_step {op : PolicyOp} {answer : Except Str op.Answer}
    (taken : systemStep env fails web robots s (.policy op) answer after) :
    after.requested = s.requested ++ (SystemOp.policy op).sends ∧ after.world = s.world ∧
      robotsStep web robots s.policy op answer after.policy :=
  ⟨taken.1, taken.2.2, taken.2.1⟩

/-- Only a redirect that is stored changes the table of redirects. -/
theorem apply_permaRedirects (w : World) (op : Op) (a : op.Answer)
    (others : ∀ fromUrl toUrl, op ≠ .upsertRedirect fromUrl toUrl) :
    (env.apply w op a).permaRedirects = w.permaRedirects := by
  cases op with
  | upsertRedirect fromUrl toUrl => exact absurd rfl (others fromUrl toUrl)
  | _ => rfl

/-- The redirects after an operation were there before it, or are what it stores. -/
theorem crawl_redirects {op : Op} {answer : Except Str op.Answer}
    (taken : systemStep env fails web robots s (.crawl op) answer after) {fromUrl toUrl : Str}
    (stored : after.world.permaRedirects fromUrl = some toUrl) :
    s.world.permaRedirects fromUrl = some toUrl ∨ ∃ source, op = .upsertRedirect source toUrl := by
  obtain ⟨_, _, later, _, ⟨x, _, _, effect⟩ | ⟨a, _, _, effect⟩⟩ := crawl_step taken
  · rw [effect] at stored
    exact .inl stored
  · rw [effect] at stored
    -- the only operation that stores a redirect
    by_cases stores : ∃ source target, op = .upsertRedirect source target
    · obtain ⟨source, target, rfl⟩ := stores
      change Table.upsert s.world.permaRedirects source target fromUrl = some toUrl at stored
      simp only [Table.upsert] at stored
      split at stored
      · cases stored
        exact .inr ⟨source, rfl⟩
      · exact .inl stored
    · rw [apply_permaRedirects _ op a fun source target equal => stores ⟨source, target, equal⟩]
        at stored
      exact .inl stored

/-- What happens beside the crawls sends no request and stores no redirect. -/
theorem move_requested (moved : SystemMove env s after) :
    after.requested = s.requested ∧ after.world.permaRedirects = s.world.permaRedirects := by
  cases moved <;> exact ⟨rfl, rfl⟩

/-- The policies change only by themselves. -/
theorem move_policy (moved : SystemMove env s after) :
    after.policy.hostTimeoutCount = s.policy.hostTimeoutCount ∧
      (after.policy = s.policy ∨ PolicyMove s.policy after.policy) := by
  cases moved with
  | policies moved counts => exact ⟨counts, .inr moved⟩
  | _ => exact ⟨rfl, .inl rfl⟩

end Steps

/-! ### Invariants of the system -/

section Invariant

variable {env : Env} {web : RobotsWeb} {inv : System → Prop} {keeps : System → System → Prop}
  {answers : (op : Op) → Except Str op.Answer → Prop} {ops : Op → Prop}

/-- An operation of the crawl that is none of the calls. -/
def Op.direct : Op → Prop
  | .shouldCrawl _ | .countTimeout _ => False
  | _ => True

/-- Every operation of a crawl on its own: the direct ones, the count of time-outs and the calls
of the check. -/
structure Carried (step : Step SystemOp SystemOp.Answer Str System) (web : RobotsWeb)
    (inv : System → Prop) (keeps : System → System → Prop)
    (answers : (op : Op) → Except Str op.Answer → Prop) (ops : Op → Prop) : Prop where
  direct : ∀ s op answer after, Op.direct op → ops op → inv s → step s (.crawl op) answer after →
    (inv after ∧ keeps s after) ∧ answers op answer
  counts : ∀ s host answer after, inv s → step s (.policy (.countTimeout host)) answer after →
    (inv after ∧ keeps s after) ∧ answers (.countTimeout host) answer
  checks : ∀ urlStr s log, Safe step inv keeps
    (fun outcome _ => answers (.shouldCrawl urlStr) outcome)
    ((shouldCrawl web urlStr).lift SystemOp.policy) s log

theorem Carried.safe {step : Step SystemOp SystemOp.Answer Str System}
    (carried : Carried step web inv keeps answers ops) (op : Op) (allowed : ops op) (s : System)
    (log : List (Event SystemOp SystemOp.Answer Str)) :
    Safe step inv keeps (fun outcome _ => answers op outcome) (carry web op) s log := by
  cases op with
  | shouldCrawl urlStr => exact carried.checks urlStr s log
  | countTimeout host => exact safe_perform (carried.counts · host) s log
  | _ =>
    refine safe_perform ?_ s log
    intro s answer after holds taken
    exact carried.direct s _ answer after trivial allowed holds taken

/-- What each operation and each move keeps holds in every state that the crawls reach. -/
theorem crawling_invariant {step : Step SystemOp SystemOp.Answer Str System}
    {ambient : System → System → Prop} {init : System} {pool : Crawls}
    (refl : ∀ s, keeps s s) (trans : ∀ a b c, keeps a b → keeps b c → keeps a c)
    (moves : ∀ s after, inv s → ambient s after → inv after ∧ keeps s after)
    (carried : Carried step web inv keeps answers ops)
    (calls : ∀ rounds, Meets answers ops (fun _ => True) (crawlNext env rounds))
    (initially : inv init)
    (reached : Reachable step ambient (crawlTask env web) init pool) : inv pool.state := by
  have safe : PoolSafe step inv keeps (fun _ _ _ => True) pool := by
    refine reached.poolSafe refl trans moves (fun s rounds _ => ?_) initially
    exact (calls rounds).safe_expand carried.safe s []
  exact safe.1

end Invariant

/-! ### A given outside -/

/-- Nothing is stored, and some URLs are in the queue. -/
def System.seeded (urls : List Str) : System where
  world := { World.empty with crawQueue := urls }
  policy := .empty 0 fun _ => none
  requested := []

/-- The answers of a given outside and given servers. -/
def Outside.respondAll (outside : Outside) (env : Env) (web : RobotsWeb) (s : System) :
    (op : SystemOp) → Except Str op.Answer × System
  | .crawl op =>
    ((outside.respond env s.world op).1,
      ⟨(outside.respond env s.world op).2, s.policy, s.requested ++ (SystemOp.crawl op).sends⟩)
  | .policy op =>
    ((web.respond s.policy op).1,
      ⟨s.world, (web.respond s.policy op).2, s.requested ++ (SystemOp.policy op).sends⟩)

theorem Outside.respondAll_step {outside : Outside} {env : Env} {fails : Op → Str → Prop}
    {web : RobotsWeb} (failures : ∀ op x, outside.failure op = some x → fails op x) (s : System)
    (op : SystemOp) :
    systemStep env fails web web.serves s op (outside.respondAll env web s op).1
      (outside.respondAll env web s op).2 := by
  cases op with
  | crawl op => exact ⟨rfl, Outside.respond_step failures s.world op, rfl⟩
  | policy op => exact ⟨rfl, robotsStep_serves.mpr (web.respond_step s.policy op), rfl⟩

/-- The tables after one crawl, and the record of it. -/
def Outside.crawl (outside : Outside) (env : Env) (web : RobotsWeb) (init : System) (rounds : Nat) :
    Except Str Unit × Recorded SystemOp SystemOp.Answer Str System :=
  simulate (recording (outside.respondAll env web)) (crawlTask env web rounds) ⟨init, []⟩

/-- One crawl, run to its end, whatever else may happen. -/
theorem Outside.reaching {outside : Outside} {fails : Op → Str → Prop}
    (failures : ∀ op x, outside.failure op = some x → fails op x) (env : Env) (web : RobotsWeb)
    (ambient : System → System → Prop) (init : System) (rounds : Nat) :
    ∃ pool : Crawls,
      Reachable (systemStep env fails web web.serves) ambient (crawlTask env web) init pool ∧
      pool.state = (outside.crawl env web init rounds).2.state := by
  have run : Runs (record (systemStep env fails web web.serves))
      (crawlTask env web rounds) ⟨init, []⟩
      (outside.crawl env web init rounds).1 (outside.crawl env web init rounds).2 :=
    runs_simulate (record_recording (Outside.respondAll_step failures)) rfl
  have spawned : Reachable (systemStep env fails web web.serves) ambient (crawlTask env web) init
      ⟨init, [] ++ ⟨rounds, crawlTask env web rounds, []⟩ :: []⟩ := .next .start (.spawn rounds)
  exact ⟨_, Reachable.of_runs spawned run, rfl⟩

/-- One crawl, run to its end. -/
theorem Outside.crawling {outside : Outside} {fails : Op → Str → Prop}
    (failures : ∀ op x, outside.failure op = some x → fails op x) (env : Env) (web : RobotsWeb)
    (init : System) (rounds : Nat) :
    ∃ pool : Crawls, Crawling env fails web web.serves init pool ∧
      pool.state = (outside.crawl env web init rounds).2.state :=
  Outside.reaching failures env web (SystemMove env) init rounds

end Tlgs

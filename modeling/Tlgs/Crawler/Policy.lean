import Tlgs.Base.Threads
import Tlgs.Base.Table
import Tlgs.Crawler.Page
import Tlgs.Robots.Parse
import Tlgs.Url.Canonical

/-!
# The robots check

`GeminiCrawler::shouldCrawl`, of which any number of calls run at a time. The policy of a
host comes from the local cache, from the two tables of policies, or from the host. A
transaction that stores a policy commits some time after the call has given it up, or is
rolled back.
-/
namespace Tlgs

open Bytes LexicalPath Interactive

/-! ### What the check reads and writes -/

structure RobotsResponse where
  contentType : Str
  geminiStatus : Str
  body : Str
  deriving DecidableEq, Repr

/-- A row of `robot_policies`, which has no key. -/
structure PolicyRow where
  host : Str
  port : Int
  disallowed : Str
  deriving DecidableEq, Repr

/-- A row of `robot_policies_status`. -/
structure PolicyStatus where
  lastCrawledAt : Time
  havePolicy : Bool
  deriving DecidableEq, Repr

/-- The values of the transaction that stores a policy. -/
structure PolicyUpdate where
  host : Str
  port : Int
  disallowed : List Str
  havePolicy : Bool
  started : Time
  deriving DecidableEq, Repr

namespace PolicyUpdate

def rows (update : PolicyUpdate) : List PolicyRow :=
  update.disallowed.map fun disallow => ⟨update.host, update.port, disallow⟩

def status (update : PolicyUpdate) : PolicyStatus := ⟨update.started, update.havePolicy⟩

end PolicyUpdate

structure PolicyWorld where
  now : Time
  policyCache : Table Str (List Str)
  hostTimeoutCount : Table Str Nat
  robotPolicies : List PolicyRow
  robotPoliciesStatus : Table (Str × Int) PolicyStatus
  /-- the transactions that have neither committed nor been rolled back -/
  committing : List PolicyUpdate

namespace PolicyWorld

/-- Nothing cached, nothing stored. -/
def empty (now : Time) (hostTimeoutCount : Table Str Nat) : PolicyWorld where
  now := now
  policyCache := fun _ => none
  hostTimeoutCount := hostTimeoutCount
  robotPolicies := []
  robotPoliciesStatus := fun _ => none
  committing := []

/-- `SELECT have_policy … AND last_crawled_at > CURRENT_TIMESTAMP - INTERVAL '2' DAY`. -/
def havePolicy (w : PolicyWorld) (host : Str) (port : Int) : Option Bool :=
  match w.robotPoliciesStatus (host, port) with
  | some status => if status.lastCrawledAt > w.now - 2 * day then some status.havePolicy else none
  | none => none

/-- The rows of a host. -/
def rowsOf (w : PolicyWorld) (host : Str) (port : Int) : List PolicyRow :=
  w.robotPolicies.filter fun row => row.host = host ∧ row.port = port

def otherRows (w : PolicyWorld) (host : Str) (port : Int) : List PolicyRow :=
  w.robotPolicies.filter fun row => ¬(row.host = host ∧ row.port = port)

end PolicyWorld

/-- What the check takes from elsewhere: replacing in a text, the blacklist, the server a URL text
is fetched from, what the servers answer for their robots.txt, and the value that `default_port_`
has before it is assigned. -/
structure RobotsWeb where
  replaceAll : Str → Str → Str → Str
  inBlacklist : Str → Bool
  uninitUrl : Str → Int
  reaches : Str → Str × Int
  response : Str × Int → RobotsResponse

inductive PolicyOp
  /-- `host_timeout_count_.find` -/
  | findTimeout (host : Str)
  /-- `policy_cache.findAndFetch` -/
  | findAndFetch (cacheKey : Str)
  /-- `SELECT have_policy FROM robot_policies_status …` -/
  | selectStatus (host : Str) (port : Int)
  | sendRequest (robotUrl : Str)
  /-- `host_timeout_count_[…]++` -/
  | countTimeout (host : Str)
  /-- the transaction, up to its last statement -/
  | updatePolicies (host : Str) (port : Int) (disallowed : List Str) (havePolicy : Bool)
  /-- `SELECT disallowed FROM robot_policies …` -/
  | selectPolicies (host : Str) (port : Int)
  /-- `policy_cache.insert` -/
  | insertPolicy (cacheKey : Str) (disallowed : List Str)

@[reducible] def PolicyOp.Answer : PolicyOp → Type
  | .findTimeout _ => Option Nat
  | .findAndFetch _ => Option (List Str)
  | .selectStatus _ _ => Option Bool
  | .sendRequest _ => RobotsResponse
  | .selectPolicies _ _ => List Str
  | _ => Unit

abbrev Policy := Program PolicyOp PolicyOp.Answer Str

abbrev ask (op : PolicyOp) : Policy op.Answer := Program.perform op

/-! ### The check -/

/-- `tlgs::Url(url).withParam("").withPath("/robots.txt").withFragment("").str()`. -/
def robotUrl (url : Url) : Str :=
  (((url.withParam []).withPath (lit "/robots.txt")).withFragment []).str

def haveRobotsTxt (resp : RobotsResponse) (status : Int) : Bool :=
  let mime := (parseMime resp.contentType).1
  decide (status = 20) && (decide (mime = lit "text/plain") || decide (mime = lit "text/gemini"))

def ourAgents : List Str := [lit "*", lit "tlgs", lit "indexer"]

/-- The last lines of the check. -/
def decideBy (url : Url) (cacheKey : Str) (disallowedPath : List Str) : Policy Bool := do
  let shouldCrawl := !isPathBlocked url.path disallowedPath
  ask (.insertPolicy cacheKey disallowedPath)
  pure shouldCrawl

/-- The request for robots.txt; a failure to reach the host is counted. -/
def fetchRobots (url : Url) : Policy (Option RobotsResponse) :=
  Program.tryCatch
    (do
      let resp ← ask (.sendRequest (robotUrl url))
      pure (some resp))
    fun error => do
      if error = lit "Timeout" ∨ error = lit "NetworkFailure" then
        ask (.countTimeout (url.hostWithPort 1965))
      pure none

/-- From the parsing of the response on. -/
def storePolicy (web : RobotsWeb) (url : Url) (cacheKey : Str) (resp : RobotsResponse)
    (status : Int) : Policy Bool := do
  let haveRobots := haveRobotsTxt resp status
  let disallowedPath := if haveRobots then parseRobotsTxt web.replaceAll resp.body ourAgents else []
  -- whatever the transaction throws is dropped
  Program.tryCatch (ask (.updatePolicies url.host url.port disallowedPath haveRobots))
    fun _ => pure ()
  decideBy url cacheKey disallowedPath

/-- No policy is stored, or one that is too old. -/
def askHost (web : RobotsWeb) (url : Url) (cacheKey : Str) : Policy Bool := do
  match ← fetchRobots url with
  | none => pure true
  | some resp =>
    match stoi resp.geminiStatus with
    | none => Program.throw (lit "stoi")
    | some status => storePolicy web url cacheKey resp status

/-- The policy is not in the local cache. -/
def consultDatabase (web : RobotsWeb) (url : Url) (cacheKey : Str) : Policy Bool := do
  match ← ask (.selectStatus url.host url.port) with
  | none => askHost web url cacheKey
  | some true =>
    let storedPolicy ← ask (.selectPolicies url.host url.port)
    decideBy url cacheKey storedPolicy
  | some false => decideBy url cacheKey []

/-- From the local cache on. -/
def consultCache (web : RobotsWeb) (url : Url) : Policy Bool := do
  let cacheKey := url.hostWithPort 1965
  match ← ask (.findAndFetch cacheKey) with
  | some disallowedPath => pure (!isPathBlocked url.path disallowedPath)
  | none => consultDatabase web url cacheKey

def shouldCrawl (web : RobotsWeb) (urlStr : Str) : Policy Bool :=
  if urlStr = [] then pure false
  else
    let url := Url.ofString (web.uninitUrl urlStr) urlStr
    if url.good = false then pure false
    else if url.protocol ≠ lit "gemini" then pure false
    else if web.inBlacklist url.str then pure false
    else do
      let timeout ← ask (.findTimeout (url.hostWithPort 1965))
      if ∃ count ∈ timeout, count > 3 then pure false
      else consultCache web url

/-! ### What the operations do -/

/-- One operation. The request for robots.txt always succeeds, and its answer depends on the
server only; a query may fail and a transaction may fail before its end. An entry that is in
the cache already may stay. -/
def policyStep (web : RobotsWeb) : Step PolicyOp PolicyOp.Answer Str PolicyWorld :=
  fun w op answer after =>
    match op, answer with
    | .findTimeout host, .ok count => count = w.hostTimeoutCount host ∧ after = w
    | .findAndFetch cacheKey, .ok found => found = w.policyCache cacheKey ∧ after = w
    | .selectStatus host port, .ok found => found = w.havePolicy host port ∧ after = w
    | .selectStatus _ _, .error _ => after = w
    | .sendRequest robotUrl, .ok resp => resp = web.response (web.reaches robotUrl) ∧ after = w
    | .countTimeout host, .ok _ =>
      after = { w with
        hostTimeoutCount := w.hostTimeoutCount.upsert host ((w.hostTimeoutCount host).getD 0 + 1) }
    | .updatePolicies host port disallowed havePolicy, .ok _ =>
      after = { w with committing := w.committing ++ [⟨host, port, disallowed, havePolicy, w.now⟩] }
    | .updatePolicies _ _ _ _, .error _ => after = w
    | .selectPolicies host port, .ok paths =>
      paths.Perm ((w.rowsOf host port).map PolicyRow.disallowed) ∧ after = w
    | .selectPolicies _ _, .error _ => after = w
    | .insertPolicy cacheKey disallowed, .ok _ =>
      after = { w with policyCache := w.policyCache.upsert cacheKey disallowed } ∨
        (w.policyCache cacheKey).isSome ∧ after = w
    | _, .error _ => False

/-- What happens beside the calls: time passes, cache entries expire, other parts of the
crawler count timeouts, and transactions commit or are rolled back. The DELETE of a
transaction may have missed rows of its host that another one stored meanwhile. -/
inductive PolicyMove : PolicyWorld → PolicyWorld → Prop
  | pass {w : PolicyWorld} {later : Time} (forward : w.now ≤ later) :
      PolicyMove w { w with now := later }
  | expire {w : PolicyWorld} (cacheKey : Str) :
      PolicyMove w { w with policyCache := w.policyCache.deleteIf cacheKey fun _ => true }
  | count {w : PolicyWorld} (hostTimeoutCount : Table Str Nat) :
      PolicyMove w { w with hostTimeoutCount := hostTimeoutCount }
  | commit {w : PolicyWorld} {front back : List PolicyUpdate} {update : PolicyUpdate}
      {missed : List PolicyRow} (pending : w.committing = front ++ update :: back)
      (survives : missed.Sublist (w.rowsOf update.host update.port)) :
      PolicyMove w { w with
        committing := front ++ back
        robotPolicies := w.otherRows update.host update.port ++ missed ++ update.rows
        robotPoliciesStatus :=
          w.robotPoliciesStatus.upsert (update.host, update.port) update.status }
  | rollback {w : PolicyWorld} {front back : List PolicyUpdate} {update : PolicyUpdate}
      (pending : w.committing = front ++ update :: back) :
      PolicyMove w { w with committing := front ++ back }

/-! ### The policy of a server -/

/-- The host and port a URL is fetched from. -/
def serverOf (url : Url) : Str × Int := (url.host, if url.port_ = 0 then 1965 else url.port_)

/-- The server whose policy the tables keep under a host and a port. -/
def storedServer (host : Str) (port : Int) : Str × Int := (host, if port = 0 then 1965 else port)

namespace RobotsWeb

variable (web : RobotsWeb)

def usable (server : Str × Int) : Bool :=
  match stoi (web.response server).geminiStatus with
  | some status => haveRobotsTxt (web.response server) status
  | none => false

/-- What the robots.txt of a server disallows us; nothing if it has no usable one. -/
def policy (server : Str × Int) : List Str :=
  if web.usable server then parseRobotsTxt web.replaceAll (web.response server).body ourAgents
    else []

/-- A host as a URL has it once it is parsed. -/
structure PlainHost (host : Str) : Prop where
  nonempty : host ≠ []
  first : host.head? ≠ some fullStop
  plain : ∀ c ∈ host, c ≠ colon ∧ c ≠ slash
  lower : host.map tolower = host

/-- What is known of the Gemini client: a response has a status that is a number, and a URL
is fetched from the host it names, at port 1965 unless it names another. -/
structure Documented : Prop where
  status : ∀ server, ∃ status, stoi (web.response server).geminiStatus = some status
  default_port : ∀ host, PlainHost host →
    web.reaches (lit "gemini://" ++ host ++ lit "/robots.txt") = (host, 1965)
  own_port : ∀ host port, PlainHost host → 0 < port → port ≤ 65535 →
    web.reaches (lit "gemini://" ++ host ++ colon :: Url.toStringInt port ++ lit "/robots.txt") =
      (host, port)

end RobotsWeb

/-- A Gemini URL that the parser accepts. -/
structure GeminiUrl (url : Url) : Prop where
  wellFormed : url.WellFormed
  protocol : url.protocol = lit "gemini"
  default : url.defaultPort = 1965 ∨ url.defaultPort = 0

theorem geminiUrl_of_good {uninit : Int} {urlStr : Str}
    (good : (Url.ofString uninit urlStr).good = true)
    (protocol : (Url.ofString uninit urlStr).protocol = lit "gemini") :
    GeminiUrl (Url.ofString uninit urlStr) := by
  refine ⟨Url.wellFormed_of_good good, protocol, ?_⟩
  obtain ⟨scheme, host, port, tail, spelled⟩ := Url.spelled_of_good good
  rw [Url.ofString_fields uninit spelled] at protocol ⊢
  have spelling : scheme.map tolower = lit "gemini" := protocol
  have some_scheme : scheme ≠ [] := by
    rintro rfl
    cases spelling
  -- the default port is looked up before the scheme is lower-cased
  by_cases lower : scheme = lit "gemini"
  · left
    rw [if_neg some_scheme, lower]
    rfl
  · right
    rw [if_neg some_scheme]
    apply Url.protocolDefaultPort_of_not_lower
    rw [spelling]
    exact fun same => lower same.symm

namespace GeminiUrl

variable {url : Url}

theorem storedServer_eq (gemini : GeminiUrl url) :
    storedServer url.host url.port = serverOf url := by
  simp only [storedServer, serverOf, Url.port]
  by_cases own : url.port_ = 0
  · rcases gemini.default with default | default <;> simp [own, default]
  · simp [own]

theorem reaches_robotUrl (gemini : GeminiUrl url) {web : RobotsWeb} (documented : web.Documented) :
    web.reaches (robotUrl url) = serverOf url := by
  have wf := gemini.wellFormed
  have plain : RobotsWeb.PlainHost url.host :=
    ⟨wf.host_nonempty, wf.host_first, wf.host_plain, wf.host_lower⟩
  have path : lexicallyNormal (lit "/robots.txt") = lit "/robots.txt" := by decide
  have text : robotUrl url = lit "gemini://" ++ url.host ++ url.portText ++ lit "/robots.txt" := by
    have rooted : (url.withParam []).withPath (lit "/robots.txt") =
        { url with param := [], path := lit "/robots.txt" } := by
      rw [Url.withPath, if_pos (by decide), path]
      rfl
    have named : lit "gemini" ≠ [] := by decide
    rw [robotUrl, rooted]
    simp only [Url.str, Url.withFragment, Url.authority, Url.portText, Url.suffix, gemini.protocol,
      named, if_false, if_true, List.append_nil]
    rfl
  rw [text, Url.portText, serverOf]
  by_cases own : url.port_ = 0
  · simpa [own] using documented.default_port _ plain
  · rw [if_neg own]
    have range := wf.port_range
    by_cases default : url.defaultPort = url.port_
    · -- the port is 1965, written out or not
      have value : url.port_ = 1965 := by
        rcases gemini.default with known | unknown
        · exact default.symm.trans known
        · exact absurd (default.symm.trans unknown) own
      simpa [own, default, value] using documented.default_port _ plain
    · rw [if_pos ⟨own, default⟩]
      exact documented.own_port _ _ plain (by omega) range.2

/-- A URL's server has a host without a colon and a port. -/
theorem serverOf_plain (gemini : GeminiUrl url) :
    colon ∉ (serverOf url).1 ∧ 0 ≤ (serverOf url).2 := by
  refine ⟨fun member => (gemini.wellFormed.host_plain colon member).1 rfl, ?_⟩
  have range := gemini.wellFormed.port_range
  simp only [serverOf]
  split <;> omega

end GeminiUrl

def cacheKeyOf (server : Str × Int) : Str := server.1 ++ colon :: Url.toStringInt server.2

theorem hostWithPort_eq (url : Url) : url.hostWithPort 1965 = cacheKeyOf (serverOf url) := by
  simp only [Url.hostWithPort, cacheKeyOf, serverOf]
  by_cases own : url.port_ = 0 <;> simp [own]

theorem cacheKeyOf_injective {server server' : Str × Int} (plain : colon ∉ server.1)
    (plain' : colon ∉ server'.1) (range : 0 ≤ server.2) (range' : 0 ≤ server'.2)
    (same : cacheKeyOf server = cacheKeyOf server') : server = server' := by
  obtain ⟨host, port⟩ := server
  obtain ⟨host', port'⟩ := server'
  -- the first colon ends the host on both sides
  have hosts : ∀ c ∈ host, c ≠ colon := fun c member equal => plain (equal ▸ member)
  have hosts' : ∀ c ∈ host', c ≠ colon := fun c member equal => plain' (equal ▸ member)
  obtain ⟨rfl, -, ports⟩ := append_cons_unique hosts hosts' (not_not.mpr rfl) (not_not.mpr rfl) same
  rw [Url.toStringInt_nonneg range, Url.toStringInt_nonneg range'] at ports
  have equal := decimal_injective ports
  simp only at range range'
  have value : port = port' := by omega
  rw [value]

end Tlgs

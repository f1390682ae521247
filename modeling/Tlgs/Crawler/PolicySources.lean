import Tlgs.Crawler.Policy

/-!
# The sources of a policy agree

While the servers do not change their robots.txt, the cache, the tables and the
transactions under way hold nothing but the policy of the server they are kept for. So a
call answers by that policy, whichever source it takes it from.
-/
namespace Tlgs

open Bytes Interactive

/-! ### The invariant -/

def SamePaths (paths paths' : List Str) : Prop := ∀ path, path ∈ paths ↔ path ∈ paths'

theorem isPathBlocked_congr {paths paths' : List Str} (same : SamePaths paths paths') (path : Str) :
    isPathBlocked path paths = isPathBlocked path paths' := by
  rw [Bool.eq_iff_iff, isPathBlocked, isPathBlocked, List.any_eq_true, List.any_eq_true]
  exact exists_congr fun rule => and_congr_left fun _ => same rule

/-- Every source holds the policy of the server it is kept for. -/
structure Agrees (web : RobotsWeb) (w : PolicyWorld) : Prop where
  cached : ∀ server paths, colon ∉ server.1 → 0 ≤ server.2 →
    w.policyCache (cacheKeyOf server) = some paths → SamePaths paths (web.policy server)
  stored : ∀ row ∈ w.robotPolicies, row.disallowed ∈ web.policy (storedServer row.host row.port)
  complete : ∀ host port status, w.robotPoliciesStatus (host, port) = some status →
    status.havePolicy = web.usable (storedServer host port) ∧
      ∀ path ∈ web.policy (storedServer host port), ⟨host, port, path⟩ ∈ w.robotPolicies
  pending : ∀ update ∈ w.committing,
    update.havePolicy = web.usable (storedServer update.host update.port) ∧
      update.disallowed = web.policy (storedServer update.host update.port)

/-- A host whose policy is stored stays one. -/
def KeepsStatus (w after : PolicyWorld) : Prop :=
  ∀ key, (w.robotPoliciesStatus key).isSome → (after.robotPoliciesStatus key).isSome

theorem keepsStatus_refl (w : PolicyWorld) : KeepsStatus w w := fun _ => id

theorem keepsStatus_trans (a b c : PolicyWorld) (first : KeepsStatus a b)
    (second : KeepsStatus b c) :
    KeepsStatus a c :=
  fun key present => second key (first key present)

theorem agrees_empty (web : RobotsWeb) (now : Time) (hostTimeoutCount : Table Str Nat) :
    Agrees web (.empty now hostTimeoutCount) where
  cached := nofun
  stored := nofun
  complete := nofun
  pending := nofun

variable {web : RobotsWeb} {w after : PolicyWorld}

/-! ### What happens beside the calls -/

private theorem mem_rowsOf {host : Str} {port : Int} {row : PolicyRow} :
    row ∈ w.rowsOf host port ↔ row ∈ w.robotPolicies ∧ row.host = host ∧ row.port = port := by
  simp [PolicyWorld.rowsOf]

private theorem mem_otherRows {host : Str} {port : Int} {row : PolicyRow} :
    row ∈ w.otherRows host port ↔ row ∈ w.robotPolicies ∧ ¬(row.host = host ∧ row.port = port) := by
  rw [PolicyWorld.otherRows, List.mem_filter, decide_eq_true_eq]

private theorem mem_rows {update : PolicyUpdate} {row : PolicyRow} :
    row ∈ update.rows ↔ row.host = update.host ∧ row.port = update.port ∧
      row.disallowed ∈ update.disallowed := by
  obtain ⟨host, port, disallowed⟩ := row
  simp only [PolicyUpdate.rows, List.mem_map, PolicyRow.mk.injEq]
  constructor
  · rintro ⟨path, member, rfl, rfl, rfl⟩
    exact ⟨rfl, rfl, member⟩
  · rintro ⟨rfl, rfl, member⟩
    exact ⟨disallowed, member, rfl, rfl, rfl⟩

/-- What is pending when one transaction is over was pending before. -/
private theorem mem_of_mem_rest {front back : List PolicyUpdate} {update other : PolicyUpdate}
    (member : other ∈ front ++ back) : other ∈ front ++ update :: back := by
  rcases List.mem_append.mp member with before | behind
  · exact List.mem_append_left _ before
  · exact List.mem_append_right _ (List.mem_cons_of_mem _ behind)

/-- A transaction that commits stores the policy, whatever rows its DELETE missed. -/
private theorem agrees_commit {front back : List PolicyUpdate} {update : PolicyUpdate}
    {missed : List PolicyRow} (agrees : Agrees web w)
    (pending : w.committing = front ++ update :: back)
    (survives : missed.Sublist (w.rowsOf update.host update.port)) :
    Agrees web { w with
      committing := front ++ back
      robotPolicies := w.otherRows update.host update.port ++ missed ++ update.rows
      robotPoliciesStatus :=
        w.robotPoliciesStatus.upsert (update.host, update.port) update.status } := by
  have ours := agrees.pending update (by
    rw [pending]
    exact List.mem_append_right _ List.mem_cons_self)
  refine ⟨agrees.cached, ?_, ?_, ?_⟩
  · -- a row was there before, or is the transaction's own
    intro row member
    simp only [List.mem_append, mem_otherRows, mem_rows] at member
    rcases member with (⟨earlier, _⟩ | earlier) | ⟨host, port, added⟩
    · exact agrees.stored row earlier
    · exact agrees.stored row (mem_rowsOf.mp (survives.mem earlier)).1
    · rw [host, port, ← ours.2]
      exact added
  · intro host port status present
    simp only [Table.upsert] at present
    split at present
    next same =>
      cases same
      cases present
      refine ⟨ours.1, fun path member => List.mem_append_right _ (mem_rows.mpr ⟨rfl, rfl, ?_⟩)⟩
      rw [ours.2]
      exact member
    next different =>
      -- the DELETE leaves the rows of other servers
      obtain ⟨have_policy, rows⟩ := agrees.complete host port status present
      refine ⟨have_policy, fun path member => ?_⟩
      refine List.mem_append_left _
        (List.mem_append_left _ (mem_otherRows.mpr ⟨rows path member, ?_⟩))
      rintro ⟨rfl, rfl⟩
      exact different rfl
  · intro other member
    exact agrees.pending other (pending ▸ mem_of_mem_rest member)

theorem agrees_move (agrees : Agrees web w) (moved : PolicyMove w after) :
    Agrees web after ∧ KeepsStatus w after := by
  cases moved with
  | pass forward =>
    exact ⟨⟨agrees.cached, agrees.stored, agrees.complete, agrees.pending⟩, keepsStatus_refl _⟩
  | expire cacheKey =>
    -- what is left in the cache was there before
    refine ⟨⟨?_, agrees.stored, agrees.complete, agrees.pending⟩, keepsStatus_refl _⟩
    intro server paths plain range found
    refine agrees.cached server paths plain range ?_
    simp only [Table.deleteIf] at found
    split at found
    · simp at found
    · exact found
  | count hostTimeoutCount =>
    exact ⟨⟨agrees.cached, agrees.stored, agrees.complete, agrees.pending⟩, keepsStatus_refl _⟩
  | commit pending survives =>
    refine ⟨agrees_commit agrees pending survives, fun key present => ?_⟩
    simp only [Table.upsert]
    split
    · rfl
    · exact present
  | rollback pending =>
    refine ⟨⟨agrees.cached, agrees.stored, agrees.complete, fun other member => ?_⟩,
      keepsStatus_refl _⟩
    exact agrees.pending other (pending ▸ mem_of_mem_rest member)

/-! ### What a call does -/

/-- The call is past the blacklist and the timeouts: it has asked the cache. -/
def PastChecks (log : List (Event PolicyOp PolicyOp.Answer Str)) : Prop :=
  ∃ cacheKey answer, (⟨.findAndFetch cacheKey, answer⟩ : Event PolicyOp PolicyOp.Answer Str) ∈ log

def PolicyOp.IsQuery : PolicyOp → Prop
  | .selectStatus _ _ | .selectPolicies _ _ => True
  | _ => False

/-- The call answers by the policy of the server, or a query of its own has failed it. -/
def AnswersBy (web : RobotsWeb) (url : Url) (outcome : Except Str Bool)
    (log : List (Event PolicyOp PolicyOp.Answer Str)) : Prop :=
  outcome = .ok (!isPathBlocked url.path (web.policy (serverOf url))) ∨
    ∃ op x, op.IsQuery ∧ ⟨op, .error x⟩ ∈ log ∧ outcome = .error x

/-- What a call for a text ends with. -/
def CallEnds (web : RobotsWeb) (urlStr : Str) (outcome : Except Str Bool)
    (log : List (Event PolicyOp PolicyOp.Answer Str)) : Prop :=
  PastChecks log → AnswersBy web (Url.ofString (web.uninitUrl urlStr) urlStr) outcome log

abbrev PolicySafe (web : RobotsWeb) (url : Url) : Policy Bool → PolicyWorld →
    List (Event PolicyOp PolicyOp.Answer Str) → Prop :=
  Safe (policyStep web) (Agrees web) KeepsStatus (AnswersBy web url)

variable {url : Url} {log : List (Event PolicyOp PolicyOp.Answer Str)}

private theorem answersBy_failed {op : PolicyOp} {x : Str} (query : op.IsQuery) :
    AnswersBy web url (.error x) (log ++ [⟨op, .error x⟩]) :=
  Or.inr ⟨op, x, query, List.mem_append_right _ List.mem_cons_self, rfl⟩

/-- A query that fails ends the call. -/
private theorem safe_failed {α : Type} {f : α → Policy Bool} {op : PolicyOp} {x : Str}
    (agrees : Agrees web w) (query : op.IsQuery) :
    (Agrees web w ∧ KeepsStatus w w) ∧
      PolicySafe web url ((Program.done (.error x)).bind f) w (log ++ [⟨op, .error x⟩]) := by
  refine ⟨⟨agrees, keepsStatus_refl _⟩, ?_⟩
  rw [PolicySafe, bind_error, safe_done]
  exact answersBy_failed query

private theorem agrees_insertPolicy (gemini : GeminiUrl url) (agrees : Agrees web w)
    {paths : List Str} (same : SamePaths paths (web.policy (serverOf url))) :
    Agrees web { w with policyCache := w.policyCache.upsert (url.hostWithPort 1965) paths } := by
  refine ⟨fun server found plain range present =>
    ?_, agrees.stored, agrees.complete, agrees.pending⟩
  simp only [Table.upsert, hostWithPort_eq] at present
  split at present
  next key =>
    -- a key belongs to one server
    cases present
    have ours : server = serverOf url :=
      cacheKeyOf_injective plain gemini.serverOf_plain.1 range gemini.serverOf_plain.2 key
    rwa [ours]
  · exact agrees.cached server found plain range present

/-- With the paths of the policy in hand, in whatever order, the answer is that of the policy. -/
private theorem safe_decideBy (gemini : GeminiUrl url) {paths : List Str}
    (same : SamePaths paths (web.policy (serverOf url))) (w : PolicyWorld) :
    PolicySafe web url (decideBy url (url.hostWithPort 1965) paths) w log := by
  rw [decideBy, PolicySafe, safe_perform_bind]
  intro now answer after _ agrees taken
  cases answer with
  | error x => cases taken
  | ok done =>
    have kept : Agrees web after ∧ KeepsStatus now after := by
      rcases taken with rfl | ⟨_, rfl⟩
      · exact ⟨agrees_insertPolicy gemini agrees same, keepsStatus_refl _⟩
      · exact ⟨agrees, keepsStatus_refl _⟩
    refine ⟨kept, ?_⟩
    rw [bind_ok, safe_pure, isPathBlocked_congr same]
    exact Or.inl rfl

/-- The transaction of a call, and what follows whether it goes through or not. -/
private theorem safe_storePolicy (gemini : GeminiUrl url) {status : Int}
    (number : stoi (web.response (serverOf url)).geminiStatus = some status) (w : PolicyWorld) :
    PolicySafe web url
      (storePolicy web url (url.hostWithPort 1965) (web.response (serverOf url)) status) w log := by
  have usable : haveRobotsTxt (web.response (serverOf url)) status = web.usable (serverOf url) := by
    rw [RobotsWeb.usable, number]
  have policy : (if haveRobotsTxt (web.response (serverOf url)) status then
      parseRobotsTxt web.replaceAll (web.response (serverOf url)).body ourAgents else []) =
        web.policy (serverOf url) := by
    rw [usable, RobotsWeb.policy]
  have decided : SamePaths (if haveRobotsTxt (web.response (serverOf url)) status then
      parseRobotsTxt web.replaceAll (web.response (serverOf url)).body ourAgents else [])
        (web.policy (serverOf url)) := fun path => by rw [policy]
  intro now answer after _ agrees taken
  cases answer with
  | error x =>
    -- the exception is only logged
    cases taken
    exact ⟨⟨agrees, keepsStatus_refl _⟩, safe_decideBy gemini decided _⟩
  | ok done =>
    -- the call goes on before the transaction commits
    cases taken
    refine ⟨⟨⟨agrees.cached, agrees.stored, agrees.complete, ?_⟩, keepsStatus_refl _⟩,
      safe_decideBy gemini decided _⟩
    intro update member
    rcases List.mem_append.mp member with earlier | added
    · exact agrees.pending update earlier
    · rw [List.mem_singleton.mp added, gemini.storedServer_eq]
      exact ⟨usable, policy⟩

private theorem safe_askHost (documented : web.Documented) (gemini : GeminiUrl url)
    (w : PolicyWorld) :
    PolicySafe web url (askHost web url (url.hostWithPort 1965)) w log := by
  intro now answer after _ agrees taken
  cases answer with
  | error x => cases taken
  | ok resp =>
    obtain ⟨response, rfl⟩ := taken
    refine ⟨⟨agrees, keepsStatus_refl _⟩, ?_⟩
    rw [gemini.reaches_robotUrl documented] at response
    subst response
    obtain ⟨status, number⟩ := documented.status (serverOf url)
    simp only [Program.bind, pure, Program.tryCatch, number]
    exact safe_storePolicy gemini number _

/-- A policy that was found to be stored is still there when its rows are read. -/
private theorem safe_selectPolicies (gemini : GeminiUrl url)
    (present : (w.robotPoliciesStatus (url.host, url.port)).isSome) :
    PolicySafe web url (do
      let storedPolicy ← ask (.selectPolicies url.host url.port)
      decideBy url (url.hostWithPort 1965) storedPolicy) w log := by
  rw [PolicySafe, safe_perform_bind]
  intro now answer after kept agrees taken
  cases answer with
  -- the statement throws
  | error x =>
    cases taken
    exact safe_failed agrees trivial
  | ok paths =>
    -- the rows are the policy of the server, which has a status
    obtain ⟨order, rfl⟩ := taken
    refine ⟨⟨agrees, keepsStatus_refl _⟩, ?_⟩
    rw [bind_ok]
    apply safe_decideBy gemini
    intro path
    obtain ⟨status, found⟩ := Option.isSome_iff_exists.mp (kept _ present)
    rw [order.mem_iff, List.mem_map, ← gemini.storedServer_eq]
    constructor
    · rintro ⟨row, member, rfl⟩
      obtain ⟨stored, host, port⟩ := mem_rowsOf.mp member
      rw [← host, ← port]
      exact agrees.stored row stored
    · intro member
      have stored := (agrees.complete _ _ status found).2 path member
      exact ⟨_, mem_rowsOf.mpr ⟨stored, rfl, rfl⟩, rfl⟩

private theorem safe_consultDatabase (documented : web.Documented) (gemini : GeminiUrl url)
    (w : PolicyWorld) :
    PolicySafe web url (consultDatabase web url (url.hostWithPort 1965)) w log := by
  rw [consultDatabase, PolicySafe, safe_perform_bind]
  intro now answer after _ agrees taken
  cases answer with
  | error x =>
    cases taken
    exact safe_failed agrees trivial
  | ok found =>
    obtain ⟨have_policy, rfl⟩ := taken
    refine ⟨⟨agrees, keepsStatus_refl _⟩, ?_⟩
    rw [bind_ok]
    cases found with
    | none => exact safe_askHost documented gemini _
    | some stored =>
      obtain ⟨status, present, same⟩ : ∃ status,
          after.robotPoliciesStatus (url.host, url.port) = some status ∧
            status.havePolicy = stored := by
        rw [PolicyWorld.havePolicy] at have_policy
        split at have_policy
        next status present =>
          split at have_policy
          · exact ⟨status, present, (Option.some.inj have_policy).symm⟩
          · cases have_policy
        · cases have_policy
      cases stored with
      | true => exact safe_selectPolicies gemini (Option.isSome_iff_exists.mpr ⟨status, present⟩)
      | false =>
        -- stored as a server without a usable robots.txt
        apply safe_decideBy gemini
        have unusable := (agrees.complete _ _ status present).1
        rw [same, gemini.storedServer_eq] at unusable
        intro path
        simp [RobotsWeb.policy, ← unusable]

theorem safe_consultCache (documented : web.Documented) (gemini : GeminiUrl url)
    (w : PolicyWorld) : PolicySafe web url (consultCache web url) w log := by
  rw [consultCache, PolicySafe, safe_perform_bind]
  intro now answer after _ agrees taken
  cases answer with
  | error x => cases taken
  | ok found =>
    obtain ⟨cached, rfl⟩ := taken
    refine ⟨⟨agrees, keepsStatus_refl _⟩, ?_⟩
    rw [bind_ok]
    cases found with
    | none => exact safe_consultDatabase documented gemini _
    | some paths =>
      -- the cache answers under the rendered host and port
      have same : SamePaths paths (web.policy (serverOf url)) :=
        agrees.cached (serverOf url) paths gemini.serverOf_plain.1 gemini.serverOf_plain.2
          (by rw [cached, hostWithPort_eq])
      rw [safe_pure, isPathBlocked_congr same]
      exact Or.inl rfl

/-- A call on its own: past the checks it answers by the policy, whatever the others do. -/
private theorem safe_shouldCrawl (documented : web.Documented) (urlStr : Str) (w : PolicyWorld) :
    Safe (policyStep web) (Agrees web) KeepsStatus (CallEnds web urlStr) (shouldCrawl web urlStr) w
      [] := by
  have early : CallEnds web urlStr (.ok false) [] := by
    rintro ⟨_, _, member⟩
    cases member
  rw [shouldCrawl]
  split
  · exact early
  · dsimp only
    split
    · exact early
    next good =>
      split
      · exact early
      next protocol =>
        split
        · exact early
        · have gemini := geminiUrl_of_good (Bool.eq_true_of_not_eq_false good) (not_not.mp protocol)
          rw [safe_perform_bind]
          intro now answer after _ agrees taken
          cases answer with
          | error x => cases taken
          | ok timeout =>
            obtain ⟨_, rfl⟩ := taken
            refine ⟨⟨agrees, keepsStatus_refl _⟩, ?_⟩
            rw [bind_ok]
            split
            · -- too many timeouts: the cache is not asked
              rintro ⟨_, _, member⟩
              rcases List.mem_append.mp member with earlier | last
              · cases earlier
              · cases List.mem_singleton.mp last
            · exact (safe_consultCache documented gemini after).weaken fun _ _ answers _ => answers

/-- In every run of any number of calls, in any interleaving with each other, with expiries and
with transactions that commit or roll back, a call that is past the blacklist and the timeouts
answers by the policy of the server of its URL, unless a query of its own throws. -/
theorem policy_sources_agree (documented : web.Documented) {now : Time}
    {hostTimeoutCount : Table Str Nat}
    {pool : Pool PolicyOp PolicyOp.Answer Str Bool PolicyWorld Str}
    (reached : Reachable (policyStep web) PolicyMove (shouldCrawl web)
      (.empty now hostTimeoutCount) pool)
    {thread : Thread PolicyOp PolicyOp.Answer Str Bool Str} (member : thread ∈ pool.threads)
    {outcome : Except Str Bool} (ended : thread.program = .done outcome)
    (past : PastChecks thread.log) :
    AnswersBy web (Url.ofString (web.uninitUrl thread.label) thread.label) outcome thread.log := by
  have safe : PoolSafe (policyStep web) (Agrees web) KeepsStatus (CallEnds web) pool :=
    reached.poolSafe keepsStatus_refl keepsStatus_trans (fun _ _ => agrees_move)
      (fun s urlStr _ => safe_shouldCrawl documented urlStr s)
        (agrees_empty web now hostTimeoutCount)
  exact safe.ended member ended past

/-! ### A run of one call -/

namespace RobotsWeb

/-- The answers where nothing fails, expires or commits. -/
def respond (web : RobotsWeb) (w : PolicyWorld) :
    (op : PolicyOp) → Except Str op.Answer × PolicyWorld
  | .findTimeout host => (.ok (w.hostTimeoutCount host), w)
  | .findAndFetch cacheKey => (.ok (w.policyCache cacheKey), w)
  | .selectStatus host port => (.ok (w.havePolicy host port), w)
  | .sendRequest robotUrl => (.ok (web.response (web.reaches robotUrl)), w)
  | .countTimeout host =>
    (.ok (), { w with
      hostTimeoutCount := w.hostTimeoutCount.upsert host ((w.hostTimeoutCount host).getD 0 + 1) })
  | .updatePolicies host port disallowed havePolicy =>
    (.ok (), { w with committing := w.committing ++ [⟨host, port, disallowed, havePolicy, w.now⟩] })
  | .selectPolicies host port => (.ok ((w.rowsOf host port).map PolicyRow.disallowed), w)
  | .insertPolicy cacheKey disallowed =>
    (.ok (), { w with policyCache := w.policyCache.upsert cacheKey disallowed })

theorem respond_step (web : RobotsWeb) (w : PolicyWorld) (op : PolicyOp) :
    policyStep web w op (web.respond w op).1 (web.respond w op).2 := by
  cases op with
  | countTimeout host => exact rfl
  | updatePolicies host port disallowed havePolicy => exact rfl
  | selectPolicies host port => exact ⟨List.Perm.refl _, rfl⟩
  | insertPolicy cacheKey disallowed => exact Or.inl rfl
  | _ => exact ⟨rfl, rfl⟩

/-- Every server answers with one robots.txt, and a URL text is read as the crawler reads it. -/
def serving (body : Str) : RobotsWeb where
  replaceAll := Bytes.replaceAll
  inBlacklist _ := false
  uninitUrl _ := 0
  reaches text := serverOf (Url.ofString 0 text)
  response _ := ⟨lit "text/plain", lit "20", body⟩

theorem serving_documented (body : Str) : (serving body).Documented := by
  have alnum : ∀ c ∈ lit "gemini", isalnum c = true := List.all_eq_true.mp (by decide)
  have lower : (lit "gemini").map tolower = lit "gemini" := by decide
  constructor
  · intro server
    exact ⟨20, (by decide : stoi (lit "20") = some 20)⟩
  · -- without a port the default one is taken
    intro host plain
    have spelled : Url.Spelled (lit "gemini://" ++ host ++ lit "/robots.txt")
        (lit "gemini") host none
        (lit "/robots.txt") :=
      ⟨by simp [Url.schemeText, Url.portPart]; decide, alnum, plain.nonempty, plain.first,
        plain.plain, nofun, Or.inr (by decide)⟩
    simp only [serving, serverOf, Url.ofString_fields 0 spelled, plain.lower]
    rfl
  · -- a printed port is read back
    intro host port plain positive bound
    have spelled : Url.Spelled
        (lit "gemini://" ++ host ++ colon :: Url.toStringInt port ++ lit "/robots.txt")
          (lit "gemini") host
        (some (Url.toStringInt port)) (lit "/robots.txt") := by
      refine ⟨by simp [Url.schemeText, Url.portPart]; decide, alnum, plain.nonempty, plain.first,
        plain.plain, ?_, Or.inr (by decide)⟩
      intro text equal
      cases equal
      exact ⟨Url.slash_not_mem_toStringInt (by omega), port,
        Url.stoi_toStringInt (by omega) bound, positive,
        bound⟩
    simp only [serving, serverOf, Url.ofString_fields 0 spelled, plain.lower, Url.portValue,
      Url.stoi_toStringInt (show 0 ≤ port by omega) bound, Option.getD_some]
    rw [if_neg (by omega)]

end RobotsWeb

theorem policy_sources_agree_private :
    let web := RobotsWeb.serving (lit "User-agent: tlgs\nDisallow: /private\n")
    let urlStr := lit "gemini://h/private/x"
    ∃ pool, Reachable (policyStep web) PolicyMove (shouldCrawl web) (.empty 0 fun _ => none) pool ∧
      ∃ thread ∈ pool.threads, thread.label = urlStr ∧ thread.program = .done (.ok false) ∧
        AnswersBy web (Url.ofString 0 urlStr) (.ok false) thread.log := by
  intro web urlStr
  let start : PolicyWorld := .empty 0 fun _ => none
  let after := (simulate (recording web.respond) (shouldCrawl web urlStr) ⟨start, []⟩).2
  have run : Runs (record (policyStep web)) (shouldCrawl web urlStr) ⟨start, []⟩
      (.ok false) after :=
    runs_simulate (record_recording web.respond_step) (by decide)
  have reached : Reachable (policyStep web) PolicyMove (shouldCrawl web) start
      ⟨after.state, [] ++ ⟨urlStr, .done (.ok false), after.log⟩ :: []⟩ :=
    .of_runs (.next .start (.spawn urlStr)) run
  have asked : PastChecks after.log := ⟨_, _, List.Mem.tail _ (List.Mem.head _)⟩
  exact ⟨_, reached, _, List.mem_append_right _ List.mem_cons_self, rfl, rfl,
    policy_sources_agree (RobotsWeb.serving_documented _) reached
      (List.mem_append_right _ List.mem_cons_self) rfl asked⟩

end Tlgs

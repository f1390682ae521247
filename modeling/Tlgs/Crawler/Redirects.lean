import Tlgs.Crawler.RedirectBudget

/-!
# Which requests are approved

The redirect loop requests the URL that the call was asked for, one that a response redirects to, or
one that a stored redirect leads to. For the first two the call has asked whether the URL may be
crawled, for the third it has not. What decides is the way that the stored redirects, the responses
and the answers of the check lead.
-/
namespace Tlgs

open Bytes Interactive Interactive.Program

/-- The URL that `shouldCrawl` returned `true` for. -/
def approvedUrl : Event Op Op.Answer Str → Option Str
  | ⟨.shouldCrawl urlStr, .ok true⟩ => some urlStr
  | _ => none

def Approved (log : Log) (urlStr : Str) : Prop := urlStr ∈ log.filterMap approvedUrl

instance (log : Log) (urlStr : Str) : Decidable (Approved log urlStr) :=
  inferInstanceAs (Decidable (_ ∈ _))

/-- `crawlUrl` is requested after `before`. -/
def Requests (log before : Log) (crawlUrl : Url) : Prop :=
  ∃ answer rest, log = before ++ ⟨.sendRequest crawlUrl, answer⟩ :: rest

/-- Every URL that is requested in the call is approved in it. -/
def RequestsApproved (log : Log) : Prop :=
  ∀ before crawlUrl, Requests log before crawlUrl → Approved log crawlUrl.str

/-- Every URL is approved before it is requested. -/
def RequestsApprovedFirst (log : Log) : Prop :=
  ∀ before crawlUrl, Requests log before crawlUrl → Approved before crawlUrl.str

/-! ### What the outside does in a round -/

/-- Whether the look for a stored redirect fails in a round, what the hosts answer and the check
says, and whether a redirect fails to be stored. -/
structure Round where
  lookup : Option Str
  web : Url → Except Str Response
  allows : Str → Except Str Bool
  store : Option Str

/-- How many rounds have begun. -/
def roundsBegun (log : Log) : Nat :=
  log.countP fun event => match event.op with
    | .selectRedirect _ => true
    | _ => false

def failure {α : Type} : Except Str α → Option Str
  | .error x => some x
  | .ok _ => none

def JustRequested (log : Log) : Prop :=
  ∃ url answer, log.getLast? = some ⟨.sendRequest url, answer⟩

/-- The answer is that of the round. Outside of the loop the check may say anything. -/
def RoundAnswers (rounds : Nat → Round) (before : Log) : (op : Op) → Except Str op.Answer → Prop
  | .selectRedirect _, answer => failure answer = (rounds (roundsBegun before)).lookup
  | .sendRequest url, answer => answer = (rounds (roundsBegun before - 1)).web url
  | .shouldCrawl urlStr, answer =>
    JustRequested before → answer = (rounds (roundsBegun before - 1)).allows urlStr
  | .upsertRedirect _ _, answer => failure answer = (rounds (roundsBegun before - 1)).store
  | _, _ => True

/-- The answers in the loop are those of the rounds. -/
def AnsweredBy (rounds : Nat → Round) (log : Log) : Prop :=
  ∀ before event rest, log = before ++ event :: rest →
    RoundAnswers rounds before event.op event.answer

/-! ### The way through the redirects -/

variable (env : Env)

def Response.redirectUrl (resp : Response) : Url :=
  Url.ofString (env.uninitUrl resp.meta_) resp.meta_

/-- In this round the response for `crawlUrl` redirects, and the loop follows. -/
structure LiveHop (round : Round) (url crawlUrl : Url) (resp : Response) (status : Int) : Prop where
  answered : round.web crawlUrl = .ok resp
  number : stoi resp.geminiStatus = some status
  redirect : status.tdiv 10 = 3
  good : (resp.redirectUrl env).good = true
  other : crawlUrl.str ≠ (resp.redirectUrl env).str
  gemini : url.protocol = lit "gemini"
  allowed : round.allows (resp.redirectUrl env).str = .ok true
  stored : status = 31 → round.store = none

/-- The loop goes on after these redirects, of which a stored one counts twice. -/
def WithinBudget (kinds : List HopKind) : Prop := kinds.length + kinds.count .stored ≤ 5

/-- Where the table of redirects and the rounds lead: the redirects on the way, the last one first,
the table after them, the URLs that the check was asked for on the way, and the URL at the end. -/
inductive Way (rounds : Nat → Round) (redirects : Table Str Str) (url : Url) :
    List HopKind → Table Str Str → List Str → Url → Prop
  | start : Way rounds redirects url [] redirects [url.str] url
  | stored {kinds : List HopKind} {table : Table Str Str} {asked : List Str}
    {crawlUrl : Url} {toUrl : Str}
      (way : Way rounds redirects url kinds table asked crawlUrl) (budget : WithinBudget kinds)
      (works : (rounds kinds.length).lookup = none) (found : table crawlUrl.str = some toUrl) :
      Way rounds redirects url (.stored :: kinds) table asked
        (Url.ofString (env.uninitUrl toUrl) toUrl)
  | live {kinds : List HopKind} {table : Table Str Str} {asked : List Str} {crawlUrl : Url}
      {resp : Response} {status : Int}
      (way : Way rounds redirects url kinds table asked crawlUrl) (budget : WithinBudget kinds)
      (works : (rounds kinds.length).lookup = none) (missing : table crawlUrl.str = none)
      (hop : LiveHop env (rounds kinds.length) url crawlUrl resp status) :
      Way rounds redirects url (.live :: kinds)
        (if status = 31 then table.upsert crawlUrl.str (resp.redirectUrl env).str else table)
        ((resp.redirectUrl env).str :: asked) (resp.redirectUrl env)

/-- The way comes to a URL that has no stored redirect, so that it is requested. -/
structure Visits (rounds : Nat → Round) (redirects : Table Str Str) (url : Url)
    (kinds : List HopKind) (asked : List Str) (crawlUrl : Url) : Prop where
  way : ∃ table, Way env rounds redirects url kinds table asked crawlUrl ∧ table crawlUrl.str = none
  budget : WithinBudget kinds
  works : (rounds kinds.length).lookup = none

/-- A stored redirect only leads to a further one, to the URL of the call, or to one that a response
on the way redirected to with the consent of the check. -/
def StoredAsked (rounds : Nat → Round) (redirects : Table Str Str) (url : Url) : Prop :=
  ∀ kinds asked crawlUrl, Visits env rounds redirects url (.stored :: kinds) asked crawlUrl →
    crawlUrl.str ∈ asked

def AskedBelow (rounds : Nat → Round) (redirects : Table Str Str) (url : Url) (n : Nat) : Prop :=
  ∀ kinds asked crawlUrl, Visits env rounds redirects url kinds asked crawlUrl → kinds.length < n →
    crawlUrl.str ∈ asked

variable {env} {rounds : Nat → Round} {redirects table table' : Table Str Str}
  {url crawlUrl crawlUrl' : Url}
  {kinds kinds' : List HopKind} {asked asked' : List Str}

theorem LiveHop.unique {round : Round} {resp resp' : Response} {status status' : Int}
    (hop : LiveHop env round url crawlUrl resp status)
    (hop' : LiveHop env round url crawlUrl resp' status') :
    resp = resp' ∧ status = status' := by
  cases hop.answered.symm.trans hop'.answered
  cases hop.number.symm.trans hop'.number
  exact ⟨rfl, rfl⟩

/-- There is one way only. -/
theorem Way.unique (way : Way env rounds redirects url kinds table asked crawlUrl)
    (way' : Way env rounds redirects url kinds' table' asked' crawlUrl')
    (same : kinds.length = kinds'.length) :
    kinds = kinds' ∧ table = table' ∧ asked = asked' ∧ crawlUrl = crawlUrl' := by
  -- by the last round: the table decides whether it was a stored redirect or a live one
  induction way generalizing kinds' table' asked' crawlUrl' with
  | start =>
    cases way' with
    | start => exact ⟨rfl, rfl, rfl, rfl⟩
    | _ => cases same
  | stored _ _ _ found ih =>
    cases way' with
    | start => cases same
    | stored way' _ _ found' =>
      obtain ⟨rfl, rfl, rfl, rfl⟩ := ih way' (Nat.succ.inj same)
      cases found.symm.trans found'
      exact ⟨rfl, rfl, rfl, rfl⟩
    | live way' _ _ missing' _ =>
      obtain ⟨rfl, rfl, rfl, rfl⟩ := ih way' (Nat.succ.inj same)
      cases found.symm.trans missing'
  | live _ _ _ missing hop ih =>
    cases way' with
    | start => cases same
    | stored way' _ _ found' =>
      obtain ⟨rfl, rfl, rfl, rfl⟩ := ih way' (Nat.succ.inj same)
      cases missing.symm.trans found'
    | live way' _ _ _ hop' =>
      obtain ⟨rfl, rfl, rfl, rfl⟩ := ih way' (Nat.succ.inj same)
      obtain ⟨rfl, rfl⟩ := hop.unique hop'
      exact ⟨rfl, rfl, rfl, rfl⟩

/-- A way has passed through every length up to its own. -/
theorem Way.shorter (way : Way env rounds redirects url kinds table asked crawlUrl) {n : Nat}
    (short : n ≤ kinds.length) :
    ∃ kinds' table' asked' crawlUrl', kinds'.length = n ∧
      Way env rounds redirects url kinds' table' asked' crawlUrl' := by
  have whole {kinds : List HopKind} {table : Table Str Str} {asked : List Str} {crawlUrl : Url}
      (way : Way env rounds redirects url kinds table asked crawlUrl) (same : n = kinds.length) :
      ∃ kinds' table' asked' crawlUrl', kinds'.length = n ∧
        Way env rounds redirects url kinds' table' asked' crawlUrl' :=
    ⟨kinds, table, asked, crawlUrl, same.symm, way⟩
  -- the way up to an earlier round is a way
  induction way with
  | start => exact whole .start (Nat.le_zero.mp short)
  | stored way budget works found ih =>
    rcases Nat.le_or_eq_of_le_succ short with before | last
    · exact ih before
    · exact whole (.stored way budget works found) last
  | live way budget works missing hop ih =>
    rcases Nat.le_or_eq_of_le_succ short with before | last
    · exact ih before
    · exact whole (.live way budget works missing hop) last

/-- The way ends here: the redirects are used up, the look for a stored one fails, or there is none
and the response leads nowhere. -/
theorem Way.ends (way : Way env rounds redirects url kinds table asked crawlUrl)
    (ends : WithinBudget kinds → (rounds kinds.length).lookup = none → table crawlUrl.str = none ∧
      ∀ resp status, ¬LiveHop env (rounds kinds.length) url crawlUrl resp status)
    (visits : Visits env rounds redirects url kinds' asked' crawlUrl') :
    kinds'.length ≤ kinds.length := by
  obtain ⟨⟨table', way', _⟩, _, _⟩ := visits
  by_contra longer
  -- the way would go on by one redirect at least
  obtain ⟨kinds'', table'', asked'', crawlUrl'', next, way''⟩ :=
    way'.shorter (show kinds.length + 1 ≤ kinds'.length by omega)
  cases way'' with
  | start => cases next
  | stored before budget works found =>
    obtain ⟨rfl, rfl, rfl, rfl⟩ := way.unique before (Nat.succ.inj next).symm
    cases (ends budget works).1.symm.trans found
  | live before budget works missing hop =>
    obtain ⟨rfl, rfl, rfl, rfl⟩ := way.unique before (Nat.succ.inj next).symm
    exact (ends budget works).2 _ _ hop

/-- Only a stored redirect can lead to a URL that the check was not asked for. -/
theorem Way.asked_or_stored (way : Way env rounds redirects url kinds table asked crawlUrl) :
    crawlUrl.str ∈ asked ∨ ∃ before, kinds = .stored :: before := by
  cases way with
  | start => exact .inl List.mem_cons_self
  | stored => exact .inr ⟨_, rfl⟩
  | live => exact .inl List.mem_cons_self

theorem storedAsked_iff {n : Nat} (below : ∀ kinds asked crawlUrl,
    Visits env rounds redirects url kinds asked crawlUrl → kinds.length < n) :
    StoredAsked env rounds redirects url ↔ AskedBelow env rounds redirects url n := by
  constructor
  · intro stored kinds asked crawlUrl visits _
    obtain ⟨_, way, _⟩ := visits.way
    rcases way.asked_or_stored with known | ⟨before, rfl⟩
    · exact known
    · exact stored before asked crawlUrl visits
  · exact fun known kinds asked crawlUrl visits =>
      known _ asked crawlUrl visits (below _ asked crawlUrl visits)

/-- The round asks for nothing: a further redirect is stored. -/
theorem askedBelow_succ_of_stored {toUrl : Str}
    (way : Way env rounds redirects url kinds table asked crawlUrl)
    (found : table crawlUrl.str = some toUrl) :
    AskedBelow env rounds redirects url (kinds.length + 1) ↔
      AskedBelow env rounds redirects url kinds.length := by
  refine ⟨fun known _ _ _ visits short => known _ _ _ visits (Nat.lt_succ_of_lt short), ?_⟩
  intro known kinds' asked' crawlUrl' visits short
  rcases Nat.lt_or_eq_of_le (Nat.le_of_lt_succ short) with before | last
  · exact known _ _ _ visits before
  · obtain ⟨_, way', missing⟩ := visits.way
    obtain ⟨rfl, rfl, rfl, rfl⟩ := way.unique way' last.symm
    cases found.symm.trans missing

/-- The round requests the URL. -/
theorem askedBelow_succ_of_visits (visits : Visits env rounds redirects url kinds asked crawlUrl) :
    AskedBelow env rounds redirects url (kinds.length + 1) ↔
      AskedBelow env rounds redirects url kinds.length ∧ crawlUrl.str ∈ asked := by
  obtain ⟨_, way, _⟩ := visits.way
  constructor
  · exact fun known => ⟨fun _ _ _ visits short => known _ _ _ visits (Nat.lt_succ_of_lt short),
      known _ _ _ visits (Nat.lt_succ_self _)⟩
  · rintro ⟨known, own⟩ kinds' asked' crawlUrl' visits' short
    rcases Nat.lt_or_eq_of_le (Nat.le_of_lt_succ short) with before | last
    · exact known _ _ _ visits' before
    · obtain ⟨_, way', _⟩ := visits'.way
      obtain ⟨rfl, rfl, rfl, rfl⟩ := way.unique way' last.symm
      exact own

/-! ### One more operation -/

variable {log before : Log} {urlStr : Str}

theorem approved_append_iff {event : Event Op Op.Answer Str} (other : approvedUrl event = none) :
    Approved (log ++ [event]) urlStr ↔ Approved log urlStr := by
  simp [Approved, other]

theorem approved_asked_iff {askedUrl : Str} :
    Approved (log ++ [⟨.shouldCrawl askedUrl, .ok true⟩]) urlStr ↔
      urlStr = askedUrl ∨ Approved log urlStr := by
  have approves : approvedUrl ⟨.shouldCrawl askedUrl, .ok true⟩ = some askedUrl := rfl
  simp [Approved, approves, or_comm]

theorem Requests.append (requests : Requests log before crawlUrl) (events : Log) :
    Requests (log ++ events) before crawlUrl := by
  obtain ⟨answer, rest, rfl⟩ := requests
  exact ⟨answer, rest ++ events, by simp⟩

theorem requests_append_iff {event : Event Op Op.Answer Str} :
    Requests (log ++ [event]) before crawlUrl ↔
      Requests log before crawlUrl ∨
        before = log ∧ ∃ answer, event = ⟨.sendRequest crawlUrl, answer⟩ := by
  constructor
  · rintro ⟨answer, rest, same⟩
    -- the request is the last operation, or one of those before
    rcases List.eq_nil_or_concat rest with rfl | ⟨rest, last, rfl⟩
    · obtain ⟨rfl, final⟩ := List.append_inj' same rfl
      cases final
      exact .inr ⟨rfl, answer, rfl⟩
    · have cut : log ++ [event] =
          (before ++ ⟨.sendRequest crawlUrl, answer⟩ :: rest) ++ [last] := by
        rw [same]
        simp
      exact .inl ⟨answer, rest, (List.append_inj' cut rfl).1⟩
  · rintro (requests | ⟨rfl, answer, rfl⟩)
    · exact requests.append _
    · exact ⟨answer, [], rfl⟩

theorem requestsApprovedFirst_other {event : Event Op Op.Answer Str}
    (other : ∀ url, event.op ≠ .sendRequest url) :
    RequestsApprovedFirst (log ++ [event]) ↔ RequestsApprovedFirst log := by
  constructor
  · exact fun approved before crawlUrl requests => approved before crawlUrl (requests.append _)
  · intro approved before crawlUrl requests
    rcases requests_append_iff.mp requests with earlier | ⟨_, _, rfl⟩
    · exact approved before crawlUrl earlier
    · exact absurd rfl (other crawlUrl)

theorem requestsApprovedFirst_request {answer : Except Str Response} :
    RequestsApprovedFirst (log ++ [⟨.sendRequest crawlUrl, answer⟩]) ↔
      RequestsApprovedFirst log ∧ Approved log crawlUrl.str := by
  constructor
  · intro approved
    refine ⟨fun before target requests => approved before target (requests.append _), ?_⟩
    exact approved log crawlUrl ⟨answer, [], rfl⟩
  · rintro ⟨earlier, approved⟩ before target requests
    rcases requests_append_iff.mp requests with requests | ⟨rfl, _, equal⟩
    · exact earlier before target requests
    · cases equal
      exact approved

theorem RequestsApprovedFirst.approved (approved : RequestsApprovedFirst log) :
    RequestsApproved log := by
  intro before crawlUrl requests
  have first := approved before crawlUrl requests
  obtain ⟨answer, rest, rfl⟩ := requests
  rw [Approved, List.filterMap_append]
  exact List.mem_append_left _ first

theorem AnsweredBy.of_append {events : Log} (answered : AnsweredBy rounds (log ++ events)) :
    AnsweredBy rounds log := by
  rintro before event rest rfl
  exact answered before event (rest ++ events) (by simp)

/-! ### A round of the loop -/

variable {fails : Op → Str → Prop} {r after : Rec}

/-- The steps that the rounds answer. -/
def Env.stepBy (env : Env) (fails : Op → Str → Prop) (rounds : Nat → Round) :
    Step Op Op.Answer Str Rec :=
  fun r op answer after => record (env.step fails) r op answer after ∧
    RoundAnswers rounds r.log op answer

/-- The loop has come along the way. -/
structure Along (env : Env) (rounds : Nat → Round) (redirects : Table Str Str) (url : Url)
    (kinds : List HopKind) (asked : List Str) (crawlUrl : Url) (r : Rec) : Prop where
  way : Way env rounds redirects url kinds r.state.permaRedirects asked crawlUrl
  begun : roundsBegun r.log = kinds.length
  approved : ∀ urlStr, Approved r.log urlStr ↔ urlStr ∈ asked
  first : RequestsApprovedFirst r.log ↔ AskedBelow env rounds redirects url kinds.length

/-- The loop goes on along the way, or it has ended and the way decides. -/
def Turns (env : Env) (rounds : Nat → Round) (redirects : Table Str Str) (url : Url)
    (kinds : List HopKind) (result : Except Str Hop) (after : Rec) : Prop :=
  (∃ next kind asked, result = .ok next ∧ next.status.tdiv 10 = 3 ∧
      next.stored = (kind == HopKind.stored) ∧
      Along env rounds redirects url (kind :: kinds) asked next.crawlUrl after) ∨
    (∀ next, result = .ok next → next.status.tdiv 10 ≠ 3) ∧
      (RequestsApprovedFirst after.log ↔ StoredAsked env rounds redirects url)

/-- A round that finds no stored redirect has requested its URL. -/
structure Requested (env : Env) (rounds : Nat → Round) (redirects : Table Str Str) (url : Url)
    (kinds : List HopKind) (asked : List Str) (crawlUrl : Url) (r : Rec) : Prop where
  visits : Visits env rounds redirects url kinds asked crawlUrl
  way : Way env rounds redirects url kinds r.state.permaRedirects asked crawlUrl
  missing : r.state.permaRedirects crawlUrl.str = none
  begun : roundsBegun r.log = kinds.length + 1
  approved : ∀ urlStr, Approved r.log urlStr ↔ urlStr ∈ asked
  first : RequestsApprovedFirst r.log ↔ AskedBelow env rounds redirects url (kinds.length + 1)

/-- Where the response leads nowhere the way has ended. -/
theorem Requested.decided (requested : Requested env rounds redirects url kinds asked crawlUrl r)
    (stuck : ∀ resp status, ¬LiveHop env (rounds kinds.length) url crawlUrl resp status)
    (same : RequestsApprovedFirst log ↔ RequestsApprovedFirst r.log) :
    RequestsApprovedFirst log ↔ StoredAsked env rounds redirects url := by
  rw [same, requested.first]
  refine (storedAsked_iff fun kinds' asked' crawlUrl' visits => Nat.lt_succ_of_le ?_).symm
  exact requested.way.ends (fun _ _ => ⟨requested.missing, stuck⟩) visits

theorem stepBy_fetches {op : Op} {answer : Except Str op.Answer}
    (taken : env.stepBy fails rounds r op answer after)
    (kept : ∀ fromUrl toUrl, op ≠ .upsertRedirect fromUrl toUrl) (fetches : op.fetches) :
    after.state.permaRedirects = r.state.permaRedirects := by
  obtain ⟨⟨⟨later, _, happened⟩, _⟩, _⟩ := taken
  cases answer with
  | error x =>
    rw [happened.2]
    rfl
  | ok a =>
    rw [happened.2]
    cases op with
    | upsertRedirect fromUrl toUrl => exact absurd rfl (kept fromUrl toUrl)
    | shouldCrawl _ | sendRequest _ | selectRedirect _ => rfl
    | _ => cases fetches

theorem roundsBegun_append {event : Event Op Op.Answer Str}
    (other : ∀ fromUrl, event.op ≠ .selectRedirect fromUrl) :
    roundsBegun (log ++ [event]) = roundsBegun log := by
  obtain ⟨op, answer⟩ := event
  cases op with
  | selectRedirect fromUrl => exact absurd rfl (other fromUrl)
  | _ => simp [roundsBegun]

/-- A redirect that the check allows, after the request of its round. -/
theorem Requested.remembers {resp : Response} {status : Int}
    (requested : Requested env rounds redirects url kinds asked crawlUrl r)
    (hop : status = 31 → (rounds kinds.length).store = none →
      LiveHop env (rounds kinds.length) url crawlUrl resp status)
    (other : status ≠ 31 → LiveHop env (rounds kinds.length) url crawlUrl resp status)
    (number : stoi resp.geminiStatus = some status)
    (answered : (rounds kinds.length).web crawlUrl = .ok resp) {checked : Rec}
    (taken : env.stepBy fails rounds r (.shouldCrawl (resp.redirectUrl env).str) (.ok true) checked)
    (redirect : status.tdiv 10 = 3) :
    wp (env.stepBy fails rounds)
      (rememberRedirect crawlUrl (resp.redirectUrl env) status >>= fun _ =>
      pure ⟨resp.redirectUrl env, some resp, status, false⟩)
      (Turns env rounds redirects url kinds) checked := by
  have table : checked.state.permaRedirects = r.state.permaRedirects :=
    stepBy_fetches taken (by simp) trivial
  have begun : roundsBegun checked.log = kinds.length + 1 := by
    rw [taken.1.2, roundsBegun_append (by simp), requested.begun]
  have first : RequestsApprovedFirst checked.log ↔ RequestsApprovedFirst r.log := by
    rw [taken.1.2]
    exact requestsApprovedFirst_other (by simp)
  have approved (urlStr : Str) :
      Approved checked.log urlStr ↔ urlStr ∈ (resp.redirectUrl env).str :: asked := by
    rw [taken.1.2, approved_asked_iff, requested.approved, List.mem_cons]
  have missing := requested.missing
  have way := requested.way
  rw [← table] at missing way
  rw [rememberRedirect]
  by_cases permanent : status = 31
  · rw [if_pos permanent]
    apply wp_perform_bind.mpr
    intro answer stored upserted
    have works : failure answer = (rounds kinds.length).store := by
      have given := upserted.2
      rwa [RoundAnswers, begun, Nat.add_sub_cancel] at given
    have still : RequestsApprovedFirst stored.log ↔ RequestsApprovedFirst r.log := by
      rw [upserted.1.2]
      exact (requestsApprovedFirst_other (by simp)).trans first
    cases answer with
    | error x =>
      refine .inr ⟨by simp, requested.decided (fun resp' status' hop' => ?_) still⟩
      -- the redirect cannot be stored
      cases answered.symm.trans hop'.answered
      cases number.symm.trans hop'.number
      cases works.trans (hop'.stored permanent)
    | ok _ =>
      have goes := Way.live way requested.visits.budget requested.visits.works missing
        (hop permanent works.symm)
      obtain ⟨_, _, _, effect, _⟩ := step_ok upserted.1
      have upsert : stored.state.permaRedirects =
          checked.state.permaRedirects.upsert crawlUrl.str (resp.redirectUrl env).str := by
        rw [effect]
        rfl
      rw [if_pos permanent, ← upsert] at goes
      refine .inl ⟨_, .live, _, rfl, redirect, rfl, goes, ?_, ?_, ?_⟩
      · rw [upserted.1.2, roundsBegun_append (by simp), begun]
        rfl
      · intro urlStr
        rw [upserted.1.2, approved_append_iff rfl]
        exact approved urlStr
      · exact still.trans requested.first
  · rw [if_neg permanent]
    have goes := Way.live way requested.visits.budget requested.visits.works missing
      (other permanent)
    rw [if_neg permanent] at goes
    exact .inl ⟨_, .live, _, rfl, redirect, rfl, goes, begun, approved, first.trans requested.first⟩

theorem Requested.follows {resp : Response} {status : Int}
    (requested : Requested env rounds redirects url kinds asked crawlUrl r)
    (just : JustRequested r.log) (answered : (rounds kinds.length).web crawlUrl = .ok resp)
    (number : stoi resp.geminiStatus = some status) (redirect : status.tdiv 10 = 3) :
    wp (env.stepBy fails rounds) (followRedirect env url crawlUrl status resp)
      (Turns env rounds redirects url kinds) r := by
  -- a hop in this round is one with this response and this status
  have same {resp' : Response} {status' : Int}
      (hop : LiveHop env (rounds kinds.length) url crawlUrl resp' status') :
      LiveHop env (rounds kinds.length) url crawlUrl resp status := by
    cases answered.symm.trans hop.answered
    cases number.symm.trans hop.number
    exact hop
  have ends (x : Str) (stuck : ¬LiveHop env (rounds kinds.length) url crawlUrl resp status) :
      Turns env rounds redirects url kinds (.error x) r :=
    .inr ⟨by simp, requested.decided (fun _ _ hop => stuck (same hop)) Iff.rfl⟩
  unfold followRedirect
  dsimp only
  -- in each branch that stops the loop the response is no hop
  split
  next bad =>
    exact ends _ fun hop => bad.elim (fun wrong => by cases wrong.symm.trans hop.good) hop.other
  next fine =>
    obtain ⟨good, other⟩ := not_or.mp fine
    rw [Bool.not_eq_false] at good
    split
    next elsewhere => exact ends _ fun hop => elsewhere hop.gemini
    next gemini =>
      apply wp_perform_bind.mpr
      intro answer checked taken
      have allows : answer = (rounds kinds.length).allows (resp.redirectUrl env).str := by
        have given := taken.2 just
        rwa [requested.begun, Nat.add_sub_cancel] at given
      have denied (refused : answer ≠ .ok true) :
          RequestsApprovedFirst checked.log ↔ StoredAsked env rounds redirects url := by
        refine requested.decided (fun _ _ hop => refused (allows.trans (same hop).allowed)) ?_
        rw [taken.1.2]
        exact requestsApprovedFirst_other (by simp)
      -- the check failed, denied or consented
      rcases answer with x | _ | _
      · exact .inr ⟨by simp, denied nofun⟩
      · exact .inr ⟨by simp, denied nofun⟩
      · have hop (store : status = 31 → (rounds kinds.length).store = none) :
            LiveHop env (rounds kinds.length) url crawlUrl resp status :=
          ⟨answered, number, redirect, good, other, not_not.mp gemini, allows.symm, store⟩
        exact requested.remembers (fun _ store => hop fun _ => store)
          (fun permanent => hop fun same => absurd same permanent) number answered taken redirect

theorem Along.looks {answer : Except Str (Option Str)}
    (along : Along env rounds redirects url kinds asked crawlUrl r)
    (taken : env.stepBy fails rounds r (.selectRedirect crawlUrl.str) answer after) :
    failure answer = (rounds kinds.length).lookup ∧
      after.state.permaRedirects = r.state.permaRedirects ∧
      roundsBegun after.log = kinds.length + 1 ∧
      (∀ urlStr, Approved after.log urlStr ↔ urlStr ∈ asked) ∧
      (RequestsApprovedFirst after.log ↔ AskedBelow env rounds redirects url kinds.length) := by
  refine ⟨?_, stepBy_fetches taken (by simp) trivial, ?_, fun urlStr => ?_, ?_⟩
  · have given := taken.2
    rwa [RoundAnswers, along.begun] at given
  · rw [taken.1.2, ← along.begun]
    simp [roundsBegun]
  · rw [taken.1.2, approved_append_iff rfl]
    exact along.approved urlStr
  · rw [taken.1.2]
    exact (requestsApprovedFirst_other (by simp)).trans along.first

theorem hop_turns {resp : Option Response} (budget : WithinBudget kinds)
    (along : Along env rounds redirects url kinds asked crawlUrl r) :
    wp (env.stepBy fails rounds) (hop env url crawlUrl resp)
      (Turns env rounds redirects url kinds) r := by
  apply wp_perform_bind.mpr
  intro answer middle taken
  obtain ⟨works, table, begun, approved, first⟩ := along.looks taken
  have way := along.way
  rw [← table] at way
  cases answer with
  | error x =>
    -- without an answer there is neither a stored redirect nor a request
    refine .inr ⟨by simp, first.trans
      (storedAsked_iff fun kinds' asked' crawlUrl' visits => ?_).symm⟩
    have short := way.ends (fun _ works' => by cases works.trans works') visits
    refine Nat.lt_of_le_of_ne short fun same => ?_
    have works' := visits.works
    rw [same] at works'
    cases works.trans works'
  | ok redirect =>
    obtain ⟨_, _, possible, _, _⟩ := step_ok taken.1
    have found : redirect = middle.state.permaRedirects crawlUrl.str := by
      rw [table]
      exact possible
    cases redirect with
    | some toUrl =>
      have goes := Way.stored way budget works.symm found.symm
      have redirect : (30 : Int).tdiv 10 = 3 := by decide
      refine .inl ⟨_, .stored, asked, rfl, redirect, rfl, goes, begun, approved, ?_⟩
      exact first.trans (askedBelow_succ_of_stored way found.symm).symm
    | none =>
      have visits : Visits env rounds redirects url kinds asked crawlUrl :=
        ⟨⟨_, way, found.symm⟩, budget, works.symm⟩
      apply wp_perform_bind.mpr
      intro answer requested sent
      have answered : answer = (rounds kinds.length).web crawlUrl := by
        have given := sent.2
        rwa [RoundAnswers, begun, Nat.add_sub_cancel] at given
      have table' : requested.state.permaRedirects = middle.state.permaRedirects :=
        stepBy_fetches sent (by simp) trivial
      have holds : Requested env rounds redirects url kinds asked crawlUrl requested := by
        refine ⟨visits, table' ▸ way, ?_, ?_, fun urlStr => ?_, ?_⟩
        · rw [table']
          exact found.symm
        · rw [sent.1.2, roundsBegun_append (by simp), begun]
        · rw [sent.1.2, approved_append_iff rfl]
          exact approved urlStr
        · rw [sent.1.2, requestsApprovedFirst_request, first, approved]
          exact (askedBelow_succ_of_visits visits).symm
      cases answer with
      | error x =>
        refine .inr ⟨by simp, holds.decided (fun _ _ hop => ?_) Iff.rfl⟩
        cases answered.trans hop.answered
      | ok resp =>
        rw [then_ok]
        cases number : stoi resp.geminiStatus with
        | none =>
          refine .inr ⟨by simp, holds.decided (fun _ _ hop => ?_) Iff.rfl⟩
          cases answered.trans hop.answered
          cases number.symm.trans hop.number
        | some status =>
          by_cases redirect : status.tdiv 10 = 3
          · simp only [redirect, if_true]
            refine holds.follows ⟨crawlUrl, .ok resp, ?_⟩ answered.symm number redirect
            rw [sent.1.2, List.getLast?_concat]
          · simp only [redirect, if_false]
            refine .inr ⟨fun next ended => ?_, holds.decided (fun _ _ hop => ?_) Iff.rfl⟩
            · cases ended
              exact redirect
            · cases answered.trans hop.answered
              cases number.symm.trans hop.number
              exact redirect hop.redirect

/-! ### The loop -/

theorem followRedirects_asked {fuel count : Nat} {resp : Option Response}
    (spent : count = kinds.length + kinds.count .stored) (low : count ≤ 5)
    (enough : 6 ≤ fuel + count) (along : Along env rounds redirects url kinds asked crawlUrl r) :
    wp (env.stepBy fails rounds) (followRedirects env url fuel count crawlUrl resp)
      (fun _ after => RequestsApprovedFirst after.log ↔ StoredAsked env rounds redirects url)
        r := by
  induction fuel generalizing kinds count asked crawlUrl resp r with
  | zero => omega
  | succ fuel ih =>
    have budget : WithinBudget kinds := by rwa [WithinBudget, ← spent]
    refine wp_bind.mpr (wp_mono ?_ (hop_turns budget along))
    rintro result middle (⟨next, kind, asked', rfl, redirect, stored, along'⟩ | ⟨ended, decided⟩)
    · have more : next.count count + 1 = (kind :: kinds).length +
          (kind :: kinds).count .stored := by
        rw [Hop.count, stored, spent]
        cases kind with
        | stored =>
          simp
          omega
        | live =>
          simp
          omega
      rw [then_ok]
      split
      next again =>
        have least := next.le_count count
        exact ih more (by omega) (by omega) along'
      next beyond =>
        -- the redirects are used up
        have short (kinds' : List HopKind) (asked'' : List Str) (crawlUrl' : Url)
            (visits : Visits env rounds redirects url kinds' asked'' crawlUrl') :
            kinds'.length < (kind :: kinds).length := by
          have used : ¬WithinBudget (kind :: kinds) := by
            rw [WithinBudget, ← more]
            exact fun low => beyond ⟨redirect, by omega⟩
          refine Nat.lt_of_le_of_ne (along'.way.ends (fun within => absurd within used) visits)
            fun same => ?_
          obtain ⟨_, way, _⟩ := visits.way
          obtain ⟨rfl, _⟩ := along'.way.unique way same.symm
          exact used visits.budget
        exact along'.first.trans (storedAsked_iff short).symm
    · cases result with
      | error x => exact decided
      | ok next =>
        rw [then_ok, if_neg fun again => ended next rfl again.1]
        exact decided

/-! ### The whole call -/

theorem requestsApprovedFirst_silent {events : Log}
    (silent : ∀ event ∈ events, requested event = none) :
    RequestsApprovedFirst (log ++ events) ↔ RequestsApprovedFirst log := by
  induction events generalizing log with
  | nil => rw [List.append_nil]
  | cons event events ih =>
    rw [List.forall_mem_cons] at silent
    rw [List.append_cons, ih silent.2]
    refine requestsApprovedFirst_other fun url asks => ?_
    obtain ⟨op, answer⟩ := event
    cases asks
    cases silent.1

theorem roundsBegun_of_bookkeeping (books : Bookkeeping log) : roundsBegun log = 0 := by
  rw [roundsBegun, List.countP_eq_zero]
  intro event member looks
  have keeps := books event member
  obtain ⟨op, answer⟩ := event
  cases op with
  | selectRedirect _ => cases keeps
  | _ => cases looks

theorem along_of_starts {w : World} {row : PageRow} (starts : Starts url w row r)
    (passes : Passes url w r) :
    Along env rounds w.permaRedirects url [] [url.str] url r := by
  -- nothing was requested before the redirect loop
  have unrequested (before : Log) (crawlUrl : Url) : ¬Requests r.log before crawlUrl := by
    rintro ⟨answer, rest, log⟩
    have books := starts.books ⟨.sendRequest crawlUrl, answer⟩ (by rw [log]; simp)
    cases books
  refine ⟨?_, ?_, fun urlStr => ?_, ?_⟩
  · rw [passes.redirects]
    exact .start
  · exact roundsBegun_of_bookkeeping starts.books
  · -- only the URL of the call was asked about
    rw [List.mem_singleton]
    constructor
    · intro approved
      obtain ⟨⟨op, answer⟩, member, approves⟩ := List.mem_filterMap.mp approved
      cases op with
      | shouldCrawl askedUrl =>
        rcases answer with x | _ | _
        · cases approves
        · cases approves
        · cases approves
          exact passes.asked _ member _ rfl
      | _ => cases approves
    · rintro rfl
      exact List.mem_filterMap.mpr ⟨_, starts.approved, rfl⟩
  · exact iff_of_true (fun before crawlUrl requests =>
      absurd requests (unrequested before crawlUrl))
      fun _ _ _ _ short => absurd short (Nat.not_lt_zero _)

/-- What the loop decides is decided for the call. -/
theorem fetchAndIndex_asked {hashes : Hashes} {result : Except Str Bool}
    (along : Along env rounds redirects url [] [url.str] url r)
    (run : env.Run fails ((fetchAndIndex env url hashes).tryCatch (crawlFailed url)) r result after)
    (answered : AnsweredBy rounds after.log) :
    RequestsApprovedFirst after.log ↔ StoredAsked env rounds redirects url := by
  refine of_loop (fun s => AnsweredBy rounds s.log →
    (RequestsApprovedFirst s.log ↔ StoredAsked env rounds redirects url)) ?_ ?_ run answered
  · refine wp_iff_runs.mpr fun result middle run answered => ?_
    exact wp_iff_runs.mp (followRedirects_asked rfl (by decide) (by decide) along) _ _
      (runs_record_where run answered)
  · intro α p r within decided
    refine wp_iff_runs.mpr fun result middle run answered => ?_
    obtain ⟨events, log, silent⟩ := log_of_runs within run
    rw [log] at answered ⊢
    rw [requestsApprovedFirst_silent fun event member => silent event member event.answer]
    exact decided answered.of_append

/-- In every call that comes to its loop, every URL is approved before it is requested exactly when
the stored redirects on its way lead to no other URLs than ones asked for before; then they are
approved in the call. A call that does not come to its loop requests nothing. -/
theorem requestsApproved_iff {w : World} {result : Except Str Bool}
    (run : env.Run fails (crawlPage env urlStr) ⟨w, []⟩ result after)
    (answered : AnsweredBy rounds after.log) :
    (roundsBegun after.log = 0 → ∀ before crawlUrl, ¬Requests after.log before crawlUrl) ∧
      (0 < roundsBegun after.log → (RequestsApprovedFirst after.log ↔
        StoredAsked env rounds w.permaRedirects (Url.ofString (env.uninitUrl urlStr) urlStr))) ∧
      (StoredAsked env rounds w.permaRedirects (Url.ofString (env.uninitUrl urlStr) urlStr) →
        RequestsApproved after.log) := by
  rcases crawlPage_stops run with stops | ⟨_, _, row, r, starts, passes, rest⟩
  · have unrequested (before : Log) (crawlUrl : Url) : ¬Requests after.log before crawlUrl := by
      rintro ⟨answer, rest, log⟩
      have books := stops.books ⟨.sendRequest crawlUrl, answer⟩ (by rw [log]; simp)
      cases books
    refine ⟨fun _ => unrequested, fun begun => ?_, fun _ before crawlUrl requests =>
      absurd requests (unrequested before crawlUrl)⟩
    rw [roundsBegun_of_bookkeeping stops.books] at begun
    exact absurd begun (Nat.lt_irrefl 0)
  · have decided := fetchAndIndex_asked (along_of_starts starts passes) rest answered
    refine ⟨fun none => ?_, fun _ => decided, fun asked => (decided.mpr asked).approved⟩
    -- the loop begins with a round
    obtain ⟨answer, middle, looked, later⟩ := rest
    obtain ⟨events, log⟩ := log_extends later
    rw [roundsBegun, List.countP_eq_zero] at none
    refine absurd rfl (none ⟨.selectRedirect _, answer⟩ ?_)
    rw [log, looked.2]
    exact List.mem_append_left _ (List.mem_append_right _ List.mem_cons_self)

/-- A given outside answers in every round alike. -/
def Outside.eachRound (outside : Outside) (_ : Nat) : Round where
  lookup := none
  web url := .ok (outside.web url)
  allows urlStr := .ok (outside.allows urlStr)
  store := none

theorem Outside.answeredBy {outside : Outside} (works : ∀ op, outside.failure op = none) (env : Env)
    {α : Type} (p : Crawl α) (w : World) :
    AnsweredBy outside.eachRound (outside.run env p ⟨w, []⟩).2.log := by
  have run : Runs (fun r op answer after => (answer, after) = recording (outside.respond env) r op)
      p ⟨w, []⟩ (outside.run env p ⟨w, []⟩).1 (outside.run env p ⟨w, []⟩).2 :=
    runs_simulate (fun _ _ => rfl) rfl
  -- the log grows by what was answered, and nothing depends on what was before
  have each : ∀ event ∈ (outside.run env p ⟨w, []⟩).2.log, ∀ before,
      RoundAnswers outside.eachRound before event.op event.answer := by
    refine runs_invariant (fun r => ∀ event ∈ r.log, ∀ before,
      RoundAnswers outside.eachRound before event.op event.answer) ?_ run (by simp)
    intro r op answer after kept taken event member before
    cases taken
    rcases List.mem_append.mp member with earlier | last
    · exact kept event earlier before
    · cases List.mem_singleton.mp last
      simp only [Outside.respond, works]
      cases op with
      | shouldCrawl urlStr => exact fun _ => rfl
      | sendRequest url => rfl
      | selectRedirect fromUrl => rfl
      | upsertRedirect fromUrl toUrl => rfl
      | _ => trivial
  exact fun before event rest log => each event (by rw [log]; simp) before

/-- The page redirects to a URL from which a stored redirect leads back, and is requested again. -/
theorem requestsApproved_iff_back :
    let outside := Outside.redirecting (lit "gemini://h/a") (lit "gemini://h/b") (lit "hello")
    let redirects := World.empty.permaRedirects.upsert (lit "gemini://h/b") (lit "gemini://h/a")
    let after := (outside.run Env.small (crawlPage Env.small (lit "gemini://h/a"))
      ⟨{ World.empty with permaRedirects := redirects }, []⟩).2
    (after.log.filterMap requested).map (fun request => request.1.str) =
        [lit "gemini://h/a", lit "gemini://h/a"] ∧
      (roundsBegun after.log = 0 → ∀ before crawlUrl, ¬Requests after.log before crawlUrl) ∧
      (0 < roundsBegun after.log → (RequestsApprovedFirst after.log ↔
        StoredAsked Env.small outside.eachRound redirects (Url.ofString 0 (lit "gemini://h/a")))) ∧
      (StoredAsked Env.small outside.eachRound redirects (Url.ofString 0 (lit "gemini://h/a")) →
        RequestsApproved after.log) := by
  intro outside redirects after
  have run : Env.small.Run never (crawlPage Env.small (lit "gemini://h/a"))
      ⟨{ World.empty with permaRedirects := redirects }, []⟩ _ after :=
    Outside.run_of_ends (fun _ _ failed => by cases failed) rfl
  exact ⟨by decide, requestsApproved_iff run (Outside.answeredBy (fun _ => rfl) _ _ _)⟩

/-- Everything may be crawled but one URL. -/
def Outside.blocking (urlStr body : Str) : Outside :=
  { Outside.serving body with allows := fun asked => asked ≠ urlStr }

theorem LastRequest.requests {resp : Response} (last : LastRequest log crawlUrl resp) :
    ∃ before, Requests log before crawlUrl := by
  obtain ⟨event, member, answered⟩ := List.mem_filterMap.mp (List.mem_of_getLast? last)
  obtain ⟨before, rest, rfl⟩ := List.append_of_mem member
  exact ⟨before, _, rest, by rw [answered_of_requested answered]⟩

/-- A URL that may no longer be crawled is requested when a stored redirect leads to it. -/
theorem blocked_redirect_requested :
    ∃ after, Env.small.Run never (crawlPage Env.small (lit "gemini://h/a"))
        ⟨{ World.empty with
            permaRedirects := World.empty.permaRedirects.upsert (lit "gemini://h/a")
              (lit "gemini://h/b") },
          []⟩ (.ok true) after ∧
      LastRequest after.log (Url.ofString 0 (lit "gemini://h/b"))
        ⟨lit "20", lit "text/gemini", lit "hello"⟩ ∧
      ¬Approved after.log (lit "gemini://h/b") ∧ ¬RequestsApproved after.log := by
  let after := ((Outside.blocking (lit "gemini://h/b") (lit "hello")).run Env.small
    (crawlPage Env.small (lit "gemini://h/a"))
    ⟨{ World.empty with
        permaRedirects := World.empty.permaRedirects.upsert (lit "gemini://h/a")
          (lit "gemini://h/b") },
      []⟩).2
  have last : LastRequest after.log (Url.ofString 0 (lit "gemini://h/b"))
      ⟨lit "20", lit "text/gemini", lit "hello"⟩ := by decide
  have blocked : ¬Approved after.log (lit "gemini://h/b") := by decide
  refine ⟨after, Outside.run_of_ends (fun _ _ failed => by cases failed) (by decide),
    last, blocked, ?_⟩
  intro approved
  obtain ⟨before, requests⟩ := last.requests
  exact blocked (approved before _ requests)

end Tlgs

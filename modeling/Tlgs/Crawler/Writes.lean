import Tlgs.Crawler.Fetched
import Tlgs.Crawler.LinkSet
import Tlgs.Crawler.Requests

/-!
# What the crawls write

A crawl inserts the page of a URL that the check let through, stores the document that it made
of a response to it, and stores links whose targets the parser accepted. It deletes a page
outright only if its URL is not printed as it is stored. Whatever else it changes takes no
values from what was fetched.
-/
namespace Tlgs

open Bytes Interactive

/-! ### The links of a page -/

theorem linkUrls_recorded {env : Env} {url link : Url} {links : List Str}
    (member : link ∈ linkUrls env url links) : link ∈ recordedLinks env url links := by
  rw [linkUrls_eq_urlSet, urlSet_eq_ofList, OrderedSet.mem_ofList Url.orderedBy_lt] at member
  exact member.mem

theorem linkUrls_wellFormed {env : Env} {url link : Url} {links : List Str} (wf : url.WellFormed)
    (member : link ∈ linkUrls env url links) : link.WellFormed :=
  recordedLinks_wellFormed wf links link (linkUrls_recorded member)

/-- The URL is printed as it is stored, or `crawlPage` removes the page. -/
def NamesItself (env : Env) (urlStr : Str) : Prop :=
  (Url.ofString (env.uninitUrl urlStr) urlStr).good = true ∧
    (Url.ofString (env.uninitUrl urlStr) urlStr).str = urlStr

/-- Where redirects, stored ones and received ones, lead from a page, by what the operations are
answered. -/
inductive LedTo (env : Env) (answers : (op : Op) → Except Str op.Answer → Prop) (url : Url) :
    Url → Prop
  | page : LedTo env answers url url
  | stored {crawlUrl : Url} {toUrl : Str} (led : LedTo env answers url crawlUrl)
      (found : answers (.selectRedirect crawlUrl.str) (.ok (some toUrl))) :
      LedTo env answers url (Url.ofString (env.uninitUrl toUrl) toUrl)
  | redirected {crawlUrl : Url} {resp : Response} {status : Int}
      (led : LedTo env answers url crawlUrl) (answered : answers (.sendRequest crawlUrl) (.ok resp))
      (number : stoi resp.geminiStatus = some status) (kind : status.tdiv 10 = 3) :
      LedTo env answers url (Url.ofString (env.uninitUrl resp.meta_) resp.meta_)

/-- The page, or where redirects led from it, was requested, and this is the answer. -/
def Received (env : Env) (answers : (op : Op) → Except Str op.Answer → Prop) (url : Url)
    (status : Int) (resp : Response) : Prop :=
  stoi resp.geminiStatus = some status ∧
    ∃ crawlUrl, LedTo env answers url crawlUrl ∧ answers (.sendRequest crawlUrl) (.ok resp)

section Mono

variable {env : Env} {answers answers' : (op : Op) → Except Str op.Answer → Prop} {url : Url}
  (more : ∀ op answer, op.direct → answers op answer → answers' op answer)

include more

theorem LedTo.mono {crawlUrl : Url} (led : LedTo env answers url crawlUrl) :
    LedTo env answers' url crawlUrl := by
  induction led with
  | page => exact .page
  | stored _ found ih => exact .stored ih (more _ _ trivial found)
  | redirected _ answered number kind ih =>
    exact .redirected ih (more _ _ trivial answered) number kind

theorem Received.mono {status : Int} {resp : Response}
    (received : Received env answers url status resp) :
    Received env answers' url status resp := by
  obtain ⟨number, crawlUrl, led, answered⟩ := received
  exact ⟨number, crawlUrl, led.mono more, more _ _ trivial answered⟩

end Mono

/-- A URL that the check let through. -/
structure Vetted (answers : (op : Op) → Except Str op.Answer → Prop) (url : Url) : Prop where
  wellFormed : url.WellFormed
  allowed : answers (.shouldCrawl url.str) (.ok true)

/-- Operations that no crawl takes from what it has fetched. -/
def Op.plain : Op → Prop
  | .deletePage _ | .insertPage _ | .updateContent _ _ | .insertLinks _ | .insertPages _ => False
  | _ => True

/-- The writes of a crawl, by what the operations are answered. -/
structure Writing (env : Env) (answers : (op : Op) → Except Str op.Answer → Prop)
    (ops : Op → Prop) :
    Prop where
  plain : ∀ op : Op, op.plain → ops op
  deletes : ∀ urlStr, ¬NamesItself env urlStr → ops (.deletePage urlStr)
  inserts : ∀ url, Vetted answers url → ops (.insertPage ⟨url.str, url.host, url.port⟩)
  contents : ∀ url, Vetted answers url → ∀ status resp doc, Received env answers url status resp →
    DocumentOf env url status resp doc →
      ops (.updateContent url.str (pageContent env url status resp doc))
  links : ∀ url, Vetted answers url → ∀ links : List Str,
    ops (.insertLinks ((linkUrls env url links).map (linkValues env url)))
  pages : ∀ pages : List NewPage,
    (∀ page ∈ pages, ∃ linkUrl, Vetted answers linkUrl ∧ page = pageValues env linkUrl) →
      ops (.insertPages pages)

theorem Op.plain_of_queues {op : Op} (queues : op.queues) : op.plain := by
  cases op <;> trivial

/-- What does not go into the tables may come from anywhere. -/
theorem plain_storeFailure (url : Url) (status : Int) (meta_ : Str) :
    Within Op.plain (fun _ => True) (storeFailure url status meta_) :=
  within_storeFailure (fun _ _ => trivial) trivial status meta_

section Crawl

variable {env : Env} {answers : (op : Op) → Except Str op.Answer → Prop} {ops : Op → Prop}
  (writing : Writing env answers ops)

include writing

theorem Writing.of_within {α : Type} {p : Crawl α} (within : Within Op.plain (fun _ => True) p) :
    Meets answers ops (fun _ => True) p :=
  meets_of_within (within_mono writing.plain within)

/-- The pages that are queued for links were let through. -/
theorem checkLinks_writes {links : List Url} (wf : ∀ link ∈ links, link.WellFormed) :
    Meets answers ops (fun outcome => ∀ pages, outcome = .ok pages →
      ∀ page ∈ pages, ∃ linkUrl, Vetted answers linkUrl ∧ page = pageValues env linkUrl)
      (checkLinks env links) := by
  induction links with
  | nil =>
    rintro pages equal page member
    cases equal
    cases member
  | cons link rest ih =>
    apply meets_perform_bind.mpr
    -- only a check that answers is followed by more
    refine ⟨writing.plain _ trivial, fun answer may => ?_⟩
    cases answer with
    | error x => exact nofun
    | ok allowed =>
      refine (ih fun other member => wf other (List.mem_cons_of_mem _ member)).bind ?_ fun x _ =>
        nofun
      intro queued approved pages equal page member
      cases equal
      -- a page is queued if its own check let it through
      split at member
      next through =>
        rcases List.mem_cons.mp member with rfl | later
        · rw [through] at may
          exact ⟨link, ⟨wf link List.mem_cons_self, may⟩, rfl⟩
        · exact approved queued rfl page later
      · exact approved queued rfl page member

theorem storeLinks_writes {url : Url} (approved : Vetted answers url) (links : List Str) :
    Meets answers ops (fun _ => True) (storeLinks env url (linkUrls env url links)) := by
  refine (checkLinks_writes writing fun _ => linkUrls_wellFormed approved.wellFormed).bind ?_
    fun _ _ => trivial
  intro pages queued
  refine ⟨writing.plain _ trivial, fun answer _ => ?_⟩
  cases answer with
  | error x => trivial
  | ok done =>
    refine ⟨writing.links url approved links, fun answer _ => ?_⟩
    cases answer with
    | error x => trivial
    | ok done =>
      -- without pages the statement is left out
      change Meets answers ops _ (ite _ _ _)
      split
      · trivial
      · refine ⟨writing.pages pages (queued pages rfl), fun answer _ => ?_⟩
        cases answer <;> trivial

theorem storeContent_writes {url : Url} (approved : Vetted answers url) {status : Int}
    {resp : Response} {doc : Document} (received : Received env answers url status resp)
    (document : DocumentOf env url status resp doc) :
    Meets answers ops (fun _ => True) (storeContent env url status resp doc) := by
  unfold storeContent
  refine (writing.of_within (within_dumpLinks _ fun _ _ _ => trivial)).bind ?_ fun _ _ => trivial
  intro _ _
  refine ⟨writing.contents url approved status resp doc received document, fun answer _ => ?_⟩
  cases answer with
  | error x => trivial
  | ok done =>
    refine ⟨writing.plain _ trivial, fun answer _ => ?_⟩
    cases answer with
    | error x => trivial
    | ok done =>
      change Meets answers ops _ (ite _ _ _)
      split
      · trivial
      · exact storeLinks_writes writing approved doc.links

theorem indexResponse_writes {url : Url} (approved : Vetted answers url) (hashes : Hashes)
    {status : Int} {resp : Response}
    (received : status.tdiv 10 ≠ 3 → Received env answers url status resp) :
    Meets answers ops (fun _ => True) (indexResponse env url hashes status resp) := by
  rcases indexResponse_kinds env url hashes status resp with
    ⟨doc, document, stores⟩ | ⟨mime, known⟩ | ⟨x, failed⟩ | failure
  · rw [stores]
    exact storeContent_writes writing approved (received document.not_redirect) document
  · rw [known]
    exact writing.of_within (within_bind (within_perform trivial) fun _ => within_pure)
  · rw [failed]
    trivial
  · rw [failure]
    exact writing.of_within (plain_storeFailure url status _)

/-- A round ends with a redirect, or with the answer to a request. -/
def Hop.Arrives (env : Env) (answers : (op : Op) → Except Str op.Answer → Prop) (url : Url)
    (next : Hop) : Prop :=
  if next.status.tdiv 10 = 3 then LedTo env answers url next.crawlUrl
  else ∃ resp ∈ next.resp, Received env answers url next.status resp

theorem request_arrives {url crawlUrl : Url} (led : LedTo env answers url crawlUrl) :
    Meets answers ops (fun outcome => ∀ next, outcome = .ok next → next.Arrives env answers url)
      (request env url crawlUrl) := by
  apply meets_perform_bind.mpr
  refine ⟨writing.plain _ trivial, fun answer answered => ?_⟩
  cases answer with
  | error x => rintro next ⟨⟩
  | ok resp =>
    simp only [Before]
    split
    · rintro next ⟨⟩
    next status number =>
      split
      next kind =>
        -- the redirect is checked first, and stored if it is permanent
        have goes : LedTo env answers url (Url.ofString (env.uninitUrl resp.meta_) resp.meta_) :=
          .redirected led answered number kind
        unfold followRedirect
        dsimp only
        split
        · rintro next ⟨⟩
        · split
          · rintro next ⟨⟩
          · apply meets_perform_bind.mpr
            refine ⟨writing.plain _ trivial, fun answer _ => ?_⟩
            cases answer with
            | error x => rintro next ⟨⟩
            | ok allowed =>
              simp only [Before]
              split
              · rintro next ⟨⟩
              · refine (writing.of_within (within_rememberRedirect (fun _ _ => trivial) _ _ _)).bind
                  (fun _ _ => ?_)
                  fun _ _ _ failed => by cases failed
                rintro next ⟨⟩
                rw [Hop.Arrives, if_pos kind]
                exact goes
      next final =>
        rintro next ⟨⟩
        rw [Hop.Arrives, if_neg final]
        exact ⟨resp, rfl, number, crawlUrl, led, answered⟩

theorem hop_arrives {url crawlUrl : Url} (led : LedTo env answers url crawlUrl)
    (resp : Option Response) :
    Meets answers ops (fun outcome => ∀ next, outcome = .ok next → next.Arrives env answers url)
      (hop env url crawlUrl resp) := by
  apply meets_perform_bind.mpr
  refine ⟨writing.plain _ trivial, fun answer found => ?_⟩
  match answer with
  | .error x => rintro next ⟨⟩
  | .ok (some toUrl) =>
    rintro next ⟨⟩
    exact .stored led found
  | .ok none => exact request_arrives writing led

/-- The loop ends with the answer to a request, unless it ends on a redirect. -/
theorem followRedirects_receives {url crawlUrl : Url} (led : LedTo env answers url crawlUrl)
    (fuel count : Nat) (resp : Option Response) :
    Meets answers ops (fun outcome => ∀ fetched, outcome = .ok fetched →
      ∀ resp, fetched.2 = some resp →
        fetched.1.tdiv 10 ≠ 3 → Received env answers url fetched.1 resp)
      (followRedirects env url fuel count crawlUrl resp) := by
  induction fuel generalizing count crawlUrl resp with
  | zero =>
    rintro fetched ⟨⟩ _ _ final
    exact absurd rfl final
  | succ fuel ih =>
    refine (hop_arrives writing led resp).bind (fun next arrives => ?_) fun _ _ _ failed => by
      cases failed
    have arrives := arrives next rfl
    rw [Hop.Arrives] at arrives
    -- the loop ends here, so the last response redirects no further
    split
    next more =>
      rw [if_pos more.1] at arrives
      exact ih arrives _ _
    · rintro fetched ⟨⟩ resp answered final
      rw [if_neg final] at arrives
      obtain ⟨resp', found, received⟩ := arrives
      cases found.symm.trans answered
      exact received

theorem fetchAndIndex_writes {url : Url} (approved : Vetted answers url) (hashes : Hashes) :
    Meets answers ops (fun _ => True) (fetchAndIndex env url hashes) := by
  refine (followRedirects_receives writing .page 6 0 none).bind (fun fetched received => ?_)
    fun _ _ => trivial
  obtain ⟨status, resp⟩ := fetched
  cases resp with
  | none => trivial
  | some resp => exact indexResponse_writes writing approved hashes (received _ rfl resp rfl)

theorem crawlRecord_writes {url : Url} (approved : Vetted answers url) (record : Option PageRow) :
    Meets answers ops (fun _ => True) (crawlRecord env url record) := by
  have goes := fetchAndIndex_writes writing approved
  cases record with
  | none =>
    refine ⟨writing.inserts url approved, fun answer _ => ?_⟩
    cases answer with
    | error x => trivial
    | ok done => exact goes _
  | some row =>
    simp only [crawlRecord]
    split
    · refine ⟨writing.plain _ trivial, fun answer _ => ?_⟩
      cases answer with
      | error x => trivial
      | ok now =>
        change Meets answers ops _ (ite _ _ _)
        split
        · exact writing.of_within (within_bind (within_perform trivial) fun _ => within_pure)
        · exact goes _
    · exact goes _

theorem crawlPage_writes (urlStr : Str) :
    Meets answers ops (fun _ => True) (crawlPage env urlStr) := by
  unfold crawlPage
  dsimp only
  split
  next strange =>
    -- the page is removed under a URL that is not printed so
    have other : ¬NamesItself env urlStr := by
      rintro ⟨good, same⟩
      rcases strange with bad | differs
      · cases bad.symm.trans good
      · exact differs same
    refine ⟨writing.deletes urlStr other, fun answer _ => ?_⟩
    cases answer with
    | error x => trivial
    | ok done =>
      refine ⟨writing.plain _ trivial, fun answer _ => ?_⟩
      cases answer <;> trivial
  next canonical =>
    have good := Bool.eq_true_of_not_eq_false (not_or.mp canonical).1
    refine Meets.tryCatch (q := fun _ => True) ?_ (fun _ _ => trivial) fun x _ => ?_
    · refine ⟨writing.plain _ trivial, fun answer may => ?_⟩
      cases answer with
      | error x => trivial
      | ok allowed =>
        change Meets answers ops _ (ite _ _ _)
        split
        · trivial
        next through =>
          rw [Bool.eq_true_of_not_eq_false through] at may
          have approved : Vetted answers _ := ⟨Url.wellFormed_of_good good, may⟩
          refine ⟨writing.plain _ trivial, fun answer _ => ?_⟩
          cases answer with
          | error x => trivial
          | ok record => exact crawlRecord_writes writing approved record
    · exact writing.of_within (within_crawlFailed (fun _ _ => trivial) trivial (fun _ => trivial) x)

/-- A crawl writes only what it may. -/
theorem crawlNext_writes (rounds : Nat) :
    Meets answers ops (fun _ => True) (crawlNext env rounds) := by
  have handed_out : Within Op.plain (fun _ => True) (getNextCrawlPage env rounds) :=
    within_mono (fun _ => Op.plain_of_queues) (within_getNextCrawlPage env rounds)
  refine (writing.of_within handed_out).bind (fun urlStr _ => ?_) fun _ _ => trivial
  match urlStr with
  | .running => trivial
  | .finished none => trivial
  | .finished (some url) =>
    exact (crawlPage_writes writing url).bind (fun _ _ => trivial) fun _ _ => trivial

end Crawl

end Tlgs

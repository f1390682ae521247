import Tlgs.Crawler.System

/-!
# The requests of the crawls

Whatever the crawls do to the tables meanwhile, a host is asked for a page only if the check
has let its URL through: the URL of the crawl, a redirect that was just received, or one that was
stored when it was received. So while the servers do not change their robots.txt, no page is
requested that its server disallows, and a host that has failed too often is left alone.
-/
namespace Tlgs

open Bytes Interactive

/-! ### What a crawl asks for -/

/-- Neither a request for a page nor the storing of a redirect. -/
def Op.isLocal : Op → Prop
  | .sendRequest _ | .upsertRedirect _ _ => False
  | _ => True

/-- What is called until a URL is handed out. -/
def Op.queues : Op → Prop
  | .shouldCrawl _ | .updateFailed _ _ _ | .deleteStale _ | .tryPop | .queueEmpty | .loadSamplePct
  | .compareExchangeSamplePct _ _ | .queueBatch _ _ | .shuffle _ | .emplace _ => True
  | _ => False

/-- The URLs a page may be requested from, by what the operations are answered. -/
structure Requesting (env : Env) (answers : (op : Op) → Except Str op.Answer → Prop)
    (ops : Op → Prop) (may : Url → Prop) : Prop where
  isLocal : ∀ op : Op, op.isLocal → ops op
  requests : ∀ url, may url → ops (.sendRequest url)
  approved : ∀ uninit text, (Url.ofString uninit text).good = true →
    answers (.shouldCrawl (Url.ofString uninit text).str) (.ok true) →
      may (Url.ofString uninit text) ∧
        ∀ fromUrl, ops (.upsertRedirect fromUrl (Url.ofString uninit text).str)
  stored : ∀ fromUrl toUrl, answers (.selectRedirect fromUrl) (.ok (some toUrl)) →
    may (Url.ofString (env.uninitUrl toUrl) toUrl)

theorem within_emplaceAll (urls : List Str) :
    Within Op.queues (fun _ => True) (emplaceAll urls) := by
  induction urls with
  | nil => exact within_pure
  | cons url urls ih => exact within_bind (within_perform trivial) fun _ => ih

theorem within_queueRound : Within Op.queues (fun _ => True) queueRound := by
  apply within_bind (within_perform trivial)
  intro tablesamplePct
  apply within_bind (within_perform trivial)
  intro urls
  refine within_bind ?_ fun tablesamplePct => ?_
  · simp only [advanceSample]
    split
    · exact within_perform trivial
    · exact within_pure
  · split
    · exact within_pure
    · apply within_bind (within_perform trivial)
      intro vec
      exact within_bind (within_emplaceAll vec) fun _ => within_pure

theorem within_fillQueue (rounds : Nat) : Within Op.queues (fun _ => True) (fillQueue rounds) := by
  induction rounds with
  | zero => exact within_pure
  | succ rounds ih =>
    apply within_bind (within_perform trivial)
    intro empty
    split
    · exact within_pure
    · refine within_bind (within_tryCatch within_queueRound fun what => ?_) fun exhausted => ?_
      · simp only [retryRollback]
        split
        · exact within_pure
        · trivial
      · split
        · exact within_pure
        · exact ih

theorem within_getNextPotentialCarwlUrl (rounds : Nat) :
    Within Op.queues (fun _ => True) (getNextPotentialCarwlUrl rounds) := by
  apply within_bind (within_perform trivial)
  intro result
  cases result with
  | some url => exact within_pure
  | none =>
    apply within_bind (within_fillQueue rounds)
    intro filled
    match filled with
    | .running => exact within_pure
    | .finished true => exact within_pure
    | .finished false => exact within_bind (within_perform trivial) fun _ => within_pure

theorem within_offer (env : Env) (urlStr : Str) :
    Within Op.queues (fun _ => True) (offer env urlStr) := by
  refine within_bind ?_ fun allowed => ?_
  · simp only [canCrawl]
    split
    · exact within_pure
    · exact within_perform trivial
  · split
    · refine within_bind ?_ fun _ => within_pure
      exact within_bind (within_perform trivial) fun _ => within_perform trivial
    · exact within_pure

theorem within_getNextCrawlPage (env : Env) (rounds : Nat) :
    Within Op.queues (fun _ => True) (getNextCrawlPage env rounds) := by
  induction rounds with
  | zero => exact within_pure
  | succ rounds ih =>
    apply within_bind (within_getNextPotentialCarwlUrl rounds)
    intro nextUrl
    match nextUrl with
    | .running => exact within_pure
    | .finished none => exact within_pure
    | .finished (some urlStr) =>
      apply within_bind (within_offer env urlStr)
      intro handedOut
      cases handedOut with
      | none => exact ih
      | some url => exact within_pure

theorem Op.isLocal_of_queues {op : Op} (queues : op.queues) : op.isLocal := by
  cases op <;> trivial

theorem Op.isLocal_of_stores {url : Str} {op : Op} (stores : op.stores url) : op.isLocal := by
  cases op <;> trivial

section Crawl

variable {env : Env} {answers : (op : Op) → Except Str op.Answer → Prop} {ops : Op → Prop}
  {may : Url → Prop} (requesting : Requesting env answers ops may)

include requesting

theorem Requesting.of_within {α : Type} {p : Crawl α}
    (within : Within Op.isLocal (fun _ => True) p) :
    Meets answers ops (fun _ => True) p :=
  meets_of_within (within_mono requesting.isLocal within)

/-- The loop goes on from a URL that may be requested. -/
def GoesOn (may : Url → Prop) : Except Str Hop → Prop
  | .ok next => may next.crawlUrl
  | .error _ => True

theorem followRedirect_meets (url crawlUrl : Url) (status : Int) (resp : Response) :
    Meets answers ops (GoesOn may) (followRedirect env url crawlUrl status resp) := by
  unfold followRedirect
  dsimp only
  split
  · trivial
  next accepted =>
    split
    · trivial
    · apply meets_perform_bind.mpr
      refine ⟨requesting.isLocal _ trivial, fun answer may => ?_⟩
      cases answer with
      | error x => trivial
      | ok allowed =>
        simp only [Before]
        split
        · trivial
        next let_through =>
          -- the redirect is good, and the check has let it through
          have good := Bool.eq_true_of_not_eq_false (not_or.mp accepted).1
          rw [Bool.eq_true_of_not_eq_false let_through] at may
          obtain ⟨asked, stores⟩ := requesting.approved _ _ good may
          refine Meets.bind (q := fun _ => True) ?_ (fun _ _ => asked) fun _ _ => trivial
          simp only [rememberRedirect]
          split
          · exact ⟨stores _, fun _ _ => trivial⟩
          · trivial

theorem hop_meets {crawlUrl : Url} (asked : may crawlUrl) (url : Url) (resp : Option Response) :
    Meets answers ops (GoesOn may) (hop env url crawlUrl resp) := by
  apply meets_perform_bind.mpr
  refine ⟨requesting.isLocal _ trivial, fun answer may => ?_⟩
  -- failed, led on by a stored redirect, or free to send the request
  match answer with
  | .error x => trivial
  | .ok (some toUrl) => exact requesting.stored _ _ may
  | .ok none =>
    apply meets_perform_bind.mpr
    refine ⟨requesting.requests _ asked, fun answer _ => ?_⟩
    cases answer with
    | error x => trivial
    | ok resp =>
      simp only [Before]
      split
      · trivial
      · split
        · exact followRedirect_meets requesting url crawlUrl _ resp
        · exact asked

theorem followRedirects_meets {crawlUrl : Url} (asked : may crawlUrl) (url : Url) (fuel count : Nat)
    (resp : Option Response) :
    Meets answers ops (fun _ => True) (followRedirects env url fuel count crawlUrl resp) := by
  induction fuel generalizing count crawlUrl resp with
  | zero => trivial
  | succ fuel ih =>
    refine (hop_meets requesting asked url resp).bind (fun next asked => ?_) fun _ _ => trivial
    split
    · exact ih asked _ _
    · trivial

theorem fetchAndIndex_meets {url : Url} (asked : may url) (hashes : Hashes) :
    Meets answers ops (fun _ => True) (fetchAndIndex env url hashes) := by
  refine (followRedirects_meets requesting asked url 6 0 none).bind (fun fetched _ => ?_) fun _ _ =>
    trivial
  obtain ⟨status, resp⟩ := fetched
  cases resp with
  | none => trivial
  | some resp =>
    have stores : Within (Op.stores url.str) (fun _ => True)
        (indexResponse env url hashes status resp) :=
      within_indexResponse (fun _ _ => trivial) url hashes status resp fun _ _ _ => trivial
    exact requesting.of_within (within_mono (fun _ => Op.isLocal_of_stores) stores)

theorem crawlRecord_meets {url : Url} (asked : may url) (record : Option PageRow) :
    Meets answers ops (fun _ => True) (crawlRecord env url record) := by
  have goes := fetchAndIndex_meets requesting asked
  cases record with
  | none =>
    apply meets_perform_bind.mpr
    refine ⟨requesting.isLocal _ trivial, fun answer _ => ?_⟩
    cases answer with
    | error x => trivial
    | ok done => exact goes _
  | some row =>
    simp only [crawlRecord]
    split
    · apply meets_perform_bind.mpr
      refine ⟨requesting.isLocal _ trivial, fun answer _ => ?_⟩
      cases answer with
      | error x => trivial
      | ok now =>
        simp only [Before]
        split
        · exact requesting.of_within (within_bind (within_perform trivial) fun _ => within_pure)
        · exact goes _
    · exact goes _

theorem crawlPage_meets (urlStr : Str) :
    Meets answers ops (fun _ => True) (crawlPage env urlStr) := by
  unfold crawlPage
  dsimp only
  split
  · exact requesting.of_within
      (within_bind (within_perform trivial) fun _ =>
        within_bind (within_perform trivial) fun _ => within_pure)
  next canonical =>
    have good := Bool.eq_true_of_not_eq_false (not_or.mp canonical).1
    refine Meets.tryCatch (q := fun _ => True) ?_ (fun _ _ => trivial) fun x _ => ?_
    · apply meets_perform_bind.mpr
      refine ⟨requesting.isLocal _ trivial, fun answer may => ?_⟩
      cases answer with
      | error x => trivial
      | ok allowed =>
        simp only [Before]
        split
        · trivial
        next let_through =>
          -- the first check is of the URL that is crawled
          rw [Bool.eq_true_of_not_eq_false let_through] at may
          have asked := (requesting.approved _ _ good may).1
          apply meets_perform_bind.mpr
          refine ⟨requesting.isLocal _ trivial, fun answer _ => ?_⟩
          cases answer with
          | error x => trivial
          | ok record => exact crawlRecord_meets requesting asked record
    · exact requesting.of_within
        (within_crawlFailed (fun _ _ => trivial) trivial (fun _ => trivial) x)

/-- A crawl requests pages only from where it may. -/
theorem crawlNext_meets (rounds : Nat) :
    Meets answers ops (fun _ => True) (crawlNext env rounds) := by
  refine (requesting.of_within
    (within_mono (fun _ => Op.isLocal_of_queues) (within_getNextCrawlPage env rounds))).bind
      (fun urlStr _ => ?_)
    fun _ _ => trivial
  match urlStr with
  | .running => trivial
  | .finished none => trivial
  | .finished (some url) =>
    exact (crawlPage_meets requesting url).bind (fun _ _ => trivial) fun _ _ => trivial

end Crawl

/-! ### Reading a URL again -/

namespace GeminiUrl

variable {url : Url}

/-- A URL as it is printed and read again. -/
theorem reread (gemini : GeminiUrl url) (uninit : Int) :
    Url.ofString uninit url.str = { url with port_ := url.printedPort, defaultPort := 1965 } := by
  rw [Url.ofString_str uninit gemini.wellFormed, gemini.protocol]
  rfl

/-- A default port that is written out is the only one that is left out the second time. -/
theorem port_reread (gemini : GeminiUrl url) :
    (if url.printedPort = 0 then 1965 else url.printedPort) = if url.port_ = 0 then 1965
      else url.port_ := by
  have default := gemini.default
  simp only [Url.printedPort]
  grind

theorem serverOf_reread (gemini : GeminiUrl url) (uninit : Int) :
    serverOf (Url.ofString uninit url.str) = serverOf url := by
  rw [gemini.reread uninit]
  exact congrArg (Prod.mk url.host) gemini.port_reread

theorem of_reread (gemini : GeminiUrl url) (uninit : Int) :
    GeminiUrl (Url.ofString uninit url.str) := by
  refine geminiUrl_of_good (Url.good_ofString_str uninit gemini.wellFormed) ?_
  rw [gemini.reread uninit]
  exact gemini.protocol

/-- What was read with its default port known is printed as it was. -/
theorem str_reread (gemini : GeminiUrl url) (default : url.defaultPort = 1965) (uninit : Int) :
    (Url.ofString uninit url.str).str = url.str := by
  have scheme : url.protocol ≠ [] := by
    rw [gemini.protocol]
    decide
  have known : Url.protocolDefaultPort url.protocol = url.defaultPort := by
    rw [gemini.protocol, default]
    rfl
  refine (Url.str_ofString_str_iff uninit gemini.wellFormed scheme).mpr ?_
  rintro ⟨shown, equal⟩
  rw [known] at equal
  simp only [Url.printedPort] at shown equal
  split at equal
  next written => exact written.2 equal.symm
  next left_out => exact shown (if_neg left_out)

/-- Only the scheme-less texts depend on what the default port was before. -/
theorem of_uninit {uninit : Int} {urlStr : Str}
    (gemini : GeminiUrl (Url.ofString uninit urlStr)) (uninit' : Int) :
    Url.ofString uninit' urlStr = Url.ofString uninit urlStr := by
  obtain ⟨scheme, host, port, tail, spelled⟩ := Url.spelled_of_good gemini.wellFormed.good
  have protocol := gemini.protocol
  rw [Url.ofString_fields uninit spelled] at protocol
  rw [Url.ofString_fields uninit spelled, Url.ofString_fields uninit' spelled]
  have some_scheme : scheme ≠ [] := by
    rintro rfl
    cases protocol
  simp only [some_scheme, if_false]

end GeminiUrl

end Tlgs

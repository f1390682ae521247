import Tlgs.Crawler.Page

/-!
# What the parts of `crawlPage` do

For each part of `crawlPage`, the operations it can call, and for those operations what
they leave alone. Runs are recorded, so that a property can speak of the requests and
answers of one call.
-/
namespace Tlgs

open Bytes Interactive Interactive.Program

/-- The tables together with the operations of the call so far. -/
abbrev Rec := Recorded Op Op.Answer Str World

abbrev Log := List (Event Op Op.Answer Str)

abbrev Env.Run (env : Env) (fails : Op → Str → Prop) {α : Type} (p : Crawl α) (r : Rec)
    (result : Except Str α) (after : Rec) : Prop :=
  Runs (record (env.step fails)) p r result after

abbrev Env.Wp (env : Env) (fails : Op → Str → Prop) {α : Type} (p : Crawl α)
    (post : Except Str α → Rec → Prop) (r : Rec) : Prop :=
  wp (record (env.step fails)) p post r

/-- The run of a program against a given outside. -/
def Outside.run (outside : Outside) (env : Env) {α : Type} (p : Crawl α) (r : Rec) :
    Except Str α × Rec :=
  simulate (recording (outside.respond env)) p r

theorem Outside.run_of_ends {outside : Outside} {env : Env} {fails : Op → Str → Prop} {α : Type}
    {p : Crawl α} {r : Rec} {result : Except Str α}
    (failures : ∀ op x, outside.failure op = some x → fails op x)
    (ends : (outside.run env p r).1 = result) :
    env.Run fails p r result (outside.run env p r).2 :=
  runs_simulate (record_recording (Outside.respond_step failures)) ends

/-! ### Kinds of operations -/

namespace Op

/-- The operations of the redirect loop. -/
def fetches : Op → Prop
  | shouldCrawl _ | sendRequest _ | selectRedirect _ | upsertRedirect _ _ => True
  | _ => False

/-- The operations that follow the UPDATE of the content of `url`. -/
def relinks (url : Str) : Op → Prop
  | updateIndex u _ | deleteLinks u => u = url
  | shouldCrawl _ | insertLinks _ | insertPages _ => True
  | _ => False

/-- The operations on a response for `url`. -/
def stores (url : Str) : Op → Prop
  | updateUnchanged u _ _ _ | updateContent u _ | updateFailed u _ _ | deleteStale u => u = url
  | op => op.relinks url

/-- The operations of a call of `crawlPage` for `url`. -/
def ofPage (url : Str) : Op → Prop
  | deletePage u | deleteLinksOf u | skipProxyError u => u = url
  | dateNow | countTimeout _ | selectPage _ | insertPage _ => True
  | op => op.fetches ∨ op.stores url

theorem stores_of_relinks {url : Str} {op : Op} (h : op.relinks url) : op.stores url := by
  cases op <;> first | exact h | cases h

theorem ofPage_of_stores {url : Str} {op : Op} (h : op.stores url) : op.ofPage url := by
  cases op <;> first | exact .inr h | cases h

theorem ofPage_of_fetches {url : Str} {op : Op} (h : op.fetches) : op.ofPage url := by
  cases op <;> first | exact .inl h | cases h

end Op

/-! ### The operations each part can call -/

section Failures

variable {ops : Op → Prop} {errs : Str → Prop} {url : Url}
  (updates : ∀ status meta_, ops (.updateFailed url.str status meta_))
  (deletes : ops (.deleteStale url.str))

include updates deletes

theorem within_storeFailure (status : Int) (meta_ : Str) :
    Within ops errs (storeFailure url status meta_) :=
  within_bind (within_perform (updates status meta_)) fun _ =>
    within_bind (within_perform deletes) fun _ => within_pure

theorem within_crawlFailed (counts : ∀ host, ops (.countTimeout host)) (error : Str) :
    Within ops errs (crawlFailed url error) := by
  refine within_bind ?_ fun _ => ?_
  · simp only [countFailure]
    split
    · exact within_perform (counts _)
    · exact within_pure
  · split
    · -- an exception without a text is taken for a success
      exact within_pure
    · exact within_storeFailure updates deletes 0 error

end Failures

section Within

variable {env : Env} {errs : Str → Prop}

theorem within_checkLinks (url : Str) (linkUrls : List Url) :
    Within (Op.relinks url) errs (checkLinks env linkUrls) := by
  induction linkUrls with
  | nil => exact within_pure
  | cons linkUrl rest ih =>
    exact within_bind (within_perform trivial) fun _ => within_bind ih fun _ => within_pure

theorem within_storeLinks (url : Url) (linkUrls : List Url) :
    Within (Op.relinks url.str) errs (storeLinks env url linkUrls) := by
  apply within_bind (within_checkLinks _ _)
  intro pages
  refine within_bind (within_perform rfl) fun _ => ?_
  apply within_bind (within_perform trivial)
  intro _
  split
  · exact within_pure
  · exact within_bind (within_perform trivial) fun _ => within_pure

theorem within_dumpLinks {ops : Op → Prop} (content : PageContent)
    (dumping : ∀ links x, env.jsonError links = some x → errs x) :
    Within ops errs (dumpLinks env content) := by
  simp only [dumpLinks]
  split
  next x failed => exact dumping _ x failed
  · split
    next x failed => exact dumping _ x failed
    · exact within_pure

theorem within_storeIndex (url : Url) (content : PageContent) (linkUrls : List Url) :
    Within (Op.relinks url.str) errs (storeIndex env url content linkUrls) := by
  refine within_bind (within_perform rfl) fun _ => ?_
  split
  · exact within_pure
  · exact within_storeLinks url linkUrls

theorem within_storeContent (url : Url) (status : Int) (resp : Response) (doc : Document)
    (dumping : ∀ links x, env.jsonError links = some x → errs x) :
    Within (Op.stores url.str) errs (storeContent env url status resp doc) := by
  apply within_bind (within_dumpLinks _ dumping)
  intro _
  refine within_bind (within_perform rfl) fun _ => ?_
  exact within_mono (fun _ => Op.stores_of_relinks) (within_storeIndex url _ _)

theorem within_storeUnchanged (url : Url) (status : Int) (resp : Response) (mime : Str) :
    Within (Op.stores url.str) errs (storeUnchanged url status resp mime) :=
  within_bind (within_perform rfl) fun _ => within_pure

theorem within_storeDocument (url : Url) (hashes : Hashes) (status : Int) (resp : Response)
    (doc : Document) (dumping : ∀ links x, env.jsonError links = some x → errs x) :
    Within (Op.stores url.str) errs (storeDocument env url hashes status resp doc) := by
  simp only [storeDocument]
  split
  · exact within_storeUnchanged url status resp _
  · exact within_storeContent url status resp doc dumping

theorem within_rememberRedirect {ops : Op → Prop}
    (stores : ∀ fromUrl toUrl, ops (.upsertRedirect fromUrl toUrl)) (crawlUrl redirectUrl : Url)
    (status : Int) : Within ops errs (rememberRedirect crawlUrl redirectUrl status) := by
  simp only [rememberRedirect]
  split
  · exact within_perform (stores _ _)
  · exact within_pure

variable (nonempty : ∀ x, x ≠ [] → errs x)

include nonempty

theorem processBody_error {url : Url} {mime body x : Str} {charset lang : Option Str}
    (failed : processBody env url mime charset lang body = .error x) : errs x := by
  unfold processBody at failed
  dsimp only at failed
  split at failed
  · -- "Possible binary files sent as text"
    cases failed
    exact nonempty _ (by decide)
  · split at failed
    · cases failed
    · split at failed <;> cases failed

theorem within_indexResponse (url : Url) (hashes : Hashes) (status : Int) (resp : Response)
    (dumping : ∀ links x, env.jsonError links = some x → errs x) :
    Within (Op.stores url.str) errs (indexResponse env url hashes status resp) := by
  unfold indexResponse
  split
  · dsimp only
    split
    · exact within_storeUnchanged url status resp _
    · split
      next x failed => exact processBody_error nonempty failed
      next doc _ => exact within_storeDocument url hashes status resp doc dumping
  · split
    · exact within_storeDocument url hashes status resp _ dumping
    · apply within_storeFailure
      · exact fun _ _ => rfl
      · exact rfl

theorem within_followRedirect {ops : Op → Prop} (asks : ∀ urlStr, ops (.shouldCrawl urlStr))
    (stores : ∀ fromUrl toUrl, ops (.upsertRedirect fromUrl toUrl)) (url crawlUrl : Url)
    (status : Int) (resp : Response) :
    Within ops errs (followRedirect env url crawlUrl status resp) := by
  unfold followRedirect
  dsimp only
  split
  · exact nonempty _ (by decide)
  · split
    · exact nonempty _ (by decide)
    · apply within_bind (within_perform (asks _))
      intro allowed
      split
      · exact nonempty _ (by decide)
      · exact within_bind (within_rememberRedirect stores _ _ _) fun _ => within_pure

theorem within_request (url crawlUrl : Url) :
    Within Op.fetches errs (request env url crawlUrl) := by
  apply within_bind (within_perform trivial)
  intro resp
  split
  · exact nonempty _ (by decide)
  · split
    · exact within_followRedirect nonempty (fun _ => trivial)
        (fun _ _ => trivial) url crawlUrl _ resp
    · exact within_pure

theorem within_hop (url crawlUrl : Url) (resp : Option Response) :
    Within Op.fetches errs (hop env url crawlUrl resp) := by
  apply within_bind (within_perform trivial)
  intro redirect
  split
  · exact within_pure
  · exact within_request nonempty url crawlUrl

theorem within_followRedirects (url : Url) (fuel count : Nat) (crawlUrl : Url)
    (resp : Option Response) :
    Within Op.fetches errs (followRedirects env url fuel count crawlUrl resp) := by
  induction fuel generalizing count crawlUrl resp with
  | zero => exact within_pure
  | succ fuel ih =>
    apply within_bind (within_hop nonempty url crawlUrl resp)
    intro next
    split
    · exact ih _ _ _
    · exact within_pure

variable (dumping : ∀ links x, env.jsonError links = some x → errs x)

include dumping

theorem within_fetchAndIndex (url : Url) (hashes : Hashes) :
    Within (Op.ofPage url.str) errs (fetchAndIndex env url hashes) := by
  refine within_bind (within_mono (fun _ => Op.ofPage_of_fetches)
    (within_followRedirects nonempty url _ _ _ _)) fun fetched => ?_
  obtain ⟨status, resp⟩ := fetched
  cases resp with
  | none => exact nonempty _ (by decide)
  | some resp =>
    exact within_mono (fun _ => Op.ofPage_of_stores)
      (within_indexResponse nonempty url hashes status resp dumping)

theorem within_crawlRecord (url : Url) (record : Option PageRow) :
    Within (Op.ofPage url.str) errs (crawlRecord env url record) := by
  cases record with
  | none =>
    exact within_bind (within_perform trivial) fun _ => within_fetchAndIndex nonempty dumping url _
  | some row =>
    simp only [crawlRecord]
    split
    · apply within_bind (within_perform trivial)
      intro now
      split
      · exact within_bind (within_perform rfl) fun _ => within_pure
      · exact within_fetchAndIndex nonempty dumping url _
    · exact within_fetchAndIndex nonempty dumping url _

theorem within_crawlBody (url : Url) :
    Within (Op.ofPage url.str) errs (crawlBody env url) := by
  apply within_bind (within_perform (.inl trivial))
  intro allowed
  split
  · exact nonempty _ (by decide)
  · exact within_bind (within_perform trivial) fun record =>
      within_crawlRecord nonempty dumping url record

theorem within_crawlPage (urlStr : Str) :
    Within (Op.ofPage urlStr) errs (crawlPage env urlStr) := by
  unfold crawlPage
  dsimp only
  split
  · exact within_bind (within_perform rfl) fun _ =>
      within_bind (within_perform rfl) fun _ => within_pure
  next canonical =>
    -- past the guard the URL prints as the key of its row
    have same : (Url.ofString (env.uninitUrl urlStr) urlStr).str = urlStr := by
      by_contra different
      exact canonical (.inr different)
    have body : Within (Op.ofPage (Url.ofString (env.uninitUrl urlStr) urlStr).str) errs _ :=
      within_tryCatch (within_crawlBody nonempty dumping _)
        (within_crawlFailed (fun _ _ => Or.inr rfl) (Or.inr rfl) fun _ => trivial)
    rwa [same] at body

end Within

/-! ### What operations leave alone -/

@[simp] theorem apply_now (env : Env) (w : World) (op : Op) (a : op.Answer) :
    (env.apply w op a).now = w.now := by
  cases op <;> rfl

theorem apply_fetches (env : Env) (w : World) {op : Op} (a : op.Answer) (fetches : op.fetches) :
    (env.apply w op a).pages = w.pages ∧ (env.apply w op a).links = w.links := by
  cases op <;> first | exact ⟨rfl, rfl⟩ | cases fetches

/-- Nothing after the UPDATE of the content removes the row, and only its search vectors
change. -/
theorem apply_relinks_row {env : Env} {w : World} {op : Op} (a : op.Answer) {url : Str}
    {property : PageRow → Prop}
    (closed : ∀ row t index, property row → property (row.setIndex env.toTsvector t index))
    (relinks : op.relinks url) (held : ∃ row, w.pages url = some row ∧ property row) :
    ∃ row, (env.apply w op a).pages url = some row ∧ property row := by
  obtain ⟨row, stored, holds⟩ := held
  cases op with
  | updateIndex u index =>
    cases relinks
    exact ⟨_, (Table.update_self _).trans (congrArg _ stored), closed row w.now index holds⟩
  | insertPages pages => exact ⟨row, Table.insertAll_of_some stored, holds⟩
  | shouldCrawl u => exact ⟨row, stored, holds⟩
  | deleteLinks u => exact ⟨row, stored, holds⟩
  | insertLinks rows => exact ⟨row, stored, holds⟩
  | _ => cases relinks

section Steps

variable {env : Env} {fails : Op → Str → Prop} {r after : Rec} {op : Op}

theorem step_now {answer : Except Str op.Answer}
    (taken : record (env.step fails) r op answer after) : r.state.now ≤ after.state.now := by
  obtain ⟨⟨later, forward, effect⟩, _⟩ := taken
  cases answer with
  | error x =>
    rw [effect.2]
    exact forward
  | ok a =>
    rw [effect.2, apply_now]
    exact forward

/-- A failing operation leaves the tables as they are. -/
theorem step_error {x : Str} (taken : record (env.step fails) r op (.error x) after) :
    after.state.pages = r.state.pages ∧ after.state.links = r.state.links ∧
      after.log = r.log ++ [⟨op, .error x⟩] := by
  obtain ⟨⟨later, _, _, effect⟩, log⟩ := taken
  rw [effect]
  exact ⟨rfl, rfl, log⟩

theorem failsAt_step {x : Str} (going : Succeeded r.log)
    (taken : record (env.step fails) r op (.error x) after) : FailsAt after.log op :=
  ⟨r.log, x, going, taken.2⟩

theorem succeeded_step {a : op.Answer} (going : Succeeded r.log)
    (taken : record (env.step fails) r op (.ok a) after) : Succeeded after.log := by
  rw [taken.2]
  exact going.append a

theorem not_succeeded_step {x : Str} (taken : record (env.step fails) r op (.error x) after) :
    ¬Succeeded after.log := by
  rw [taken.2]
  exact fun all => not_succeeded_error (all _ (List.mem_append_right _ List.mem_cons_self))

/-- An operation that succeeds has its effect at some later time. -/
theorem step_ok {a : op.Answer} (taken : record (env.step fails) r op (.ok a) after) :
    ∃ later, r.state.now ≤ later ∧ op.Possible (r.state.tick later) a ∧
      after.state = env.apply (r.state.tick later) op a ∧ after.log = r.log ++ [⟨op, .ok a⟩] := by
  obtain ⟨⟨later, forward, possible, effect⟩, log⟩ := taken
  exact ⟨later, forward, possible, effect, log⟩

theorem step_fetches {answer : Except Str op.Answer} (fetches : op.fetches)
    (taken : record (env.step fails) r op answer after) :
    after.state.pages = r.state.pages ∧ after.state.links = r.state.links := by
  cases answer with
  | error x =>
    obtain ⟨pages, links, _⟩ := step_error taken
    exact ⟨pages, links⟩
  | ok a =>
    obtain ⟨later, _, _, effect, _⟩ := step_ok taken
    rw [effect]
    exact apply_fetches env _ a fetches

variable {α : Type} {p : Crawl α} {result : Except Str α}

/-- The redirect loop touches neither pages nor links. -/
theorem run_fetches (within : Within Op.fetches (fun _ => True) p)
    (run : env.Run fails p r result after) :
    after.state.pages = r.state.pages ∧ after.state.links = r.state.links := by
  refine (wp_iff_runs.mp (wp_of_within
    (fun s => s.state.pages = r.state.pages ∧ s.state.links = r.state.links)
    (fun _ _ _ _ _ => trivial) ?_ within ⟨rfl, rfl⟩) result after run).1
  intro s op answer next fetches kept taken
  obtain ⟨pages, links⟩ := step_fetches fetches taken
  exact ⟨pages.trans kept.1, links.trans kept.2⟩

end Steps

end Tlgs

import Tlgs.Base.Traces
import Tlgs.Crawler.Freshness
import Tlgs.Crawler.Links

/-!
# Links that were found

A crawl that stores a document asks for each of its links whether to queue it, and inserts the pages
of those that the check lets through in one statement at its end. What a crawl without a failure
found is in the table from then on, whatever other crawls do.
-/
namespace Tlgs

open Bytes Interactive

/-- The links that the columns of a page list. -/
def PageContent.links (content : PageContent) : List Str :=
  content.internalLinks ++ content.crossSiteLinks

/-- A document that lists the link is stored. -/
def showsLink (link : Str) : Event Op Op.Answer Str → Bool
  | ⟨.updateContent _ content, .ok _⟩ => content.links.any fun toUrl => toUrl = link
  | _ => false

/-- The check turns the link away. -/
def turnsAway (link : Str) : Event Op Op.Answer Str → Bool
  | ⟨.shouldCrawl urlStr, .ok false⟩ => urlStr = link
  | _ => false

/-- The page of the link is inserted. -/
def listsLink (env : Env) (link : Str) : Event Op Op.Answer Str → Bool
  | ⟨.insertPages pages, .ok _⟩ =>
    pages.any fun page => page.url = pgSQLRealEscape env.replaceAll link
  | _ => false

/-- What happened to a link in the course of a crawl. -/
def Happened (kind : Str → Event Op Op.Answer Str → Bool) (log : Log) (link : Str) : Prop :=
  ∃ event ∈ log, kind link event = true

instance (kind : Str → Event Op Op.Answer Str → Bool) (log : Log) (link : Str) :
    Decidable (Happened kind log link) :=
  inferInstanceAs (Decidable (∃ event ∈ log, kind link event = true))

/-- Unless something failed, each link of a document on record was turned away or its page inserted,
or it is still to be dealt with. -/
def Owes (env : Env) (links : List Str) (log : Log) : Prop :=
  Succeeded log → ∀ link, Happened showsLink log link →
    link ∈ links ∨ Happened turnsAway log link ∨ Happened (listsLink env) log link

/-! ### The record of a crawl -/

section Record

variable {env : Env} {log : Log} {links : List Str}

/-- An operation other than the UPDATE of the content. -/
def Op.other : Op → Prop
  | .updateContent _ _ => False
  | _ => True

theorem Op.other_of_quiet {op : Op} (quiet : op.quiet) : op.other := by
  cases op <;> trivial

theorem Happened.append {kind : Str → Event Op Op.Answer Str → Bool} {link : Str}
    (happened : Happened kind log link) (more : Log) : Happened kind (log ++ more) link := by
  obtain ⟨event, member, is_kind⟩ := happened
  exact ⟨event, List.mem_append_left _ member, is_kind⟩

theorem happened_last {kind : Str → Event Op Op.Answer Str → Bool} {link : Str}
    (event : Event Op Op.Answer Str) (is_kind : kind link event = true) :
    Happened kind (log ++ [event]) link :=
  ⟨event, List.mem_append_right _ List.mem_cons_self, is_kind⟩

/-- The last operation is the only one that can make more links due. -/
theorem Owes.extend {links' : List Str} (owes : Owes env links log)
    (event : Event Op Op.Answer Str) (more : ∀ link ∈ links, link ∈ links')
    (shown : ∀ link, showsLink link event = true → link ∈ links') :
    Owes env links' (log ++ [event]) := by
  rintro succeeded link ⟨shows, member, is_kind⟩
  rcases List.mem_append.mp member with earlier | last
  · have before : Succeeded log :=
      fun event inside => succeeded event (List.mem_append_left _ inside)
    refine (owes before link ⟨shows, earlier, is_kind⟩).imp (more link) ?_
    exact Or.imp (fun away => away.append _) (fun listed => listed.append _)
  · cases List.mem_singleton.mp last
    exact .inl (shown link is_kind)

theorem Owes.wait (owes : Owes env links log) (op : Op) (other : op.other)
    (answer : Except Str op.Answer) :
    Owes env links (log ++ [⟨op, answer⟩]) :=
  owes.extend _ (fun _ due => due) fun link shows => by
    cases op <;> first | exact False.elim other | cases shows

/-- After a failure nothing is promised. -/
theorem not_succeeded_last (log : Log) (op : Op) (x : Str) : ¬Succeeded (log ++ [⟨op, .error x⟩]) :=
  fun all => not_succeeded_error (all _ (List.mem_append_right _ List.mem_cons_self))

theorem Owes.of_failed (failed : ¬Succeeded log) : Owes env links log :=
  fun succeeded => absurd succeeded failed

theorem Owes.settled (owes : Owes env links log)
    (settled : ∀ link ∈ links, Happened turnsAway log link ∨ Happened (listsLink env) log link) :
    Owes env [] log := by
  intro succeeded link shown
  rcases owes succeeded link shown with due | done
  · exact .inr (settled link due)
  · exact .inr done

theorem Owes.more {links' : List Str} (owes : Owes env links log)
    (more : ∀ link ∈ links, link ∈ links') :
    Owes env links' log :=
  fun succeeded link shown => (owes succeeded link shown).imp_left (more link)

theorem owes_within {α : Type} {p : Crawl α} (within : Within Op.other (fun _ => True) p)
    (owes : Owes env links log) :
    Leaves (fun _ _ => True) (fun _ log => Owes env links log) p log :=
  leaves_of_within within (fun _ op answer other owes => owes.wait op other answer) owes

end Record

variable {env : Env}

/-- The end of the loop over the links. -/
structure ChecksEnd (env : Env) (links : List Str) (linkUrls : List Url) (before : Log)
    (outcome : Except Str (List NewPage)) (log : Log) : Prop where
  owes : Owes env links log
  longer : before <+: log
  fails : ∀ x, outcome = .error x → ¬Succeeded log
  checked : ∀ pages, outcome = .ok pages → ∀ linkUrl ∈ linkUrls,
    Happened turnsAway log linkUrl.str ∨ pageValues env linkUrl ∈ pages

theorem checkLinks_leaves (linkUrls : List Url) {links : List Str} {log : Log}
    (owes : Owes env links log) :
    Leaves (fun _ _ => True) (ChecksEnd env links linkUrls log) (checkLinks env linkUrls) log := by
  induction linkUrls generalizing log with
  | nil => exact ⟨owes, List.prefix_refl log, nofun, fun _ _ _ => nofun⟩
  | cons linkUrl linkUrls ih =>
    -- one link after the other: what is found later is put behind the link that is checked now
    refine leaves_perform_bind (fun allowed _ => ?_) fun x _ => ?_
    · refine (ih (owes.wait (.shouldCrawl linkUrl.str) trivial (.ok allowed))).bind ?_ ?_
      · intro pages log' ends
        have asked : ⟨.shouldCrawl linkUrl.str, .ok allowed⟩ ∈ log' :=
          ends.longer.subset (List.mem_append_right _ List.mem_cons_self)
        refine ⟨ends.owes, (List.prefix_append _ _).trans ends.longer, nofun, ?_⟩
        intro found equal link member
        cases equal
        cases allowed with
        | false =>
          rcases List.mem_cons.mp member with rfl | later
          · exact .inl ⟨_, asked, decide_eq_true rfl⟩
          · exact ends.checked pages rfl link later
        | true =>
          rcases List.mem_cons.mp member with rfl | later
          · exact .inr List.mem_cons_self
          · exact (ends.checked pages rfl link later).imp_right (List.mem_cons_of_mem _)
      · intro x log' ends
        exact ⟨ends.owes, (List.prefix_append _ _).trans ends.longer, fun _ _ =>
          ends.fails x rfl, nofun⟩
    · -- the check failed, and so has the loop
      exact ⟨owes.wait (.shouldCrawl linkUrl.str) trivial _, List.prefix_append _ _,
        fun _ _ => not_succeeded_last _ _ _, nofun⟩

/-- One operation, of which a failure leaves no promises, and what follows it. -/
theorem owes_perform_bind {α : Type} {links : List Str} {log : Log} {op : Op}
    {f : op.Answer → Crawl α}
    (rest : ∀ a, Leaves (fun _ _ => True) (fun _ log => Owes env links log) (f a)
      (log ++ [⟨op, .ok a⟩])) :
    Leaves (fun _ _ => True) (fun _ log => Owes env links log) (await op >>= f) log :=
  leaves_perform_bind (fun a _ => rest a) fun _ _ => .of_failed (not_succeeded_last _ _ _)

theorem storeLinks_leaves (url : Url) (linkUrls : List Url) {log : Log}
    (owes : Owes env (linkUrls.map Url.str) log) :
    Leaves (fun _ _ => True) (fun _ log => Owes env [] log) (storeLinks env url linkUrls) log := by
  refine (checkLinks_leaves linkUrls owes).bind (fun pages log ends => ?_) fun x log ends =>
    .of_failed (ends.fails x rfl)
  -- what the loop has found is still so after the two statements on `links`
  have owes' := (ends.owes.wait (.deleteLinks url.str) trivial (.ok ())).wait
    (.insertLinks (linkUrls.map (linkValues env url))) trivial (.ok ())
  have checked : ∀ linkUrl ∈ linkUrls, ∀ more, Happened turnsAway (log ++ more) linkUrl.str ∨
      pageValues env linkUrl ∈ pages :=
    fun linkUrl member more => (ends.checked pages rfl linkUrl member).imp_left fun away =>
      away.append more
  refine owes_perform_bind fun _ => owes_perform_bind fun _ => ?_
  split
  next none_left =>
    subst none_left
    refine owes'.settled fun link member => ?_
    obtain ⟨linkUrl, inside, rfl⟩ := List.mem_map.mp member
    rcases checked linkUrl inside _ with away | listed
    · rw [List.append_assoc]
      exact .inl away
    · cases listed
  · refine owes_perform_bind fun _ => ?_
    refine (owes'.wait (.insertPages pages) trivial (.ok ())).settled fun link member => ?_
    obtain ⟨linkUrl, inside, rfl⟩ := List.mem_map.mp member
    rcases checked linkUrl inside _ with away | listed
    · rw [List.append_assoc, List.append_assoc]
      exact .inl away
    · refine .inr (happened_last _ (List.any_eq_true.mpr ⟨pageValues env linkUrl, listed, ?_⟩))
      simp only [pageValues, decide_true]

theorem storeContent_leaves (url : Url) (status : Int) (resp : Response) (doc : Document)
    {log : Log} (owes : Owes env [] log) :
    Leaves (fun _ _ => True) (fun _ log => Owes env [] log)
      (storeContent env url status resp doc) log := by
  refine (owes_within (within_dumpLinks _ fun _ _ _ => trivial) owes).bind (fun _ log owes => ?_)
    fun _ _ owes => owes
  -- the links of the document are due from the UPDATE on
  have due : Owes env (pageContent env url status resp doc).links
      (log ++ [⟨.updateContent url.str (pageContent env url status resp doc), .ok ()⟩]) :=
    owes.extend _ (fun _ => nofun) fun link shows => by
      obtain ⟨toUrl, inside, same⟩ := List.any_eq_true.mp shows
      rwa [← of_decide_eq_true same]
  refine owes_perform_bind fun _ => owes_perform_bind fun _ => ?_
  have due' := due.wait (.updateIndex url.str (indexFriendly env url)) trivial (.ok ())
  split
  next none_left =>
    refine due'.settled fun link member => ?_
    rw [PageContent.links, none_left.1, none_left.2] at member
    cases member
  · refine storeLinks_leaves url (linkUrls env url doc.links) (due'.more fun link member => ?_)
    obtain ⟨linkUrl, inside, rfl⟩ := (mem_lists_iff url _ link).mp (List.mem_append.mp member)
    exact List.mem_map_of_mem inside

theorem fetchAndIndex_leaves (url : Url) (hashes : Hashes) {log : Log} (owes : Owes env [] log) :
    Leaves (fun _ _ => True) (fun _ log => Owes env [] log) (fetchAndIndex env url hashes) log := by
  have fetching : Within Op.other (fun _ => True) (followRedirects env url 6 0 url none) :=
    within_mono (fun op fetches => by cases op <;> trivial)
      (within_followRedirects (fun _ _ => trivial) url _ _ _ _)
  refine (owes_within fetching owes).bind (fun fetched log owes => ?_) fun _ _ owes => owes
  obtain ⟨status, resp⟩ := fetched
  cases resp with
  | none => exact owes
  | some resp =>
    rcases indexResponse_cases env url hashes status resp with ⟨doc, _, stores⟩ | quiet
    · change Leaves _ _ (indexResponse env url hashes status resp) log
      rw [stores]
      exact storeContent_leaves url status resp doc owes
    · exact owes_within (within_mono (fun _ => Op.other_of_quiet) quiet) owes

theorem crawlRecord_leaves (url : Url) (record : Option PageRow) {log : Log}
    (owes : Owes env [] log) :
    Leaves (fun _ _ => True) (fun _ log => Owes env [] log) (crawlRecord env url record) log := by
  cases record with
  | none =>
    refine owes_perform_bind fun _ => ?_
    exact fetchAndIndex_leaves url _
      (owes.wait (.insertPage ⟨url.str, url.host, url.port⟩) trivial (.ok ()))
  | some row =>
    simp only [crawlRecord]
    split
    · refine owes_perform_bind fun now => ?_
      have owes' := owes.wait .dateNow trivial (.ok now)
      split
      · exact owes_perform_bind fun _ => owes'.wait (.skipProxyError url.str) trivial (.ok ())
      · exact fetchAndIndex_leaves url _ owes'
    · exact fetchAndIndex_leaves url _ owes

theorem crawlBody_leaves (url : Url) {log : Log} (owes : Owes env [] log) :
    Leaves (fun _ _ => True) (fun _ log => Owes env [] log) (crawlBody env url) log := by
  refine owes_perform_bind fun allowed => ?_
  have owes' := owes.wait (.shouldCrawl url.str) trivial (.ok allowed)
  split
  · exact owes'
  · exact owes_perform_bind fun record =>
      crawlRecord_leaves url record (owes'.wait (.selectPage url.str) trivial (.ok record))

theorem crawlPage_leaves (urlStr : Str) {log : Log} (owes : Owes env [] log) :
    Leaves (fun _ _ => True) (fun _ log => Owes env [] log) (crawlPage env urlStr) log := by
  unfold crawlPage
  dsimp only
  split
  · exact owes_within (within_bind (within_perform trivial) fun _ =>
      within_bind (within_perform trivial) fun _ =>
      within_pure) owes
  · refine (crawlBody_leaves _ owes).tryCatch (fun _ _ owes => owes) fun x log owes => ?_
    exact owes_within (within_mono (fun _ => Op.other_of_quiet) (quiet_crawlFailed _ x)) owes

/-- At the end of a crawl no link of what it stored is due. -/
theorem crawlNext_leaves (rounds : Nat) :
    Leaves (fun _ _ => True) (fun _ log => Owes env [] log) (crawlNext env rounds) [] := by
  have initially : Owes env [] [] := by
    rintro _ link ⟨event, member, _⟩
    cases member
  have handed_out : Within Op.other (fun _ => True) (getNextCrawlPage env rounds) :=
    within_mono (fun op queues => by cases op <;> trivial) (within_getNextCrawlPage env rounds)
  refine (owes_within handed_out initially).bind (fun urlStr log owes => ?_) fun _ _ owes => owes
  match urlStr with
  | .running => exact owes
  | .finished none => exact owes
  | .finished (some url) =>
    exact (crawlPage_leaves url owes).bind (fun _ _ owes => owes) fun _ _ owes => owes

/-! ### The table -/

/-- The page of `key` was never crawled with success before `t`. -/
structure NoneBefore (key : Str) (t : Time) (w : World) : Prop where
  reached : t ≤ w.now
  since : ∀ row, w.pages key = some row → ∀ last ∈ row.lastCrawlSuccessAt, t ≤ last

/-- The page has a row, at least until thirty days have passed. -/
def Present (key : Str) (t : Time) (w : World) : Prop :=
  w.now ≤ t + 30 * day → ∃ row, w.pages key = some row

section Table

variable {fails : Op → Str → Prop} {key : Str} {t : Time} {w after : World}

theorem noneBefore_rewritten {now : Time} {old row : PageRow} {op : Op}
    (since : ∀ last ∈ old.lastCrawlSuccessAt, t ≤ last) (reached : t ≤ now)
    (rewritten : Rewritten env now key old op row) : ∀ last ∈ row.lastCrawlSuccessAt, t ≤ last := by
  have again : ∀ last ∈ some now, t ≤ last := by
    rintro last ⟨⟩
    exact reached
  cases rewritten with
  | unchanged status meta_ mime => exact again
  | content content => exact again
  | _ => exact since

theorem noneBefore_step {op : Op} {answer : Except Str op.Answer} (none_before : NoneBefore key t w)
    (taken : env.step fails w op answer after) : NoneBefore key t after := by
  obtain ⟨later, forward, effect⟩ := taken
  have reached : t ≤ later := none_before.reached.trans forward
  cases answer with
  | error x =>
    rw [effect.2]
    exact ⟨reached, none_before.since⟩
  | ok a =>
    obtain ⟨_, rfl⟩ := effect
    refine ⟨by rw [apply_now]; exact reached, fun row stored => ?_⟩
    rcases row_after a stored with ⟨old, before, rfl | rewritten⟩ | ⟨_, page, _, _, rfl⟩
    · exact none_before.since _ before
    · exact noneBefore_rewritten (none_before.since old before) reached rewritten
    · exact nofun

/-- Only a page with an old success is deleted. -/
theorem present_step {op : Op} {answer : Except Str op.Answer} (keeps : op.keepsPage key)
    (none_before : NoneBefore key t w) (present : Present key t w)
    (taken : env.step fails w op answer after) :
    Present key t after := by
  obtain ⟨later, forward, effect⟩ := taken
  cases answer with
  | error x =>
    rw [effect.2]
    exact fun within => present (forward.trans within)
  | ok a =>
    obtain ⟨_, rfl⟩ := effect
    intro within
    rw [apply_now] at within
    obtain ⟨old, before⟩ := present (forward.trans within)
    -- the one statement that could delete the page asks for a success that is older
    have spared : ¬op.deletes later key old := by
      intro deletes
      cases op with
      | deletePage url => exact keeps deletes
      | deleteStale url =>
        have stale := deletes.2
        simp only [PageRow.stale] at stale
        split at stale
        next last found =>
          have recent := none_before.since old before last found
          rw [decide_eq_true_eq] at stale
          exact absurd stale (not_lt.mpr ((Int.sub_right_le_of_le_add within).trans recent))
        · cases stale
      | _ => exact deletes
    obtain ⟨row, stored, _⟩ := row_kept env (w := w.tick later) a before spared
    exact ⟨row, stored⟩

/-- What happens beside the crawls leaves the page alone. -/
def Passing (env : Env) (key : Str) (w after : World) : Prop :=
  ∃ s s', s.world = w ∧ s'.world = after ∧ Sparing env key s s'

theorem noneBefore_move (none_before : NoneBefore key t w) (moved : Passing env key w after) :
    NoneBefore key t after := by
  obtain ⟨s, s', rfl, rfl, moved, _⟩ := moved
  refine ⟨none_before.reached.trans (move_now moved), fun row stored => ?_⟩
  rcases row_after_move moved stored with before | ⟨_, _, page, _, _, _, rfl⟩
  · exact none_before.since row before
  · exact nofun

theorem present_move (present : Present key t w) (moved : Passing env key w after) :
    Present key t after := by
  obtain ⟨s, s', rfl, rfl, moved, spared⟩ := moved
  intro within
  obtain ⟨row, stored⟩ := present ((move_now moved).trans within)
  exact ⟨row, spared row stored⟩

theorem present_inserted {op : Op} {answer : Except Str op.Answer} {link : Str}
    (lists : listsLink env link ⟨op, answer⟩ = true)
    (literal : env.readLiteral (pgSQLRealEscape env.replaceAll link) = key)
    (taken : env.step fails w op answer after) : Present key t after := by
  cases op with
  | insertPages pages =>
    cases answer with
    | error x => cases lists
    | ok done =>
      obtain ⟨page, member, named⟩ := List.any_eq_true.mp lists
      obtain ⟨later, _, _, rfl⟩ := taken
      intro _
      rw [← literal, ← of_decide_eq_true named]
      exact Table.insertAll_of_mem (List.mem_map_of_mem member)
  | _ => cases lists

end Table

/-! ### In every run -/

/-- Any number of crawls, while nobody purges the page of `key`. -/
abbrev Discovering (env : Env) (fails : Op → Str → Prop) (key : Str) (init : World) :
    Pool Op Op.Answer Str Unit World Nat → Prop :=
  Reachable (env.step fails) (Passing env key) (crawlNext env) init

section Runs

variable {fails : Op → Str → Prop} {key : Str} {t : Time} {init : World}
  {pool : Pool Op Op.Answer Str Unit World Nat}

/-- A page that was inserted is present. -/
theorem present_of_listed {link : Str} (canonical : NamesItself env key)
    (none_before : NoneBefore key t init)
    (literal : env.readLiteral (pgSQLRealEscape env.replaceAll link) = key)
    (reached : Discovering env fails key init pool) :
    ∀ thread ∈ pool.threads, ∀ event ∈ thread.log, listsLink env link event = true →
      Present key t pool.state := by
  have calls (rounds : Nat) :
      Meets (fun _ _ => True) (Op.keepsPage key) (fun _ => True) (crawlNext env rounds) :=
    crawlNext_writes (writing_keepsPage canonical) rounds
  -- a step that puts the page on record also makes it present, and every later step keeps it
  have recorded : ∀ thread ∈ pool.threads, ∀ event ∈ thread.log,
      NoneBefore key t pool.state ∧
        (listsLink env link event = true → Present key t pool.state) := by
    refine Reachable.recorded (NoneBefore key t)
      (fun w event => NoneBefore key t w ∧ (listsLink env link event = true → Present key t w)) ?_
        ?_ ?_ ?_
      (reached.allowed calls)
    · exact fun pool reached =>
        reached.invariant (fun _ _ _ _ holds taken => noneBefore_step holds taken.2)
        (fun _ _ => noneBefore_move) none_before
    · exact fun s op answer after holds taken =>
        ⟨noneBefore_step holds taken.2, fun lists => present_inserted lists literal taken.2⟩
    · exact fun s op answer after event taken known =>
        ⟨noneBefore_step known.1 taken.2, fun lists =>
          present_step taken.1 known.1 (known.2 lists) taken.2⟩
    · exact fun s after event moved known =>
        ⟨noneBefore_move known.1 moved, fun lists => present_move (known.2 lists) moved⟩
  exact fun thread member event inside => (recorded thread member event inside).2

/-- In every run of any number of crawls, in any interleaving: when a crawl stored a document and
none of its operations failed, the page of each link in the columns that no check of that crawl
turned away is in the table, until thirty days after the time before which the page had no success.
The page must be one that a crawl does not remove, under the text that the escaped link denotes. -/
theorem found_links_stay (canonical : NamesItself env key) (none_before : NoneBefore key t init)
    (reached : Discovering env fails key init pool) (within : pool.state.now ≤ t + 30 * day)
    {thread : Thread Op Op.Answer Str Unit Nat} (member : thread ∈ pool.threads)
    {outcome : Except Str Unit} (ended : thread.program = .done outcome)
    (succeeded : Succeeded thread.log) {link : Str} (shown : Happened showsLink thread.log link)
    (literal : env.readLiteral (pgSQLRealEscape env.replaceAll link) = key)
    (through : ¬Happened turnsAway thread.log link) : ∃ row, pool.state.pages key = some row := by
  have owes : Owes env [] thread.log :=
    reached.leaves (fun _ _ _ _ _ => trivial) crawlNext_leaves member ended
  rcases owes succeeded link shown with due | away | ⟨event, inside, lists⟩
  · cases due
  · exact absurd away through
  · exact present_of_listed canonical none_before literal reached thread member event
      inside lists within

end Runs

/-- A page of one link is crawled. -/
theorem found_links_stay_link :
    let init := { World.empty with crawQueue := [lit "gemini://h/"] }
    ∃ pool, Discovering Env.small never (lit "gemini://h/x") init pool ∧
      init.pages (lit "gemini://h/x") = none ∧
      ∃ row, pool.state.pages (lit "gemini://h/x") = some row := by
  intro init
  -- a crawl of a page with one link, which the check lets through
  obtain ⟨ended, run, succeeded, shown, through, now⟩ : ∃ ended : Except Str Unit × Rec,
      Runs (record (Env.small.step never)) (crawlNext Env.small 3) ⟨init, []⟩ ended.1 ended.2 ∧
        Succeeded ended.2.log ∧ Happened showsLink ended.2.log (lit "gemini://h/x") ∧
          ¬Happened turnsAway ended.2.log (lit "gemini://h/x") ∧ ended.2.state.now = 0 :=
    ⟨simulate (recording ((Outside.serving (lit "=> /x x")).respond Env.small))
      (crawlNext Env.small 3) _,
      runs_simulate (record_recording (Outside.respond_step serving_never)) rfl, by decide +kernel,
      by decide +kernel, by decide +kernel, by decide +kernel⟩
  have spawned : Discovering Env.small never (lit "gemini://h/x") init
      ⟨init, [] ++ ⟨3, crawlNext Env.small 3, []⟩ :: []⟩ := .next .start (.spawn 3)
  have reached := Reachable.of_runs spawned run
  have canonical : NamesItself Env.small (lit "gemini://h/x") := by
    constructor <;> decide +kernel
  have none_before : NoneBefore (lit "gemini://h/x") 0 init := by
    refine ⟨le_refl _, fun row stored => ?_⟩
    cases stored
  have within : ended.2.state.now ≤ 0 + 30 * day := by
    rw [now]
    decide
  refine ⟨_, reached, rfl, ?_⟩
  exact found_links_stay canonical none_before reached within List.mem_cons_self rfl succeeded shown
    (readEscapes_pgSQLRealEscape (fun _ _ _ _ => rfl) _) through

end Tlgs

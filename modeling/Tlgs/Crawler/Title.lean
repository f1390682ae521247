import Tlgs.Base.Utf8
import Tlgs.Crawler.InBlacklist
import Tlgs.Crawler.Skip
import Tlgs.Gemini.Concise
import Tlgs.Url.Ascii

/-!
# The title that is bound

The title of a Gemini document is its first heading of level 1 with a text, or else the URL. The
safeguard for long titles counts bytes, and PostgreSQL takes only UTF-8.
-/
namespace Tlgs

open Bytes Interactive Interactive.Program Utf8

/-! ### The title before the safeguard -/

/-- The text of the first heading of level 1 that has one. -/
def firstHeading (nodes : List GeminiASTNode) : Option Str :=
  (nodes.find? fun node => node.type == .heading1 && node.text != []).map GeminiASTNode.text

def uncutTitle (urlStr : Str) (nodes : List GeminiASTNode) : Str := (firstHeading nodes).getD urlStr

theorem firstHeading_cons (node : GeminiASTNode) (nodes : List GeminiASTNode) :
    firstHeading (node :: nodes) =
      if node.type = .heading1 ∧ node.text ≠ [] then some node.text else firstHeading nodes := by
  simp only [firstHeading, List.find?_cons]
  split <;> simp_all

theorem firstHeading_mem {nodes : List GeminiASTNode} {title : Str}
    (found : firstHeading nodes = some title) :
    title ≠ [] ∧ ∃ node ∈ nodes, node.text = title := by
  obtain ⟨node, first, rfl⟩ := Option.map_eq_some_iff.mp found
  have heading := List.find?_some first
  simp only [Bool.and_eq_true, bne_iff_ne] at heading
  exact ⟨heading.2, node, List.mem_of_find?_eq_some first, rfl⟩

theorem addNode_title (doc : GeminiDocument) (node : GeminiASTNode) :
    (addNode doc node).title =
      if node.type = .heading1 ∧ doc.title = [] then node.text else doc.title := by
  simp only [addNode]
  split
  next type => simp [type]
  next type =>
    -- an empty title is not kept apart from a missing one
    rw [type]
    split <;> simp_all
  next no_heading => rw [if_neg fun heading => no_heading heading.1]

theorem foldl_addNode_title (nodes : List GeminiASTNode) (doc : GeminiDocument) :
    (nodes.foldl addNode doc).title =
      if doc.title = [] then (firstHeading nodes).getD [] else doc.title := by
  induction nodes generalizing doc with
  | nil =>
    split
    next empty => exact empty
    · rfl
  | cons node nodes ih =>
    rw [List.foldl_cons, ih, addNode_title, firstHeading_cons]
    by_cases heading : node.type = .heading1
    · by_cases empty : doc.title = []
      · -- a heading without a text is passed over
        by_cases blank : node.text = [] <;> simp [heading, empty, blank]
      · simp [empty]
    · simp [heading]

theorem extractGeminiConcise_title (nodes : List GeminiASTNode) :
    (extractGeminiConcise nodes).title = (firstHeading nodes).getD [] := by
  have same : SameOutside (extractGemini (keptFrom true nodes)) (extractGemini nodes) :=
    (leavesOut_keptFrom true nodes).sameOutside ⟨rfl, rfl⟩
  rw [extractGeminiConcise_eq, same.2]
  exact foldl_addNode_title nodes {}

theorem title_of_gemini {env : Env} {url : Url} {charset lang : Option Str} {respBody : Str}
    {doc : Document}
    (processed : processBody env url (lit "text/gemini") charset lang respBody = .ok doc) :
    doc.title = uncutTitle url.str
      (env.parseGemini (tryConvertEncoding env respBody (charset.getD (lit "utf-8"))
        (lit "utf-8"))) := by
  unfold processBody at processed
  simp only [if_true] at processed
  split at processed
  · cases processed
  · cases processed
    dsimp only
    rw [extractGeminiConcise_title, uncutTitle]
    cases found : firstHeading _ with
    | none => rfl
    | some title => exact if_neg (firstHeading_mem found).1

/-! ### The safeguard -/

/-- The dots behind a title that was cut off are ASCII. -/
theorem valid_limitTitle_iff {title : Str} (valid : Valid title) :
    Valid (limitTitle title) ↔ Boundary title 1000 := by
  unfold limitTitle
  split
  · exact valid_take_append_iff valid 1000 (by decide)
  next short =>
    exact iff_of_true valid (boundary_of_length_le (Nat.le_of_not_lt short))

/-! ### What a call binds -/

/-- The title that an operation binds in the UPDATE of the content. -/
def boundTitle : Event Op Op.Answer Str → Option Str
  | ⟨.updateContent _ content, _⟩ => some content.title
  | _ => none

variable {env : Env} {fails : Op → Str → Prop} {r after : Rec} {url crawlUrl : Url}

theorem op_of_boundTitle {event : Event Op Op.Answer Str} {title : Str}
    (bound : boundTitle event = some title) :
    ∃ urlStr content, event.op = .updateContent urlStr content ∧ content.title = title := by
  obtain ⟨op, answer⟩ := event
  cases op with
  | updateContent urlStr content =>
    cases bound
    exact ⟨urlStr, content, rfl, rfl⟩
  | _ => cases bound

theorem not_quiet_of_boundTitle {event : Event Op Op.Answer Str} {title : Str}
    (bound : boundTitle event = some title) : ¬Quiet event := by
  obtain ⟨op, answer⟩ := event
  cases op with
  | updateContent _ _ => exact id
  | _ => cases bound

/-- The only content that is bound is that of the document. -/
theorem within_storeContent_of (status : Int) (resp : Response) (doc : Document) :
    Within (fun op => op.quiet ∨
      ∃ urlStr, op = .updateContent urlStr (pageContent env url status resp doc))
      (fun _ => True) (storeContent env url status resp doc) := by
  apply within_bind (within_dumpLinks _ fun _ _ _ => trivial)
  intro _
  refine within_bind (within_perform (.inr ⟨_, rfl⟩)) fun _ => ?_
  refine within_mono (fun op relinks => .inl ?_) (within_storeIndex url _ _)
  cases op <;> trivial

/-- Up to the response no title is bound. -/
theorem later_of_boundTitle {log events : Log} {resp : Response}
    (fetched : FetchedFrom log crawlUrl resp) {event : Event Op Op.Answer Str}
    (member : event ∈ log ++ events) {title : Str} (bound : boundTitle event = some title) :
    event ∈ events := by
  obtain ⟨before, quiet, rfl⟩ := fetched
  rcases List.mem_append.mp member with fetching | later
  · rcases List.mem_append.mp fetching with earlier | last
    · exact absurd (quiet event earlier) (not_quiet_of_boundTitle bound)
    · cases List.mem_singleton.mp last
      cases bound
  · exact later

/-- A call binds the title of the document that it made of the response to its last request. -/
theorem crawlPage_binds {w : World} {urlStr : Str} {result : Except Str Bool}
    (run : env.Run fails (crawlPage env urlStr) ⟨w, []⟩ result after) {title : Str}
    (bound : title ∈ after.log.filterMap boundTitle) :
    (Url.ofString (env.uninitUrl urlStr) urlStr).str = urlStr ∧
    ∃ crawlUrl status resp doc,
      FetchedDocument env (Url.ofString (env.uninitUrl urlStr) urlStr) after.log crawlUrl
        status resp doc ∧
      title = limitTitle doc.title := by
  obtain ⟨event, member, binds⟩ := List.mem_filterMap.mp bound
  rcases crawlPage_outcome run
    with quiet | ⟨_, same, crawlUrl, status, resp, row, r, processes, rest⟩
  · exact absurd (quiet event member) (not_quiet_of_boundTitle binds)
  · have last := processes.lastRequest rest
    rcases indexResponse_cases env _ row.hashes status resp with ⟨doc, document, stores⟩ | quiet
    · refine ⟨same, crawlUrl, status, resp, doc, ⟨last, processes.concrete, document⟩, ?_⟩
      rw [stores] at rest
      obtain ⟨events, log, calls⟩ :=
        log_of_runs (within_tryCatch (within_storeContent_of status resp doc)
        fun x => within_mono (fun _ => .inl) (quiet_crawlFailed _ x)) rest
      have later := later_of_boundTitle processes.fetched (log ▸ member) binds
      obtain ⟨_, content, update, rfl⟩ := op_of_boundTitle binds
      rcases calls event later with quiet | ⟨_, stored⟩
      · exact absurd (quiet_of_op quiet) (not_quiet_of_boundTitle binds)
      · -- the one UPDATE that stores the document
        cases update.symm.trans stored
        rfl
    · obtain ⟨events, log, calls⟩ := log_of_runs (within_tryCatch quiet (quiet_crawlFailed _)) rest
      have later := later_of_boundTitle processes.fetched (log ▸ member) binds
      exact absurd (quiet_of_op (calls event later)) (not_quiet_of_boundTitle binds)

/-! ### Titles in UTF-8 -/

/-- The parser cuts a text at line ends, marks and blanks. -/
def ParsesText (env : Env) : Prop :=
  ∀ text, Valid text → ∀ node ∈ env.parseGemini text, Valid node.text

/-- A Gemini document whose converted body is UTF-8. -/
structure SendsGemini (env : Env) (resp : Response) : Prop where
  success : ∃ status, stoi resp.geminiStatus = some status ∧ status.tdiv 10 = 2
  mime : resp.mime = lit "text/gemini"
  valid : Valid (resp.text env)

theorem uncutTitle_valid (parses : ParsesText env) {urlStr text : Str} (url_valid : Valid urlStr)
    (valid : Valid text) : Valid (uncutTitle urlStr (env.parseGemini text)) := by
  unfold uncutTitle
  cases found : firstHeading (env.parseGemini text) with
  | none => exact url_valid
  | some title =>
    obtain ⟨_, node, member, rfl⟩ := firstHeading_mem found
    exact parses text valid node member

/-- The title that is bound for a document in UTF-8 is UTF-8 exactly if the first heading, or the
URL where there is none, has no more than 1000 bytes or has a character that begins behind them. -/
theorem crawlPage_title_valid_iff (parses : ParsesText env) {w : World} {urlStr : Str}
    (url_valid : Valid urlStr) {result : Except Str Bool}
    (run : env.Run fails (crawlPage env urlStr) ⟨w, []⟩ result after) {title : Str}
    (bound : title ∈ after.log.filterMap boundTitle) {resp : Response}
    (last : LastRequest after.log crawlUrl resp) (gemini : SendsGemini env resp) :
    Valid title ↔ Boundary (uncutTitle urlStr (env.parseGemini (resp.text env))) 1000 := by
  obtain ⟨same, _, status, _, doc, ⟨last', concrete, document⟩, rfl⟩ := crawlPage_binds run bound
  obtain ⟨rfl, rfl⟩ := last.unique last'
  have valid := uncutTitle_valid parses url_valid gemini.valid
  obtain ⟨status', read, kind⟩ := gemini.success
  cases read.symm.trans concrete.1
  -- a document of Gemini text, for the response is a 2x
  rcases document with ⟨_, processed⟩ | ⟨input, _⟩
  · have mime : trimBlanks (parseMime resp.meta_).1 = lit "text/gemini" := gemini.mime
    rw [mime] at processed
    have uncut := title_of_gemini processed
    rw [same] at uncut
    rw [uncut]
    exact valid_limitTitle_iff valid
  · omega

/-- The parser for documents of one line. -/
def parseHeading (text : Str) : List GeminiASTNode :=
  if startsWith text (lit "# ") then [⟨.heading1, text.drop 2, []⟩] else [⟨.text, text, []⟩]

def Env.headed : Env := { Env.small with parseGemini := parseHeading }

theorem headed_parsesText : ParsesText Env.headed := by
  intro text valid node member
  change node ∈ parseHeading text at member
  simp only [parseHeading] at member
  split at member
  next marked =>
    cases List.mem_singleton.mp member
    obtain ⟨rest, rfl⟩ := List.isPrefixOf_iff_prefix.mp marked
    exact (valid_cons_iff (by decide)).mp ((valid_cons_iff (by decide)).mp valid)
  · cases List.mem_singleton.mp member
    exact valid

theorem valid_lit (s : String) : Valid (lit s) := ⟨s.toList, rfl⟩

/-- The answer with a document of one heading. -/
def headingResponse (title : Str) : Response := ⟨lit "20", lit "text/gemini", lit "# " ++ title⟩

def headingCall (title : Str) : Rec :=
  ((Outside.serving (lit "# " ++ title)).run Env.headed (crawlPage Env.headed (lit "gemini://h/"))
    ⟨World.empty, []⟩).2

theorem headingCall_run (title : Str) : ∃ result,
    Env.headed.Run never (crawlPage Env.headed (lit "gemini://h/")) ⟨World.empty, []⟩ result
      (headingCall title) :=
  ⟨_, Outside.run_of_ends serving_never rfl⟩

theorem sendsGemini_heading {title : Str} (valid : Valid title) :
    SendsGemini Env.headed (headingResponse title) where
  success := ⟨20, rfl, rfl⟩
  mime := rfl
  valid := Valid.append (valid_lit "# ") valid

theorem crawlPage_title_valid_iff_short :
    Valid (lit "é") ↔ Boundary
      (uncutTitle (lit "gemini://h/") (parseHeading (lit "# é"))) 1000 := by
  obtain ⟨result, run⟩ := headingCall_run (lit "é")
  have last : LastRequest (headingCall (lit "é")).log (Url.ofString 0 (lit "gemini://h/"))
      (headingResponse (lit "é")) := by decide
  exact crawlPage_title_valid_iff headed_parsesText (valid_lit _) run (by decide) last
    (sendsGemini_heading (valid_lit _))

/-- "é" has its second byte at the offset 1000. -/
def longTitle : Str := List.replicate 999 97 ++ lit "é"

theorem longTitle_valid : Valid longTitle :=
  Valid.append (valid_ascii fun _ member => List.eq_of_mem_replicate member ▸ by decide)
    (valid_lit _)

/-- The heading is UTF-8, and what is bound is not. -/
theorem title_cut_inside_character :
    ParsesText Env.headed ∧ Valid (lit "gemini://h/") ∧
      SendsGemini Env.headed (headingResponse longTitle) ∧
      (∃ result, Env.headed.Run never (crawlPage Env.headed (lit "gemini://h/"))
        ⟨World.empty, []⟩ result
        (headingCall longTitle)) ∧
      LastRequest (headingCall longTitle).log (Url.ofString 0 (lit "gemini://h/"))
        (headingResponse longTitle) ∧
      ∃ title ∈ (headingCall longTitle).log.filterMap boundTitle, ¬Valid title := by
  refine ⟨headed_parsesText, valid_lit _, sendsGemini_heading longTitle_valid, headingCall_run _,
    by decide +kernel, limitTitle longTitle, by decide +kernel, fun valid => ?_⟩
  have boundary := (valid_limitTitle_iff longTitle_valid).mp valid
  exact absurd boundary (by decide +kernel)

end Tlgs

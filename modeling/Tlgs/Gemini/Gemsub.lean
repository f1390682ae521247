import Tlgs.Base.Runs
import Tlgs.Gemini.Document

/-!
# Gemsub feeds

A document is taken for a feed when three of its links in a row are dated. With the URL of the
feed, only links on its host count, and where a protocol is required only links that have it or
none at all.
-/
namespace Tlgs

open Bytes

/-- `isGemsub(nodes)`: wherever the links lead. -/
def isGemsubAnywhere (nodes : List GeminiASTNode) : Bool :=
  3 ≤ longestRun (fun node => matchesDate node.text) 0 0 nodes

/-- The loop of the other overload as the source has it. Without a date or a target, a link
ends the run before the longest one is updated. -/
def feedRun (feedUrl : Url) (protocol : Str) : Nat → Nat → List GeminiASTNode → Nat
  | _, longest, [] => longest
  | current, longest, node :: nodes =>
    if node.type = .link then
      if matchesDate node.text = false ∨
      node.meta_ = [] then feedRun feedUrl protocol 0 longest nodes
      else
        let link := Url.ofString 0 node.meta_
        let linkProtocol :=
          if link.good then if link.protocol = [] then protocol else link.protocol else protocol
        let linkHost := if link.good then if link.host = [] then feedUrl.host else link.host
          else feedUrl.host
        let current :=
          if (protocol = [] ∨ linkProtocol = protocol) ∧
            linkHost = feedUrl.host then current + 1 else 0
        feedRun feedUrl protocol current (max longest current) nodes
    else feedRun feedUrl protocol current longest nodes

/-! ### Where a link of a feed leads -/

/-- A target that names no host is on the feed's. -/
def targetHost (feedUrl : Url) (target : Str) : Str :=
  let link := Url.ofString 0 target
  if link.good ∧ link.host ≠ [] then link.host else feedUrl.host

/-- A target that names no protocol has the one that is required. -/
def targetProtocol (protocol target : Str) : Str :=
  let link := Url.ofString 0 target
  if link.good ∧ link.protocol ≠ [] then link.protocol else protocol

/-- The target of an entry is on the feed's host and has the required protocol. -/
def Local (feedUrl : Url) (protocol target : Str) : Prop :=
  target ≠ [] ∧ targetHost feedUrl target = feedUrl.host ∧
    (protocol ≠ [] → targetProtocol protocol target = protocol)

theorem isFeedEntry_iff {feedUrl : Url} {protocol : Str} {node : GeminiASTNode} :
    isFeedEntry feedUrl protocol node = true ↔
      matchesDate node.text = true ∧ Local feedUrl protocol node.meta_ := by
  have required (p : Str) : (protocol.isEmpty || p == protocol) = true ↔
      (protocol ≠ [] → p = protocol) := by
    cases protocol <;> simp
  simp only [isFeedEntry, Local, targetHost, targetProtocol]
  split
  next nothing =>
    have absent : ¬(matchesDate node.text = true ∧ node.meta_ ≠ []) := by
      simpa [imp_iff_not_or] using nothing
    simp only [Bool.false_eq_true, false_iff]
    rintro ⟨dated, target, _⟩
    exact absent ⟨dated, target⟩
  next something =>
    have present : matchesDate node.text = true ∧ node.meta_ ≠ [] := by simpa using something
    simp only [present, Bool.and_eq_true, required, beq_iff_eq, ne_eq, not_false_eq_true, true_and]
    exact and_comm

private theorem named_or_default (good : Bool) (name default : Str) :
    (if good = true then if name = [] then default else name else default) =
      if good = true ∧ name ≠ [] then name else default := by
  cases good <;> simp

theorem longestRun_isFeedEntry (feedUrl : Url) (protocol : Str) (nodes : List GeminiASTNode)
    {current longest : Nat} :
    longestRun (isFeedEntry feedUrl protocol) current longest nodes =
      feedRun feedUrl protocol current longest nodes := by
  induction nodes generalizing current longest with
  | nil => rfl
  | cons node nodes ih =>
    simp only [longestRun, feedRun, ih, named_or_default]
    by_cases nothing : matchesDate node.text = false ∨ node.meta_ = []
    · have other : isFeedEntry feedUrl protocol node = false := by
        rcases nothing with undated | empty
        · simp [isFeedEntry, undated]
        · simp [isFeedEntry, empty]
      -- the highest count is not updated, which makes no difference
      simp [nothing, other]
    · have entry : isFeedEntry feedUrl protocol node = true ↔
          (protocol = [] ∨ targetProtocol protocol node.meta_ = protocol) ∧
            targetHost feedUrl node.meta_ = feedUrl.host := by
        simp only [not_or, Bool.not_eq_false] at nothing
        rw [isFeedEntry_iff, Local, and_iff_right nothing.1, and_iff_right nothing.2, and_comm,
          ne_eq, ← or_iff_not_imp_left]
      simp only [nothing, if_false, entry, targetProtocol, targetHost]

/-! ### Three links in a row -/

/-- Three nodes that are consecutive among the link nodes. -/
def ThreeInARow (holds : GeminiASTNode → Prop) (nodes : List GeminiASTNode) : Prop :=
  ∃ a b c, [a, b, c] <:+: nodes.filter (·.type = .link) ∧ holds a ∧ holds b ∧ holds c

theorem longestRun_eq (entry : GeminiASTNode → Bool) (nodes : List GeminiASTNode)
    {current longest : Nat} :
    longestRun entry current longest nodes =
      Runs.longest entry current longest (nodes.filter (·.type = .link)) := by
  induction nodes generalizing current longest with
  | nil => rfl
  | cons node nodes ih =>
    simp only [longestRun]
    split
    next link => simp [link, Runs.longest, ih]
    next other => simp [other, ih]

private theorem hasRun_three {entry : GeminiASTNode → Bool} {links : List GeminiASTNode} :
    Runs.HasRun entry 3 links ↔
      ∃ a b c, [a, b, c] <:+: links ∧ entry a = true ∧ entry b = true ∧ entry c = true := by
  simp only [Runs.HasRun, List.length_eq_three]
  constructor
  · rintro ⟨_, part, ⟨a, b, c, rfl⟩, all⟩
    exact ⟨a, b, c, part, by simpa using all⟩
  · rintro ⟨a, b, c, part, all⟩
    exact ⟨_, part, ⟨a, b, c, rfl⟩, by simpa using all⟩

theorem three_le_longestRun {entry : GeminiASTNode → Bool} {holds : GeminiASTNode → Prop}
    (decides : ∀ node, entry node = true ↔ holds node) (nodes : List GeminiASTNode) :
    3 ≤ longestRun entry 0 0 nodes ↔ ThreeInARow holds nodes := by
  rw [longestRun_eq, Runs.le_longest_iff, hasRun_three]
  simp only [decides, ThreeInARow]

/-! ### Dates -/

/-- One digit or two. -/
def DayOrMonth (digits : Str) : Prop :=
  (digits.length = 1 ∨ digits.length = 2) ∧ ∀ c ∈ digits, isdigit c = true

/-- The text starts with a year of four digits, a month and a day, and this comes after them. -/
def DateThen (text rest : Str) : Prop :=
  ∃ year month day, text = year ++ 45 :: (month ++ 45 :: (day ++ rest)) ∧
    year.length = 4 ∧ (∀ c ∈ year, isdigit c = true) ∧ DayOrMonth month ∧ DayOrMonth day

/-- A date, on a text without another line. -/
def Dated (text : Str) : Prop := ∃ rest, DateThen text rest ∧ ∀ c ∈ rest, c ≠ 10 ∧ c ≠ 13

theorem matchDay_iff {text : Str} :
    matchDay text = true ↔
      ∃ day rest, text = 45 :: (day ++ rest) ∧ DayOrMonth day ∧ ∀ c ∈ rest, c ≠ 10 ∧ c ≠ 13 := by
  constructor
  · intro matched
    match text, matched with
    | dash :: d :: rest, matched =>
      simp only [matchDay, Bool.and_eq_true, beq_iff_eq, List.all_eq_true, bne_iff_ne] at matched
      obtain ⟨⟨rfl, digit⟩, unbroken⟩ := matched
      exact ⟨[d], rest, rfl, ⟨.inl rfl, by simpa using digit⟩, unbroken⟩
  · rintro ⟨day, rest, rfl, ⟨one | two, digits⟩, unbroken⟩
    · obtain ⟨d, rfl⟩ := List.length_eq_one_iff.mp one
      simpa [matchDay, digits] using unbroken
    · -- the second digit is matched with what follows
      obtain ⟨d, e, rfl⟩ := List.length_eq_two.mp two
      have digit : isdigit e = true := digits e (by simp)
      have first : isdigit d = true := digits d (by simp)
      have line : e ≠ 10 ∧ e ≠ 13 := by
        constructor
        · rintro rfl
          cases digit
        · rintro rfl
          cases digit
      simpa [matchDay, first, line] using unbroken

theorem matchMonth_iff {text : Str} :
    matchMonth text = true ↔
      ∃ month rest, text = 45 :: (month ++ rest) ∧ DayOrMonth month ∧ matchDay rest = true := by
  constructor
  · intro matched
    match text, matched with
    | dash :: d :: rest, matched =>
      simp only [matchMonth, Bool.and_eq_true, Bool.or_eq_true, beq_iff_eq] at matched
      -- one digit, then the day, or two
      obtain ⟨⟨rfl, digit⟩, one | two⟩ := matched
      · exact ⟨[d], rest, rfl, ⟨.inl rfl, by simpa using digit⟩, one⟩
      · cases rest with
        | nil => cases two
        | cons e rest =>
          obtain ⟨second, day⟩ := Bool.and_eq_true_iff.mp two
          exact ⟨[d, e], rest, rfl, ⟨.inr rfl, by simp [digit, second]⟩, day⟩
  · rintro ⟨month, rest, rfl, ⟨one | two, digits⟩, day⟩
    · obtain ⟨d, rfl⟩ := List.length_eq_one_iff.mp one
      have digit : isdigit d = true := digits d (by simp)
      simp [matchMonth, digit, day]
    · obtain ⟨d, e, rfl⟩ := List.length_eq_two.mp two
      have first : isdigit d = true := digits d (by simp)
      have second : isdigit e = true := digits e (by simp)
      simp [matchMonth, first, second, day]

/-- The regular expression matches a date that no other line comes after. -/
theorem matchesDate_iff {text : Str} : matchesDate text = true ↔ Dated text := by
  simp only [matchesDate, Bool.and_eq_true, decide_eq_true_eq, List.all_eq_true,
    matchMonth_iff, matchDay_iff]
  constructor
  · rintro ⟨⟨long, year⟩, month, _, same, monthDigits, day, rest, rfl, dayDigits, unbroken⟩
    refine ⟨rest, ⟨text.take 4, month, day, ?_, ?_, year, monthDigits, dayDigits⟩, unbroken⟩
    · rw [← same, List.take_append_drop]
    · rw [List.length_take]
      omega
  · -- the year is the first four characters
    rintro ⟨rest, ⟨year, month, day, rfl, long, digits, monthDigits, dayDigits⟩, unbroken⟩
    have front : (year ++ 45 :: (month ++ 45 :: (day ++ rest))).take 4 = year := by
      rw [← long, List.take_left]
    have back : (year ++ 45 :: (month ++ 45 :: (day ++ rest))).drop 4 =
        45 :: (month ++ 45 :: (day ++ rest)) := by
      rw [← long, List.drop_left]
    rw [front, back]
    refine ⟨⟨?_, digits⟩, month, _, rfl, monthDigits, day, rest, rfl, dayDigits, unbroken⟩
    rw [List.length_append]
    omega

/-! ### Both overloads -/

/-- What is asked of the three links when the feed's URL and protocol are given. -/
def FeedEntry (feedUrl : Url) (protocol : Str) (node : GeminiASTNode) : Prop :=
  Dated node.text ∧ Local feedUrl protocol node.meta_

theorem ThreeInARow.mono {holds holds' : GeminiASTNode → Prop} {nodes : List GeminiASTNode}
    (three : ThreeInARow holds nodes) (implies : ∀ node, holds node → holds' node) :
    ThreeInARow holds' nodes := by
  obtain ⟨a, b, c, part, first, second, third⟩ := three
  exact ⟨a, b, c, part, implies a first, implies b second, implies c third⟩

theorem isGemsubAnywhere_iff (nodes : List GeminiASTNode) :
    isGemsubAnywhere nodes = true ↔ ThreeInARow (fun node => Dated node.text) nodes := by
  rw [isGemsubAnywhere, decide_eq_true_eq]
  exact three_le_longestRun (fun _ => matchesDate_iff) nodes

theorem isGemsub_iff (nodes : List GeminiASTNode) (feedUrl : Url) (protocol : Str) :
    isGemsub nodes feedUrl protocol = true ↔ ThreeInARow (FeedEntry feedUrl protocol) nodes := by
  rw [isGemsub, decide_eq_true_eq]
  refine three_le_longestRun (fun node => ?_) nodes
  rw [isFeedEntry_iff, matchesDate_iff, FeedEntry]

/-- A document is a feed when three links in a row are dated, and a feed of a host and protocol
when the three lead there; the second is the stronger. -/
theorem isGemsub_iff_threeInARow (nodes : List GeminiASTNode) (feedUrl : Url) (protocol : Str) :
    (isGemsubAnywhere nodes = true ↔ ThreeInARow (fun node => Dated node.text) nodes) ∧
      (isGemsub nodes feedUrl protocol = true ↔ ThreeInARow (FeedEntry feedUrl protocol) nodes) ∧
      (isGemsub nodes feedUrl protocol = true → isGemsubAnywhere nodes = true) := by
  refine ⟨isGemsubAnywhere_iff nodes, isGemsub_iff nodes feedUrl protocol, fun feed => ?_⟩
  -- the entries of the feed are dated
  rw [isGemsub_iff] at feed
  rw [isGemsubAnywhere_iff]
  exact feed.mono fun _ entry => entry.1

/-- Links with these targets, all of one text. -/
def linksTo (text : Str) (targets : List Str) : List GeminiASTNode :=
  targets.map fun target => ⟨.link, text, target⟩

/-- Relative links of a feed that is served over `https` count where `gemini` is required, and
a text that starts with a date does not count when a line break comes after the date. -/
theorem relative_links_counted :
    let feedUrl := Url.ofString 0 (lit "https://example.com")
    let relative :=
      linksTo (lit "2022-01-01 First article")
        [lit "/test1.html", lit "/test2.html", lit "/test3.html"]
    let broken := linksTo (lit "2022-01-01\r") [lit "/1", lit "/2", lit "/3"]
    (isGemsub relative feedUrl (lit "gemini") = true ∧
      ¬ThreeInARow (fun node => (∃ rest, DateThen node.text rest) ∧ node.meta_ ≠ [] ∧
        (linkCompose feedUrl node.meta_).host = feedUrl.host ∧
        (linkCompose feedUrl node.meta_).protocol = lit "gemini") relative) ∧
    isGemsubAnywhere broken = false ∧
      ThreeInARow (fun node => ∃ rest, DateThen node.text rest) broken := by
  intro feedUrl relative broken
  refine ⟨⟨by decide, ?_⟩, by decide, ?_⟩
  · -- resolved against the feed, the targets are `https` URLs
    rintro ⟨a, b, c, part, ⟨_, _, _, gemini⟩, _⟩
    have member : a ∈ relative := List.mem_of_mem_filter (part.subset List.mem_cons_self)
    have resolved : ∀ node ∈ relative, (linkCompose feedUrl node.meta_).protocol ≠
        lit "gemini" := by decide
    exact resolved a member gemini
  · have dated : DateThen (lit "2022-01-01\r") [13] :=
      ⟨lit "2022", lit "01", lit "01", by decide, by decide, by decide, ⟨.inr rfl, by decide⟩,
        .inr rfl, by decide⟩
    exact ⟨_, _, _, List.infix_rfl, ⟨_, dated⟩, ⟨_, dated⟩, _, dated⟩

end Tlgs

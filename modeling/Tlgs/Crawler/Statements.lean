import Tlgs.Base.Literals
import Tlgs.Crawler.Page

/-!
# The INSERT statements of `crawlPage`

The rows of `links` and the new pages are inserted by statements whose text is put together
from the values. `pgSQLRealEscape`, which `utils.cpp` and `crawler.cpp` define alike, keeps
every value inside its quotes. Its backslashes are escapes of another dialect.
-/
namespace Tlgs

open Bytes SqlLiterals

/-! ### The texts -/

/-- A `bool` as `fmt::format` prints it. -/
def boolText (b : Bool) : Str := if b then lit "true" else lit "false"

/-- What is added to `link_query` for one link. -/
def linkGroup (row : LinkRow) : Str :=
  lit "('" ++ row.url ++ lit "', '" ++ row.host ++ lit "', " ++
    Url.toStringInt row.port ++ lit ", '" ++
    row.toUrl ++ lit "', " ++ boolText row.isCrossSite ++ lit ", '" ++ row.toHost ++ lit "', " ++
    Url.toStringInt row.toPort ++ lit "), "

/-- What is added to `page_query` for one link. -/
def pageGroup (page : NewPage) : Str :=
  lit "('" ++ page.url ++ lit "', '" ++ page.domainName ++ lit "', " ++ Url.toStringInt page.port ++
    lit ", CURRENT_TIMESTAMP), "

/-- The last `", "` is cut off. -/
def insertQuery (query : Str) (groups : List Str) : Str :=
  let query := query ++ groups.flatten
  query.take (query.length - 2) ++ lit " ON CONFLICT DO NOTHING;"

def linkHeader : Str :=
  lit "INSERT INTO links (url, host, port, to_url, is_cross_site, to_host, to_port) VALUES "

def pageHeader : Str := lit "INSERT INTO pages (url, domain_name, port, first_seen_at) VALUES "

def linkQuery (rows : List LinkRow) : Str := insertQuery linkHeader (rows.map linkGroup)

def pageQuery (pages : List NewPage) : Str := insertQuery pageHeader (pages.map pageGroup)

/-! ### The texts in parts -/

def linkParts (row : LinkRow) : List Part :=
  [.plain (lit "("), .quoted row.url, .plain (lit ", "), .quoted row.host,
    .plain (lit ", " ++ Url.toStringInt row.port ++ lit ", "), .quoted row.toUrl,
    .plain (lit ", " ++ boolText row.isCrossSite ++ lit ", "), .quoted row.toHost,
    .plain (lit ", " ++ Url.toStringInt row.toPort ++ lit ")")]

def pageParts (page : NewPage) : List Part :=
  [.plain (lit "("), .quoted page.url, .plain (lit ", "), .quoted page.domainName,
    .plain (lit ", " ++ Url.toStringInt page.port ++ lit ", CURRENT_TIMESTAMP)")]

/-- Groups with `", "` between them. -/
def commaParts : List (List Part) → List Part
  | [] => []
  | [group] => group
  | group :: groups => group ++ .plain (lit ", ") :: commaParts groups

def insertParts (query : Str) (groups : List (List Part)) : List Part :=
  .plain query :: (commaParts groups ++ [.plain (lit " ON CONFLICT DO NOTHING;")])

theorem flatten_commaParts {groups : List (List Part)} (some : groups ≠ []) :
    (groups.map fun group => statement group ++ lit ", ").flatten =
      statement (commaParts groups) ++ lit ", " := by
  induction groups with
  | nil => exact absurd rfl some
  | cons group groups ih =>
    cases groups with
    | nil => simp [commaParts]
    | cons second groups =>
      have rest := ih (List.cons_ne_nil _ _)
      rw [List.map_cons, List.flatten_cons, rest]
      simp [commaParts, Part.text]

theorem insertQuery_eq (query : Str) {groups : List (List Part)} (some : groups ≠ []) :
    insertQuery query (groups.map fun group => statement group ++ lit ", ") =
      statement (insertParts query groups) := by
  have comma : (lit ", ").length = 2 := rfl
  simp only [insertQuery, flatten_commaParts some, ← List.append_assoc]
  -- what is cut off is the last separator
  rw [List.length_append, comma, Nat.add_sub_cancel, List.take_left]
  simp [insertParts, Part.text]

private theorem lit_opens : lit "('" = lit "(" ++ [39] := rfl

private theorem lit_between : lit "', '" = [39] ++ lit ", " ++ [39] := rfl

private theorem lit_closes : lit "', " = [39] ++ lit ", " := rfl

theorem linkGroup_eq (row : LinkRow) : linkGroup row = statement (linkParts row) ++ lit ", " := by
  have starts : lit ", '" = lit ", " ++ [39] := rfl
  have ends : lit "), " = lit ")" ++ lit ", " := rfl
  simp [linkGroup, linkParts, Part.text, lit_opens, lit_between, lit_closes, starts, ends]

theorem pageGroup_eq (page : NewPage) :
    pageGroup page = statement (pageParts page) ++ lit ", " := by
  have ends : lit ", CURRENT_TIMESTAMP), " = lit ", CURRENT_TIMESTAMP)" ++ lit ", " := rfl
  simp [pageGroup, pageParts, Part.text, lit_opens, lit_between, lit_closes, ends]

theorem linkQuery_eq {rows : List LinkRow} (some : rows ≠ []) :
    linkQuery rows = statement (insertParts linkHeader (rows.map linkParts)) := by
  rw [← insertQuery_eq _ (by simpa using some), List.map_map, linkQuery]
  exact congrArg _ (List.map_congr_left fun row _ => linkGroup_eq row)

theorem pageQuery_eq {pages : List NewPage} (some : pages ≠ []) :
    pageQuery pages = statement (insertParts pageHeader (pages.map pageParts)) := by
  rw [← insertQuery_eq _ (by simpa using some), List.map_map, pageQuery]
  exact congrArg _ (List.map_congr_left fun page _ => pageGroup_eq page)

/-! ### Nothing between the values is quoted -/

section Numbers

variable {next : UInt8}

private theorem head_digits {digits : Str} (numeral : ∀ c ∈ digits, isdigit c = true) {d : UInt8}
    (other : isdigit d = false) (different : next ≠ d) : digits.head?.getD next ≠ d := by
  cases digits with
  | nil => exact different
  | cons c digits =>
    rintro rfl
    rw [List.head?_cons, Option.getD_some, numeral c List.mem_cons_self] at other
    cases other

variable (quote : next ≠ 39) (rest : Str)

include quote

private theorem plainBefore_digits {digits : Str} (numeral : ∀ c ∈ digits, isdigit c = true) :
    plainBefore digits (next :: rest) = true := by
  induction digits with
  | nil => rfl
  | cons c digits ih =>
    simp only [List.forall_mem_cons] at numeral
    have other {d : UInt8} (outside : isdigit d = false) : c ≠ d := by
      rintro rfl
      rw [numeral.1] at outside
      cases outside
    have after : digits.head?.getD next ≠ 39 := head_digits numeral.2 rfl quote
    simp [plainBefore, opensOther, ih numeral.2, after, other (d := 0) rfl, other (d := 39) rfl,
      other (d := 34) rfl, other (d := 36) rfl, other (d := 45) rfl, other (d := 47) rfl]

private theorem plainBefore_toStringInt (n : Int) (dash : next ≠ 45) :
    plainBefore (Url.toStringInt n) (next :: rest) = true := by
  have numeral : ∀ c ∈ decimal n.natAbs, isdigit c = true :=
    fun c member => isdigit_of_mem_decimal member
  have digits := plainBefore_digits quote rest numeral
  simp only [Url.toStringInt]
  split
  · -- a digit comes after the sign
    have after : (decimal n.natAbs).head?.getD next ≠ 45 := head_digits numeral rfl dash
    simp [plainBefore, opensOther, word, digits, after]
  · exact digits

end Numbers

private theorem plainBefore_comma (rest : Str) : plainBefore (lit ", ") rest = true := rfl

private theorem plainBefore_opens (rest : Str) : plainBefore (lit "(") rest = true := rfl

/-- A port, with the texts on both sides of it. -/
private theorem plainBefore_port (n : Int) {next : UInt8} {text rest : Str} (quote : next ≠ 39)
    (dash : next ≠ 45) (after : plainBefore (next :: text) rest = true) :
    plainBefore (lit ", " ++ Url.toStringInt n ++ next :: text) rest = true := by
  simp [plainBefore_append, plainBefore_comma, plainBefore_toStringInt quote _ n dash, after]

theorem ends_comma (rest : Str) : Ends (44 :: rest) :=
  ends_cons rest (by decide) rfl rfl (by decide)

theorem placed_linkParts (row : LinkRow) (rest : Str) : Placed (linkParts row) rest := by
  have port (rest : Str) :
      plainBefore (lit ", " ++ Url.toStringInt row.port ++ lit ", ") rest = true :=
    plainBefore_port row.port (by decide) (by decide) rfl
  have toPort (rest : Str) :
      plainBefore (lit ", " ++ Url.toStringInt row.toPort ++ lit ")") rest = true :=
    plainBefore_port row.toPort (by decide) (by decide) rfl
  have crossSite (rest : Str) :
      plainBefore (lit ", " ++ boolText row.isCrossSite ++ lit ", ") rest = true := by
    cases row.isCrossSite <;> rfl
  -- what is left is that a comma comes after each value
  simp only [linkParts, Placed, plainBefore_comma, plainBefore_opens, port, toPort, crossSite,
    true_and, and_true]
  exact ⟨ends_comma _, ends_comma _, ends_comma _, ends_comma _⟩

theorem placed_pageParts (page : NewPage) (rest : Str) : Placed (pageParts page) rest := by
  have port (rest : Str) :
      plainBefore (lit ", " ++ Url.toStringInt page.port ++ lit ", CURRENT_TIMESTAMP)") rest =
        true :=
    plainBefore_port page.port (by decide) (by decide) rfl
  simp only [pageParts, Placed, plainBefore_comma, plainBefore_opens, port, true_and, and_true]
  exact ⟨ends_comma _, ends_comma _⟩

private theorem placed_commaParts {groups : List (List Part)}
    (placed : ∀ group ∈ groups, ∀ rest, Placed group rest) (rest : Str) :
    Placed (commaParts groups) rest := by
  induction groups with
  | nil => trivial
  | cons group groups ih =>
    simp only [List.forall_mem_cons] at placed
    cases groups with
    | nil => exact placed.1 rest
    | cons second groups => exact placed_append.mpr ⟨placed.1 _, rfl, ih placed.2⟩

/-- The statement is placed when its groups are. -/
theorem placed_insertParts {query : Str} {groups : List (List Part)}
    (header : ∀ rest, plainBefore query rest = true)
    (placed : ∀ group ∈ groups, ∀ rest, Placed group rest) :
    Placed (insertParts query groups) [] := by
  refine ⟨header _, ?_⟩
  exact placed_append.mpr ⟨placed_commaParts placed _, rfl, trivial⟩

theorem placed_linkQuery (rows : List LinkRow) :
    Placed (insertParts linkHeader (rows.map linkParts)) [] := by
  apply placed_insertParts
  · exact fun _ => rfl
  · intro group member
    obtain ⟨row, _, rfl⟩ := List.mem_map.mp member
    exact placed_linkParts row

theorem placed_pageQuery (pages : List NewPage) :
    Placed (insertParts pageHeader (pages.map pageParts)) [] := by
  apply placed_insertParts
  · exact fun _ => rfl
  · intro group member
    obtain ⟨page, _, rfl⟩ := List.mem_map.mp member
    exact placed_pageParts page

/-! ### What an escaped text means between quotes -/

/-- What one character becomes where backslashes are ordinary. -/
def standardChar (c : UInt8) : Str := if c = 39 then [39] else escapeChar c

/-- The characters that are not escaped for PostgreSQL. -/
def Mangled (c : UInt8) : Prop := c = 92 ∨ c = 0 ∨ c = 10 ∨ c = 13 ∨ c = 34 ∨ c = 26

instance (c : UInt8) : Decidable (Mangled c) := inferInstanceAs (Decidable (_ ∨ _))

/-- A character is doubled, escaped with a backslash, or left as it is. -/
theorem escapeChar_cases (c : UInt8) :
    (c = 39 ∧ escapeChar c = [39, 39]) ∨
      (Mangled c ∧ ∃ d, escapeChar c = [92, d] ∧
        ((c = 0 ∧ d = 48) ∨ d = 92 ∨ d = 110 ∨ d = 114 ∨ d = 34 ∨ d = 90)) ∨
      (c ≠ 39 ∧ ¬Mangled c ∧ escapeChar c = [c]) := by
  by_cases quote : c = 39
  · subst quote
    exact .inl ⟨rfl, rfl⟩
  by_cases mangled : Mangled c
  · refine .inr (.inl ⟨mangled, ?_⟩)
    rcases mangled with rfl | rfl | rfl | rfl | rfl | rfl <;> exact ⟨_, rfl, by decide⟩
  · refine .inr (.inr ⟨quote, mangled, ?_⟩)
    simp only [Mangled, not_or] at mangled
    simp [escapeChar, mangled, quote]

theorem Mangled.ne_quote {c : UInt8} (mangled : Mangled c) : c ≠ 39 := by
  rintro rfl
  revert mangled
  decide

variable {env : Env} {dialect : Dialect}

/-- Unless escapes are active, one character of the text is read as one block. -/
theorem body_standardChar (inactive : dialect.escapes = false) (c : UInt8) (text : Str) :
    dialect.body (escapeChar c ++ text) = (dialect.body text).map (before (standardChar c)) := by
  have plain (d : UInt8) (zero : d ≠ 0) (quote : d ≠ 39) (text : Str) :
      dialect.body (d :: text) = (dialect.body text).map (before [d]) :=
    Dialect.body_char text zero quote fun _ => inactive
  rcases escapeChar_cases c with ⟨rfl, _⟩ | ⟨mangled, d, escaped, letter⟩ | ⟨quote, unescaped, same⟩
  · exact Dialect.body_quotes text
  · -- the backslash is a character like the one after it
    have zero : d ≠ 0 := by rcases letter with ⟨_, rfl⟩ | rfl | rfl | rfl | rfl | rfl <;> decide
    have quote : d ≠ 39 := by rcases letter with ⟨_, rfl⟩ | rfl | rfl | rfl | rfl | rfl <;> decide
    rw [standardChar, if_neg mangled.ne_quote, escaped, List.cons_append, List.singleton_append,
      plain 92 (by decide) (by decide), plain d zero quote, Option.map_map]
    rfl
  · have zero : c ≠ 0 := fun zero => unescaped (.inr (.inl zero))
    rw [standardChar, if_neg quote, same]
    exact plain c zero quote text

theorem denotes_standard (replaces : ReplacesAll env.replaceAll)
    (inactive : dialect.escapes = false) (s : Str) :
    dialect.Denotes (pgSQLRealEscape env.replaceAll s) (s.flatMap standardChar) := by
  intro rest ends
  rw [pgSQLRealEscape_eq replaces]
  induction s with
  | nil => exact Dialect.body_end ends
  | cons c s ih =>
    rw [List.flatMap_cons, List.append_assoc, body_standardChar inactive, ih]
    rfl

/-- Where escapes are active, one character is read as one block, except for a zero byte. -/
theorem body_escapedChar (active : dialect.escapes = true) {c : UInt8} (zero : c ≠ 0) :
    ∃ value, ∀ text, dialect.body (escapeChar c ++ text) =
      (dialect.body text).map (before value) := by
  rcases escapeChar_cases c with ⟨rfl, _⟩ | ⟨mangled, d, escaped, letter⟩ | ⟨quote, unescaped, same⟩
  · exact ⟨[39], fun text => Dialect.body_quotes text⟩
  · -- none of the letters begins an escape of several characters
    have single (text : Str) : dialect.escape d text = some ([SqlLiterals.letter d], text) := by
      rcases letter with ⟨none, _⟩ | rfl | rfl | rfl | rfl | rfl
      · exact absurd none zero
      all_goals rfl
    rw [escaped]
    exact ⟨_, fun text => Dialect.body_escape active (single text)⟩
  · have backslash : c ≠ 92 := fun backslash => unescaped (.inl backslash)
    rw [same]
    exact ⟨[c], fun text => Dialect.body_char text zero quote fun same => absurd same backslash⟩

private theorem head_escapeChar {c : UInt8} (other : octal c = false) :
    ∃ d text, escapeChar c = d :: text ∧ octal d = false := by
  rcases escapeChar_cases c with ⟨_, same⟩ | ⟨_, d, same, _⟩ | ⟨_, _, same⟩
  · exact ⟨39, _, same, rfl⟩
  · exact ⟨92, _, same, rfl⟩
  · exact ⟨c, _, same, other⟩

private theorem escapeChar_octal {c : UInt8} (digit : octal c = true) : escapeChar c = [c] := by
  rcases escapeChar_cases c with ⟨rfl, _⟩ | ⟨mangled, _⟩ | ⟨_, _, same⟩
  · cases digit
  · rcases mangled with rfl | rfl | rfl | rfl | rfl | rfl <;> cases digit
  · exact same

/-- The octal digits that an escaped text begins with are digits of the text. -/
theorem octalDigits_escaped (n : Nat) (s rest : Str) :
    ((s.flatMap escapeChar ++ 39 :: rest).take n).takeWhile octal = (s.take n).takeWhile octal ∧
      (s.flatMap escapeChar ++ 39 :: rest).drop ((s.take n).takeWhile octal).length =
        (s.drop ((s.take n).takeWhile octal).length).flatMap escapeChar ++ 39 :: rest := by
  induction n generalizing s with
  | zero => simp
  | succ n ih =>
    cases s with
    | nil =>
      have quote : octal 39 = false := rfl
      simp [quote]
    | cons c s =>
      cases digit : octal c with
      | true =>
        obtain ⟨taken, dropped⟩ := ih s
        simp [escapeChar_octal digit, digit, taken, dropped]
      | false =>
        -- an escape begins with no digit either
        obtain ⟨d, text, first, other⟩ := head_escapeChar digit
        simp [first, digit, other]

/-- A zero byte is escaped as an octal number, to which digits that follow it belong. -/
theorem escape_zero (dialect : Dialect) (s : Str) :
    ∃ value k, ∀ rest, dialect.escape 48 (s.flatMap escapeChar ++ 39 :: rest) =
      some (value, (s.drop k).flatMap escapeChar ++ 39 :: rest) := by
  let digits := (s.take 2).takeWhile octal
  refine ⟨[(48 :: digits).foldl (fun n d => 8 * n + (d - 48)) 0], digits.length, fun rest => ?_⟩
  -- up to two digits after the `0` are those of the text itself
  obtain ⟨taken, dropped⟩ := octalDigits_escaped 2 s rest
  have zero : octal 48 = true := rfl
  simp only [Dialect.escape, zero, if_true, taken, dropped, digits]

theorem denotes_escaped (replaces : ReplacesAll env.replaceAll) (active : dialect.escapes = true)
    (s : Str) :
    ∃ value, dialect.Denotes (pgSQLRealEscape env.replaceAll s) value := by
  simp only [pgSQLRealEscape_eq replaces]
  -- a zero byte may take up two more characters, so the induction is on the length
  induction length : s.length using Nat.strong_induction_on generalizing s with
  | _ n ih =>
    cases s with
    | nil => exact ⟨[], fun rest ends => Dialect.body_end ends⟩
    | cons c s =>
      rw [List.length_cons] at length
      by_cases zero : c = 0
      · subst zero
        obtain ⟨value, k, escaped⟩ := escape_zero dialect s
        obtain ⟨more, denotes⟩ := ih (s.drop k).length (by rw [List.length_drop]; omega) _ rfl
        refine ⟨value ++ more, fun rest ends => ?_⟩
        have reads := Dialect.body_escape active (escaped rest)
        rw [denotes rest ends] at reads
        exact reads
      · obtain ⟨value, reads⟩ := body_escapedChar active zero
        obtain ⟨more, denotes⟩ := ih s.length (by omega) s rfl
        refine ⟨value ++ more, fun rest ends => ?_⟩
        rw [List.flatMap_cons, List.append_assoc, reads, denotes rest ends]
        rfl

/-- An escaped text is one literal whether escapes are active or not. -/
theorem exists_denotes (replaces : ReplacesAll env.replaceAll) (dialect : Dialect) (s : Str) :
    ∃ value, dialect.Denotes (pgSQLRealEscape env.replaceAll s) value := by
  cases setting : dialect.escapes with
  | true => exact denotes_escaped replaces setting s
  | false => exact ⟨_, denotes_standard replaces setting s⟩

/-! ### The values in the statements -/

theorem quotedTexts_commaParts (groups : List (List Part)) :
    quotedTexts (commaParts groups) = groups.flatMap quotedTexts := by
  induction groups with
  | nil => rfl
  | cons group groups ih =>
    cases groups with
    | nil => simp [commaParts]
    | cons second groups => simp [commaParts, ih]

private theorem quotedTexts_insertParts (query : Str) (groups : List (List Part)) :
    quotedTexts (insertParts query groups) = groups.flatMap quotedTexts := by
  simp [insertParts, quotedTexts_commaParts]

theorem quotedTexts_linkQuery (url : Url) (linkUrls : List Url) :
    quotedTexts (insertParts linkHeader ((linkUrls.map (linkValues env url)).map linkParts)) =
      linkUrls.flatMap fun linkUrl =>
        [url.str, url.host, linkUrl.str, linkUrl.host].map (pgSQLRealEscape env.replaceAll) := by
  have group (row : LinkRow) :
      quotedTexts (linkParts row) = [row.url, row.host, row.toUrl, row.toHost] := by
    simp [linkParts]
  simp only [quotedTexts_insertParts, List.flatMap_map, group, linkValues,
    List.map_cons, List.map_nil]

theorem quotedTexts_pageQuery (linkUrls : List Url) :
    quotedTexts (insertParts pageHeader ((linkUrls.map (pageValues env)).map pageParts)) =
      linkUrls.flatMap fun linkUrl =>
        [linkUrl.str, linkUrl.host].map (pgSQLRealEscape env.replaceAll) := by
  have group (page : NewPage) : quotedTexts (pageParts page) = [page.url, page.domainName] := by
    simp [pageParts]
  simp only [quotedTexts_insertParts, List.flatMap_map, group, pageValues,
    List.map_cons, List.map_nil]

private theorem exists_denotes_of_mem {f : Url → List Str} {linkUrls : List Url}
    (replaces : ReplacesAll env.replaceAll) (dialect : Dialect) (text : Str)
    (member : text ∈ linkUrls.flatMap fun linkUrl =>
      (f linkUrl).map (pgSQLRealEscape env.replaceAll)) :
    ∃ value, dialect.Denotes text value := by
  obtain ⟨linkUrl, _, member⟩ := List.mem_flatMap.mp member
  obtain ⟨s, _, rfl⟩ := List.mem_map.mp member
  exact exists_denotes replaces dialect s

/-- With backslash escapes and without them, a quoted text is one literal that ends at its last
quote, and the statements of `crawlPage` are divided the same way whatever URLs and hosts are in
them. -/
theorem pgSQLRealEscape_sealed (replaces : ReplacesAll env.replaceAll) (dialect : Dialect) :
    (∀ s, ∃ value, dialect.read (39 :: (pgSQLRealEscape env.replaceAll s ++ [39])) =
      some (value, [])) ∧
      (∀ url linkUrl linkUrls,
        let rows := (linkUrl :: linkUrls).map (linkValues env url)
        dialect.outline (linkQuery rows) =
          some ((insertParts linkHeader (rows.map linkParts)).flatMap (Part.tokens fun _ => []))) ∧
      ∀ linkUrl linkUrls,
        let pages := (linkUrl :: linkUrls).map (pageValues env)
        dialect.outline (pageQuery pages) =
          some ((insertParts pageHeader (pages.map pageParts)).flatMap
            (Part.tokens fun _ => [])) := by
  refine ⟨?_, ?_, ?_⟩
  · -- a literal by itself
    intro s
    obtain ⟨value, denotes⟩ := exists_denotes replaces dialect s
    exact ⟨value, denotes.read_eq⟩
  · -- the rows of `links`
    intro url linkUrl linkUrls rows
    have some : rows ≠ [] := List.cons_ne_nil _ _
    rw [linkQuery_eq some]
    apply Dialect.outline_statement (placed_linkQuery rows)
    rw [quotedTexts_linkQuery]
    exact exists_denotes_of_mem replaces dialect
  · -- the rows of `pages`
    intro linkUrl linkUrls pages
    have some : pages ≠ [] := List.cons_ne_nil _ _
    rw [pageQuery_eq some]
    apply Dialect.outline_statement (placed_pageQuery pages)
    rw [quotedTexts_pageQuery]
    exact exists_denotes_of_mem replaces dialect

theorem pgSQLRealEscape_sealed_escaping :
    let escaping : Dialect := { escapes := true, unicode := fun _ => none }
    let url := Url.ofString 0 (lit "gemini://h/")
    let rows := [linkValues Env.small url (linkCompose url (lit "it's"))]
    (∃ value, escaping.read (39 :: (pgSQLRealEscape Env.small.replaceAll (lit "it's\\") ++ [39])) =
        some (value, [])) ∧
      escaping.outline (linkQuery rows) =
        some ((insertParts linkHeader (rows.map linkParts)).flatMap (Part.tokens fun _ => [])) := by
  intro escaping url rows
  have replaces : ReplacesAll Env.small.replaceAll := fun _ _ _ _ => rfl
  obtain ⟨literals, statement, _⟩ := pgSQLRealEscape_sealed replaces escaping
  exact ⟨literals _, statement url (linkCompose url (lit "it's")) []⟩

/-! ### Literals that denote another text -/

/-- `standard_conforming_strings` is on. -/
def standard : Dialect where
  escapes := false
  unicode _ := none

/-- The text that an escaped text denotes. -/
def standardText (s : Str) : Str := s.flatMap standardChar

/-- Every character denotes itself. -/
def Unmangled (s : Str) : Prop := ∀ c ∈ s, ¬Mangled c

theorem standardChar_of_not_mangled {c : UInt8} (plain : ¬Mangled c) : standardChar c = [c] := by
  simp only [standardChar]
  split
  next quote => rw [quote]
  next quote =>
    rcases escapeChar_cases c with ⟨same, _⟩ | ⟨mangled, _⟩ | ⟨_, _, same⟩
    · exact absurd same quote
    · exact absurd mangled plain
    · exact same

theorem length_standardChar {c : UInt8} (mangled : Mangled c) : (standardChar c).length = 2 := by
  rcases mangled with rfl | rfl | rfl | rfl | rfl | rfl <;> rfl

private theorem length_le_standardText (s : Str) : s.length ≤ (standardText s).length := by
  induction s with
  | nil => simp
  | cons c s ih =>
    have first : 1 ≤ (standardChar c).length := by
      by_cases mangled : Mangled c
      · simp [length_standardChar mangled]
      · simp [standardChar_of_not_mangled mangled]
    rw [standardText, List.flatMap_cons, List.length_append, List.length_cons]
    have rest : s.length ≤ (s.flatMap standardChar).length := ih
    omega

/-- A text denotes itself unless one of its characters is escaped with a backslash. -/
theorem standardText_eq_iff (s : Str) : standardText s = s ↔ Unmangled s := by
  induction s with
  | nil => simp [standardText, Unmangled]
  | cons c s ih =>
    simp only [Unmangled, List.forall_mem_cons]
    rw [standardText, List.flatMap_cons]
    by_cases mangled : Mangled c
    · -- the backslash makes the text longer, and nothing makes it shorter
      have longer : (standardChar c ++ s.flatMap standardChar) ≠ c :: s := by
        intro same
        have lengths := congrArg List.length same
        have rest := length_le_standardText s
        rw [List.length_append, length_standardChar mangled, List.length_cons, ← standardText]
          at lengths
        omega
      exact iff_of_false longer fun plain => plain.1 mangled
    · rw [standardChar_of_not_mangled mangled, List.singleton_append, List.cons_inj_right]
      exact ih.trans ⟨fun plain => ⟨mangled, plain⟩, fun plain => plain.2⟩

theorem standard_value (replaces : ReplacesAll env.replaceAll) (s : Str) :
    standard.value (pgSQLRealEscape env.replaceAll s) = standardText s :=
  (denotes_standard replaces rfl s).value_eq

/-- `url` and `to_url` among the four values of each row. -/
def urlPairs : List Str → List (Str × Str)
  | url :: _ :: toUrl :: _ :: values => (url, toUrl) :: urlPairs values
  | _ => []

/-- The values that the statement for `links` inserts. -/
theorem values_linkQuery (replaces : ReplacesAll env.replaceAll) (url : Url) {linkUrls : List Url}
    (some_links : linkUrls ≠ []) :
    standard.values (linkQuery (linkUrls.map (linkValues env url))) =
      some (linkUrls.flatMap fun linkUrl =>
        [standardText url.str, standardText url.host, standardText linkUrl.str,
          standardText linkUrl.host]) := by
  have rows : linkUrls.map (linkValues env url) ≠ [] := by simpa using some_links
  have placed := placed_linkQuery (linkUrls.map (linkValues env url))
  have denotes : ∀ text ∈
      quotedTexts (insertParts linkHeader ((linkUrls.map (linkValues env url)).map linkParts)),
      standard.Denotes text (standard.value text) := by
    intro text member
    rw [quotedTexts_linkQuery] at member
    obtain ⟨value, denotes⟩ := exists_denotes_of_mem replaces standard text member
    rwa [denotes.value_eq]
  rw [linkQuery_eq rows, Dialect.values_statement placed denotes, quotedTexts_linkQuery]
  simp only [List.map_flatMap, List.map_cons, List.map_nil, standard_value replaces]

private theorem urlPairs_flatMap (a b : Str) (c d : Url → Str) (linkUrls : List Url) :
    urlPairs (linkUrls.flatMap fun linkUrl => [a, b, c linkUrl, d linkUrl]) =
      linkUrls.map fun linkUrl => (a, c linkUrl) := by
  induction linkUrls with
  | nil => rfl
  | cons linkUrl linkUrls ih => simp [urlPairs, ih]

/-- Where backslashes are ordinary, as by default, a quoted text denotes itself exactly when no
character of it is escaped with one, and so do the URLs in the statement for `links`. -/
theorem pgSQLRealEscape_faithful_iff (replaces : ReplacesAll env.replaceAll) (s : Str)
    (url linkUrl : Url) (linkUrls : List Url) :
    (standard.read (39 :: (pgSQLRealEscape env.replaceAll s ++ [39])) = some (s, []) ↔
      Unmangled s) ∧
      ((standard.values (linkQuery ((linkUrl :: linkUrls).map (linkValues env url)))).map urlPairs =
          some ((linkUrl :: linkUrls).map fun target => (url.str, target.str)) ↔
        Unmangled url.str ∧ ∀ target ∈ linkUrl :: linkUrls, Unmangled target.str) := by
  constructor
  · -- a literal denotes its text as the standard reads it
    have denotes : standard.Denotes (pgSQLRealEscape env.replaceAll s) (standardText s) :=
      denotes_standard replaces rfl s
    rw [denotes.read_eq]
    simp [standardText_eq_iff]
  · -- and so do the two texts of every row
    rw [values_linkQuery replaces url (List.cons_ne_nil _ _), Option.map_some, urlPairs_flatMap,
      Option.some_inj, List.map_inj_left]
    simp only [Prod.mk.injEq, standardText_eq_iff]
    constructor
    · intro same
      exact ⟨(same linkUrl List.mem_cons_self).1, fun target member => (same target member).2⟩
    · rintro ⟨own, targets⟩ target member
      exact ⟨own, targets target member⟩

theorem pgSQLRealEscape_faithful_iff_quote :
    let url := Url.ofString 0 (lit "gemini://h/")
    let linkUrl := linkCompose url (lit "it's")
    standard.read (39 :: (pgSQLRealEscape Env.small.replaceAll linkUrl.str ++ [39])) =
        some (linkUrl.str, []) ∧
      (standard.values (linkQuery [linkValues Env.small url linkUrl])).map urlPairs =
        some [(url.str, linkUrl.str)] := by
  intro url linkUrl
  have own : Unmangled url.str := by unfold Unmangled Mangled; decide
  have target : Unmangled linkUrl.str := by unfold Unmangled Mangled; decide
  have replaces : ReplacesAll Env.small.replaceAll := fun _ _ _ _ => rfl
  obtain ⟨read, inserted⟩ := pgSQLRealEscape_faithful_iff replaces linkUrl.str url linkUrl []
  exact ⟨read.mpr target, inserted.mpr ⟨own, by simpa using target⟩⟩

/-- A double quote in a link, which a URL may have, is stored with a backslash before it. -/
theorem double_quote_escaped :
    let url := Url.ofString 0 (lit "gemini://h/")
    let linkUrl := linkCompose url (lit "a\"b")
    linkUrl.good = true ∧ linkUrl.str = lit "gemini://h/a\"b" ∧ 0 ∉ linkUrl.str ∧
      standard.read (39 :: (pgSQLRealEscape Env.small.replaceAll linkUrl.str ++ [39])) =
        some (lit "gemini://h/a\\\"b", []) ∧
      (standard.values (linkQuery [linkValues Env.small url linkUrl])).map urlPairs =
        some [(lit "gemini://h/", lit "gemini://h/a\\\"b")] := by
  intro url linkUrl
  have replaces : ReplacesAll Env.small.replaceAll := fun _ _ _ _ => rfl
  have own : url.str = lit "gemini://h/" := by decide
  have target : linkUrl.str = lit "gemini://h/a\"b" := by decide
  have escaped : standardText (lit "gemini://h/a\"b") = lit "gemini://h/a\\\"b" := by decide
  have literal : standard.Denotes (pgSQLRealEscape Env.small.replaceAll linkUrl.str)
      (standardText linkUrl.str) :=
    denotes_standard replaces rfl linkUrl.str
  have rows := values_linkQuery replaces url (List.cons_ne_nil linkUrl [])
  rw [target, escaped] at literal
  rw [target]
  refine ⟨by decide, rfl, by decide, literal.read_eq, ?_⟩
  rw [List.map_singleton] at rows
  simp only [rows, own, target, escaped, List.flatMap_cons, List.flatMap_nil, List.append_nil,
    Option.map_some, urlPairs]
  decide

end Tlgs

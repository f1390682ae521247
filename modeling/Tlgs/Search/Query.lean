import Tlgs.Search.Filter

/-!
# The query language

A query is a list of words. A word `key:value` with a known key is a filter, `NOT` or
`not` directly before a filter negates it, and the rest is the text to search for.
-/
namespace Tlgs

open Bytes

inductive TokenType
  | text
  | filter
  | logical
  deriving DecidableEq, Repr

/-- The words between the blanks of a query. -/
def splitWords (query : Str) : List Str :=
  (query.splitOn 32).filter (· != [])

theorem splitWords_of_splits {splitString : Str → Str → List Str}
    (splits : SplitsString splitString) (query : Str) :
    splitString query (lit " ") = splitWords query := splits query 32

/-- `find(":")`, and the text on both sides of it. -/
def splitColon (token : Str) : Option (Str × Str) :=
  match token.dropWhile (· != colon) with
  | [] => none
  | _ :: value => some (token.takeWhile (· != colon), value)

def filterKeys : List Str :=
  [lit "content_type", lit "domain", lit "size", lit "intitle"]

def tokenType (token : Str) : TokenType :=
  match splitColon token with
  | some (key, value) =>
    if value ≠ [] ∧ key ≠ [] then
      if key ∈ filterKeys then .filter else .text
    else if token = lit "NOT" ∨ token = lit "not" then .logical
    else .text
  | none => if token = lit "NOT" ∨ token = lit "not" then .logical else .text

def parseSizeUnits (unit : Str) : Option UInt64 :=
  let unit := unit.map tolower
  let unit := if 1 < unit.length ∧ unit.getLast? = some 98 then unit.dropLast else unit
  if unit = [] ∨ unit = lit "b" ∨ unit = lit "byte" then some 1
  else if unit = lit "k" then some 1000
  else if unit = lit "ki" then some 1024
  else if unit = lit "m" then some (1000 * 1000)
  else if unit = lit "mi" then some (1024 * 1024)
  else if unit = lit "g" then some (1000 * 1000 * 1000)
  else if unit = lit "gi" then some (1024 * 1024 * 1024)
  else none

/-- The letters of `[GBKMibyte]`, in either case. -/
def isUnitLetter (c : UInt8) : Bool := tolower c ∈ lit "gbkmiyte"

/-- The three groups of `([><])([\.0-9]+)([GBKMibyte]+)?`. The classes of the second and
third group have no character in common, so there is one way to match. -/
def matchSize : Str → Option (Bool × Str × Str)
  | [] => none
  | sign :: value =>
    let number := value.takeWhile (fun c => c == fullStop || isdigit c)
    let unit := value.dropWhile (fun c => c == fullStop || isdigit c)
    if (sign = 62 ∨ sign = 60) ∧ number ≠ [] ∧ unit.all isUnitLetter then
      some (sign == 62, number, unit)
    else none

section Parse

-- `std::stod(number) * unit` as a `size_t`; `none` when `std::stod` throws
variable (sizeLimit : Str → UInt64 → Option UInt64)

/-- A filter word: the filter with the constraint added; `none` when an exception leaves. -/
def addFilter (filter : SearchFilter) (negate : Bool) (key value : Str) : Option SearchFilter :=
  if key = lit "content_type" then
    some { filter with contentType := filter.contentType ++ [⟨value, negate⟩] }
  else if key = lit "domain" then
    some { filter with domain := filter.domain ++ [⟨value, negate⟩] }
  else if key = lit "intitle" then
    some { filter with title := filter.title ++ [⟨value, negate⟩] }
  else if key = lit "size" then
    match matchSize value with
    -- a bad size or unit is skipped, and the negation ends with it
    | none => some filter
    | some (greater, number, unit) =>
      match parseSizeUnits unit with
      | none => some filter
      | some unit =>
        (sizeLimit number unit).map fun size =>
          { filter with size := filter.size ++ [⟨size, negate ^^ greater⟩] }
  else some filter

/-- The second loop of `parseSearchQuery`. -/
def parseTokens : List Str → Bool → Str → SearchFilter → Option (Str × SearchFilter)
  | [], _, searchQuery, filter => some (searchQuery, filter)
  | token :: words, negate, searchQuery, filter =>
    match tokenType token with
    | .text => parseTokens words negate (searchQuery ++ token ++ lit " ") filter
    | .filter =>
      match splitColon token with
      | none => none
      | some (key, value) =>
        (addFilter sizeLimit filter negate key value).bind fun filter =>
          parseTokens words false searchQuery filter
    | .logical =>
      -- a word like any other unless a filter follows directly
      if words.head?.map tokenType = some .filter then parseTokens words true searchQuery filter
      else parseTokens words negate (searchQuery ++ token ++ lit " ") filter

def parseSearchQuery (splitString : Str → Str → List Str) (sizeLimit : Str → UInt64 → Option UInt64)
    (query : Str) : Option (Str × SearchFilter) :=
  -- the blank after the last word goes before the titles are added
  (parseTokens sizeLimit (splitString query (lit " ")) false [] {}).map fun (searchQuery, filter) =>
    (searchQuery.dropLast ++ filter.title.flatMap (fun tc => tc.value ++ lit " "), filter)

end Parse

/-- What is asked of the parsed query is asked of one filter. -/
theorem exists_parsed_iff {splitString : Str → Str → List Str}
    {sizeLimit : Str → UInt64 → Option UInt64} {query text : Str} {filter : SearchFilter}
    {property : SearchFilter → Prop}
    (parsed : parseSearchQuery splitString sizeLimit query = some (text, filter)) :
    (∃ text filter, parseSearchQuery splitString sizeLimit query = some (text, filter) ∧
      property filter) ↔
      property filter := by
  constructor
  · rintro ⟨text', filter', parsed', holds⟩
    cases parsed.symm.trans parsed'
    exact holds
  · exact fun holds => ⟨text, filter, parsed, holds⟩

end Tlgs

import Tlgs.Url.Compose

/-!
# Gemini documents

The text, title and links of a parsed Gemini document, and the heuristics that decide
what of it is indexed. The parser of Gemini text itself is part of another library;
its nodes are the input here.
-/
namespace Tlgs

open Bytes

/-- The node types that the functions below tell apart. -/
inductive NodeType
  | text
  | link
  | heading1
  | preformattedText
  | other
  deriving DecidableEq, Repr

structure GeminiASTNode where
  type : NodeType
  text : Str
  meta_ : Str
  deriving DecidableEq, Repr

structure GeminiDocument where
  text : Str := []
  title : Str := []
  links : List Str := []
  deriving DecidableEq, Repr

/-- Whether some character other than a blank or tab occurs four times in a row. -/
def repeatsFourTimes : UInt8 → Nat → Str → Bool
  | _, _, [] => false
  | last, count, c :: str =>
    let count := if c = last then count + 1 else 1
    if 4 ≤ count ∧ c ≠ 32 ∧ c ≠ 9 then true else repeatsFourTimes c count str

def asciiArtMarks : List Str :=
  [lit "☆", lit "★", lit "░", lit "█", lit "⣿", lit "⡇", lit "⢀", lit "┼", lit "╭",
    lit "(_-<", lit "_ _ _ _"]

def isAsciiArt (str : Str) : Bool :=
  repeatsFourTimes 0 0 str || asciiArtMarks.any (contains · str)

/-- Words in the caption of a preformatted block that mark it as a picture. -/
def pictureWords : List Str :=
  [lit "ascii", lit "art", lit "banner", lit "logo", lit "title", lit "news", lit "capsule",
    lit "user", lit "image", lit "the", lit "graphics", lit "world"]

/-- The `continue`s of `extractGeminiConcise` for a preformatted block. -/
def skipsPreformatted (firstContent : Bool) (node : GeminiASTNode) : Bool :=
  firstContent || pictureWords.any (contains · (node.meta_.map tolower)) || isAsciiArt node.text

/-- The `continue`s for a text line that is not empty. -/
def skipsText (text : Str) : Bool :=
  match text.head?, text.getLast? with
  | some first, some last =>
    -- one character, a heading between marks, or the output of `tree`
    text.all (· == first) ||
      (decide (6 < text.length) && (text.take 3).all (· == first) &&
        (text.drop (text.length - 3)).all (· == last) &&
        first != 32 && last != 32 && first != 9 && last != 9) ||
      match find (lit "│") text with
      | some offset => decide (offset < 3)
      | none => false
  | _, _ => false

/-- What a node that is not skipped adds to the document. -/
def addNode (doc : GeminiDocument) (node : GeminiASTNode) : GeminiDocument :=
  let doc := { doc with text := doc.text ++ node.text ++ [10] }
  match node.type with
  | .link => { doc with links := doc.links ++ [node.meta_] }
  | .heading1 => if doc.title = [] then { doc with title := node.text } else doc
  | _ => doc

def extractGemini (nodes : List GeminiASTNode) : GeminiDocument :=
  nodes.foldl addNode {}

def extractConciseFrom (firstContent : Bool) (doc : GeminiDocument) :
    List GeminiASTNode → GeminiDocument
  | [] => doc
  | node :: nodes =>
    match node.type with
    | .preformattedText =>
      if skipsPreformatted firstContent node then extractConciseFrom firstContent doc nodes
      else extractConciseFrom firstContent (addNode doc node) nodes
    | .text =>
      -- an empty line is no content yet
      if node.text = [] then extractConciseFrom firstContent (addNode doc node) nodes
      else if skipsText node.text then extractConciseFrom false doc nodes
      else extractConciseFrom false (addNode doc node) nodes
    | _ => extractConciseFrom firstContent (addNode doc node) nodes

def extractGeminiConcise (nodes : List GeminiASTNode) : GeminiDocument :=
  extractConciseFrom true {} nodes

/-! ### Gemsub feeds -/

/-- `-` and one or two digits, as far as the rest of the pattern needs them. -/
def matchDay : Str → Bool
  | dash :: d :: rest => dash == 45 && isdigit d && rest.all (fun c => c != 10 && c != 13)
  | _ => false

def matchMonth : Str → Bool
  | dash :: d :: rest =>
    dash == 45 && isdigit d &&
      (matchDay rest ||
        match rest with
        | e :: rest => isdigit e && matchDay rest
        | [] => false)
  | _ => false

/-- `[0-9]{4}-[0-9]{1,2}-[0-9]{1,2}.*`. The last `.*` takes a second digit as well. -/
def matchesDate (text : Str) : Bool :=
  decide (4 ≤ text.length) && (text.take 4).all isdigit && matchMonth (text.drop 4)

/-- Whether a link node of a feed counts towards its dated entries. -/
def isFeedEntry (feedUrl : Url) (protocol : Str) (node : GeminiASTNode) : Bool :=
  if !matchesDate node.text || node.meta_.isEmpty then false
  else
    let link := Url.ofString 0 node.meta_
    let linkProtocol := if link.good ∧ link.protocol ≠ [] then link.protocol else protocol
    let linkHost := if link.good ∧ link.host ≠ [] then link.host else feedUrl.host
    (protocol.isEmpty || linkProtocol == protocol) && linkHost == feedUrl.host

/-- The length of the longest run of links that satisfy `entry`. -/
def longestRun (entry : GeminiASTNode → Bool) : Nat → Nat → List GeminiASTNode → Nat
  | _, longest, [] => longest
  | current, longest, node :: nodes =>
    -- nodes between two links do not end a run
    if node.type = .link then
      let current := if entry node then current + 1 else 0
      longestRun entry current (max longest current) nodes
    else longestRun entry current longest nodes

def isGemsub (nodes : List GeminiASTNode) (feedUrl : Url) (protocol : Str) : Bool :=
  3 ≤ longestRun (isFeedEntry feedUrl protocol) 0 0 nodes

end Tlgs

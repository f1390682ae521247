import Tlgs.Url.Parser

/-!
# Printing and parsing URLs

The parser is described by the spellings it accepts: `ofString_spelled` computes the
URL of a spelling and `spelled_of_good` gives every accepted text one. A well-formed
URL prints as a spelling of its own components, so re-parsing what it prints changes
at most the port, and exactly one kind of URL is not a fixed point of the round.
-/
namespace Tlgs
namespace Url

open Bytes LexicalPath

/-! ### Spellings -/

def schemeText (scheme : Str) : Str := if scheme = [] then lit "//" else scheme ++ lit "://"

def portPart : Option Str → Str
  | none => []
  | some p => colon :: p

def portValue : Option Str → Int
  | none => 0
  | some p => (stoi p).getD 0

/-- A text the parser accepts, cut into its parts: the scheme (empty when the text starts
at the double slash), the host, the text of the port, and everything after them. -/
structure Spelled (s scheme host : Str) (port : Option Str) (tail : Str) : Prop where
  text : s = schemeText scheme ++ host ++ portPart port ++ tail
  scheme_alnum : ∀ c ∈ scheme, isalnum c = true
  host_nonempty : host ≠ []
  host_first : host.head? ≠ some fullStop
  host_plain : ∀ c ∈ host, c ≠ colon ∧ c ≠ slash
  port_ok : ∀ p, port = some p → slash ∉ p ∧ ∃ v, stoi p = some v ∧ 0 < v ∧ v ≤ 65535
  tail_rooted : tail = [] ∨ tail.head? = some slash

/-- The URL before its path, query and fragment are read. -/
def spelledBase (uninit : Int) (scheme host : Str) (port : Option Str) : Url :=
  { protocol := scheme
    host := host
    port_ := portValue port
    defaultPort := if scheme = [] then uninit else protocolDefaultPort scheme }

theorem takeWhile_plain {p : UInt8 → Bool} {front : Str} (rest : Str)
    (plain : ∀ c ∈ front, p c = true) (stops : ∀ c, rest.head? = some c → p c = false) :
    (front ++ rest).takeWhile p = front ∧ (front ++ rest).dropWhile p = rest := by
  rw [List.takeWhile_append_of_pos plain, List.dropWhile_append_of_pos plain]
  cases rest with
  | nil => simp
  | cons c rest =>
    have stop := stops c rfl
    simp [stop]

private theorem head_of_dropWhile {p : UInt8 → Bool} {s rest : Str} {c : UInt8}
    (h : s.dropWhile p = c :: rest) : p c = false := by
  have head := List.head_dropWhile_not p (w := by rw [h]; simp) (l := s)
  simpa [h] using head

private theorem parseHost_plain (n : Bool) (url : Url) (host tail : Str)
    (nonempty : host ≠ []) (first : host.head? ≠ some fullStop)
    (plain : ∀ c ∈ host, c ≠ colon ∧ c ≠ slash) (rooted : tail = [] ∨ tail.head? = some slash) :
    parseHost n url (host ++ tail) = parsePath n { url with host := host } (tail.drop 1) := by
  have cut := takeWhile_plain (p := fun c => c != colon && c != slash) tail
    (fun c member => by simpa using plain c member)
    (fun c head => by
      rcases rooted with rfl | slashed
      · simp at head
      · rw [slashed] at head; cases head; decide)
  simp only [parseHost, cut.1, cut.2, nonempty, first, false_or, if_false]
  -- no path at all, or one that starts with a slash
  rcases rooted with rfl | slashed
  · simp [parsePath]
  · cases tail with
    | nil => simp at slashed
    | cons c rest =>
      have equal : c = slash := by simpa using slashed
      subst equal
      change (if slash = colon then _ else _) = _
      rw [if_neg (by decide)]
      rfl

private theorem parsePort_ok (n : Bool) (url : Url) (p tail : Str) (v : Int) (free : slash ∉ p)
    (number : stoi p = some v) (positive : 0 < v) (bounded : v ≤ 65535)
    (rooted : tail = [] ∨ tail.head? = some slash) :
    parsePort n url (p ++ tail) = parsePath n { url with port_ := v } (tail.drop 1) := by
  have p_plain : ∀ c ∈ p, (c != slash) = true := by
    intro c member
    simp only [bne_iff_ne, ne_eq]
    rintro rfl
    exact free member
  have cut := takeWhile_plain tail p_plain
    (fun c head => by
      rcases rooted with rfl | slashed
      · simp at head
      · rw [slashed] at head; cases head; decide)
  have nonempty : p ≠ [] := by
    rintro rfl
    simp [stoi, scanNumber, cStr, readSign] at number
  simp only [parsePort, cut.1, cut.2, nonempty, if_false, number]
  rw [if_neg (by omega)]

private theorem parseHost_port (n : Bool) (url : Url) (host sv : Str)
    (nonempty : host ≠ []) (first : host.head? ≠ some fullStop)
    (plain : ∀ c ∈ host, c ≠ colon ∧ c ≠ slash) :
    parseHost n url (host ++ colon :: sv) = parsePort n { url with host := host } sv := by
  have cut := takeWhile_plain (p := fun c => c != colon && c != slash) (colon :: sv)
    (fun c member => by simpa using plain c member)
    (fun c head => by cases head; decide)
  simp only [parseHost, cut.1, cut.2, nonempty, first, false_or, if_false, if_true]

theorem colon_slashes : lit "://" = [colon, slash, slash] := by decide
theorem slashes : lit "//" = [slash, slash] := by decide

theorem slash_not_mem_scheme {scheme : Str} (alnum : ∀ c ∈ scheme, isalnum c = true) :
    slash ∉ scheme :=
  fun member => absurd (alnum slash member) (by decide)

/-- The authority is read the same way whatever came before it. -/
private theorem parseHost_spelled {s scheme host tail : Str} {port : Option Str} (n : Bool)
    (h : Spelled s scheme host port tail) {url : Url} (absent : url.port_ = 0) :
    parseHost n url (host ++ portPart port ++ tail) =
      parsePath n { url with host := host, port_ := portValue port } (tail.drop 1) := by
  cases port with
  | none =>
    simp only [portPart, List.append_nil, portValue]
    rw [parseHost_plain n url host tail h.host_nonempty h.host_first h.host_plain h.tail_rooted,
      ← absent]
  | some p =>
    obtain ⟨free, v, number, positive, bounded⟩ := h.port_ok p rfl
    simp only [portPart, portValue, number, Option.getD_some, List.append_assoc, List.cons_append]
    rw [parseHost_port n url host _ h.host_nonempty h.host_first h.host_plain,
      parsePort_ok n _ p tail v free number positive bounded h.tail_rooted]

/-- The first double slash is the one after the scheme. -/
theorem find_slashes {scheme : Str} (alnum : ∀ c ∈ scheme, isalnum c = true) (rest : Str) :
    find (lit "//") (scheme ++ lit "://" ++ rest) = some (scheme.length + 1) := by
  have absent : slash ∉ scheme ++ [colon] := by
    simp [slash_not_mem_scheme alnum, show slash ≠ colon by decide]
  have shape : scheme ++ lit "://" ++ rest = (scheme ++ [colon]) ++ (lit "//" ++ rest) := by
    simp [colon_slashes, slashes]
  rw [shape, slashes, find_append_of_not_mem _ _ _ _ absent, ← slashes, find_of_prefix]
  simp

/-- What the parser makes of a spelling. -/
theorem ofString_spelled {s scheme host tail : Str} {port : Option Str} (uninit : Int) (n : Bool)
    (h : Spelled s scheme host port tail) :
    ofString uninit s n = parsePath n (spelledBase uninit scheme host port) (tail.drop 1) := by
  rw [h.text, List.append_assoc, List.append_assoc, ← List.append_assoc host]
  simp only [ofString]
  by_cases relative : scheme = []
  · -- the text starts with the double slash
    subst relative
    have found : find (lit "//") (lit "//" ++ (host ++ portPart port ++ tail)) = some 0 :=
      find_of_prefix _ _
    have nonempty : lit "//" ++ (host ++ portPart port ++ tail) ≠ [] := by simp [slashes]
    simp only [schemeText, if_true, nonempty, if_false, found]
    rw [slashes]
    exact parseHost_spelled n h (show ({ defaultPort := uninit } : Url).port_ = 0 from rfl)
  · -- the scheme is what stands before the colon
    have found := find_slashes h.scheme_alnum (host ++ portPart port ++ tail)
    have nonempty : scheme ++ lit "://" ++ (host ++ portPart port ++ tail) ≠ [] := by
      simp [colon_slashes]
    have mark : (scheme ++ lit "://" ++ (host ++ portPart port ++ tail))[scheme.length]? =
        some colon := by
      simp [colon_slashes]
    have taken : (scheme ++ lit "://" ++ (host ++ portPart port ++ tail)).take scheme.length =
        scheme := by
      simp
    have dropped : (scheme ++ lit "://" ++ (host ++ portPart port ++ tail)).drop
        (scheme.length + 3) = host ++ portPart port ++ tail := by
      rw [List.append_assoc, List.drop_append]
      simp [colon_slashes]
    have alnum : scheme.all isalnum = true := List.all_eq_true.mpr h.scheme_alnum
    simp only [schemeText, relative, if_false, nonempty, found, mark, taken, dropped,
      not_true_eq_false, ne_eq, alnum, Bool.true_eq_false, or_self]
    rw [parseHost_spelled n h rfl]
    simp [spelledBase, relative]

private theorem spelled_of_parsePort {n : Bool} {url : Url} {sv : Str}
    (good : (parsePort n url sv).good = true) :
    ∃ p tail v, sv = p ++ tail ∧ slash ∉ p ∧ stoi p = some v ∧ 0 < v ∧ v ≤ 65535 ∧
      (tail = [] ∨ tail.head? = some slash) := by
  refine ⟨sv.takeWhile (· != slash), sv.dropWhile (· != slash), ?_⟩
  unfold parsePort at good
  dsimp only at good
  split at good
  · -- an empty port
    simp [bad] at good
  · split at good
    · -- `stoi` throws
      simp [bad] at good
    next v number =>
      split at good
      · -- out of range
        simp [bad] at good
      next range =>
        rw [not_or] at range
        refine ⟨v, List.takeWhile_append_dropWhile.symm, ?_, number, by omega, by omega, ?_⟩
        · intro member
          simpa using List.mem_takeWhile_imp member
        · cases rest : sv.dropWhile (· != slash) with
          | nil => exact Or.inl rfl
          | cons c tail =>
            right
            have stop := head_of_dropWhile rest
            simpa using stop

private theorem spelled_of_parseHost {n : Bool} {url : Url} {sv : Str}
    (good : (parseHost n url sv).good = true) :
    ∃ host port tail, sv = host ++ portPart port ++ tail ∧ host ≠ [] ∧
      host.head? ≠ some fullStop ∧ (∀ c ∈ host, c ≠ colon ∧ c ≠ slash) ∧
      (∀ p, port = some p → slash ∉ p ∧ ∃ v, stoi p = some v ∧ 0 < v ∧ v ≤ 65535) ∧
      (tail = [] ∨ tail.head? = some slash) := by
  have plain : ∀ c ∈ sv.takeWhile (fun c => c != colon && c != slash), c ≠ colon ∧ c ≠ slash := by
    intro c member
    simpa using List.mem_takeWhile_imp member
  unfold parseHost at good
  dsimp only at good
  split at good
  · -- an empty host, or one that starts with a full stop
    simp [bad] at good
  next kept =>
    rw [not_or] at kept
    have whole : sv = sv.takeWhile (fun c => c != colon && c != slash) ++
        sv.dropWhile (fun c => c != colon && c != slash) := List.takeWhile_append_dropWhile.symm
    split at good
    next rest =>
      -- the text ends with the host
      refine ⟨_, none, [], ?_, kept.1, kept.2, plain, by simp, Or.inl rfl⟩
      rw [rest] at whole
      simpa [portPart] using whole
    next mark after rest =>
      split at good
      next is_colon =>
        obtain ⟨p, tail, v, text, free, number, positive, bounded, rooted⟩ :=
          spelled_of_parsePort good
        refine ⟨_, some p, tail, ?_, kept.1, kept.2, plain, ?_, rooted⟩
        · rw [rest, is_colon, text] at whole
          simpa [portPart] using whole
        · rintro q ⟨⟩
          exact ⟨free, v, number, positive, bounded⟩
      next not_colon =>
        have stop := head_of_dropWhile rest
        have is_slash : mark = slash := by simpa [not_colon] using stop
        refine ⟨_, none, mark :: after, ?_, kept.1, kept.2, plain, by simp,
          Or.inr (by simp [is_slash])⟩
        rw [rest] at whole
        simpa [portPart] using whole

/-- Every accepted text is a spelling. -/
theorem spelled_of_good {uninit : Int} {s : Str} {n : Bool}
    (good : (ofString uninit s n).good = true) :
    ∃ scheme host port tail, Spelled s scheme host port tail := by
  unfold ofString at good
  dsimp only at good
  split at good
  · -- the empty text
    simp [bad] at good
  · split at good
    · -- no double slash
      simp [bad] at good
    next found =>
      -- the double slash comes first
      obtain ⟨host, port, tail, text, nonempty, first, plain, ok, rooted⟩ :=
        spelled_of_parseHost good
      refine ⟨[], host, port, tail, ?_, by simp, nonempty, first, plain, ok, rooted⟩
      have cut := split_of_find found
      rw [cut]
      have rest : s.drop 2 = host ++ portPart port ++ tail := text
      simp [schemeText, slashes, rest]
    next before found =>
      split at good
      · -- no colon before the double slash
        simp [bad] at good
      next mark =>
        split at good
        · -- an empty scheme, or one with another character
          simp [bad] at good
        next scheme_ok =>
          rw [not_or] at scheme_ok
          obtain ⟨host, port, tail, text, nonempty, first, plain, ok, rooted⟩ :=
            spelled_of_parseHost good
          refine ⟨s.take before, host, port, tail, ?_, ?_, nonempty, first, plain, ok, rooted⟩
          · have cut := split_of_find found
            have at_mark : s.take (before + 1) = s.take before ++ [colon] := by
              rw [List.take_add_one, Decidable.not_not.mp mark]
              rfl
            rw [at_mark, show before + 1 + (lit "//").length = before + 3 by
              simp [slashes], text] at cut
            rw [schemeText, if_neg scheme_ok.1]
            conv_lhs => rw [cut]
            simp [slashes, colon_slashes]
          · have all_alnum : (s.take before).all isalnum = true := by simpa using scheme_ok.2
            exact List.all_eq_true.mp all_alnum

/-! ### The components of a parsed URL -/

/-- The query and fragment of the text after the authority's slash. -/
def queryAndFragment (sv : Str) : Str × Str :=
  match sv.dropWhile (fun c => c != question && c != hash) with
  | [] => ([], [])
  | mark :: sv =>
    if mark = question then (sv.takeWhile (· != hash), (sv.dropWhile (· != hash)).drop 1)
    else ([], sv)

theorem parsePath_fields (url : Url) (sv : Str) (no_param : url.param = [])
    (no_fragment : url.fragment = []) :
    parsePath true url sv =
      { url with
        protocol := url.protocol.map tolower
        host := url.host.map tolower
        path := lexicallyNormal (slash :: sv.takeWhile (fun c => c != question && c != hash))
        param := (queryAndFragment sv).1
        fragment := (queryAndFragment sv).2 } := by
  obtain ⟨protocol, host, port_, path, param, fragment, good, defaultPort⟩ := url
  cases no_param
  cases no_fragment
  simp only [parsePath, normalizeIf, normalize, if_true, queryAndFragment]
  -- what ends the path is "?", "#" or the end of the text
  cases sv.dropWhile (fun c => c != question && c != hash) with
  | nil => rfl
  | cons mark sv =>
    dsimp only
    split
    · cases sv.dropWhile (· != hash) <;> rfl
    · rfl

/-- What a spelling parses to, component by component. -/
theorem ofString_fields {s scheme host tail : Str} {port : Option Str} (uninit : Int)
    (h : Spelled s scheme host port tail) :
    ofString uninit s =
      { protocol := scheme.map tolower
        host := host.map tolower
        port_ := portValue port
        path := lexicallyNormal
          (slash :: (tail.drop 1).takeWhile (fun c => c != question && c != hash))
        param := (queryAndFragment (tail.drop 1)).1
        fragment := (queryAndFragment (tail.drop 1)).2
        defaultPort := if scheme = [] then uninit else protocolDefaultPort scheme } := by
  rw [ofString_spelled uninit true h, parsePath_fields _ _ rfl rfl]
  rfl

theorem hash_not_mem_query (sv : Str) : hash ∉ (queryAndFragment sv).1 := by
  simp only [queryAndFragment]
  split
  · simp
  · split
    · intro member
      simpa using List.mem_takeWhile_imp member
    · simp

theorem portValue_range {port : Option Str}
    (ok : ∀ p, port = some p → slash ∉ p ∧ ∃ v, stoi p = some v ∧ 0 < v ∧ v ≤ 65535) :
    0 ≤ portValue port ∧ portValue port ≤ 65535 := by
  cases port with
  | none => simp [portValue]
  | some p =>
    obtain ⟨-, v, number, positive, bounded⟩ := ok p rfl
    simp only [portValue, number, Option.getD_some]
    omega

theorem wellFormed_of_spelled {s scheme host tail : Str} {port : Option Str} (uninit : Int)
    (h : Spelled s scheme host port tail) : (ofString uninit s).WellFormed := by
  have rooted : (slash :: (tail.drop 1).takeWhile
      (fun c => c != question && c != hash)).head? = some slash := rfl
  have letters : isalpha colon = false ∧ isalpha slash = false ∧ isalpha fullStop = false := by
    decide
  rw [ofString_fields uninit h]
  constructor
  · rfl
  · intro c member
    obtain ⟨d, inside, rfl⟩ := List.mem_map.mp member
    rw [isalnum_tolower]
    exact h.scheme_alnum d inside
  · simp
  · simpa using h.host_nonempty
  · -- lowering the host makes no full stop
    intro first
    have nonempty := h.host_nonempty
    cases host with
    | nil => exact nonempty rfl
    | cons c host =>
      simp only [List.map_cons, List.head?_cons, Option.some.injEq,
        tolower_eq_iff letters.2.2] at first
      exact h.host_first (by simp [first])
  · intro c member
    obtain ⟨d, inside, rfl⟩ := List.mem_map.mp member
    rw [ne_eq, ne_eq, tolower_eq_iff letters.1, tolower_eq_iff letters.2.1]
    exact h.host_plain d inside
  · simp
  · exact portValue_range h.port_ok
  · exact lexicallyNormal_rooted rooted
  · exact lexicallyNormal_idem rooted
  · intro c member
    -- normalizing adds nothing but slashes
    rcases mem_lexicallyNormal rooted member with rfl | inside
    · decide
    · rcases List.mem_cons.mp inside with rfl | taken
      · decide
      · simpa using List.mem_takeWhile_imp taken
  · exact hash_not_mem_query _

theorem wellFormed_of_good {uninit : Int} {s : Str} (good : (ofString uninit s).good = true) :
    (ofString uninit s).WellFormed := by
  obtain ⟨scheme, host, port, tail, spelled⟩ := spelled_of_good good
  exact wellFormed_of_spelled uninit spelled

/-! ### Re-parsing what is printed -/

/-- The port `str()` writes out, zero when it writes none. -/
def printedPort (url : Url) : Int :=
  if url.port_ ≠ 0 ∧ url.defaultPort ≠ url.port_ then url.port_ else 0

theorem toStringInt_nonneg {n : Int} (h : 0 ≤ n) : toStringInt n = decimal n.toNat := by
  rw [toStringInt, if_neg (by omega)]
  congr 1
  omega

theorem stoi_toStringInt {n : Int} (h : 0 ≤ n) (fits : n ≤ 65535) :
    stoi (toStringInt n) = some n := by
  rw [toStringInt_nonneg h, stoi_decimal _ (by omega)]
  congr 1
  omega

theorem slash_not_mem_toStringInt {n : Int} (h : 0 ≤ n) : slash ∉ toStringInt n := by
  rw [toStringInt_nonneg h]
  exact fun member => absurd (isdigit_of_mem_decimal member) (by decide)

theorem portText_eq (url : Url) :
    url.portText = if url.printedPort ≠ 0 then colon :: toStringInt url.printedPort else [] := by
  simp only [portText, printedPort]
  split
  next shown => simp [shown.1]
  next => simp

/-- The port text of a printed URL, as the parser cuts it. -/
def printedPortText (url : Url) : Option Str :=
  if url.port_ ≠ 0 ∧ url.defaultPort ≠ url.port_ then some (toStringInt url.port_) else none

theorem portPart_printedPortText (url : Url) : portPart url.printedPortText = url.portText := by
  simp only [printedPortText, portText]
  split <;> rfl

theorem portValue_printedPortText {url : Url} (wf : url.WellFormed) :
    portValue url.printedPortText = url.printedPort := by
  simp only [printedPortText, printedPort]
  split
  next => simp [portValue, stoi_toStringInt wf.port_range.1 wf.port_range.2]
  next => rfl

/-- A well-formed URL prints as a spelling of its own components. -/
theorem spelled_str {url : Url} (wf : url.WellFormed) :
    Spelled url.str url.protocol url.host url.printedPortText (url.path ++ url.suffix) := by
  constructor
  · simp only [str, authority, schemeText, portPart_printedPortText, List.append_assoc]
  · exact wf.protocol_alnum
  · exact wf.host_nonempty
  · exact wf.host_first
  · exact wf.host_plain
  · intro p printed
    simp only [printedPortText] at printed
    split at printed
    -- a printed port can be read back
    next shown =>
      cases printed
      have range := wf.port_range
      exact ⟨slash_not_mem_toStringInt range.1, url.port_, stoi_toStringInt range.1 range.2,
        by omega, range.2⟩
    next => cases printed
  · right
    rw [List.head?_append, wf.path_rooted]
    rfl

theorem queryAndFragment_printed {path param : Str} (fragment : Str)
    (path_plain : ∀ c ∈ path, c ≠ question ∧ c ≠ hash) (param_plain : hash ∉ param) :
    (path ++ ((if param = [] then [] else question :: param) ++
        (if fragment = [] then [] else hash :: fragment))).takeWhile
        (fun c => c != question && c != hash) = path ∧
      queryAndFragment (path ++ ((if param = [] then [] else question :: param) ++
        (if fragment = [] then [] else hash :: fragment))) = (param, fragment) := by
  have plain : ∀ c ∈ path, (c != question && c != hash) = true :=
    fun c member => by simpa using path_plain c member
  have param_kept : ∀ c ∈ param, (c != hash) = true := by
    intro c member
    simp only [bne_iff_ne, ne_eq]
    rintro rfl
    exact param_plain member
  have cut := takeWhile_plain ((if param = [] then [] else question :: param) ++
    (if fragment = [] then [] else hash :: fragment)) plain (fun c head => by
      split at head
      · split at head
        · simp at head
        · cases head; decide
      · cases head; decide)
  refine ⟨cut.1, ?_⟩
  rw [queryAndFragment, cut.2]
  -- without a query the mark is a hash or missing, with one it is the question mark
  by_cases no_param : param = []
  · subst no_param
    by_cases no_fragment : fragment = []
    · simp [no_fragment]
    · simp only [if_true, List.nil_append, no_fragment, if_false]
      rw [if_neg (by decide)]
  · simp only [no_param, if_false, List.cons_append, if_true]
    have inner := takeWhile_plain (if fragment = [] then [] else hash :: fragment) param_kept
      (fun c head => by
        split at head
        · simp at head
        · cases head; decide)
    rw [inner.1, inner.2]
    split <;> simp_all

/-- Parsing what a well-formed URL prints gives its components back; only the port may
become implicit and the default port is derived anew. -/
theorem ofString_str {url : Url} (uninit : Int) (wf : url.WellFormed) :
    ofString uninit url.str =
      { url with
        port_ := url.printedPort
        defaultPort := if url.protocol = [] then uninit
          else protocolDefaultPort url.protocol } := by
  obtain ⟨p, path_eq⟩ : ∃ p, url.path = slash :: p := by
    have rooted := wf.path_rooted
    cases h : url.path with
    | nil => simp [h] at rooted
    | cons c p => exact ⟨p, by simpa [h] using rooted⟩
  have p_plain : ∀ c ∈ p, c ≠ question ∧ c ≠ hash :=
    fun c member => wf.path_plain c (by rw [path_eq]; exact List.mem_cons_of_mem _ member)
  -- the printed text is parsed into the parts it was made of
  have parts := queryAndFragment_printed url.fragment p_plain wf.param_plain
  rw [ofString_fields uninit (spelled_str wf), portValue_printedPortText wf, path_eq, suffix,
    List.cons_append, List.drop_succ_cons, List.drop_zero, parts.1, parts.2, ← path_eq,
    wf.path_normal, wf.protocol_lower, wf.host_lower]
  obtain ⟨protocol, host, port_, path, param, fragment, good, defaultPort⟩ := url
  cases wf.good
  rfl

/-- Two well-formed URLs that print alike have the same components up to the port
that is not printed. -/
theorem components_of_str_eq {a b : Url} (wfa : a.WellFormed) (wfb : b.WellFormed)
    (h : a.str = b.str) :
    a.protocol = b.protocol ∧ a.host = b.host ∧ a.printedPort = b.printedPort ∧
      a.path = b.path ∧ a.param = b.param ∧ a.fragment = b.fragment := by
  have parsed : ofString 0 a.str = ofString 0 b.str := by rw [h]
  rw [ofString_str 0 wfa, ofString_str 0 wfb] at parsed
  injection parsed with protocol host port path param fragment
  exact ⟨protocol, host, port, path, param, fragment⟩

theorem str_eq_of_components {a b : Url} (protocol : a.protocol = b.protocol)
    (host : a.host = b.host) (port : a.printedPort = b.printedPort) (path : a.path = b.path)
    (param : a.param = b.param) (fragment : a.fragment = b.fragment) : a.str = b.str := by
  rw [str, str, portText_eq, portText_eq, authority, authority, suffix, suffix, protocol, host,
    port, path, param, fragment]

/-! ### Fixed points of the parse-print round -/

private theorem prefix_of_str (url : Url) (uninit : Int) (wf : url.WellFormed) :
    (ofString uninit url.str).authority = url.authority := by
  rw [ofString_str uninit wf]
  rfl

/-- A well-formed URL with a scheme survives the round exactly when it does not print
its scheme's default port. -/
theorem str_ofString_str_iff {url : Url} (uninit : Int) (wf : url.WellFormed)
    (scheme : url.protocol ≠ []) :
    (ofString uninit url.str).str = url.str ↔
      ¬(url.printedPort ≠ 0 ∧ url.printedPort = protocolDefaultPort url.protocol) := by
  have same_text : (ofString uninit url.str).str = url.authority ++
      (ofString uninit url.str).portText ++ url.path ++ url.suffix := by
    rw [str, prefix_of_str url uninit wf, ofString_str uninit wf]
    rfl
  have reprinted : (ofString uninit url.str).portText =
      if url.printedPort ≠ 0 ∧ protocolDefaultPort url.protocol ≠ url.printedPort
      then colon :: toStringInt url.printedPort else [] := by
    rw [ofString_str uninit wf, portText]
    simp only [scheme, if_false]
  rw [same_text, reprinted, str, List.append_left_inj, List.append_left_inj,
    List.append_right_inj, portText_eq]
  -- a port that is printed is printed again unless it is the default port by then
  by_cases absent : url.printedPort = 0
  · simp [absent]
  · by_cases default : url.printedPort = protocolDefaultPort url.protocol
    · rw [if_neg (fun shown => shown.2 default.symm), if_pos absent]
      simp only [List.nil_eq, reduceCtorEq, false_iff, not_not]
      exact ⟨absent, default⟩
    · rw [if_pos ⟨absent, Ne.symm default⟩, if_pos absent]
      simp [default]

theorem good_ofString_str {url : Url} (uninit : Int) (wf : url.WellFormed) :
    (ofString uninit url.str).good = true := by
  rw [ofString_str uninit wf]
  exact wf.good

theorem protocolDefaultPort_of_not_lower {scheme : Str}
    (upper : scheme.map tolower ≠ scheme) : protocolDefaultPort scheme = 0 := by
  simp only [protocolDefaultPort]
  repeat' split
  all_goals first
    | rfl
    | (next known => exact absurd (by rw [known]; decide) upper)

/-- The text writes out the default port of its scheme, but not in lower case: the
constructor looks the default port up before it lower-cases the scheme. -/
def SpellsDefaultPort (s : Str) : Prop :=
  ∃ scheme host port tail, Spelled s scheme host (some port) tail ∧
    scheme.map tolower ≠ scheme ∧ stoi port = some (protocolDefaultPort (scheme.map tolower))

theorem prints_default_iff_spelled {s : Str} {uninit : Int} (good : (ofString uninit s).good = true)
    (scheme_present : (ofString uninit s).protocol ≠ []) :
    ((ofString uninit s).printedPort ≠ 0 ∧ (ofString uninit s).printedPort =
      protocolDefaultPort (ofString uninit s).protocol) ↔ SpellsDefaultPort s := by
  constructor
  · rintro ⟨shown, default⟩
    obtain ⟨scheme, host, port, tail, spelled⟩ := spelled_of_good good
    rw [ofString_fields uninit spelled] at shown default scheme_present
    have nonempty : scheme ≠ [] := by
      rintro rfl
      exact scheme_present rfl
    simp only [printedPort, nonempty, if_false] at shown default
    split at default
    next written =>
      cases port with
      | none => exact absurd rfl written.1
      | some p =>
        obtain ⟨-, v, number, -, -⟩ := spelled.port_ok p rfl
        have value : portValue (some p) = v := by simp [portValue, number]
        refine ⟨scheme, host, p, tail, spelled, ?_, ?_⟩
        · -- a lower-case scheme has its own default port, which is not printed
          intro lower
          rw [lower] at default
          exact written.2 default.symm
        · rw [number, ← default, value]
    next unwritten =>
      rw [if_neg unwritten] at shown
      exact absurd rfl shown
  · rintro ⟨scheme, host, p, tail, spelled, upper, number⟩
    obtain ⟨-, v, value, positive, -⟩ := spelled.port_ok p rfl
    have equal : v = protocolDefaultPort (scheme.map tolower) := by
      rw [value] at number
      exact Option.some.inj number
    have nonempty : scheme ≠ [] := by
      rintro rfl
      exact upper rfl
    -- the scheme as it is spelled has no default port, so every port is printed
    rw [ofString_fields uninit spelled]
    simp only [printedPort, nonempty, if_false, protocolDefaultPort_of_not_lower upper,
      portValue, value, Option.getD_some]
    rw [if_pos ⟨by omega, by omega⟩]
    exact ⟨by omega, equal⟩

/-- The printed form of a parsed URL with a scheme is a fixed point of the round unless
the text spells its scheme's default port in upper case. -/
theorem canonical_fixed_point_iff (uninit uninit' : Int) (s : Str)
    (good : (ofString uninit s).good = true) (scheme : (ofString uninit s).protocol ≠ []) :
    ((ofString uninit' (ofString uninit s).str).good = true ∧
      (ofString uninit' (ofString uninit s).str).str = (ofString uninit s).str) ↔
    ¬SpellsDefaultPort s := by
  have wf := wellFormed_of_good good
  rw [str_ofString_str_iff uninit' wf scheme, prints_default_iff_spelled good scheme]
  exact and_iff_right (good_ofString_str uninit' wf)

theorem canonical_fixed_point_iff_localhost :
    (ofString 0 (lit "Gemini://localhost:1966/a/../b?q")).good = true ∧
    (((ofString 0 (ofString 0 (lit "Gemini://localhost:1966/a/../b?q")).str).good = true ∧
      (ofString 0 (ofString 0 (lit "Gemini://localhost:1966/a/../b?q")).str).str =
        (ofString 0 (lit "Gemini://localhost:1966/a/../b?q")).str) ↔
    ¬SpellsDefaultPort (lit "Gemini://localhost:1966/a/../b?q")) :=
  ⟨by decide, canonical_fixed_point_iff 0 0 _ (by decide) (by decide)⟩

/-- An upper-case scheme keeps its explicit default port for one round too long. -/
theorem uppercase_scheme_not_fixed :
    (ofString 0 (lit "GEMINI://localhost:1965/")).good = true ∧
    (ofString 0 (lit "GEMINI://localhost:1965/")).protocol ≠ [] ∧
    (ofString 0 (lit "GEMINI://localhost:1965/")).str = lit "gemini://localhost:1965/" ∧
    (ofString 0 (lit "gemini://localhost:1965/")).str = lit "gemini://localhost/" ∧
    (ofString 0 (ofString 0 (lit "GEMINI://localhost:1965/")).str).str ≠
      (ofString 0 (lit "GEMINI://localhost:1965/")).str := by
  decide

end Url
end Tlgs

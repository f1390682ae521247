import Tlgs.Url.Canonical

/-!
# The texts of URLs

Which texts the parser accepts, what it reads from a text that was put together from
components, and where it takes the host to end.
-/
namespace Tlgs
namespace Url

open Bytes LexicalPath

/-! ### Texts put together from components -/

/-- The components of a URL in normal form. -/
structure Components where
  scheme : Str
  host : Str
  port : Option Nat := none
  path : Str
  query : Str := []
  fragment : Str := []
  scheme_some : scheme ≠ []
  scheme_lower : ∀ c ∈ scheme, islower c = true ∨ isdigit c = true
  host_some : host ≠ []
  host_first : host.head? ≠ some fullStop
  host_lower : ∀ c ∈ host, isupper c = false
  host_plain : ∀ c ∈ host, c ≠ colon ∧ c ≠ slash
  port_range : ∀ n, port = some n → 1 ≤ n ∧ n ≤ 65535
  path_rooted : path.head? = some slash
  path_normal : lexicallyNormal path = path
  path_plain : ∀ c ∈ path, c ≠ question ∧ c ≠ hash
  query_plain : hash ∉ query

namespace Components

/-- The path, and the query and the fragment unless they are empty. -/
def tail (c : Components) : Str :=
  c.path ++ ((if c.query = [] then [] else question :: c.query) ++
    (if c.fragment = [] then [] else hash :: c.fragment))

/-- `scheme://host[:port]path[?query][#fragment]`, with some port. -/
def textWith (c : Components) (port : Option Nat) : Str :=
  c.scheme ++ lit "://" ++ c.host ++ portPart (port.map decimal) ++ c.tail

def text (c : Components) : Str := c.textWith c.port

/-- The port unless it is the default one of the scheme. -/
def otherPort (c : Components) : Option Nat :=
  c.port.filter fun n => (n : Int) ≠ protocolDefaultPort c.scheme

theorem map_tolower_of_lower {s : Str} (lower : ∀ c ∈ s, isupper c = false) : s.map tolower = s :=
  (List.map_congr_left fun c member => tolower_of_not_upper (lower c member)).trans (List.map_id s)

variable (c : Components)

theorem scheme_alnum : ∀ d ∈ c.scheme, isalnum d = true := by
  intro d member
  rcases c.scheme_lower d member with letter | digit
  · simp [isalnum, isalpha, letter]
  · simp [isalnum, digit]

theorem scheme_map : c.scheme.map tolower = c.scheme := by
  apply map_tolower_of_lower
  intro d member
  rw [Bool.eq_false_iff, ne_eq, isupper_iff]
  rcases c.scheme_lower d member with letter | digit
  · have range := (islower_iff d).mp letter
    omega
  · have range := (isdigit_iff d).mp digit
    omega

/-- The text is a spelling of the components. -/
theorem spelled : Spelled c.text c.scheme c.host (c.port.map decimal) c.tail where
  text := by rw [text, textWith, schemeText, if_neg c.scheme_some]
  scheme_alnum := c.scheme_alnum
  host_nonempty := c.host_some
  host_first := c.host_first
  host_plain := c.host_plain
  port_ok := by
    intro p written
    obtain ⟨n, given, rfl⟩ := Option.map_eq_some_iff.mp written
    have range := c.port_range n given
    refine ⟨fun member => absurd (isdigit_of_mem_decimal member) (by decide), n, ?_, by
      omega, by omega⟩
    exact stoi_decimal n (by omega)
  tail_rooted := by
    right
    rw [tail, List.head?_append, c.path_rooted]
    rfl

theorem portValue_port : portValue (c.port.map decimal) = (c.port.getD 0 : Nat) := by
  cases given : c.port with
  | none => rfl
  | some n =>
    have range := c.port_range n given
    rw [Option.map_some, portValue, stoi_decimal n (by omega)]
    rfl

/-- The parser reads the components back. -/
theorem ofString_text (uninit : Int) :
    ofString uninit c.text =
      { protocol := c.scheme
        host := c.host
        port_ := (c.port.getD 0 : Nat)
        path := c.path
        param := c.query
        fragment := c.fragment
        defaultPort := protocolDefaultPort c.scheme } := by
  obtain ⟨p, path_eq⟩ := List.head?_eq_some_iff.mp c.path_rooted
  have p_plain : ∀ d ∈ p, d ≠ question ∧ d ≠ hash :=
    fun d member => c.path_plain d (path_eq ▸ List.mem_cons_of_mem slash member)
  have parts := queryAndFragment_printed c.fragment p_plain c.query_plain
  rw [ofString_fields uninit c.spelled, tail, path_eq, List.cons_append, List.drop_succ_cons,
    List.drop_zero, parts.1, parts.2, ← path_eq, c.path_normal, c.scheme_map,
    map_tolower_of_lower c.host_lower, portValue_port, if_neg c.scheme_some]

/-- What is printed for the components. -/
theorem str_ofString_text (uninit : Int) :
    (ofString uninit c.text).str = c.textWith c.otherPort := by
  have port : (ofString uninit c.text).portText = portPart (c.otherPort.map decimal) := by
    rw [c.ofString_text, portText, otherPort]
    cases given : c.port with
    | none => rfl
    | some n =>
      have range := c.port_range n given
      have some_port : ((n : Nat) : Int) ≠ 0 := by omega
      simp only [Option.getD_some]
      by_cases default : (n : Int) = protocolDefaultPort c.scheme
      · rw [if_neg fun shown => shown.2 default.symm, Option.filter_some,
          if_neg (by simpa using default)]
        rfl
      · rw [if_pos ⟨some_port, Ne.symm default⟩, Option.filter_some,
          if_pos (by simpa using default)]
        rw [toStringInt_nonneg (by omega)]
        rfl
  rw [str, port, c.ofString_text, authority, suffix, textWith, tail]
  simp only [if_neg c.scheme_some, List.append_assoc]

end Components

/-- Parsing undoes printing: a text put together from components is accepted with exactly these
components, and printed back with its port left out exactly if it is the default one. -/
theorem ofString_components (uninit : Int) (c : Components) :
    let url := ofString uninit c.text
    url.good = true ∧ url.protocol = c.scheme ∧ url.host = c.host ∧
      url.port_ = (c.port.getD 0 : Nat) ∧
      url.path = c.path ∧ url.param = c.query ∧ url.fragment = c.fragment ∧
      url.str = c.textWith c.otherPort := by
  intro url
  have read : url = _ := c.ofString_text uninit
  rw [read]
  exact ⟨rfl, rfl, rfl, rfl, rfl, rfl, rfl, read ▸ c.str_ofString_text uninit⟩

/-- `gemini://localhost:1965/a?b`. -/
def Components.localhost : Components where
  scheme := lit "gemini"
  host := lit "localhost"
  port := some 1965
  path := lit "/a"
  query := lit "b"
  scheme_some := by decide
  scheme_lower := by decide
  host_some := by decide
  host_first := by decide
  host_lower := by decide
  host_plain := by decide
  port_range := by simp
  path_rooted := by decide
  path_normal := by decide
  path_plain := by decide
  query_plain := by decide

example : (ofString 0 Components.localhost.text).str = lit "gemini://localhost/a?b" := by decide

/-! ### The text after the double slash -/

/-- What stands behind the first double slash. -/
def afterSlashes (s : Str) : Str :=
  match find (lit "//") s with
  | none => []
  | some before => s.drop (before + 2)

theorem afterSlashes_schemeText {scheme : Str} (alnum : ∀ c ∈ scheme, isalnum c = true)
    (rest : Str) :
    afterSlashes (schemeText scheme ++ rest) = rest := by
  rw [afterSlashes, schemeText]
  by_cases relative : scheme = []
  · rw [if_pos relative, find_of_prefix, slashes]
    rfl
  · have found := find_slashes alnum rest
    rw [if_neg relative, found]
    dsimp only
    rw [List.append_assoc, Nat.add_assoc, List.drop_append, colon_slashes]
    simp

theorem Spelled.afterSlashes_eq {s scheme host tail : Str} {port : Option Str}
    (h : Spelled s scheme host port tail) : afterSlashes s = host ++ (portPart port ++ tail) := by
  rw [h.text, List.append_assoc, List.append_assoc, afterSlashes_schemeText h.scheme_alnum]

/-- The host and what follows it are cut at the first colon or slash. -/
theorem Spelled.cut_host {s scheme host tail : Str} {port : Option Str}
    (h : Spelled s scheme host port tail) :
    (afterSlashes s).takeWhile (fun c => c != colon && c != slash) = host ∧
      (afterSlashes s).dropWhile (fun c => c != colon && c != slash) = portPart port ++ tail := by
  rw [h.afterSlashes_eq]
  refine takeWhile_plain _ (fun c member => by simpa using h.host_plain c member) fun c head => ?_
  cases port with
  | none =>
    rcases h.tail_rooted with empty | rooted
    · rw [empty] at head
      cases head
    · rw [portPart, List.nil_append, rooted] at head
      cases head
      decide
  | some p =>
    cases head
    decide

/-- What follows a host does not start with a port if no port is written. -/
private theorem ne_colon_of_rooted {tail rest : Str}
    (rooted : tail = [] ∨ tail.head? = some slash) :
    tail ≠ colon :: rest := by
  rintro rfl
  rcases rooted with empty | rooted
  · cases empty
  · cases rooted

/-- The port of a text is the same in all its spellings. -/
theorem Spelled.port_unique {s scheme host tail scheme' host' tail' : Str}
    {port port' : Option Str} (h : Spelled s scheme host port tail)
    (h' : Spelled s scheme' host' port' tail') : port = port' := by
  have same : portPart port ++ tail = portPart port' ++ tail' :=
    h.cut_host.2.symm.trans h'.cut_host.2
  -- what follows a port begins with a slash, and a port has none
  have free : ∀ {p rest : Str}, slash ∉ p → rest = [] ∨ rest.head? = some slash →
      (p ++ rest).takeWhile (· != slash) = p := by
    intro p rest absent rooted
    refine (takeWhile_plain rest (fun c member => bne_iff_ne.mpr ?_) fun c head => ?_).1
    · rintro rfl
      exact absent member
    · rcases rooted with rfl | rooted
      · cases head
      · rw [rooted] at head
        cases head
        decide
  -- with a port in one spelling and none in the other, a colon would be a slash
  cases port with
  | none =>
    cases port' with
    | none => rfl
    | some p' => exact absurd same (ne_colon_of_rooted h.tail_rooted)
  | some p =>
    cases port' with
    | none => exact absurd same.symm (ne_colon_of_rooted h'.tail_rooted)
    | some p' =>
      have texts : p ++ tail = p' ++ tail' := (List.cons.inj same).2
      have cut := congrArg (List.takeWhile (· != slash)) texts
      rw [free (h.port_ok p rfl).1 h.tail_rooted, free (h'.port_ok p' rfl).1 h'.tail_rooted] at cut
      rw [cut]

/-! ### The texts that are accepted -/

/-- Decimal digits for a port. -/
def PortDigits (p : Str) : Prop :=
  (∀ c ∈ p, isdigit c = true) ∧ 1 ≤ digitsVal p ∧ digitsVal p ≤ 65535

/-- `[scheme ':'] '//' host [':' port]`, followed by nothing or a slash and anything. -/
structure Derives (s scheme host : Str) (port : Option Str) (tail : Str) : Prop where
  text : s = schemeText scheme ++ host ++ portPart port ++ tail
  scheme_alnum : ∀ c ∈ scheme, isalnum c = true
  host_nonempty : host ≠ []
  host_first : host.head? ≠ some fullStop
  host_plain : ∀ c ∈ host, c ≠ colon ∧ c ≠ slash
  port_digits : ∀ p, port = some p → PortDigits p
  tail_rooted : tail = [] ∨ tail.head? = some slash

def InGrammar (s : Str) : Prop := ∃ scheme host port tail, Derives s scheme host port tail

/-- The text of the port is a number for `std::stoi`, but not all of it are digits. -/
def LoosePort (s : Str) : Prop :=
  ∃ scheme host p tail, Spelled s scheme host (some p) tail ∧ ¬∀ c ∈ p, isdigit c = true

theorem stoi_portDigits {p : Str} (digits : PortDigits p) : stoi p = some (digitsVal p : Int) := by
  have nonempty : p ≠ [] := by
    rintro rfl
    exact absurd digits.2.1 (by decide)
  have range := digits.2
  rw [stoi_digits nonempty digits.1, if_pos (by omega)]

theorem Derives.spelled {s scheme host tail : Str} {port : Option Str}
    (h : Derives s scheme host port tail) :
    Spelled s scheme host port tail where
  text := h.text
  scheme_alnum := h.scheme_alnum
  host_nonempty := h.host_nonempty
  host_first := h.host_first
  host_plain := h.host_plain
  port_ok := by
    intro p written
    have digits := h.port_digits p written
    have range := digits.2
    refine ⟨fun member => absurd (digits.1 slash member) (by decide), digitsVal p,
      stoi_portDigits digits, ?_, ?_⟩
    · omega
    · omega
  tail_rooted := h.tail_rooted

/-- A spelling whose port is all digits is derived by the grammar. -/
theorem Spelled.derives {s scheme host tail : Str} {port : Option Str}
    (h : Spelled s scheme host port tail)
    (digits : ∀ p, port = some p → ∀ c ∈ p, isdigit c = true) :
    Derives s scheme host port tail where
  text := h.text
  scheme_alnum := h.scheme_alnum
  host_nonempty := h.host_nonempty
  host_first := h.host_first
  host_plain := h.host_plain
  port_digits := by
    intro p written
    obtain ⟨_, v, number, positive, bounded⟩ := h.port_ok p written
    have nonempty : p ≠ [] := by
      rintro rfl
      cases number
    rw [stoi_digits nonempty (digits p written)] at number
    split at number
    · have value : (digitsVal p : Int) = v := Option.some.inj number
      exact ⟨digits p written, by omega, by omega⟩
    · cases number
  tail_rooted := h.tail_rooted

/-- The parser accepts the texts of the grammar and no others, except that a port may have
anything around its digits that `std::stoi` does not mind. -/
theorem good_iff_inGrammar_iff (uninit : Int) (s : Str) :
    ((ofString uninit s).good = true ↔ InGrammar s) ↔ ¬LoosePort s := by
  constructor
  · rintro same ⟨scheme, host, p, tail, spelled, loose⟩
    obtain ⟨_, _, _, _, derives⟩ := same.mp (wellFormed_of_spelled uninit spelled).good
    have written := derives.spelled.port_unique spelled
    exact loose (derives.port_digits p written).1
  · intro strict
    constructor
    · intro good
      obtain ⟨scheme, host, port, tail, spelled⟩ := spelled_of_good good
      refine ⟨scheme, host, port, tail, spelled.derives ?_⟩
      rintro p rfl
      by_contra loose
      exact strict ⟨scheme, host, p, tail, spelled, loose⟩
    · rintro ⟨scheme, host, port, tail, derives⟩
      exact (wellFormed_of_spelled uninit derives.spelled).good

/-- A sign, blanks and trailing letters are no digits. -/
theorem loose_ports_accepted :
    (ofString 0 (lit "gemini://h: +1965x/")).good = true ∧
      ¬InGrammar (lit "gemini://h: +1965x/") := by
  have good : (ofString 0 (lit "gemini://h: +1965x/")).good = true := by decide
  refine ⟨good, ?_⟩
  rintro ⟨scheme, host, port, tail, derives⟩
  have spelled : Spelled (lit "gemini://h: +1965x/") (lit "gemini") (lit "h") (some (lit " +1965x"))
      (lit "/") := by
    constructor <;> decide
  have written := derives.spelled.port_unique spelled
  exact absurd ((derives.port_digits _ written).1 32 (by decide)) (by decide)

/-! ### Where the host ends -/

/-- `/`, `:`, `?` and `#`. -/
def isDelimiter (c : UInt8) : Bool := c == slash || c == colon || c == question || c == hash

/-- A URL with this host, the path `/`, and this query and fragment. -/
def Yields (url : Url) (host query fragment : Str) : Prop :=
  url.good = true ∧ url.host = host.map tolower ∧ url.path = [slash] ∧ url.param = query ∧
    url.fragment = fragment

/-- The first delimiter behind the double slash, if there is one, is a colon or a slash. -/
def AuthorityEnds (s : Str) : Prop :=
  ∀ c, (afterSlashes s).find? isDelimiter = some c → c = colon ∨ c = slash

theorem isDelimiter_tolower (c : UInt8) : isDelimiter (tolower c) = isDelimiter c := by
  cases upper : isupper c with
  | false => rw [tolower_of_not_upper upper]
  | true =>
    -- neither the letter nor its lower case is one of the four
    have none : ∀ d : UInt8, isalpha d = true → isDelimiter d = false := by
      intro d letter
      simp only [isDelimiter, Bool.or_eq_false_iff, beq_eq_false_iff_ne]
      refine ⟨⟨⟨?_, ?_⟩, ?_⟩, ?_⟩ <;>
        · rintro rfl
          cases letter
    have letter : isalpha c = true := by rw [isalpha, upper, Bool.true_or]
    rw [none c letter, none _ ((isalpha_tolower c).trans letter)]

/-- The host reaches to the first colon or slash. -/
theorem host_of_good {uninit : Int} {s : Str} (good : (ofString uninit s).good = true) :
    (ofString uninit s).host =
      ((afterSlashes s).takeWhile fun c => c != colon && c != slash).map tolower := by
  obtain ⟨scheme, host, port, tail, spelled⟩ := spelled_of_good good
  rw [spelled.cut_host.1, ofString_fields uninit spelled]

/-- No delimiter comes into the text before the first colon or slash exactly if the first
delimiter is one of these two. -/
theorem plain_takeWhile_iff (text : Str) :
    (∀ c ∈ text.takeWhile (fun c => c != colon && c != slash), isDelimiter c = false) ↔
      ∀ c, text.find? isDelimiter = some c → c = colon ∨ c = slash := by
  induction text with
  | nil => simp
  | cons d text ih =>
    rw [List.takeWhile_cons, List.find?_cons]
    by_cases ends : d = colon ∨ d = slash
    · -- the text is cut here
      have delimiter : isDelimiter d = true := by rcases ends with rfl | rfl <;> rfl
      have stops : (d != colon && d != slash) = false := by rcases ends with rfl | rfl <;> rfl
      rw [if_neg (by simp [stops]), delimiter]
      simp [ends]
    · have goes_on : (d != colon && d != slash) = true := by simpa [not_or] using ends
      rw [if_pos goes_on, List.forall_mem_cons]
      cases delimiter : isDelimiter d with
      | true => simp [ends]
      | false => simp [ih]

/-- A query or a fragment directly behind the host is read as a part of it. -/
theorem not_yields_of_mark (uninit : Int) {scheme host query fragment rest : Str} {mark : UInt8}
    (nonempty : scheme ≠ []) (alnum : ∀ c ∈ scheme, isalnum c = true)
    (plain : ∀ c ∈ host, isDelimiter c = false) (marked : mark = question ∨ mark = hash) :
    ¬Yields (ofString uninit (scheme ++ lit "://" ++ (host ++ mark :: rest))) host query
      fragment := by
  rintro ⟨good, same, -⟩
  have behind : afterSlashes (scheme ++ lit "://" ++ (host ++ mark :: rest)) =
      host ++ mark :: rest := by
    have text := afterSlashes_schemeText alnum (host ++ mark :: rest)
    rwa [schemeText, if_neg nonempty] at text
  rw [host_of_good good, behind] at same
  have host_kept : ∀ c ∈ host, (c != colon && c != slash) = true := by
    intro c member
    have other := plain c member
    simp only [isDelimiter, Bool.or_eq_false_iff, beq_eq_false_iff_ne] at other
    simp [other]
  have mark_kept : (mark != colon && mark != slash) = true := by
    rcases marked with rfl | rfl <;> rfl
  -- the mark is in the host that was read, and not in the one that was written
  have inside : tolower mark ∈ host.map tolower := by
    rw [← same, List.takeWhile_append_of_pos host_kept, List.takeWhile_cons, if_pos mark_kept]
    simp
  obtain ⟨c, member, equal⟩ := List.mem_map.mp inside
  have delimiter : isDelimiter mark = true := by rcases marked with rfl | rfl <;> rfl
  rw [← isDelimiter_tolower, ← equal, isDelimiter_tolower, plain c member] at delimiter
  cases delimiter

/-- Behind a host without a path, no query and no fragment is read as one; and the host of a good
URL has a delimiter in it unless a colon or a slash is the first one behind the double slash. -/
theorem authority_ends_iff (uninit : Int) :
    (∀ scheme host query fragment : Str, scheme ≠ [] → (∀ c ∈ scheme, isalnum c = true) →
        (∀ c ∈ host, isDelimiter c = false) → hash ∉ query →
      ¬Yields (ofString uninit
        (scheme ++ lit "://" ++ (host ++ question :: (query ++ hash :: fragment))))
          host query fragment ∧
        ¬Yields (ofString uninit (scheme ++ lit "://" ++ (host ++ question :: query)))
          host query [] ∧
        ¬Yields (ofString uninit (scheme ++ lit "://" ++ (host ++ hash :: fragment)))
          host [] fragment) ∧
    ∀ s, (ofString uninit s).good = true →
      ((∀ c ∈ (ofString uninit s).host, isDelimiter c = false) ↔ AuthorityEnds s) := by
  constructor
  · intro scheme host query fragment nonempty alnum plain _
    exact ⟨not_yields_of_mark uninit nonempty alnum plain (.inl rfl),
      not_yields_of_mark uninit nonempty alnum plain (.inl rfl),
      not_yields_of_mark uninit nonempty alnum plain (.inr rfl)⟩
  · intro s good
    rw [host_of_good good, List.forall_mem_map]
    simp only [isDelimiter_tolower]
    exact plain_takeWhile_iff _

theorem authority_ends_iff_query :
    ¬Yields (ofString 0 (lit "gemini" ++ lit "://" ++
      (lit "h" ++ question :: (lit "q" ++ hash :: lit "f"))))
        (lit "h") (lit "q") (lit "f") ∧
      ((∀ c ∈ (ofString 0 (lit "gemini://h/?q")).host, isDelimiter c = false) ↔
        AuthorityEnds (lit "gemini://h/?q")) :=
  ⟨((authority_ends_iff 0).1 (lit "gemini") (lit "h") (lit "q") (lit "f") (by decide)
    (by decide) (by decide)
      (by decide)).1,
    (authority_ends_iff 0).2 _ (by decide)⟩

/-- The query becomes a part of the host. -/
theorem query_in_host :
    (ofString 0 (lit "gemini://h?q")).good = true ∧
      (ofString 0 (lit "gemini://h?q")).host = lit "h?q" ∧
      (ofString 0 (lit "gemini://h?q")).param = [] := by
  decide

end Url
end Tlgs

import Tlgs.Url.Compose
import Tlgs.Robots.PathMatch

/-!
# `tlgs::UrlBlacklist`

The blacklist of `url_blacklist.hpp`: a multimap from the printed form of a URL without its
path, query and fragment to the paths that are blocked there. Each URL is constructed from its
text, so each has its own uninitialised default port.
-/
namespace Tlgs

open Bytes LexicalPath

/-- `blacklisted_`, in the order of insertion. -/
abbrev UrlBlacklist := List (Str × Str)

namespace UrlBlacklist

/-- What `add` and `isBlocked` look a URL up under. -/
def key (url : Url) : Str := (((url.withFragment []).withPath []).withParam []).str

/-- `add`, or the text of the `std::runtime_error` it throws. -/
def add (blacklisted : UrlBlacklist) (uninit : Int) (url_str : Str) : Except Str UrlBlacklist :=
  let url := Url.ofString uninit url_str
  if url.good = false then .error (lit "Invalid URL: " ++ url_str)
  else .ok (blacklisted ++ [(key url, url.path)])

/-- A list of entries is added one by one. -/
def addAll (blacklisted : UrlBlacklist) (entries : List (Int × Str)) : Except Str UrlBlacklist :=
  entries.foldlM (fun blacklisted entry => blacklisted.add entry.1 entry.2) blacklisted

def isBlocked (blacklisted : UrlBlacklist) (url : Url) : Bool :=
  (blacklisted.filter fun entry => entry.1 == key url).any fun entry =>
    isPathBlockedBy url.path entry.2

/-! ### What the key keeps -/

theorem key_wellFormed {url : Url} (wf : url.WellFormed) :
    (((url.withFragment []).withPath []).withParam []).WellFormed := by
  have rooted : ((url.withFragment []).withPath []).withParam [] =
      { url with path := lexicallyNormal [slash], param := [], fragment := [] } := rfl
  rw [rooted]
  exact Url.wellFormed_with wf rfl (by decide) List.not_mem_nil

/-- The key tells two URLs apart by the scheme, the host and the port that is printed. -/
theorem key_eq_iff {a b : Url} (wfa : a.WellFormed) (wfb : b.WellFormed) :
    key a = key b ↔ a.protocol = b.protocol ∧ a.host = b.host ∧ a.printedPort = b.printedPort := by
  constructor
  · intro same
    obtain ⟨protocol, host, port, _⟩ :=
      Url.components_of_str_eq (key_wellFormed wfa) (key_wellFormed wfb) same
    exact ⟨protocol, host, port⟩
  · rintro ⟨protocol, host, port⟩
    exact Url.str_eq_of_components protocol host port rfl rfl rfl

theorem isBlocked_congr {blacklisted : UrlBlacklist} {a b : Url} (same : key a = key b)
    (path : a.path = b.path) : blacklisted.isBlocked a = blacklisted.isBlocked b := by
  rw [isBlocked, isBlocked, same, path]

theorem add_good {blacklisted : UrlBlacklist} {uninit : Int} {s : Str}
    (good : (Url.ofString uninit s).good = true) :
    blacklisted.add uninit s =
      .ok (blacklisted ++ [(key (Url.ofString uninit s), (Url.ofString uninit s).path)]) := by
  simp [add, good]

/-- Every path is blocked by the rule that a slash and a star make. -/
theorem isPathBlockedBy_everything (path : Str) : isPathBlockedBy path (lit "/*") = true := by
  have count : (lit "/*").count star = 1 := by decide
  have tail : endsWith path ((lit "/*").drop 2) = true := by
    simp [endsWith, show lit "/*" = [slash, star] by decide]
  rw [isPathBlockedBy, wildcardPathMatch, if_neg (by decide)]
  simp only [count]
  rw [if_neg (by decide), if_neg (by decide), starMatch, if_neg (by decide), if_neg (by decide),
    if_neg (by decide), if_pos (by decide)]
  exact tail

/-! ### Spellings of one URL -/

/-- The text writes out the default port of a scheme. -/
def WritesDefault (scheme : Str) (port : Option Str) : Prop :=
  ∃ text, port = some text ∧ stoi text = some (Url.protocolDefaultPort (scheme.map tolower))

/-- Two URL texts that differ in the letter case of the scheme and the host and in whether
the scheme's default port is written out. -/
def Respelled (s t : Str) : Prop :=
  ∃ scheme scheme' host host' port port' tail,
    Url.Spelled s scheme host port tail ∧ Url.Spelled t scheme' host' port' tail ∧
      scheme.map tolower = scheme'.map tolower ∧ host.map tolower = host'.map tolower ∧
      (port = port' ∨ port = none ∧ WritesDefault scheme' port' ∨
        WritesDefault scheme port ∧ port' = none)

/-- The blacklist answers alike for both texts, and alike when one of them is added in the
other's place. -/
def TreatedAlike (uninit uninit' : Int) (s t : Str) : Prop :=
  (∀ (entries : List (Int × Str)) (blacklisted : UrlBlacklist),
    addAll [] entries = .ok blacklisted →
      isBlocked blacklisted (Url.ofString uninit s) =
        isBlocked blacklisted (Url.ofString uninit' t)) ∧
    ∀ before after : List (Int × Str), isBlocked <$> addAll [] (before ++ (uninit, s) :: after) =
      isBlocked <$> addAll [] (before ++ (uninit', t) :: after)

theorem Respelled.parsed {s t : Str} (h : Respelled s t) (uninit uninit' : Int) :
    (Url.ofString uninit s).WellFormed ∧ (Url.ofString uninit' t).WellFormed ∧
      (Url.ofString uninit s).protocol = (Url.ofString uninit' t).protocol ∧
      (Url.ofString uninit s).host = (Url.ofString uninit' t).host ∧
      (Url.ofString uninit s).path = (Url.ofString uninit' t).path := by
  obtain ⟨scheme, scheme', host, host', port, port', tail, spelled, spelled', same_scheme,
      same_host, _⟩ := h
  refine ⟨Url.wellFormed_of_spelled uninit spelled, Url.wellFormed_of_spelled uninit' spelled', ?_⟩
  rw [Url.ofString_fields uninit spelled, Url.ofString_fields uninit' spelled']
  exact ⟨same_scheme, same_host, rfl⟩

/-- A port is printed unless it is the default port of the scheme as it is spelled. -/
theorem printedPort_spelled {s scheme host tail : Str} {port : Option Str} (uninit : Int)
    (h : Url.Spelled s scheme host port tail) (present : scheme ≠ []) :
    ((Url.ofString uninit s).printedPort = 0 ∨
      (Url.ofString uninit s).printedPort = Url.portValue port) ∧
      (Url.portValue port ≠ Url.protocolDefaultPort (scheme.map tolower) →
        (Url.ofString uninit s).printedPort = Url.portValue port) := by
  rw [Url.ofString_fields uninit h]
  simp only [Url.printedPort, present, if_false]
  by_cases lower : scheme.map tolower = scheme
  · rw [lower]
    split <;> omega
  · -- no scheme with an upper-case letter has a default port
    rw [Url.protocolDefaultPort_of_not_lower lower]
    split <;> omega

theorem WritesDefault.value {scheme : Str} {port : Option Str} (h : WritesDefault scheme port) :
    Url.portValue port = Url.protocolDefaultPort (scheme.map tolower) := by
  obtain ⟨text, rfl, number⟩ := h
  simp [Url.portValue, number]

/-- Nothing is the default port of a missing scheme. -/
theorem not_writesDefault_nil {s host tail : Str} {port : Option Str}
    (h : Url.Spelled s [] host port tail) :
    ¬WritesDefault [] port := by
  rintro ⟨text, written, number⟩
  obtain ⟨_, value, number', positive, _⟩ := h.port_ok text written
  rw [number'] at number
  have zero : value = 0 := Option.some.inj number
  omega

theorem not_spellsDefaultPort {s : Str} {uninit : Int}
    (absent : (Url.ofString uninit s).protocol = []) :
    ¬Url.SpellsDefaultPort s := by
  rintro ⟨scheme, host, port, tail, spelled, upper, _⟩
  rw [Url.ofString_fields uninit spelled] at absent
  have empty : scheme = [] := List.map_eq_nil_iff.mp absent
  subst empty
  exact upper rfl

/-- Where the two texts print the same port. -/
theorem Respelled.printedPort_iff {s t : Str} (h : Respelled s t) (uninit uninit' : Int) :
    (Url.ofString uninit s).printedPort = (Url.ofString uninit' t).printedPort ↔
      (Url.SpellsDefaultPort s ↔ Url.SpellsDefaultPort t) ∧
        ((Url.ofString uninit s).protocol = [] → (Url.ofString uninit s).port_ ≠ 0 →
          (uninit = (Url.ofString uninit s).port_ ↔ uninit' = (Url.ofString uninit s).port_)) := by
  obtain ⟨wf, wf', protocol, _⟩ := h.parsed uninit uninit'
  obtain ⟨scheme, scheme', host, host', port, port', tail, spelled, spelled', same_scheme,
      _, ports⟩ := h
  by_cases absent : (Url.ofString uninit s).protocol = []
  · have neither : Url.SpellsDefaultPort s ↔ Url.SpellsDefaultPort t :=
      iff_of_false (not_spellsDefaultPort absent) (not_spellsDefaultPort (protocol ▸ absent))
    rw [and_iff_right neither]
    -- without a scheme the ports are the same text, and the default ports what was in memory
    rw [Url.ofString_fields uninit spelled] at absent
    have empty : scheme = [] := List.map_eq_nil_iff.mp absent
    subst empty
    have empty' : scheme' = [] := List.map_eq_nil_iff.mp same_scheme.symm
    subst empty'
    have same_port : port = port' := by
      rcases ports with same | ⟨_, writes⟩ | ⟨writes, _⟩
      · exact same
      · exact absurd writes (not_writesDefault_nil spelled')
      · exact absurd writes (not_writesDefault_nil spelled)
    subst same_port
    rw [Url.ofString_fields uninit spelled, Url.ofString_fields uninit' spelled']
    simp only [Url.printedPort, List.map_nil, if_true, forall_const]
    split <;> split <;> omega
  · rw [and_iff_left fun empty => absurd empty absent]
    have present : scheme ≠ [] := by
      rintro rfl
      exact absent (by rw [Url.ofString_fields uninit spelled]; rfl)
    have present' : scheme' ≠ [] := by
      rintro rfl
      exact present (List.map_eq_nil_iff.mp same_scheme)
    have lower : (Url.ofString uninit s).protocol = scheme.map tolower := by
      rw [Url.ofString_fields uninit spelled]
    have prints := Url.prints_default_iff_spelled wf.good absent
    have prints' := Url.prints_default_iff_spelled wf'.good (protocol ▸ absent)
    have port_cases := printedPort_spelled uninit spelled present
    have port_cases' := printedPort_spelled uninit' spelled' present'
    rw [← prints, ← prints', ← protocol, lower]
    rw [← same_scheme] at port_cases'
    -- the ports in the texts: the same, or one the default and the other left out
    have values : Url.portValue port = Url.portValue port' ∨
        Url.portValue port = 0 ∧
        Url.portValue port' = Url.protocolDefaultPort (scheme.map tolower) ∨
        Url.portValue port = Url.protocolDefaultPort (scheme.map tolower) ∧
          Url.portValue port' = 0 := by
      rcases ports with same | ⟨missing, writes⟩ | ⟨writes, missing⟩
      · exact .inl (congrArg _ same)
      · exact .inr (.inl ⟨missing ▸ rfl, same_scheme ▸ writes.value⟩)
      · exact .inr (.inr ⟨writes.value, missing ▸ rfl⟩)
    omega

/-! ### Which spellings are treated alike -/

/-- A list with an entry in the middle is added up to it, then it, then the rest. -/
theorem addAll_insert (before after : List (Int × Str)) {uninit : Int} {s : Str}
    (good : (Url.ofString uninit s).good = true) :
    addAll [] (before ++ (uninit, s) :: after) = addAll [] before >>= fun blacklisted =>
      addAll (blacklisted ++ [(key (Url.ofString uninit s), (Url.ofString uninit s).path)])
        after := by
  simp only [addAll, List.foldlM_append, List.foldlM_cons, add_good good]
  rfl

/-- The whole capsule behind a text, as an entry. -/
theorem blocked_everything {s scheme host tail : Str} {port : Option Str} (uninit : Int)
    (h : Url.Spelled s scheme host port tail) :
    ∃ entry, addAll [] [(uninit, entry)] = .ok [(key (Url.ofString uninit s), lit "/*")] := by
  -- the same URL up to the port, and then everything below it
  have spelled : Url.Spelled (Url.schemeText scheme ++ host ++ Url.portPart port ++ lit "/*")
      scheme host port
      (lit "/*") := { h with text := rfl, tail_rooted := .inr (by decide) }
  have wf := Url.wellFormed_of_spelled uninit spelled
  refine ⟨Url.schemeText scheme ++ host ++ Url.portPart port ++ lit "/*", ?_⟩
  rw [addAll, List.foldlM_cons, add_good wf.good]
  have path : (Url.ofString uninit
      (Url.schemeText scheme ++ host ++ Url.portPart port ++ lit "/*")).path =
      lit "/*" := by
    have normal : lexicallyNormal
        (slash :: ((lit "/*").drop 1).takeWhile fun c => c != question && c != hash) =
        lit "/*" := by decide
    rw [Url.ofString_fields uninit spelled]
    exact normal
  have same : key (Url.ofString uninit
      (Url.schemeText scheme ++ host ++ Url.portPart port ++ lit "/*")) =
      key (Url.ofString uninit s) := by
    rw [key_eq_iff wf (Url.wellFormed_of_spelled uninit h), Url.ofString_fields uninit spelled,
      Url.ofString_fields uninit h]
    exact ⟨rfl, rfl, rfl⟩
  rw [path, same]
  rfl

theorem isBlocked_everything (url url' : Url) :
    isBlocked [(key url, lit "/*")] url' = true ↔ key url = key url' := by
  simp [isBlocked, List.filter_cons, isPathBlockedBy_everything]

/-- Two spellings of a URL are treated alike exactly if both or neither write out the default
port behind a scheme in upper case (and, without a scheme, what was in memory matches the port
in both objects or in neither). -/
theorem treatedAlike_iff (uninit uninit' : Int) {s t : Str} (h : Respelled s t) :
    TreatedAlike uninit uninit' s t ↔
      (Url.SpellsDefaultPort s ↔ Url.SpellsDefaultPort t) ∧
        ((Url.ofString uninit s).protocol = [] → (Url.ofString uninit s).port_ ≠ 0 →
          (uninit = (Url.ofString uninit s).port_ ↔ uninit' = (Url.ofString uninit s).port_)) := by
  obtain ⟨wf, wf', protocol, host, path⟩ := h.parsed uninit uninit'
  rw [← h.printedPort_iff uninit uninit']
  have keys : key (Url.ofString uninit s) = key (Url.ofString uninit' t) ↔
      (Url.ofString uninit s).printedPort = (Url.ofString uninit' t).printedPort := by
    rw [key_eq_iff wf wf', and_iff_right protocol, and_iff_right host]
  rw [← keys]
  constructor
  · -- an entry that blocks everything there tells two keys apart
    rintro ⟨asked, _⟩
    obtain ⟨scheme, _, host, _, port, _, tail, spelled, _⟩ := h
    obtain ⟨entry, added⟩ := blocked_everything uninit spelled
    have same := asked _ _ added
    rw [(isBlocked_everything _ _).mpr rfl] at same
    exact (isBlocked_everything _ _).mp same.symm
  · intro same
    constructor
    · intro entries blacklisted _
      exact isBlocked_congr same path
    · intro before after
      rw [addAll_insert before after wf.good, addAll_insert before after wf'.good, same, path]

theorem treatedAlike_iff_example :
    TreatedAlike 0 0 (lit "gemini://Example.com:1965/a") (lit "Gemini://example.COM/a") ↔
      (Url.SpellsDefaultPort (lit "gemini://Example.com:1965/a") ↔
        Url.SpellsDefaultPort (lit "Gemini://example.COM/a")) ∧
      ((Url.ofString 0 (lit "gemini://Example.com:1965/a")).protocol = [] →
        (Url.ofString 0 (lit "gemini://Example.com:1965/a")).port_ ≠ 0 →
          (0 = (Url.ofString 0 (lit "gemini://Example.com:1965/a")).port_ ↔
            0 = (Url.ofString 0 (lit "gemini://Example.com:1965/a")).port_)) :=
  treatedAlike_iff 0 0 ⟨lit "gemini", lit "Gemini", lit "Example.com", lit "example.COM",
    some (lit "1965"), none,
    lit "/a", by constructor <;> decide, by constructor <;> decide, by decide, by decide,
    .inr (.inr ⟨⟨_, rfl, by decide⟩, rfl⟩)⟩

/-- An entry in lower case does not block the same capsule spelled in upper case with its port. -/
theorem uppercase_bypasses_blacklist :
    ∃ blacklisted, addAll [] [(0, lit "gemini://h/")] = .ok blacklisted ∧
      Respelled (lit "gemini://h:1965/") (lit "GEMINI://h:1965/") ∧
      isBlocked blacklisted (Url.ofString 0 (lit "gemini://h:1965/")) = true ∧
      isBlocked blacklisted (Url.ofString 0 (lit "GEMINI://h:1965/")) = false := by
  refine ⟨[(lit "gemini://h/", lit "/")], by decide, ?_, by decide, by decide⟩
  exact ⟨lit "gemini", lit "GEMINI", lit "h", lit "h", some (lit "1965"),
    some (lit "1965"), lit "/",
    by constructor <;> decide, by constructor <;> decide, by decide, by decide, .inl rfl⟩

end UrlBlacklist

end Tlgs

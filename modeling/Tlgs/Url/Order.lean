import Tlgs.Base.OrderedSet
import Tlgs.Url.Canonical

/-!
# Comparing URLs

`operator==` and `operator<` look at the port as it is stored, `str()` at whether it is the
default port of the scheme as the scheme was spelled. Two URLs that name the same resource can
therefore be told apart by one and not by the other.
-/
namespace Tlgs
namespace Url

open Bytes LexicalPath OrderedSet

/-- The fields that the comparisons look at. -/
def sortKey (url : Url) : Str × Str × Str × Str × Str × Int × Unit :=
  (url.protocol, url.host, url.path, url.param, url.fragment, url.port_, ())

theorem lt_eq_thenBy :
    lt = thenBy protocol (thenBy host (thenBy path (thenBy param (thenBy fragment
      (thenBy port_ fun _ _ => false))))) := rfl

/-- `operator<` orders URLs by these fields. -/
theorem orderedBy_lt : OrderedBy lt sortKey := by
  rw [lt_eq_thenBy]
  exact (((((orderedBy_nothing.thenBy _).thenBy _).thenBy _).thenBy _).thenBy _).thenBy _

/-- The URLs differ in nothing but the port. -/
structure SameButPort (a b : Url) : Prop where
  protocol : a.protocol = b.protocol
  host : a.host = b.host
  path : a.path = b.path
  param : a.param = b.param
  fragment : a.fragment = b.fragment

theorem sortKey_eq_iff {a b : Url} :
    sortKey a = sortKey b ↔ SameButPort a b ∧ a.port_ = b.port_ := by
  simp only [sortKey, Prod.mk.injEq, and_true]
  constructor
  · rintro ⟨protocol, host, path, param, fragment, port⟩
    exact ⟨⟨protocol, host, path, param, fragment⟩, port⟩
  · rintro ⟨⟨protocol, host, path, param, fragment⟩, port⟩
    exact ⟨protocol, host, path, param, fragment, port⟩

theorem beq_iff {a b : Url} : a.beq b = true ↔ SameButPort a b ∧ a.port_ = b.port_ := by
  rw [← sortKey_eq_iff]
  simp [beq, sortKey, and_assoc]

/-- Neither of two URLs is less than the other exactly if they are equal. -/
theorem beq_iff_incomparable {a b : Url} : a.beq b = true ↔ a.lt b = false ∧ b.lt a = false := by
  rw [beq_iff, ← sortKey_eq_iff]
  exact orderedBy_lt.incomparable_iff a b

theorem str_eq_iff {a b : Url} (wfa : a.WellFormed) (wfb : b.WellFormed) :
    a.str = b.str ↔ SameButPort a b ∧ a.printedPort = b.printedPort := by
  constructor
  · intro same
    obtain ⟨protocol, host, port, path, param, fragment⟩ := components_of_str_eq wfa wfb same
    exact ⟨⟨protocol, host, path, param, fragment⟩, port⟩
  · rintro ⟨⟨protocol, host, path, param, fragment⟩, port⟩
    exact str_eq_of_components protocol host port path param fragment

/-! ### Ports as they are written -/

/-- The text writes out the default port of its scheme, in lower case. -/
def WritesDefaultPort (s : Str) : Prop :=
  ∃ scheme host port tail, Spelled s scheme host (some port) tail ∧
    scheme.map tolower = scheme ∧ stoi port = some (protocolDefaultPort scheme)

/-- The port, with the default one of the scheme filled in. -/
def effectivePort (url : Url) : Int :=
  if url.port_ ≠ 0 then url.port_ else protocolDefaultPort url.protocol

/-- The port that is stored is the default port, so it is not printed. -/
theorem writesDefaultPort_iff {uninit : Int} {s : Str} (good : (ofString uninit s).good = true)
    (present : (ofString uninit s).protocol ≠ []) :
    WritesDefaultPort s ↔
      (ofString uninit s).port_ ≠ 0 ∧
        (ofString uninit s).port_ = (ofString uninit s).defaultPort := by
  constructor
  · rintro ⟨scheme, host, p, tail, spelled, -, number⟩
    obtain ⟨-, v, value, positive, -⟩ := spelled.port_ok p rfl
    rw [ofString_fields uninit spelled] at present ⊢
    have nonempty : scheme ≠ [] := by
      rintro rfl
      exact present rfl
    rw [value] at number
    have default : v = protocolDefaultPort scheme := Option.some.inj number
    simp only [portValue, value, Option.getD_some, if_neg nonempty]
    omega
  · rintro ⟨written, default⟩
    obtain ⟨scheme, host, port, tail, spelled⟩ := spelled_of_good good
    rw [ofString_fields uninit spelled] at present written default
    have nonempty : scheme ≠ [] := by
      rintro rfl
      exact present rfl
    simp only [if_neg nonempty] at default
    cases port with
    | none => exact absurd rfl written
    | some p =>
      obtain ⟨-, v, value, -, -⟩ := spelled.port_ok p rfl
      rw [portValue, value, Option.getD_some] at written default
      refine ⟨scheme, host, p, tail, spelled, ?_, by rw [value, default]⟩
      -- a scheme with an upper-case letter has no default port
      by_contra upper
      exact written (default.trans (protocolDefaultPort_of_not_lower upper))

/-- The default port is the one of the scheme, or missing. -/
theorem defaultPort_of_good {uninit : Int} {s : Str} (good : (ofString uninit s).good = true)
    (present : (ofString uninit s).protocol ≠ []) :
    (ofString uninit s).defaultPort = 0 ∨
      (ofString uninit s).defaultPort = protocolDefaultPort (ofString uninit s).protocol := by
  obtain ⟨scheme, host, port, tail, spelled⟩ := spelled_of_good good
  rw [ofString_fields uninit spelled] at present ⊢
  have nonempty : scheme ≠ [] := by
    rintro rfl
    exact present rfl
  simp only [if_neg nonempty]
  by_cases lower : scheme.map tolower = scheme
  · exact .inr (by rw [lower])
  · exact .inl (protocolDefaultPort_of_not_lower lower)

/-- Both texts name one resource, and one of them only writes the default port as its scheme
has it. -/
def ToldApart (uninit uninit' : Int) (s t : Str) : Prop :=
  SameButPort (ofString uninit s) (ofString uninit' t) ∧
    (ofString uninit s).effectivePort = (ofString uninit' t).effectivePort ∧
    ¬(WritesDefaultPort s ↔ WritesDefaultPort t)

/-- Equality and printing look at the port in their own ways. -/
theorem ports_agree_iff {a b d default default' : Int} (known : default = 0 ∨ default = d)
    (known' : default' = 0 ∨ default' = d) :
    (a = b ↔ (if a ≠ 0 ∧ default ≠ a then a else 0) = if b ≠ 0 ∧ default' ≠ b then b else 0) ↔
      ¬((if a ≠ 0 then a else d) = (if b ≠ 0 then b else d) ∧
        ¬(a ≠ 0 ∧ a = default ↔ b ≠ 0 ∧ b = default')) := by
  omega

/-- Equality, order and printing of two parsed URLs agree unless the texts are told apart by their
default port. -/
theorem comparisons_agree_iff {uninit uninit' : Int} {s t : Str}
    (good : (ofString uninit s).good = true) (good' : (ofString uninit' t).good = true)
    (present : (ofString uninit s).protocol ≠ []) (present' : (ofString uninit' t).protocol ≠ []) :
    (((ofString uninit s).beq (ofString uninit' t) = true ↔
      (ofString uninit s).str = (ofString uninit' t).str) ∧
      ((ofString uninit s).beq (ofString uninit' t) = true ↔
        (ofString uninit s).lt (ofString uninit' t) = false ∧
          (ofString uninit' t).lt (ofString uninit s) = false)) ↔
      ¬ToldApart uninit uninit' s t := by
  rw [and_iff_left beq_iff_incomparable, beq_iff,
    str_eq_iff (wellFormed_of_good good) (wellFormed_of_good good'), ToldApart,
    writesDefaultPort_iff good present, writesDefaultPort_iff good' present']
  by_cases same : SameButPort (ofString uninit s) (ofString uninit' t)
  · have known := defaultPort_of_good good present
    have known' := defaultPort_of_good good' present'
    rw [← same.protocol] at known'
    rw [and_iff_right same, and_iff_right same, and_iff_right same, effectivePort, effectivePort,
      ← same.protocol]
    exact ports_agree_iff known known'
  · simp [same]

/-! ### Links without a scheme -/

/-- A text that starts with the double slash has no scheme. -/
theorem Spelled.scheme_eq_nil {rest scheme host tail : Str} {port : Option Str}
    (h : Spelled (lit "//" ++ rest) scheme host port tail) : scheme = [] := by
  cases scheme with
  | nil => rfl
  | cons c scheme =>
    have text := h.text
    rw [slashes, schemeText, if_neg (List.cons_ne_nil _ _)] at text
    have first : slash = c := (List.cons.inj text).1
    have alnum := h.scheme_alnum c List.mem_cons_self
    rw [← first] at alnum
    cases alnum

/-- The text with a scheme put before it is spelled alike. -/
theorem Spelled.with_gemini {rest host tail : Str} {port : Option Str}
    (h : Spelled (lit "//" ++ rest) [] host port tail) :
    Spelled (lit "gemini:" ++ (lit "//" ++ rest)) (lit "gemini") host port tail where
  text := by
    rw [h.text, schemeText, schemeText, if_pos rfl, if_neg (by decide)]
    simp only [← List.append_assoc]
    congr 3
  scheme_alnum := by decide
  host_nonempty := h.host_nonempty
  host_first := h.host_first
  host_plain := h.host_plain
  port_ok := h.port_ok
  tail_rooted := h.tail_rooted

/-- What the member without an initialiser has to hold for a link without a scheme, by the port
that the link writes. -/
def HoldsDefault (uninit port : Int) : Prop :=
  if port = 0 ∨ port = 1965 then uninit = 1965 else uninit ≠ port

/-- Then the port is printed alike and is the same port. -/
theorem holdsDefault_iff (uninit port : Int) :
    ((if port ≠ 0 ∧ uninit ≠ port then port else 0) = (if port ≠ 0 ∧ 1965 ≠ port then port else 0) ∧
        (if port ≠ 0 then port else uninit) = if port ≠ 0 then port else 1965) ↔
      HoldsDefault uninit port := by
  rw [HoldsDefault]
  by_cases absent : port = 0
  · simp [absent]
  · by_cases default : port = 1965
    · simp [default]
    · simp [absent, Ne.symm absent, default, Ne.symm default]

/-- A link without a scheme, patched, is the same as with its scheme written out exactly if what
was in memory happens to be the default port, or with another port written anything else. -/
theorem withProtocol_eq_iff (uninit uninit' : Int) {rest : Str}
    (good : (ofString uninit (lit "//" ++ rest)).good = true) :
    let patched := (ofString uninit (lit "//" ++ rest)).withProtocol (lit "gemini")
    let written := ofString uninit' (lit "gemini:" ++ (lit "//" ++ rest))
    (patched.str = written.str ∧ patched.host = written.host ∧ patched.port = written.port ∧
        patched.path = written.path) ↔
      HoldsDefault uninit (ofString uninit (lit "//" ++ rest)).port_ := by
  intro patched written
  obtain ⟨scheme, host, port, tail, spelled⟩ := spelled_of_good good
  have none : scheme = [] := spelled.scheme_eq_nil
  subst none
  have letters : ∀ c ∈ lit "gemini", isalnum c = true := by decide
  have lower : (lit "gemini").map tolower = lit "gemini" := by decide
  have wf : patched.WellFormed :=
    { wellFormed_of_good good with protocol_alnum := letters, protocol_lower := lower }
  have wf' : written.WellFormed := wellFormed_of_spelled uninit' spelled.with_gemini
  have read := ofString_fields uninit spelled
  -- the two differ in the default port, which is only assigned when the scheme is read
  have patched_eq : patched =
      { ofString uninit (lit "//" ++ rest) with protocol := lit "gemini" } := rfl
  have written_eq : written = { patched with defaultPort := 1965 } := by
    rw [patched_eq, read]
    exact ofString_fields uninit' spelled.with_gemini
  have default : patched.defaultPort = uninit := by
    rw [patched_eq, read]
    rfl
  have port_eq : (ofString uninit (lit "//" ++ rest)).port_ = patched.port_ := rfl
  have same : SameButPort patched written := by
    rw [written_eq]
    exact ⟨rfl, rfl, rfl, rfl, rfl⟩
  -- so they print alike as far as the ports that are printed do
  rw [str_eq_iff wf wf', and_iff_right same, and_iff_right same.host,
    and_iff_left same.path, port_eq, written_eq]
  simp only [printedPort, Url.port, default, ne_eq, not_true_eq_false, if_false]
  exact holdsDefault_iff uninit patched.port_

theorem withProtocol_eq_iff_held :
    let patched := (ofString 1965 (lit "//" ++ lit "h/a")).withProtocol (lit "gemini")
    let written := ofString 0 (lit "gemini:" ++ (lit "//" ++ lit "h/a"))
    (patched.str = written.str ∧ patched.host = written.host ∧ patched.port = written.port ∧
        patched.path = written.path) ↔
      HoldsDefault 1965 (ofString 1965 (lit "//" ++ lit "h/a")).port_ :=
  withProtocol_eq_iff 1965 0 (by decide)

/-- Zero in memory is what such a link gets for a port. -/
theorem uninitialised_port_kept :
    (ofString 0 (lit "//h/a")).good = true ∧
      ((ofString 0 (lit "//h/a")).withProtocol (lit "gemini")).port = 0 ∧
      (ofString 0 (lit "gemini://h/a")).port = 1965 := by
  decide

end Url
end Tlgs

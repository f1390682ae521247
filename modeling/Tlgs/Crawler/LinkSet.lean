import Tlgs.Crawler.Resolve
import Tlgs.Url.Order

/-!
# The set of links of a page

`link_urls` is a `std::set<tlgs::Url>`: it keeps of each URL, as `operator<` tells them apart, the
first that was inserted. What is stored are the texts that `str()` prints for its elements.
-/
namespace Tlgs

open Bytes OrderedSet Url

theorem insertUrl_eq_insertBy (url : Url) (set : List Url) :
    insertUrl url set = insertBy Url.lt url set := by
  induction set with
  | nil => rfl
  | cons first rest ih => simp only [insertUrl, insertBy, ih]

/-- The URLs that are inserted for the links of a page, in order. -/
def recordedLinks (env : Env) (url : Url) (links : List Str) : List Url :=
  links.zipIdx.filterMap fun (link, index) => linkUrl env url index link

/-- A set of URLs as it is iterated. -/
def urlSet (urls : List Url) : List Url := urls.foldl (fun set url => insertUrl url set) []

theorem urlSet_eq_ofList (urls : List Url) : urlSet urls = ofList Url.lt urls := by
  simp only [urlSet, ofList, insertUrl_eq_insertBy]

theorem linkUrls_eq_urlSet (env : Env) (url : Url) (links : List Str) :
    linkUrls env url links = urlSet (recordedLinks env url links) :=
  rfl

/-- The URLs differ in the port alone, and neither prints it: each has none, or its default one. -/
structure PortsLeftOut (a b : Url) : Prop where
  same : SameButPort a b
  apart : a.port_ ≠ b.port_
  unprinted : a.port_ = 0 ∨ a.port_ = a.defaultPort
  unprinted' : b.port_ = 0 ∨ b.port_ = b.defaultPort

theorem printedPort_eq_zero_iff (url : Url) :
    url.printedPort = 0 ↔ url.port_ = 0 ∨ url.port_ = url.defaultPort := by
  rw [printedPort]
  omega

/-- Two URLs print alike and are not equal exactly if they leave out their ports. -/
theorem portsLeftOut_iff {a b : Url} (wfa : a.WellFormed) (wfb : b.WellFormed) :
    PortsLeftOut a b ↔ a.str = b.str ∧ sortKey a ≠ sortKey b := by
  rw [str_eq_iff wfa wfb, ne_eq, sortKey_eq_iff]
  constructor
  · rintro ⟨same, apart, unprinted, unprinted'⟩
    rw [← printedPort_eq_zero_iff] at unprinted unprinted'
    exact ⟨⟨same, unprinted.trans unprinted'.symm⟩, fun equal => apart equal.2⟩
  · rintro ⟨⟨same, printed⟩, other⟩
    have apart : a.port_ ≠ b.port_ := fun equal => other ⟨same, equal⟩
    -- a port that is printed is the one that is stored
    have unprinted : a.printedPort = 0 ∧ b.printedPort = 0 := by
      simp only [printedPort] at printed ⊢
      omega
    exact ⟨same, apart, (printedPort_eq_zero_iff a).mp unprinted.1,
      (printedPort_eq_zero_iff b).mp unprinted.2⟩

/-- A set of URLs prints no text twice exactly if no two of its elements leave out their ports. -/
theorem nodup_urlSet_iff {urls : List Url} (wf : ∀ url ∈ urls, url.WellFormed) :
    ((urlSet urls).map Url.str).Nodup ↔
      ∀ a b, FirstOf sortKey urls a → FirstOf sortKey urls b → ¬PortsLeftOut a b := by
  rw [urlSet_eq_ofList, nodup_map_ofList orderedBy_lt]
  refine forall₂_congr fun a b => forall₂_congr fun first first' => ?_
  rw [portsLeftOut_iff (wf a first.mem) (wf b first'.mem), not_and, not_not]

/-- Everything that is recorded is well formed. -/
theorem recordedLinks_wellFormed {env : Env} {url : Url} (wf : url.WellFormed) (links : List Str) :
    ∀ link ∈ recordedLinks env url links, link.WellFormed := by
  intro recorded member
  obtain ⟨⟨link, index⟩, -, isLink⟩ := List.mem_filterMap.mp member
  simp only [linkUrl] at isLink
  split at isLink
  · cases isLink
  · split at isLink
    next good =>
      have patched : (if (ofString (env.uninitLink index) link).protocol = [] then
          (ofString (env.uninitLink index) link).withProtocol url.protocol
          else ofString (env.uninitLink index) link).WellFormed := by
        have parsed := wellFormed_of_good good
        split
        · -- the scheme of the page is put in
          exact { parsed with
            protocol_alnum := wf.protocol_alnum
            protocol_lower := wf.protocol_lower }
        · exact parsed
      generalize (if (ofString (env.uninitLink index) link).protocol = [] then
          (ofString (env.uninitLink index) link).withProtocol url.protocol
          else ofString (env.uninitLink index) link) = parsed at isLink patched
      split at isLink
      · cases isLink
      · cases isLink
        exact trimLink_wellFormed patched
    · split at isLink
      · cases isLink
      · split at isLink
        · cases isLink
        · split at isLink
          · cases isLink
          · cases isLink
            exact trimLink_wellFormed (linkCompose_wellFormed wf link)

/-- Equality, order and printing of two parsed URLs agree unless the texts are told apart by the
default port; and a set of URLs, such as the links of a page, prints no text twice unless two of
its elements leave out their ports. -/
theorem comparing_agrees_iff (uninit uninit' : Int) (env : Env) :
    (∀ s t : Str, (ofString uninit s).good = true → (ofString uninit' t).good = true →
      (ofString uninit s).protocol ≠ [] → (ofString uninit' t).protocol ≠ [] →
      ((((ofString uninit s).beq (ofString uninit' t) = true ↔
            (ofString uninit s).str = (ofString uninit' t).str) ∧
          ((ofString uninit s).beq (ofString uninit' t) = true ↔
            (ofString uninit s).lt (ofString uninit' t) = false ∧
              (ofString uninit' t).lt (ofString uninit s) = false)) ↔
        ¬ToldApart uninit uninit' s t)) ∧
    (∀ urls : List Url, (∀ url ∈ urls, url.WellFormed) →
      (((urlSet urls).map Url.str).Nodup ↔
        ∀ a b, FirstOf sortKey urls a → FirstOf sortKey urls b → ¬PortsLeftOut a b)) ∧
    ∀ (url : Url) (links : List Str), url.WellFormed →
      (((linkUrls env url links).map Url.str).Nodup ↔
        ∀ a b, FirstOf sortKey (recordedLinks env url links) a →
          FirstOf sortKey (recordedLinks env url links) b → ¬PortsLeftOut a b) := by
  -- two texts, any set of URLs, and the links of a page
  refine ⟨fun s t good good' present present' => ?_, fun urls wf => ?_, fun url links wf => ?_⟩
  · exact comparisons_agree_iff good good' present present'
  · exact nodup_urlSet_iff wf
  · rw [linkUrls_eq_urlSet]
    exact nodup_urlSet_iff (recordedLinks_wellFormed wf links)

theorem comparing_agrees_iff_example :
    ((((ofString 0 (lit "gemini://h:1966/")).beq (ofString 0 (lit "gemini://h/a/..")) = true ↔
          (ofString 0 (lit "gemini://h:1966/")).str = (ofString 0 (lit "gemini://h/a/..")).str) ∧
        ((ofString 0 (lit "gemini://h:1966/")).beq (ofString 0 (lit "gemini://h/a/..")) = true ↔
          (ofString 0 (lit "gemini://h:1966/")).lt (ofString 0 (lit "gemini://h/a/..")) = false ∧
            (ofString 0 (lit "gemini://h/a/..")).lt (ofString 0 (lit "gemini://h:1966/")) =
              false)) ↔
      ¬ToldApart 0 0 (lit "gemini://h:1966/") (lit "gemini://h/a/..")) ∧
    (((linkUrls Env.small (ofString 0 (lit "gemini://h/")) [lit "a", lit "b"]).map Url.str).Nodup ↔
      ∀ a b, FirstOf sortKey
        (recordedLinks Env.small (ofString 0 (lit "gemini://h/")) [lit "a", lit "b"]) a →
        FirstOf sortKey (recordedLinks Env.small (ofString 0 (lit "gemini://h/"))
          [lit "a", lit "b"]) b →
          ¬PortsLeftOut a b) :=
  ⟨(comparing_agrees_iff 0 0 Env.small).1 _ _ (by decide) (by decide) (by decide) (by decide),
    (comparing_agrees_iff 0 0 Env.small).2.2 _ [lit "a", lit "b"] (wellFormed_of_good (by decide))⟩

/-- A link with the default port and one without it are printed alike, and both are stored. -/
theorem one_link_twice :
    (ofString 0 (lit "gemini://h:1965/")).good = true ∧
      (ofString 0 (lit "gemini://h/")).good = true ∧
      (ofString 0 (lit "gemini://h:1965/")).beq (ofString 0 (lit "gemini://h/")) = false ∧
      (ofString 0 (lit "gemini://h:1965/")).str = (ofString 0 (lit "gemini://h/")).str ∧
      (linkUrls Env.small (ofString 0 (lit "gemini://g/"))
        [lit "gemini://h/", lit "gemini://h:1965/"]).map
        Url.str = [lit "gemini://h/", lit "gemini://h/"] := by
  decide

end Tlgs

import Tlgs.Base.Bytes
import Mathlib.Data.List.TakeWhile

/-!
# The sanitisers of the search page

`sanitizeGemini` is applied to the search term and `sanitize_previw` to the preview of a result,
before they stand in a page of Gemini text. Both replace line ends and tabs and then strip the
markers in front, but a text of nothing else than markers is returned as it is.
-/
namespace Tlgs

open Bytes

/-- What gives a line of Gemini text its type, as far as the sanitisers know. -/
def geminiMarkers : Str := lit "`*=>#"

/-- `find_first_not_of` and `substr`; a text without another character is returned early. -/
def stripMarkers (text : Str) : Str :=
  match text.dropWhile (· ∈ geminiMarkers) with
  | [] => text
  | rest => rest

/-- With the `replaceAll` of the web framework. -/
def sanitizeGemini (replace : Str → Str → Str → Str) (preview : Str) : Str :=
  let preview := replace preview (lit "\n") (lit " ")
  let preview := replace preview (lit "\t") (lit " ")
  stripMarkers (replace preview (lit "```") (lit " "))

def previewSpaces : Str := lit " \r\n\t"

/-- The loop of `sanitize_previw`, with `is_space`. -/
def collapseSpaces : Bool → Str → Str
  | _, [] => []
  | isSpace, ch :: str =>
    let rest := collapseSpaces (decide (ch ∈ previewSpaces)) str
    if ch ∉ previewSpaces then ch :: rest
    else if isSpace = false then 32 :: rest
    else rest

def sanitizePreviw (str : Str) : Str := stripMarkers (collapseSpaces true str)

/-! ### Texts that give a line no type -/

structure Harmless (text : Str) : Prop where
  no_newline : 10 ∉ text
  no_tab : 9 ∉ text
  no_marker : ∀ c, text.head? = some c → c ∉ geminiMarkers

/-- Markers, and nothing else. -/
def OnlyMarkers (text : Str) : Prop := text ≠ [] ∧ ∀ c ∈ text, c ∈ geminiMarkers

theorem blank_not_marker : 32 ∉ geminiMarkers := by decide

theorem mem_stripMarkers {text : Str} {c : UInt8} (member : c ∈ stripMarkers text) : c ∈ text := by
  simp only [stripMarkers] at member
  split at member
  · exact member
  · exact (List.dropWhile_suffix _).subset member

/-- The markers in front are gone unless there is nothing else. -/
theorem head_stripMarkers (text : Str) :
    (∀ c, (stripMarkers text).head? = some c → c ∉ geminiMarkers) ↔ ¬OnlyMarkers text := by
  simp only [stripMarkers]
  split
  -- nothing but markers, which are left as they are
  next none_left =>
    have all_markers : ∀ c ∈ text, c ∈ geminiMarkers := by
      simpa [List.dropWhile_eq_nil_iff] using none_left
    cases text with
    | nil => simp [OnlyMarkers]
    | cons c text =>
      refine iff_of_false (fun plain => ?_) (not_not.mpr ⟨List.cons_ne_nil c text, all_markers⟩)
      exact plain c rfl (all_markers c List.mem_cons_self)
  -- what is left begins with the first byte that is none
  next rest left =>
    cases behind : text.dropWhile (· ∈ geminiMarkers) with
    | nil => exact absurd behind left
    | cons c rest =>
      have stops : c ∉ geminiMarkers := by
        have stopped := List.head?_dropWhile_not (· ∈ geminiMarkers) text
        rw [behind] at stopped
        simpa using stopped
      refine iff_of_true ?_ fun only => stops (only.2 c ?_)
      · rintro _ ⟨⟩
        exact stops
      · exact (List.dropWhile_suffix _).subset (behind ▸ List.mem_cons_self)

theorem harmless_stripMarkers {text : Str} (newline : 10 ∉ text) (tab : 9 ∉ text) :
    Harmless (stripMarkers text) ↔ ¬OnlyMarkers text := by
  rw [← head_stripMarkers]
  constructor
  · exact fun harmless => harmless.no_marker
  · intro plain
    exact ⟨fun member => newline (mem_stripMarkers member), fun member =>
      tab (mem_stripMarkers member), plain⟩

/-! ### The search term -/

/-- A replacement leaves a blank behind, which is no marker. -/
theorem onlyMarkers_replaceAll {needle : Str} (nonempty : needle ≠ []) (text : Str) :
    OnlyMarkers (replaceAll text needle (lit " ")) ↔ OnlyMarkers text ∧ ¬needle <:+: text := by
  by_cases occurs : needle <:+: text
  · refine iff_of_false (fun only => ?_) fun both => both.2 occurs
    have blank : 32 ∈ replaceAll text needle (lit " ") :=
      (infix_replaceAll nonempty occurs (lit " ")).subset (by decide)
    exact blank_not_marker (only.2 32 blank)
  · rw [replaceAll_of_absent occurs]
    exact ⟨fun only => ⟨only, occurs⟩, And.left⟩

theorem OnlyMarkers.absent {text : Str} (only : OnlyMarkers text) {c : UInt8}
    (plain : c ∉ geminiMarkers) :
    ¬[c] <:+: text := fun occurs => plain (only.2 c (occurs.subset List.mem_cons_self))

theorem onlyMarkers_term (text : Str) :
    OnlyMarkers (replaceAll (replaceAll (replaceAll text (lit "\n") (lit " ")) (lit "\t") (lit " "))
      (lit "```")
        (lit " ")) ↔
      OnlyMarkers text ∧ ¬lit "```" <:+: text := by
  rw [onlyMarkers_replaceAll (by decide), onlyMarkers_replaceAll (by decide),
    onlyMarkers_replaceAll (by decide)]
  constructor
  · rintro ⟨⟨⟨only, no_newline⟩, no_tab⟩, no_fence⟩
    rw [replaceAll_of_absent no_newline] at no_tab no_fence
    rw [replaceAll_of_absent no_tab] at no_fence
    exact ⟨only, no_fence⟩
  · rintro ⟨only, no_fence⟩
    have no_newline : ¬lit "\n" <:+: text := only.absent (by decide)
    have no_tab : ¬lit "\t" <:+: text := only.absent (by decide)
    rw [replaceAll_of_absent no_newline, replaceAll_of_absent no_tab]
    exact ⟨⟨⟨only, no_newline⟩, no_tab⟩, no_fence⟩

theorem newline_term (text : Str) :
    10 ∉ replaceAll (replaceAll (replaceAll text (lit "\n") (lit " ")) (lit "\t") (lit " "))
      (lit "```")
      (lit " ") := by
  intro member
  have tabs := (mem_replaceAll member).resolve_right (by decide)
  have newlines := (mem_replaceAll tabs).resolve_right (by decide)
  exact not_mem_replaceAll text (by decide) newlines

theorem harmless_sanitizeGemini {replace : Str → Str → Str → Str} (replaces : ReplacesAll replace)
    (text : Str) :
    Harmless (sanitizeGemini replace text) ↔ ¬(OnlyMarkers text ∧ ¬lit "```" <:+: text) := by
  rw [← onlyMarkers_term, sanitizeGemini, replaces _ _ _ (by decide), replaces _ _ _ (by decide),
    replaces _ _ _ (by decide)]
  refine harmless_stripMarkers (newline_term text) fun member => ?_
  have tabs := (mem_replaceAll member).resolve_right (by decide)
  exact not_mem_replaceAll _ (by decide) tabs

/-! ### The preview -/

theorem mem_collapseSpaces {isSpace : Bool} {text : Str} {c : UInt8}
    (member : c ∈ collapseSpaces isSpace text) :
    c = 32 ∨ c ∉ previewSpaces := by
  induction text generalizing isSpace with
  | nil => cases member
  | cons ch text ih =>
    simp only [collapseSpaces] at member
    split at member
    next plain =>
      rcases List.mem_cons.mp member with rfl | later
      · exact .inr plain
      · exact ih later
    · split at member
      · rcases List.mem_cons.mp member with rfl | later
        · exact .inl rfl
        · exact ih later
      · exact ih member

/-- Behind a character that is no space, every run of spaces leaves a blank. -/
theorem collapseSpaces_markers (text : Str) :
    (∀ c ∈ collapseSpaces false text, c ∈ geminiMarkers) ↔ ∀ c ∈ text, c ∈ geminiMarkers := by
  induction text with
  | nil => exact Iff.rfl
  | cons ch text ih =>
    by_cases space : ch ∈ previewSpaces
    · refine iff_of_false (fun all => ?_) fun all => ?_
      · have blank : 32 ∈ collapseSpaces false (ch :: text) := by simp [collapseSpaces, space]
        exact blank_not_marker (all 32 blank)
      · have no_marker : ∀ c ∈ previewSpaces, c ∉ geminiMarkers := by decide
        exact no_marker ch space (all ch List.mem_cons_self)
    · simp [collapseSpaces, space, ih]

/-- Spaces in front leave nothing. -/
theorem collapseSpaces_dropWhile (text : Str) :
    collapseSpaces true text = collapseSpaces false (text.dropWhile (· ∈ previewSpaces)) := by
  induction text with
  | nil => rfl
  | cons ch text ih =>
    by_cases space : ch ∈ previewSpaces
    · simp [collapseSpaces, space, ih]
    · simp [collapseSpaces, space]

theorem onlyMarkers_collapseSpaces (text : Str) :
    OnlyMarkers (collapseSpaces true text) ↔ OnlyMarkers (text.dropWhile (· ∈ previewSpaces)) := by
  rw [collapseSpaces_dropWhile, OnlyMarkers, OnlyMarkers, collapseSpaces_markers]
  refine and_congr_left fun _ => not_congr ?_
  cases text.dropWhile (· ∈ previewSpaces) with
  | nil => exact Iff.rfl
  | cons ch rest =>
    refine iff_of_false ?_ (List.cons_ne_nil ch rest)
    simp only [collapseSpaces]
    split <;> simp

theorem harmless_sanitizePreviw (text : Str) :
    Harmless (sanitizePreviw text) ↔ ¬OnlyMarkers (text.dropWhile (· ∈ previewSpaces)) := by
  rw [← onlyMarkers_collapseSpaces]
  apply harmless_stripMarkers
  · intro member
    exact absurd (mem_collapseSpaces member) (by decide)
  · intro member
    exact absurd (mem_collapseSpaces member) (by decide)

/-- The search term gives its line no type unless it is nothing but markers and has no code fence,
and the preview does not unless it is nothing but markers behind the spaces in front. -/
theorem sanitizers_harmless_iff {replace : Str → Str → Str → Str} (replaces : ReplacesAll replace)
    (text : Str) :
    (Harmless (sanitizeGemini replace text) ↔ ¬(OnlyMarkers text ∧ ¬lit "```" <:+: text)) ∧
      (Harmless (sanitizePreviw text) ↔ ¬OnlyMarkers (text.dropWhile (· ∈ previewSpaces))) :=
  ⟨harmless_sanitizeGemini replaces text, harmless_sanitizePreviw text⟩

theorem sanitizers_harmless_iff_heading :
    (Harmless (sanitizeGemini replaceAll (lit "# a")) ↔
      ¬(OnlyMarkers (lit "# a") ∧ ¬lit "```" <:+: lit "# a")) ∧
      (Harmless (sanitizePreviw (lit "# a")) ↔
        ¬OnlyMarkers ((lit "# a").dropWhile (· ∈ previewSpaces))) :=
  sanitizers_harmless_iff (fun _ _ _ _ => rfl) (lit "# a")

/-- `#` is a heading after both. -/
theorem markers_returned :
    ReplacesAll replaceAll ∧ sanitizeGemini replaceAll (lit "#") = lit "#" ∧
      sanitizePreviw (lit "#") = lit "#" ∧
      ¬Harmless (sanitizeGemini replaceAll (lit "#")) ∧ ¬Harmless (sanitizePreviw (lit "#")) := by
  refine ⟨fun _ _ _ _ => rfl, by decide, by decide, fun harmless => ?_, fun harmless => ?_⟩
  · exact absurd (harmless.no_marker 35 (by decide)) (by decide)
  · exact absurd (harmless.no_marker 35 (by decide)) (by decide)

end Tlgs

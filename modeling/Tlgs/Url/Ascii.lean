import Tlgs.Url.Parser

/-!
# URLs in ASCII

The parser takes the components out of the text, lowers letters and normalises the path, and the
printer adds marks and digits. Of a text in ASCII they make a text in ASCII.
-/
namespace Tlgs

open Bytes LexicalPath

theorem tolower_ascii {c : UInt8} (ascii : c < 0x80) : tolower c < 0x80 := by
  cases upper : isupper c with
  | false => rwa [tolower_of_not_upper upper]
  | true =>
    have value := tolower_toNat_of_upper upper
    have range := (isupper_iff c).mp upper
    have bound : (tolower c).toNat < 128 := by omega
    exact bound

theorem isdigit_ascii {c : UInt8} (digit : isdigit c = true) : c < 0x80 := by
  have range := (isdigit_iff c).mp digit
  have bound : c.toNat < 128 := by omega
  exact bound

namespace Url

/-- ASCII in every component that is a text. -/
structure Ascii (url : Url) : Prop where
  protocol : ∀ c ∈ url.protocol, c < 0x80
  host : ∀ c ∈ url.host, c < 0x80
  path : ∀ c ∈ url.path, c < 0x80
  param : ∀ c ∈ url.param, c < 0x80
  fragment : ∀ c ∈ url.fragment, c < 0x80

variable {url : Url} {sv : Str}

theorem Ascii.normalize (ascii : url.Ascii) (rooted : url.path.head? = some slash) :
    url.normalize.Ascii where
  protocol := List.forall_mem_map.mpr fun c member => tolower_ascii (ascii.protocol c member)
  host := List.forall_mem_map.mpr fun c member => tolower_ascii (ascii.host c member)
  path := by
    intro c member
    rcases mem_lexicallyNormal rooted member with rfl | inside
    · decide
    · exact ascii.path c inside
  param := ascii.param
  fragment := ascii.fragment

theorem ascii_parsePath (ascii : url.Ascii) (text : ∀ c ∈ sv, c < 0x80) :
    (parsePath true url sv).Ascii := by
  have front : ∀ c ∈ slash :: sv.takeWhile (fun c => c != question && c != hash), c < 0x80 :=
    List.forall_mem_cons.mpr
      ⟨by decide, fun c member => text c ((List.takeWhile_prefix _).subset member)⟩
  have path : (normalize { url with
      path := slash :: sv.takeWhile fun c => c != question && c != hash }).Ascii :=
    Ascii.normalize { ascii with path := front } rfl
  have behind : ∀ c ∈ sv.dropWhile (fun c => c != question && c != hash), c < 0x80 :=
    fun c member => text c ((List.dropWhile_suffix _).subset member)
  -- query and fragment are cut from what stands behind the path
  simp only [parsePath, normalizeIf, if_true]
  split
  · exact path
  next mark rest found =>
    rw [found] at behind
    have later := (List.forall_mem_cons.mp behind).2
    split
    · have query := fun c member => later c ((List.takeWhile_prefix (· != hash)).subset member)
      split
      · exact { path with param := query }
      next fragment hashed =>
        refine { path with param := query, fragment := fun c member => later c ?_ }
        refine (List.dropWhile_suffix (· != hash)).subset ?_
        rw [hashed]
        exact List.mem_cons_of_mem _ member
    · exact { path with fragment := later }

theorem ascii_parsePort (ascii : url.Ascii) (text : ∀ c ∈ sv, c < 0x80) :
    (parsePort true url sv).Ascii := by
  have behind : ∀ c ∈ (sv.dropWhile (· != slash)).drop 1, c < 0x80 :=
    fun c member => text c ((List.dropWhile_suffix _).subset (List.mem_of_mem_drop member))
  simp only [parsePort]
  split
  · exact { ascii with }
  · split
    · exact { ascii with }
    · split
      · exact { ascii with }
      · exact ascii_parsePath { ascii with } behind

theorem ascii_parseHost (ascii : url.Ascii) (text : ∀ c ∈ sv, c < 0x80) :
    (parseHost true url sv).Ascii := by
  have host : ∀ c ∈ sv.takeWhile (fun c => c != colon && c != slash), c < 0x80 :=
    fun c member => text c ((List.takeWhile_prefix _).subset member)
  have behind : ∀ c ∈ sv.dropWhile (fun c => c != colon && c != slash), c < 0x80 :=
    fun c member => text c ((List.dropWhile_suffix _).subset member)
  simp only [parseHost, normalizeIf, if_true]
  split
  · exact { ascii with host := host }
  · split
    · have root : ∀ c ∈ [slash], c < 0x80 := by decide
      exact Ascii.normalize { ascii with host := host, path := root } rfl
    next mark rest found =>
      rw [found] at behind
      have later := (List.forall_mem_cons.mp behind).2
      split
      · exact ascii_parsePort { ascii with host := host } later
      · exact ascii_parsePath { ascii with host := host } later

theorem ascii_ofString {str : Str} (uninit : Int) (text : ∀ c ∈ str, c < 0x80) :
    (ofString uninit str).Ascii := by
  have empty : ∀ c ∈ ([] : Str), c < 0x80 := fun _ member => absurd member List.not_mem_nil
  have blank : ({ defaultPort := uninit } : Url).Ascii := ⟨empty, empty, empty, empty, empty⟩
  have behind : ∀ n, ∀ c ∈ str.drop n, c < 0x80 :=
    fun n c member => text c (List.mem_of_mem_drop member)
  simp only [ofString]
  split
  · exact { blank with }
  · split
    · exact { blank with }
    · exact ascii_parseHost blank (behind 2)
    next before _ =>
      have protocol : ∀ c ∈ str.take before, c < 0x80 :=
        fun c member => text c (List.mem_of_mem_take member)
      split
      · exact { blank with }
      · split
        · exact { blank with protocol := protocol }
        · exact ascii_parseHost { blank with protocol := protocol } (behind _)

theorem ascii_toStringInt (n : Int) : ∀ c ∈ toStringInt n, c < 0x80 := by
  intro c member
  simp only [toStringInt] at member
  split at member
  · rcases List.mem_cons.mp member with rfl | digit
    · decide
    · exact isdigit_ascii (isdigit_of_mem_decimal digit)
  · exact isdigit_ascii (isdigit_of_mem_decimal member)

theorem Ascii.str (ascii : url.Ascii) : ∀ c ∈ url.str, c < 0x80 := by
  have marked : ∀ (mark : UInt8) (part : Str), mark < 0x80 → (∀ c ∈ part, c < 0x80) →
      ∀ c ∈ (if part = [] then [] else mark :: part), c < 0x80 := by
    intro mark part low inside
    split
    · exact fun _ member => absurd member List.not_mem_nil
    · exact List.forall_mem_cons.mpr ⟨low, inside⟩
  simp only [Url.str, authority, portText, suffix, List.forall_mem_append]
  refine ⟨⟨⟨⟨?_, ascii.host⟩, ?_⟩, ascii.path⟩, marked question _ (by decide) ascii.param,
    marked hash _ (by decide) ascii.fragment⟩
  · split
    · decide
    · exact List.forall_mem_append.mpr ⟨ascii.protocol, by decide⟩
  · split
    · exact List.forall_mem_cons.mpr ⟨by decide, ascii_toStringInt _⟩
    · exact fun _ member => absurd member List.not_mem_nil

end Url
end Tlgs

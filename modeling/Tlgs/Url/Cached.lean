import Tlgs.Base.Memo
import Tlgs.Url.Parser

/-!
# The cache of `tlgs::Url`

`str()` keeps what it prints in the mutable member `cache_`, an empty text standing for none. Every
mutator clears it but `validate()`, which sets `good_` only, and a copy carries it along. A URL of
the source is a value of `Url` with such a text, and prints what `Url.str` makes of its fields.
-/
namespace Tlgs

open Bytes LexicalPath

/-! ### The members that the parser does not use -/

namespace Url

def withHost (url : Url) (newHost : Str) : Url := { url with host := newHost }

/-- `withPath(new_path, normalize_path)`. -/
def withPathAs (url : Url) (newPath : Str) (normalizePath : Bool) : Url :=
  let path := if newPath.head? = some slash then newPath else slash :: newPath
  { url with path := if normalizePath then lexicallyNormal path else path }

/-- `withPort(new_port)`, and `withPort()` for a port of 0. -/
def withPort (url : Url) (newPort : UInt16) : Url := { url with port_ := newPort.toNat }

def withDefaultPort (url : Url) (n : UInt16) : Url := { url with defaultPort := n.toNat }

def validate (url : Url) : Url :=
  { url with
    good := url.protocol ≠ [] && url.host ≠ [] && url.path ≠ [] && url.protocol.all isalnum }

end Url

/-! ### The object with its cache -/

/-- The fields, and `cache_`. -/
abbrev CachedUrl := Memo.Object Url Str

namespace CachedUrl

/-- The constructor, which never calls `str()`. -/
def ofString (uninit : Int) (str : Str) (normalizeUrl : Bool := true) : CachedUrl :=
  ⟨Url.ofString uninit str normalizeUrl, []⟩

def str (url : CachedUrl) : Str × CachedUrl := Memo.print Url.str [] url

def withHost (newHost : Str) : CachedUrl → CachedUrl := Memo.clear [] (Url.withHost · newHost)

def withPath (newPath : Str) (normalizePath : Bool := true) : CachedUrl → CachedUrl :=
  Memo.clear [] (Url.withPathAs · newPath normalizePath)

def withParam (newParam : Str) : CachedUrl → CachedUrl := Memo.clear [] (Url.withParam · newParam)

def withProtocol (newProtocol : Str) : CachedUrl → CachedUrl :=
  Memo.clear [] (Url.withProtocol · newProtocol)

/-- Both overloads, see `Url.withPort`. -/
def withPort (newPort : UInt16) : CachedUrl → CachedUrl := Memo.clear [] (Url.withPort · newPort)

def withDefaultPort (n : UInt16) : CachedUrl → CachedUrl := Memo.clear [] (Url.withDefaultPort · n)

def withFragment (newFragment : Str) : CachedUrl → CachedUrl :=
  Memo.clear [] (Url.withFragment · newFragment)

def normalize : CachedUrl → CachedUrl := Memo.clear [] Url.normalize

/-- The only member that changes a field and leaves `cache_` alone. -/
def validate : CachedUrl → CachedUrl := Memo.keep Url.validate

end CachedUrl

/-- The members that change a URL. -/
inductive UrlCall
  | withHost (newHost : Str)
  | withPath (newPath : Str) (normalizePath : Bool)
  | withParam (newParam : Str)
  | withProtocol (newProtocol : Str)
  | withPort (newPort : UInt16)
  | withDefaultPort (n : UInt16)
  | withFragment (newFragment : Str)
  | normalize
  | validate
  deriving DecidableEq, Repr

namespace UrlCall

def act : UrlCall → CachedUrl → CachedUrl
  | .withHost newHost => CachedUrl.withHost newHost
  | .withPath newPath normalizePath => CachedUrl.withPath newPath normalizePath
  | .withParam newParam => CachedUrl.withParam newParam
  | .withProtocol newProtocol => CachedUrl.withProtocol newProtocol
  | .withPort newPort => CachedUrl.withPort newPort
  | .withDefaultPort n => CachedUrl.withDefaultPort n
  | .withFragment newFragment => CachedUrl.withFragment newFragment
  | .normalize => CachedUrl.normalize
  | .validate => CachedUrl.validate

/-- What becomes of the fields. -/
def apply : UrlCall → Url → Url
  | .withHost newHost => (Url.withHost · newHost)
  | .withPath newPath normalizePath => (Url.withPathAs · newPath normalizePath)
  | .withParam newParam => (Url.withParam · newParam)
  | .withProtocol newProtocol => (Url.withProtocol · newProtocol)
  | .withPort newPort => (Url.withPort · newPort)
  | .withDefaultPort n => (Url.withDefaultPort · n)
  | .withFragment newFragment => (Url.withFragment · newFragment)
  | .normalize => Url.normalize
  | .validate => Url.validate

end UrlCall

/-- `good_` is not printed. -/
theorem Url.str_validate (url : Url) : url.validate.str = url.str := rfl

theorem urlCall_sound : Memo.Sound Url.str [] UrlCall.act UrlCall.apply := by
  constructor
  · intro call url
    cases call <;> rfl
  · intro call url coherent
    cases call with
    | validate => exact Memo.coherent_keep (Url.str_validate url.value) coherent
    | _ => exact Memo.coherent_clear _

/-! ### Runs -/

/-- One call on some URLs: one more is constructed or copied, one is assigned or changed, or `str()`
is called. -/
abbrev UrlAction := Memo.Call Url UrlCall

def urlStep (urls : List CachedUrl) (action : UrlAction) : Option (List CachedUrl) :=
  Memo.step Url.str [] UrlCall.act urls action

/-- Whatever is called on whichever URLs, `str()` returns the rendering of the fields as they are
then, and the fields are what they would be without a cache. -/
theorem str_current {past : List (List CachedUrl × UrlAction)} {urls : List CachedUrl}
    (run : Transition.Run urlStep [] past urls) :
    (∀ url ∈ urls, url.str.1 = url.value.str) ∧
      (∀ entry ∈ past, ∀ i url, entry.2 = .print i → entry.1[i]? = some url →
        url.str.1 = url.value.str) ∧
      Transition.Run (Memo.plainStep UrlCall.apply) []
        (past.map fun entry => (Memo.values entry.1, entry.2))
        (Memo.values urls) := by
  obtain ⟨coherent, answers⟩ := Memo.run_current urlCall_sound run
  refine ⟨fun url member => Memo.print_current (coherent url member), ?_,
    Memo.run_values urlCall_sound run⟩
  rintro ⟨before, action⟩ member i url rfl found
  have answered := answers _ member
  -- the answer of the call is that of the object found there
  simpa [Memo.answer, Memo.plainAnswer, Memo.values, found, CachedUrl.str] using answered

/-- A URL is printed and copied with its cache, and the copy is given another path. -/
theorem str_current_copy :
    let actions : List UrlAction :=
      [.construct (Url.ofString 0 (lit "gemini://h/")), .print 0, .copy 0,
        .change 1 (.withPath (lit "a") true)]
    ∃ past urls, Transition.replay urlStep [] [] actions = some (past, urls) ∧
      urls.map (fun url => url.str.1) = [lit "gemini://h/", lit "gemini://h/a"] ∧
      ∀ url ∈ urls, url.str.1 = url.value.str := by
  intro actions
  refine ⟨_, _, rfl, by decide, ?_⟩
  have replayed : Transition.replay urlStep [] [] actions = some _ := rfl
  exact (str_current (Transition.Run.of_replay .start replayed)).1

end Tlgs

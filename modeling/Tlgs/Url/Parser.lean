import Tlgs.Base.LexicalPath
import Tlgs.Base.Numerals

/-!
# `tlgs::Url`

The URL type of `url_parser.hpp` and its parser and printer. `str()` memoises its
result and every mutator clears the memo, so the memo is left out here and `str` is
the rendering of the fields. `default_port_` has no initialiser: the constructor sets
it only once a scheme was read, and until then it holds whatever was in memory. That
value is the parameter `uninit`.
-/
namespace Tlgs

open Bytes LexicalPath

abbrev colon : UInt8 := 58
abbrev question : UInt8 := 63
abbrev hash : UInt8 := 35
abbrev fullStop : UInt8 := 46

structure Url where
  protocol : Str := []
  host : Str := []
  port_ : Int := 0
  path : Str := []
  param : Str := []
  fragment : Str := []
  good : Bool := true
  defaultPort : Int
  deriving DecidableEq, Repr

namespace Url

def protocolDefaultPort (proto : Str) : Int :=
  if proto = lit "http" then 80
  else if proto = lit "https" then 443
  else if proto = lit "gemini" then 1965
  else if proto = lit "gopher" then 70
  else if proto = lit "ftp" then 21
  else 0

def normalize (url : Url) : Url :=
  { url with
    protocol := url.protocol.map tolower
    path := lexicallyNormal url.path
    host := url.host.map tolower }

def normalizeIf (normalizeUrl : Bool) (url : Url) : Url :=
  if normalizeUrl then url.normalize else url

def bad (url : Url) : Url := { url with good := false }

/-- From "Find path" on: `sv` is the text after the slash that ends the authority. -/
def parsePath (normalizeUrl : Bool) (url : Url) (sv : Str) : Url :=
  let path := slash :: sv.takeWhile (fun c => c != question && c != hash)
  let url := normalizeIf normalizeUrl { url with path := path }
  match sv.dropWhile (fun c => c != question && c != hash) with
  | [] => url
  | mark :: sv =>
    if mark = question then
      -- a question mark after the first belongs to the query, a hash ends it
      let url := { url with param := sv.takeWhile (· != hash) }
      match sv.dropWhile (· != hash) with
      | [] => url
      | _ :: fragment => { url with fragment := fragment }
    else { url with fragment := sv }

/-- From "Find port" on: `sv` is the text after the colon. -/
def parsePort (normalizeUrl : Bool) (url : Url) (sv : Str) : Url :=
  let portSv := sv.takeWhile (· != slash)
  if portSv = [] then url.bad
  else
    match stoi portSv with
    | none => url.bad
    | some port =>
      -- the port is stored before its range is tested
      let url := { url with port_ := port }
      if port ≤ 0 ∨ port > 65535 then url.bad
      else parsePath normalizeUrl url ((sv.dropWhile (· != slash)).drop 1)

/-- From "Find host" on: `sv` is the text after the double slash. -/
def parseHost (normalizeUrl : Bool) (url : Url) (sv : Str) : Url :=
  let host := sv.takeWhile (fun c => c != colon && c != slash)
  let url := { url with host := host }
  if host = [] ∨ host.head? = some fullStop then url.bad
  else
    match sv.dropWhile (fun c => c != colon && c != slash) with
    | [] => normalizeIf normalizeUrl { url with path := [slash] }
    | mark :: sv =>
      if mark = colon then parsePort normalizeUrl url sv
      else parsePath normalizeUrl url sv

/-- `Url::Url(str, normalize_url)`. -/
def ofString (uninit : Int) (str : Str) (normalizeUrl : Bool := true) : Url :=
  let url : Url := { defaultPort := uninit }
  if str = [] then url.bad
  else
    match find (lit "//") str with
    | none => url.bad
    -- no scheme: the protocol stays empty and the default port is not set
    | some 0 => parseHost normalizeUrl url (str.drop 2)
    | some (before + 1) =>
      if str[before]? ≠ some colon then url.bad
      else
        let url := { url with protocol := str.take before }
        if url.protocol = [] ∨ url.protocol.all isalnum = false then url.bad
        else
          -- the scheme is looked up as it is spelled, before `normalize` lower-cases it
          let url := { url with defaultPort := protocolDefaultPort url.protocol }
          parseHost normalizeUrl url (str.drop (before + 3))

/-- `std::to_string` of an `int`. -/
def toStringInt (n : Int) : Str :=
  if n < 0 then 45 :: decimal n.natAbs else decimal n.natAbs

/-- The scheme and host, as `str()` begins. -/
def authority (url : Url) : Str :=
  (if url.protocol = [] then lit "//" else url.protocol ++ lit "://") ++ url.host

/-- The port as `str()` prints it: left out when absent or the default. -/
def portText (url : Url) : Str :=
  if url.port_ ≠ 0 ∧ url.defaultPort ≠ url.port_ then colon :: toStringInt url.port_ else []

/-- The query and fragment as `str()` prints them. -/
def suffix (url : Url) : Str :=
  (if url.param = [] then [] else question :: url.param) ++
    (if url.fragment = [] then [] else hash :: url.fragment)

def str (url : Url) : Str :=
  url.authority ++ url.portText ++ url.path ++ url.suffix

def hostWithPort (url : Url) (default_port : Int) : Str :=
  if url.port_ = 0 ∧ default_port ≠ 0 then url.host ++ colon :: toStringInt default_port
  else url.host ++ colon :: toStringInt url.port_

def withPath (url : Url) (newPath : Str) : Url :=
  let path := if newPath.head? = some slash then newPath else slash :: newPath
  { url with path := lexicallyNormal path }

def withParam (url : Url) (newParam : Str) : Url := { url with param := newParam }
def withProtocol (url : Url) (newProtocol : Str) : Url := { url with protocol := newProtocol }
def withFragment (url : Url) (newFragment : Str) : Url := { url with fragment := newFragment }

def port (url : Url) (default_port : Int := 0) : Int :=
  if url.port_ ≠ 0 then url.port_
  else if default_port ≠ 0 then default_port
  else url.defaultPort

/-- `operator<`: protocol, host, path, param, fragment and port, in this order. -/
def lt (a b : Url) : Bool :=
  if a.protocol ≠ b.protocol then a.protocol < b.protocol
  else if a.host ≠ b.host then a.host < b.host
  else if a.path ≠ b.path then a.path < b.path
  else if a.param ≠ b.param then a.param < b.param
  else if a.fragment ≠ b.fragment then a.fragment < b.fragment
  else if a.port_ ≠ b.port_ then a.port_ < b.port_
  else false

/-- `operator==`, over the same fields. -/
def beq (a b : Url) : Bool :=
  a.protocol = b.protocol && a.host = b.host && a.path = b.path && a.param = b.param &&
    a.fragment = b.fragment && a.port_ = b.port_

/-! ### What a good URL looks like -/

/-- The components a successful parse leaves behind. -/
structure WellFormed (url : Url) : Prop where
  good : url.good = true
  protocol_alnum : ∀ c ∈ url.protocol, isalnum c = true
  protocol_lower : url.protocol.map tolower = url.protocol
  host_nonempty : url.host ≠ []
  host_first : url.host.head? ≠ some fullStop
  host_plain : ∀ c ∈ url.host, c ≠ colon ∧ c ≠ slash
  host_lower : url.host.map tolower = url.host
  port_range : 0 ≤ url.port_ ∧ url.port_ ≤ 65535
  path_rooted : url.path.head? = some slash
  path_normal : lexicallyNormal url.path = url.path
  path_plain : ∀ c ∈ url.path, c ≠ question ∧ c ≠ hash
  param_plain : hash ∉ url.param

example :
    (ofString 0 (lit "gemini://localhost:1965/a/../b?15")).str = lit "gemini://localhost/b?15" := by
  decide

end Url
end Tlgs

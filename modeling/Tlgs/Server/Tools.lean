import Tlgs.Crawler.Tables

/-!
# `add_seed`

What the handler of `ToolsController` answers to the text that was entered, and the row that it
inserts for it.
-/
namespace Tlgs

open Bytes

inductive SeedAnswer
  /-- status 10, with its meta line -/
  | askInput (meta_ : Str)
  /-- status 403 -/
  | forbidden (body : Str)
  /-- the row that is inserted unless there is one, and the page shown -/
  | added (page : NewPage) (body : Str)
  deriving DecidableEq, Repr

/-- `input` is the decoded query, `protocol` the header that names the protocol of the request. -/
def addSeed (uninitUrl : Str → Int) (input protocol : Str) : SeedAnswer :=
  if input = [] then .askInput (lit "URL to your capsule")
  else
    let url := Url.ofString (uninitUrl input) input
    if url.good = false ∨ url.protocol ≠ lit "gemini" then .askInput (lit "Invalid URL. Try again")
    else if protocol ≠ lit "gemini" then
      .forbidden (lit "We only accept links directly through Gemini")
    else .added ⟨url.str, url.host, url.port 1965⟩ (lit "# Adding Capsule\nAdded " ++ input)

end Tlgs

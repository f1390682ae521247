import Tlgs.Crawler.Changes

/-!
# What the tables name

Whatever a capsule links to, every row of `pages` and `links` is about Gemini pages: its texts are
those of URLs that the parser accepted, either bound to a statement or read from between its quotes.
-/
namespace Tlgs

open Bytes Interactive

/-- How a text gets into a statement: as a parameter, or escaped and between quotes. -/
inductive Spelling (env : Env) : (Str → Str) → Prop
  | bound : Spelling env id
  | quoted : Spelling env fun text => env.readLiteral (pgSQLRealEscape env.replaceAll text)

/-- The row of `pages` is that of a Gemini URL. A seed has the default port written out. -/
def NamesPage (env : Env) (key domainName : Str) (port : Int) : Prop :=
  ∃ (url : Url) (spell : Str → Str), url.WellFormed ∧ url.protocol = lit "gemini" ∧
    Spelling env spell ∧
    key = spell url.str ∧ domainName = spell url.host ∧ (port = url.port ∨ port = url.port 1965)

/-- The row of `links` is that of a link from a Gemini URL to a Gemini URL. -/
def NamesLink (env : Env) (row : LinkRow) : Prop :=
  ∃ url linkUrl : Url, url.WellFormed ∧ url.protocol = lit "gemini" ∧
    linkUrl.WellFormed ∧ linkUrl.protocol = lit "gemini" ∧
      row = env.readLink (linkValues env url linkUrl)

/-- What is inserted is about Gemini pages. -/
def Op.named (env : Env) : Op → Prop
  | .insertPage page => NamesPage env page.url page.domainName page.port
  | .insertPages pages => ∀ page ∈ pages,
      NamesPage env (env.readPage page).url (env.readPage page).domainName page.port
  | .insertLinks rows => ∀ row ∈ rows, NamesLink env (env.readLink row)
  | _ => True

variable {env : Env} {fails : Op → Str → Prop} {web : RobotsWeb} {robots : RobotsAnswers}

/-- No statement changes what a row is about. -/
theorem Rewritten.names {now : Time} {key : Str} {old row : PageRow} {op : Op}
    (rewritten : Rewritten env now key old op row) :
    row.domainName = old.domainName ∧ row.port = old.port := by
  cases rewritten <;> exact ⟨rfl, rfl⟩

theorem Inserted.names {op : Op} {page : NewPage} (named : op.named env)
    (inserted : Inserted env op page) :
    NamesPage env page.url page.domainName page.port := by
  cases inserted with
  | page page => exact named
  | pages member => exact named _ member

end Tlgs

import Tlgs.Url.Parser

/-!
# Search results and their filters

The ranked results that `pageSearch` returns and the four lists of constraints a
query can put on them. `evalFilter` receives the host and the content type of a
result, so the title constraints are compared with the content type.
-/
namespace Tlgs

open Bytes

structure RankedResult where
  url : Str
  contentType : Str
  size : UInt64
  contentHash : UInt64
  score : Rat
  deriving DecidableEq, Repr

structure FilterConstrant where
  value : Str
  negate : Bool
  deriving DecidableEq, Repr

structure SizeConstrant where
  size : UInt64
  greater : Bool
  deriving DecidableEq, Repr

structure SearchFilter where
  contentType : List FilterConstrant := []
  domain : List FilterConstrant := []
  size : List SizeConstrant := []
  title : List FilterConstrant := []
  deriving DecidableEq, Repr

namespace SearchFilter

/-- The title constraints are not looked at. -/
def empty (filter : SearchFilter) : Bool :=
  filter.contentType.isEmpty && filter.domain.isEmpty && filter.size.isEmpty

end SearchFilter

/-- One list of constraints: no constraint, or one that accepts. -/
def anyAccepts {Constraint : Type} (accepts : Constraint → Bool)
    (constraints : List Constraint) : Bool :=
  constraints.isEmpty || constraints.any accepts

def sizeAccepts (size : UInt64) (constrant : SizeConstrant) : Bool :=
  if constrant.greater then constrant.size < size else size < constrant.size

def domainAccepts (host : Str) (constrant : FilterConstrant) : Bool :=
  constrant.negate ^^ (host == constrant.value)

def contentTypeAccepts (contentType : Str) (constrant : FilterConstrant) : Bool :=
  constrant.negate ^^ (contentType != [] && constrant.value.isPrefixOf contentType)

def evalFilter (host contentType : Str) (size : UInt64) (filter : SearchFilter) : Bool :=
  if size == 0 && !filter.size.isEmpty then false
  else if !anyAccepts (sizeAccepts size) filter.size then false
  else if !anyAccepts (domainAccepts host) filter.domain then false
  else if !anyAccepts (contentTypeAccepts contentType) filter.contentType then false
  else if !anyAccepts (contentTypeAccepts contentType) filter.title then false
  else true

/-- The loop of `tlgs_search` over the ranked results. Only the host of the parsed URL
is used, and no indeterminate field enters it. -/
def filterResults (filter : SearchFilter) (ranked : List RankedResult) : List RankedResult :=
  if filter.empty then ranked
  else ranked.filter fun item =>
    evalFilter (Url.ofString 0 item.url).host item.contentType item.size filter

theorem filterResults_sublist (filter : SearchFilter) (ranked : List RankedResult) :
    (filterResults filter ranked).Sublist ranked := by
  simp only [filterResults]
  split
  · exact List.Sublist.refl _
  · exact List.filter_sublist

end Tlgs

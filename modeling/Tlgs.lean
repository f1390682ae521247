import Tlgs.Base.Bytes
import Tlgs.Base.Numerals
import Tlgs.Base.LexicalPath
import Tlgs.Base.DotSegments
import Tlgs.Url.Parser
import Tlgs.Url.Canonical
import Tlgs.Url.Grammar
import Tlgs.Url.Compose
import Tlgs.Url.Reference
import Tlgs.Robots.PathMatch
import Tlgs.Url.Blacklist
import Tlgs.Base.Glob
import Tlgs.Base.AnchoredGlob
import Tlgs.Base.Greedy
import Tlgs.Base.OrderedSet
import Tlgs.Robots.Wildcards
import Tlgs.Robots.Fallback
import Tlgs.Robots.Parse
import Tlgs.Robots.Groups
import Tlgs.Robots.Comments
import Tlgs.Url.Order
import Tlgs.Search.Filter
import Tlgs.Search.Paging
import Tlgs.Base.Transition
import Tlgs.Base.Program
import Tlgs.Base.Threads
import Tlgs.Crawler.Dispatch
import Tlgs.Search.Query
import Tlgs.Search.Meaning
import Tlgs.Search.Words
import Tlgs.Base.Rounding
import Tlgs.Search.Sizes
import Tlgs.Search.Complement
import Tlgs.Base.Representatives
import Tlgs.Base.Exchange
import Tlgs.Search.Dedup
import Tlgs.Search.Merging
import Tlgs.Search.Cache
import Tlgs.Base.Neighbours
import Tlgs.Base.SwapRemove
import Tlgs.Search.Salsa
import Tlgs.Search.Pruning
import Tlgs.Search.Renumbering
import Tlgs.Gemini.Document
import Tlgs.Gemini.Concise
import Tlgs.Base.Runs
import Tlgs.Gemini.Gemsub
import Tlgs.Base.Table
import Tlgs.Crawler.Tables
import Tlgs.Search.Network
import Tlgs.Crawler.Page
import Tlgs.Crawler.Mime
import Tlgs.Base.Charsets
import Tlgs.Crawler.Encoding
import Tlgs.Crawler.Policy
import Tlgs.Crawler.PolicySources
import Tlgs.Crawler.Effects
import Tlgs.Crawler.Queue
import Tlgs.Crawler.Fetched
import Tlgs.Crawler.Store
import Tlgs.Crawler.Escape
import Tlgs.Crawler.Links
import Tlgs.Base.Literals
import Tlgs.Crawler.Statements
import Tlgs.Crawler.Resolve
import Tlgs.Crawler.LinkSet
import Tlgs.Crawler.Start
import Tlgs.Crawler.Retry
import Tlgs.Crawler.Redirects
import Tlgs.Crawler.RedirectBudget
import Tlgs.Crawler.Backoff
import Tlgs.Crawler.Versions
import Tlgs.Crawler.Skip
import Tlgs.Base.Memo
import Tlgs.Url.Cached
import Tlgs.Base.FormEncoding
import Tlgs.Search.Encode
import Tlgs.Search.Sanitize
import Tlgs.Crawler.NonUri
import Tlgs.Base.Ownership
import Tlgs.Crawler.Counters
import Tlgs.Crawler.InBlacklist
import Tlgs.Base.Utf8
import Tlgs.Url.Ascii
import Tlgs.Crawler.Title
import Tlgs.Base.Substitution
import Tlgs.Base.Permits
import Tlgs.Server.Tools
import Tlgs.Crawler.System
import Tlgs.Crawler.Requests
import Tlgs.Crawler.Obedience
import Tlgs.Crawler.DownHosts
import Tlgs.Crawler.Writes
import Tlgs.Crawler.Changes
import Tlgs.Crawler.Rows
import Tlgs.Crawler.Keys
import Tlgs.Crawler.Freshness
import Tlgs.Search.Handler
import Tlgs.Search.Throttle
import Tlgs.Search.Transparent
import Tlgs.Base.Among
import Tlgs.Crawler.Sampling
import Tlgs.Base.Gemtext
import Tlgs.Search.View
import Tlgs.Search.Walk
import Tlgs.Search.Hits
import Tlgs.Base.Hexadecimal
import Tlgs.Search.Ranking
import Tlgs.Crawler.WindDown
import Tlgs.Base.Traces
import Tlgs.Crawler.Discovery
import Tlgs.Base.Ledger
import Tlgs.Crawler.Conservation

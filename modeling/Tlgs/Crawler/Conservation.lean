import Tlgs.Base.Ledger
import Tlgs.Crawler.Queue

/-!
# What becomes of queued URLs

All calls of `getNextCrawlPage` share `craw_queue_`. A URL that a batch finds is put into the queue
once, one call takes it out, and that call hands it out or marks it as blocked. So nothing that was
queued is lost or handed out twice, in whatever order the calls go on, unless something fails.
-/
namespace Tlgs

open Bytes Interactive

/-! ### The books -/

/-- Taken out of the queue. -/
def takenUrl : Event Op Op.Answer Str → Multiset Str
  | ⟨.tryPop, .ok (some url)⟩ => {url}
  | _ => 0

/-- Put into the queue. -/
def emplacedUrl : Event Op Op.Answer Str → Multiset Str
  | ⟨.emplace url, .ok _⟩ => {url}
  | _ => 0

/-- Found by the query of a batch. -/
def batchUrls : Event Op Op.Answer Str → Multiset Str
  | ⟨.queueBatch _ _, .ok urls⟩ => urls
  | _ => 0

/-- Marked as blocked. -/
def blockedUrl : Event Op Op.Answer Str → Multiset Str
  | ⟨.updateFailed url _ _, .ok _⟩ => {url}
  | _ => 0

/-- The operation has no entry in the books. -/
def Op.unbooked : Op → Prop
  | .tryPop | .emplace _ | .queueBatch _ _ | .updateFailed _ _ _ => False
  | _ => True

/-- Of what the batches found `rest` is still to be put into the queue, and of what was taken
`offered` is not marked as blocked. -/
structure Books (rest offered : Multiset Str) (log : Log) : Prop where
  most : amount emplacedUrl log + rest ≤ amount batchUrls log
  filled : Succeeded log → amount emplacedUrl log + rest = amount batchUrls log
  settled : Succeeded log → amount takenUrl log = amount blockedUrl log + offered

section Entries

variable {rest offered rest' offered' : Multiset Str} {log : Log}

/-- One more event, of which the entries balance. -/
theorem Books.extend (books : Books rest offered log) (event : Event Op Op.Answer Str)
    (filled : emplacedUrl event + rest' = rest + batchUrls event)
    (settled : takenUrl event + offered = blockedUrl event + offered') :
    Books rest' offered' (log ++ [event]) := by
  have before : Succeeded (log ++ [event]) → Succeeded log :=
    fun succeeded earlier member => succeeded earlier (List.mem_append_left _ member)
  have put : amount emplacedUrl (log ++ [event]) + rest' =
      amount emplacedUrl log + rest + batchUrls event := by
    rw [amount_append, add_assoc, filled, add_assoc]
  have out : amount takenUrl (log ++ [event]) + offered =
      amount takenUrl log + (blockedUrl event + offered') := by
    rw [amount_append, add_assoc, settled]
  constructor
  · rw [put, amount_append]
    exact add_le_add_left books.most (batchUrls event)
  · intro succeeded
    rw [put, amount_append, books.filled (before succeeded)]
  · intro succeeded
    refine add_right_cancel (b := offered) ?_
    rw [out, books.settled (before succeeded), amount_append]
    abel

theorem Books.wait (books : Books rest offered log) (op : Op) (unbooked : op.unbooked)
    (answer : Except Str op.Answer) : Books rest offered (log ++ [⟨op, answer⟩]) := by
  have nothing : takenUrl ⟨op, answer⟩ = 0 ∧ emplacedUrl ⟨op, answer⟩ = 0 ∧
      batchUrls ⟨op, answer⟩ = 0 ∧
      blockedUrl ⟨op, answer⟩ = 0 := by
    cases op <;> first | exact False.elim unbooked | exact ⟨rfl, rfl, rfl, rfl⟩
  obtain ⟨taken, emplaced, batch, blocked⟩ := nothing
  refine books.extend ⟨op, answer⟩ ?_ ?_
  · rw [emplaced, batch, zero_add, add_zero]
  · rw [taken, blocked]

/-- A failure leaves undone what was due. -/
theorem Books.fail (books : Books rest offered log) (op : Op) (x : Str) :
    Books 0 offered' (log ++ [⟨op, .error x⟩]) := by
  have nothing : emplacedUrl ⟨op, .error x⟩ = 0 ∧ batchUrls ⟨op, .error x⟩ = 0 := by
    cases op <;> exact ⟨rfl, rfl⟩
  have failed : ¬Succeeded (log ++ [⟨op, .error x⟩]) :=
    fun all => not_succeeded_error (all _ (List.mem_append_right _ List.mem_cons_self))
  refine ⟨?_, fun succeeded => absurd succeeded failed, fun succeeded => absurd succeeded failed⟩
  rw [amount_append, amount_append, nothing.1, nothing.2]
  simpa using (Multiset.le_add_right _ rest).trans books.most

end Entries

/-! ### A call -/

section Calls

variable {rest offered : Multiset Str} {log : Log}

/-- The URL that a call returns. -/
def returned : Except Str (Progress (Option Str)) → Multiset Str
  | .ok (.finished (some url)) => {url}
  | _ => 0

variable {env : Env}

/-- `tlgs::Url(url_str).str()` -/
def canonical (env : Env) (urlStr : Str) : Str := (Url.ofString (env.uninitUrl urlStr) urlStr).str

/-- What is due are the URLs that were handed out, as they print. -/
def HandsOut (env : Env) (outcome : Except Str (Progress (Option Str))) (log : Log) : Prop :=
  ∃ offered, Books 0 offered log ∧ offered.map (canonical env) = returned outcome

theorem HandsOut.nothing {outcome : Except Str (Progress (Option Str))} (books : Books 0 0 log)
    (none : returned outcome = 0) : HandsOut env outcome log :=
  ⟨0, books, none.symm⟩

end Calls

/-! ### In every run -/

section Runs

variable {env : Env} {fails : Op → Str → Prop}

/-- The URL that a call has handed out. -/
def handedOut (thread : Thread Op Op.Answer Str (Progress (Option Str)) Nat) : Multiset Str :=
  match thread.program with
  | .done outcome => returned outcome
  | _ => 0

end Runs

end Tlgs

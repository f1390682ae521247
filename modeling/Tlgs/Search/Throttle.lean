import Tlgs.Search.Handler

/-!
# Too many searches

A request is turned away when more than 64 others were in flight as it came, and is told to wait,
the longer the more were turned away since one was let in. The count of the requests in flight is
kept through answers and exceptions alike.
-/
namespace Tlgs

open Bytes Interactive Interactive.Program Interactive.Permits

/-! ### Requests in flight -/

/-- Neither operation on the count of requests in flight. -/
def SearchOp.inner (op : SearchOp) : Prop := op ≠ .takeCount ∧ op ≠ .giveBack

variable (site : SearchSite)

theorem inner_fetchRanked (queryStr : Str) :
    Within SearchOp.inner (fun _ => True) (fetchRanked site queryStr) := by
  refine within_bind (within_perform ⟨nofun, nofun⟩) fun found => ?_
  cases found with
  | some ranked => exact within_pure
  | none =>
    refine within_bind (within_perform ⟨nofun, nofun⟩) fun ranked => ?_
    exact within_bind (within_perform ⟨nofun, nofun⟩) fun _ => within_pure

theorem inner_fetchFiltered (queryStr : Str) (filter : SearchFilter) :
    Within SearchOp.inner (fun _ => True) (fetchFiltered site queryStr filter) := by
  refine within_bind (within_perform ⟨nofun, nofun⟩) fun found => ?_
  cases found with
  | some filtered => exact within_pure
  | none =>
    refine within_bind (inner_fetchRanked site queryStr) fun ranked => ?_
    exact within_bind (within_perform ⟨nofun, nofun⟩) fun _ => within_pure

theorem inner_selectItems (queryStr : Str) (items : List RankedResult) :
    Within SearchOp.inner (fun _ => True) (selectItems queryStr items) := by
  simp only [selectItems]
  split
  · exact within_pure
  · exact within_perform ⟨nofun, nofun⟩

theorem inner_showResults (req : SearchRequest) (input queryStr : Str) (filter : SearchFilter) :
    Within SearchOp.inner (fun _ => True) (showResults site req input queryStr filter) := by
  refine within_bind (inner_fetchFiltered site queryStr filter) fun filtered => ?_
  cases site.pageSlice (fileName req.path) filtered with
  | none => exact within_pure
  | some items => exact within_bind (inner_selectItems queryStr items) fun _ => within_pure

theorem inner_handleSearch (req : SearchRequest) (count : Nat) :
    Within SearchOp.inner (fun _ => True) (handleSearch site req count) := by
  simp only [handleSearch]
  split
  · exact within_bind (within_perform ⟨nofun, nofun⟩) fun _ => within_pure
  · refine within_bind (within_perform ⟨nofun, nofun⟩) fun _ => ?_
    cases parseSearchQuery site.splitString site.sizeLimit (site.urlDecode req.query) with
    | none => trivial
    | some parsed =>
      dsimp only
      split
      · exact within_pure
      · exact inner_showResults site req _ _ _

theorem brackets_tlgsSearch (req : SearchRequest) :
    Brackets SearchOp.takeCount SearchOp.giveBack (tlgsSearch site req) :=
  brackets_bracket fun count => inner_handleSearch site req count

variable {site} {rows : Rows}

/-- Which operations change the counters. -/
theorem searchStep_keeps {w after : SearchWorld} {op : SearchOp} {answer : Except Str op.Answer}
    (taken : searchStep site rows w op answer after) :
    (op.inner → after.inFlight = w.inFlight) ∧
      (op ≠ .countBackup ∧ op ≠ .resetBackup → after.backupCount = w.backupCount ∧
        after.told = w.told) := by
  cases op <;> cases answer <;> grind [searchStep, SearchOp.inner]

theorem counts_inFlight :
    Counts (searchStep site rows) Expires SearchWorld.inFlight SearchOp.takeCount
    SearchOp.giveBack (fun count => count) where
  acquires s a after taken := by
    obtain ⟨rfl, rfl⟩ := taken
    exact ⟨rfl, rfl⟩
  succeeds s x after taken := taken
  releases s answer after taken := by
    cases answer with
    | error x => cases taken
    | ok done =>
      cases taken
      rfl
  others s op answer after take give taken := (searchStep_keeps taken).1 ⟨take, give⟩
  moves s after moved := by
    obtain ⟨cache, _, rfl⟩ := moved
    rfl

/-! ### What is told to those that are turned away -/

/-- The waits since a request was let in are those of the counts from zero on. -/
def SearchWorld.Backed (w : SearchWorld) : Prop :=
  w.told = (List.range w.backupCount).map retryAfter

theorem backed_step {w after : SearchWorld} {op : SearchOp} {answer : Except Str op.Answer}
    (backed : w.Backed) (taken : searchStep site rows w op answer after) : after.Backed := by
  -- only two operations change what was told
  by_cases counter : op = .countBackup ∨ op = .resetBackup
  · rcases counter with rfl | rfl
    · cases answer with
      | error x => cases taken
      | ok count =>
        obtain ⟨rfl, rfl⟩ := taken
        change w.told ++ [retryAfter w.backupCount] =
          (List.range (w.backupCount + 1)).map retryAfter
        rw [backed, List.range_succ, List.map_append, List.map_singleton]
    · cases answer with
      | error x => cases taken
      | ok done =>
        cases taken
        rfl
  · obtain ⟨count, told⟩ := (searchStep_keeps taken).2 (not_or.mp counter)
    rw [SearchWorld.Backed, count, told]
    exact backed

theorem backed_expires {w after : SearchWorld} (backed : w.Backed) (moved : Expires w after) :
    after.Backed := by
  obtain ⟨cache, _, rfl⟩ := moved
  exact backed

theorem retryAfter_bounds (count : Nat) : 1 ≤ retryAfter count ∧ retryAfter count ≤ 512 := by
  simp only [retryAfter]
  split
  · omega
  · refine ⟨Nat.le_findGreatest (by omega) ?_, Nat.findGreatest_le 512⟩
    rw [Nat.one_pow]
    exact Nat.one_le_two_pow

theorem retryAfter_mono {count later : Nat} (le : count ≤ later) :
    retryAfter count ≤ retryAfter later := by
  by_cases many : 9 * 64 < later
  · have most : retryAfter later = 512 := if_pos many
    rw [most]
    exact (retryAfter_bounds count).2
  · simp only [retryAfter, if_neg many, if_neg (show ¬9 * 64 < count by omega)]
    refine Nat.findGreatest_mono_left (fun n small => ?_) 512
    exact small.trans (Nat.pow_le_pow_right (by omega) le)

/-- The wait doubles with every 64 requests that are turned away. -/
theorem retryAfter_mul {doublings : Nat} (few : doublings ≤ 9) :
    retryAfter (doublings * 64) = 2 ^ doublings := by
  have whole (n : Nat) : n ^ 64 ≤ 2 ^ (doublings * 64) ↔ n ≤ 2 ^ doublings := by
    rw [pow_mul]
    exact Nat.pow_le_pow_iff_left (by omega)
  have most : 2 ^ doublings ≤ 512 := Nat.pow_le_pow_right (n := 2) (by omega) few
  simp only [retryAfter, whole, if_neg (show ¬9 * 64 < doublings * 64 by omega)]
  refine Nat.le_antisymm ?_ (Nat.le_findGreatest most (le_refl _))
  exact Nat.findGreatest_spec (P := fun n => n ≤ 2 ^ doublings) (Nat.zero_le 512) (Nat.zero_le _)

/-! ### Requests that are let in -/

/-- The count of the requests turned away is not reset. -/
def SearchOp.keepsBackup (op : SearchOp) : Prop := op ≠ .resetBackup

/-- A request that was let in has reset the count of those turned away. -/
def LetIn {ι : Type} (thread : Thread SearchOp SearchOp.Answer Str SearchAnswer ι) : Prop :=
  Holding SearchOp.takeCount SearchOp.giveBack thread.program ∧
    ∃ event ∈ thread.log, event.op = .resetBackup

/-- With more than 64 before it, a request never resets the count. -/
def TurnedAway (p : Search SearchAnswer) (log : List (Event SearchOp SearchOp.Answer Str)) : Prop :=
  Within SearchOp.keepsBackup (fun _ => True) p ∧ ∀ event ∈ log, event.op.keepsBackup

variable (site) in
/-- A request has not begun, or it knows how many there were before it. -/
def Numbered (req : SearchRequest) (p : Search SearchAnswer)
    (log : List (Event SearchOp SearchOp.Answer Str)) : Prop :=
  p = tlgsSearch site req ∧ log = [] ∨
    ∃ count rest, log = ⟨.takeCount, .ok count⟩ :: rest ∧ (64 < count → TurnedAway p log)

theorem turnedAway_take {req : SearchRequest} {count : Nat} (many : 64 < count) :
    TurnedAway ((handleSearch site req count).andThen fun outcome => .call .giveBack fun _ =>
      .done outcome)
      [⟨.takeCount, .ok count⟩] := by
  refine ⟨?_, fun event member => ?_⟩
  · rw [handleSearch, if_pos many]
    refine ⟨nofun, fun answer _ => ?_⟩
    cases answer with
    | error x => exact ⟨nofun, fun _ _ => trivial⟩
    | ok waits => exact ⟨nofun, fun _ _ => trivial⟩
  · cases List.mem_singleton.mp member
    exact nofun

theorem numbered_of_reachable {ι : Type} {label : ι → SearchRequest} {pool : Searches ι}
    (reached : Searching site rows label pool) :
    ∀ thread ∈ pool.threads, Numbered site (label thread.label) thread.program thread.log := by
  refine reached.each (fun i => Numbered site (label i)) (fun i => .inl ⟨rfl, rfl⟩) ?_
  rintro i op next log s answer after (⟨begins, rfl⟩ | ⟨count, rest, rfl, away⟩) taken
  · -- the first operation is that of the counter
    cases begins
    cases answer with
    | error x => cases taken
    | ok count => exact .inr ⟨count, [], rfl, turnedAway_take⟩
  · refine .inr ⟨count, rest ++ [⟨op, answer⟩], rfl, fun many => ?_⟩
    obtain ⟨within, kept⟩ := away many
    refine ⟨within.2 answer fun _ _ => trivial, fun event member => ?_⟩
    rcases List.mem_append.mp member with before | last
    · exact kept event before
    · cases List.mem_singleton.mp last
      exact within.1

open Classical in
/-- How many requests that were let in are under way. -/
noncomputable def letIn {ι : Type} (pool : Searches ι) :
    Nat := pool.threads.countP fun thread => LetIn thread

theorem letIn_le_admitted {ι : Type} {label : ι → SearchRequest} {pool : Searches ι}
    (reached : Searching site rows label pool) :
    letIn pool ≤ admitted SearchOp.takeCount SearchOp.giveBack (fun count => count) 64 pool := by
  refine List.countP_mono_left fun thread member inside => ?_
  simp only [decide_eq_true_eq] at inside ⊢
  obtain ⟨holding, event, logged, resets⟩ := inside
  refine ⟨holding, ?_⟩
  rcases numbered_of_reachable reached thread member with ⟨_, empty⟩ | ⟨count, rest, log, away⟩
  · rw [empty] at logged
    cases logged
  · refine ⟨count, rest, log, Nat.le_of_not_lt fun many => ?_⟩
    exact (away many).2 event logged resets

/-- In every run of any number of requests, in any interleaving, through exceptions as well: the
count of requests in flight is the number of those that have begun and not ended; at most 65 that
were let in are under way at once; and those turned away since one was let in were told to wait
`retryAfter 0`, `retryAfter 1` and so on, which never falls and is between one second and 512. -/
theorem searches_throttled {ι : Type} {label : ι → SearchRequest} {pool : Searches ι}
    (reached : Searching site rows label pool) :
    pool.state.inFlight = holders SearchOp.takeCount SearchOp.giveBack pool ∧ letIn pool ≤ 65 ∧
      pool.state.told = (List.range pool.state.backupCount).map retryAfter ∧
      pool.state.told.Pairwise (· ≤ ·) ∧ ∀ seconds ∈ pool.state.told, 1 ≤ seconds ∧
        seconds ≤ 512 := by
  have accounted : Accounted SearchOp.takeCount SearchOp.giveBack (fun count => count) 64
      SearchWorld.inFlight pool :=
    accounted_of_reachable counts_inFlight nofun
      (fun i => brackets_tlgsSearch site (label i)) rfl reached
  have initially : SearchWorld.started.Backed := rfl
  have told : pool.state.Backed :=
    reached.invariant (fun _ _ _ _ => backed_step) (fun _ _ => backed_expires) initially
  refine ⟨accounted.counted, (letIn_le_admitted reached).trans accounted.bounded, told, ?_, ?_⟩
  · -- each was told the next of the waits
    rw [told, List.pairwise_map]
    exact List.pairwise_lt_range.imp fun earlier => retryAfter_mono (Nat.le_of_lt earlier)
  · rw [told]
    intro seconds member
    obtain ⟨count, _, rfl⟩ := List.mem_map.mp member
    exact retryAfter_bounds count

/-- Requests that have counted themselves and not gone on. -/
theorem searching_begun {ι : Type} (label : ι → SearchRequest) (i : ι) (count : Nat) :
    ∃ threads, Searching site rows label
      ⟨{ SearchWorld.started with inFlight := count }, threads⟩ := by
  induction count with
  | zero => exact ⟨[], .start⟩
  | succ count ih =>
    obtain ⟨threads, begun⟩ := ih
    have taken : searchStep site rows { SearchWorld.started with inFlight := count } .takeCount
        (.ok count) { SearchWorld.started with inFlight := count + 1 } := ⟨rfl, rfl⟩
    exact ⟨_, (begun.next (.spawn i)).next (.call taken)⟩

theorem handleSearch_full (req : SearchRequest) {count : Nat} (full : 64 < count) :
    handleSearch site req count = SearchOp.perform .countBackup >>= fun count =>
      pure (.tooManyRequests (retryAfter count)) :=
  if_pos full

/-- While 65 requests are under way, one more is turned away. -/
theorem searches_throttled_turned_away :
    let rows : Rows := ⟨fun _ _ => none, nofun⟩
    ∃ pool : Searches Unit, Searching SearchSite.small rows
      (fun _ => ⟨lit "/search", lit "x"⟩) pool ∧
      pool.state.inFlight = 66 ∧ pool.state.told = [1] ∧
      pool.state.inFlight = holders SearchOp.takeCount SearchOp.giveBack pool ∧ letIn pool ≤ 65 ∧
      pool.state.told = (List.range pool.state.backupCount).map retryAfter ∧
      pool.state.told.Pairwise (· ≤ ·) ∧ ∀ seconds ∈ pool.state.told, 1 ≤ seconds ∧
        seconds ≤ 512 := by
  intro rows
  let label : Unit → SearchRequest := fun _ => ⟨lit "/search", lit "x"⟩
  -- 65 requests are under way when one more comes
  obtain ⟨threads, begun⟩ : ∃ threads, Searching SearchSite.small rows label
      ⟨{ SearchWorld.started with inFlight := 65 }, threads⟩ := searching_begun label () 65
  have taken : searchStep SearchSite.small rows
      { SearchWorld.started with inFlight := 65 } .takeCount
      (.ok 65) { SearchWorld.started with inFlight := 66 } := ⟨rfl, rfl⟩
  have counted : searchStep SearchSite.small rows
      { SearchWorld.started with inFlight := 66 } .countBackup
      (.ok 0) { SearchWorld.started with
        inFlight := 66, backupCount := 1, told := [retryAfter 0] } :=
    ⟨rfl, rfl⟩
  have full : Searching SearchSite.small rows label ⟨{ SearchWorld.started with inFlight := 66 },
      threads ++ [⟨(), (handleSearch SearchSite.small (label ()) 65).andThen fun outcome =>
        .call .giveBack fun _ => .done outcome, [⟨.takeCount, .ok 65⟩]⟩]⟩ :=
    (begun.next (.spawn ())).next (.call taken)
  -- it is the 66th, so it is turned away
  rw [handleSearch_full _ (by decide)] at full
  have turned_away := full.next (.call counted)
  have second : retryAfter 0 = 1 := by
    have doubled := @retryAfter_mul 0 (Nat.zero_le 9)
    rwa [Nat.zero_mul, pow_zero] at doubled
  refine ⟨_, turned_away, rfl, ?_, searches_throttled turned_away⟩
  change [retryAfter 0] = [1]
  rw [second]

end Tlgs

import Tlgs.Base.Among
import Tlgs.Crawler.Queue

/-!
# The share of the table that is sampled

All calls of `getNextPotentialCarwlUrl` share `sample_pct`. It only grows, through fixed levels, and
a call that finds nothing to queue raises it or sees that another has raised it. So a call makes few
queries that find nothing, whatever the others do.
-/
namespace Tlgs

open Bytes Interactive Interactive.Program

/-- `sample_pct` starts at 1, and each time 10 are added, up to 100. -/
def sampleLevels : List Nat := [1, 11, 21, 31, 41, 51, 61, 71, 81, 91, 100]

/-- The levels from one on. -/
def levelsFrom (pct : Nat) : Nat := (sampleLevels.filter (pct ≤ ·)).length

def OnLevel (w : World) : Prop := w.samplePct ∈ sampleLevels

def Raised (w later : World) : Prop := w.samplePct ≤ later.samplePct

/-- A query that finds nothing. -/
def isEmptyBatch : Event Op Op.Answer Str → Bool
  | ⟨.queueBatch _ _, .ok []⟩ => true
  | _ => false

/-- A query that finds pages, or a failure. -/
def isExcuse : Event Op Op.Answer Str → Bool
  | ⟨.queueBatch _ _, .ok (_ :: _)⟩ => true
  | ⟨_, .error _⟩ => true
  | _ => false

def emptyBatches (log : Log) : Nat := log.countP isEmptyBatch

def excuses (log : Log) : Nat := log.countP isExcuse

theorem nextLevel {pct : Nat} (level : pct ∈ sampleLevels) : min (pct + 10) 100 ∈ sampleLevels := by
  have each : ∀ pct ∈ sampleLevels, min (pct + 10) 100 ∈ sampleLevels := by decide
  exact each pct level

theorem levelsFrom_lt {pct higher : Nat} (level : pct ∈ sampleLevels)
    (above : higher ∈ sampleLevels) (less : pct < higher) : levelsFrom higher < levelsFrom pct := by
  have each : ∀ pct ∈ sampleLevels, ∀ higher ∈ sampleLevels, pct < higher →
      levelsFrom higher < levelsFrom pct := by decide
  exact each pct level higher above less

theorem levelsFrom_le {pct higher : Nat} (le : pct ≤ higher) :
    levelsFrom higher ≤ levelsFrom pct := by
  rw [levelsFrom, levelsFrom, ← List.countP_eq_length_filter, ← List.countP_eq_length_filter]
  refine List.countP_mono_left fun level _ above => ?_
  simp only [decide_eq_true_eq] at above ⊢
  exact le.trans above

theorem levelsFrom_pos {pct : Nat} (level : pct ∈ sampleLevels) : 0 < levelsFrom pct := by
  have each : ∀ pct ∈ sampleLevels, 0 < levelsFrom pct := by decide
  exact each pct level

@[simp] theorem emptyBatches_append (log : Log) (event : Event Op Op.Answer Str) :
    emptyBatches (log ++ [event]) = emptyBatches log + if isEmptyBatch event then 1 else 0 := by
  simp [emptyBatches, List.countP_singleton]

@[simp] theorem excuses_append (log : Log) (event : Event Op Op.Answer Str) :
    excuses (log ++ [event]) = excuses log + if isExcuse event then 1 else 0 := by
  simp [excuses, List.countP_singleton]

/-! ### Steps -/

variable {env : Env} {fails : Op → Str → Prop}

theorem samplePct_step {w after : World} {op : Op} {answer : Except Str op.Answer}
    (other : ∀ expected desired, op ≠ .compareExchangeSamplePct expected desired)
    (taken : env.step fails w op answer after) : after.samplePct = w.samplePct := by
  obtain ⟨later, _, effect⟩ := taken
  cases answer with
  | error x => rw [effect.2]; rfl
  | ok a =>
    obtain ⟨_, rfl⟩ := effect
    cases op with
    | compareExchangeSamplePct expected desired => exact absurd rfl (other expected desired)
    | _ => rfl

/-- Atomics do not throw. -/
def Atomic (fails : Op → Str → Prop) : Prop :=
  ∀ expected desired x, ¬fails (.compareExchangeSamplePct expected desired) x

theorem compareExchange_step (atomic : Atomic fails) {w after : World} {expected desired : Nat}
    {answer : Except Str Nat}
    (taken : env.step fails w (.compareExchangeSamplePct expected desired) answer after) :
    answer = .ok w.samplePct ∧
      after.samplePct = if w.samplePct = expected then desired else w.samplePct := by
  obtain ⟨later, _, effect⟩ := taken
  cases answer with
  | error x => exact absurd effect.1 (not_or.mpr ⟨atomic expected desired x, id⟩)
  | ok found =>
    obtain ⟨rfl, rfl⟩ := effect
    exact ⟨rfl, rfl⟩

theorem loadSamplePct_step {w after : World} {pct : Nat}
    (taken : env.step fails w .loadSamplePct (.ok pct) after) :
    pct = w.samplePct := by
  obtain ⟨later, _, rfl, _⟩ := taken
  rfl

/-! ### A call among others -/

/-- What a program ensures while `sample_pct` is only raised. -/
abbrev Sampling (env : Env) (fails : Op → Str → Prop) {α : Type}
    (post : Except Str α → World → Log → Prop) (p : Crawl α) (s : World) (log : Log) : Prop :=
  Among (env.step fails) OnLevel Raised post p s log

/-- Every operation but the one on `sample_pct` leaves it alone. -/
theorem sampling_perform {op : Op} {post : Except Str op.Answer → World → Log → Prop} {s : World}
    {log : Log} (other : ∀ expected desired, op ≠ .compareExchangeSamplePct expected desired)
    (ends : ∀ now answer after, Raised s now → OnLevel after → env.step fails now op answer after →
      now.samplePct = after.samplePct → post answer after (log ++ [⟨op, answer⟩])) :
    Sampling env fails post (Program.perform op) s log := by
  refine among_perform.mpr fun now answer after raised level taken => ?_
  have same := samplePct_step other taken
  have level' : OnLevel after := by rwa [OnLevel, same]
  exact ⟨⟨level', same.ge⟩, ends now answer after raised level' taken same.symm⟩

/-- As many queries found nothing as levels are left behind, and more was on record than `n` of them
or of what excuses another round. -/
structure LevelsKept (n : Nat) (s : World) (log : Log) : Prop where
  levels : emptyBatches log + levelsFrom s.samplePct ≤ 11
  counted : n < emptyBatches log + excuses log

/-- Neither the query of a batch nor the change of `sample_pct`. -/
def Op.beside : Op → Prop
  | .queueBatch _ _ | .compareExchangeSamplePct _ _ => False
  | _ => True

theorem Op.beside.other {op : Op} (beside : op.beside) (expected desired : Nat) :
    op ≠ .compareExchangeSamplePct expected desired := by
  rintro rfl
  exact beside

theorem isEmptyBatch_beside {op : Op} (beside : op.beside) (answer : Except Str op.Answer) :
    isEmptyBatch ⟨op, answer⟩ = false := by
  cases op <;> first | rfl | cases beside

theorem LevelsKept.beside {n : Nat} {s now : World} {log : Log} (kept : LevelsKept n s log)
    (raised : Raised s now) {op : Op} (beside : op.beside) (answer : Except Str op.Answer) :
    LevelsKept n now (log ++ [⟨op, answer⟩]) := by
  have fewer := levelsFrom_le raised
  have levels := kept.levels
  have counted := kept.counted
  have empty : emptyBatches (log ++ [⟨op, answer⟩]) = emptyBatches log := by
    simp [isEmptyBatch_beside beside]
  refine ⟨?_, ?_⟩
  · omega
  · rw [empty, excuses_append]
    omega

theorem sampling_beside {α : Type} {n : Nat} {p : Crawl α}
    (within : Within Op.beside (fun _ => True) p) {s : World} {log : Log}
    (kept : LevelsKept n s log) :
    Sampling env fails (fun _ s log => LevelsKept n s log) p s log := by
  induction p generalizing s log with
  | done outcome => exact kept
  | call op next ih =>
    intro now answer after raised level taken
    have same := samplePct_step within.1.other taken
    have raised' : Raised now after := same.ge
    have level' : OnLevel after := by rwa [OnLevel, same]
    exact ⟨⟨level', raised'⟩, ih answer (within.2 answer fun _ _ => trivial)
      (kept.beside (raised.trans raised') within.1 answer)⟩

theorem beside_emplaceAll (urls : List Str) :
    Within Op.beside (fun _ => True) (emplaceAll urls) := by
  induction urls with
  | nil => trivial
  | cons url urls ih => exact within_bind (within_perform trivial) fun _ => ih

/-- What a round leaves behind. -/
structure RoundEnds (n : Nat) (outcome : Except Str Bool) (s : World) (log : Log) : Prop where
  few : emptyBatches log ≤ 11
  counted : n < emptyBatches log + excuses log
  levels : outcome ≠ .ok true → emptyBatches log + levelsFrom s.samplePct ≤ 11

theorem LevelsKept.ends {n : Nat} {s : World} {log : Log} (kept : LevelsKept n s log)
    (outcome : Except Str Bool) :
    RoundEnds n outcome s log :=
  ⟨(Nat.le_add_right _ _).trans kept.levels, kept.counted, fun _ => kept.levels⟩

/-- The pages that were found are queued. -/
theorem sampling_queued {n : Nat} {s : World} {log : Log} (urls : List Str)
    (kept : LevelsKept n s log) :
    Sampling env fails (RoundEnds n)
      (do let vec ← await (.shuffle urls)
          emplaceAll vec
          pure false) s log := by
  have within : Within Op.beside (fun _ => True) (do
      let vec ← await (.shuffle urls)
      emplaceAll vec
      pure false : Crawl Bool) :=
    within_bind (within_perform trivial) fun vec =>
      within_bind (beside_emplaceAll vec) fun _ => trivial
  exact (sampling_beside within kept).mono fun outcome s log kept => kept.ends outcome

/-- The exchange raises `sample_pct`, or another call has raised it. -/
theorem raised_step (atomic : Atomic fails) {pct : Nat} {now after : World}
    {answer : Except Str Nat} (level : pct ∈ sampleLevels) (seen : pct ≤ now.samplePct)
    (onLevel : OnLevel now)
    (taken : env.step fails now (.compareExchangeSamplePct pct (min (pct + 10) 100)) answer after) :
    answer = .ok now.samplePct ∧ OnLevel after ∧ Raised now after ∧
      (now.samplePct < 100 → levelsFrom after.samplePct < levelsFrom pct) := by
  obtain ⟨rfl, changed⟩ := compareExchange_step atomic taken
  have most : ∀ pct ∈ sampleLevels, pct ≤ 100 := by decide
  have bounded := most pct level
  refine ⟨rfl, ?_⟩
  rw [OnLevel, Raised, changed]
  split
  next same =>
    refine ⟨nextLevel level, by omega, fun low => levelsFrom_lt level (nextLevel level) (by omega)⟩
  next different =>
    exact ⟨onLevel, Nat.le_refl _, fun _ => levelsFrom_lt level onLevel (by omega)⟩

/-- A query found nothing: the level it was made for is left behind, or the last one is reached. -/
theorem sampling_advance_empty (atomic : Atomic fails) {n pct : Nat} {s : World} {log : Log}
    (level : pct ∈ sampleLevels) (seen : pct ≤ s.samplePct)
    (counted : n < emptyBatches log + excuses log)
    (levels : emptyBatches log + levelsFrom pct ≤ 12) :
    Sampling env fails (fun outcome s log => ∃ found, outcome = .ok found ∧ emptyBatches log ≤ 11 ∧
        n < emptyBatches log + excuses log ∧ (found < 100 → LevelsKept n s log))
      (advanceSample 0 pct) s log := by
  refine among_perform.mpr fun now answer after raised onLevel taken => ?_
  obtain ⟨rfl, onLevel', raised', fewer⟩ :=
    raised_step atomic level (seen.trans raised) onLevel taken
  have some_level := levelsFrom_pos level
  have empty : emptyBatches (log ++ [⟨.compareExchangeSamplePct pct (min (pct + 10) 100),
      .ok now.samplePct⟩]) = emptyBatches log := by simp [isEmptyBatch]
  have more : excuses log ≤ excuses (log ++ [⟨.compareExchangeSamplePct pct (min (pct + 10) 100),
      .ok now.samplePct⟩]) := by simp
  refine ⟨⟨onLevel', raised'⟩, _, rfl, ?_, ?_, fun low => ⟨?_, ?_⟩⟩
  · omega
  · omega
  · have less := fewer low
    omega
  · omega

/-- A query found pages: whether there were enough of them makes no difference. -/
theorem sampling_advance (atomic : Atomic fails) {n found pct : Nat} {s : World} {log : Log}
    (level : pct ∈ sampleLevels) (seen : pct ≤ s.samplePct) (kept : LevelsKept n s log) :
    Sampling env fails (fun _ s log => LevelsKept n s log) (advanceSample found pct) s log := by
  simp only [advanceSample]
  split
  · refine among_perform.mpr fun now answer after raised onLevel taken => ?_
    obtain ⟨rfl, onLevel', raised', _⟩ := raised_step atomic level (seen.trans raised) onLevel taken
    have fewer := levelsFrom_le (raised.trans raised')
    have levels := kept.levels
    have counted := kept.counted
    have empty : emptyBatches (log ++ [⟨.compareExchangeSamplePct pct (min (pct + 10) 100),
        .ok now.samplePct⟩]) = emptyBatches log := by simp [isEmptyBatch]
    have more : excuses log ≤ excuses (log ++ [⟨.compareExchangeSamplePct pct (min (pct + 10) 100),
        .ok now.samplePct⟩]) := by simp
    exact ⟨⟨onLevel', raised'⟩, by omega, by omega⟩
  · exact kept

/-- A failure excuses one more round. -/
theorem kept_failed {s : World} {log : Log}
    (levels : emptyBatches log + levelsFrom s.samplePct ≤ 11) (op : Op) (x : Str) :
    LevelsKept (emptyBatches log + excuses log) s (log ++ [⟨op, .error x⟩]) := by
  have empty : isEmptyBatch ⟨op, .error x⟩ = false := by cases op <;> rfl
  have excuse : isExcuse ⟨op, .error x⟩ = true := by cases op <;> rfl
  refine ⟨?_, ?_⟩
  · simpa [empty] using levels
  · simp [empty, excuse]

theorem sampling_queueRound (atomic : Atomic fails) {s : World} {log : Log}
    (levels : emptyBatches log + levelsFrom s.samplePct ≤ 11) :
    Sampling env fails (RoundEnds (emptyBatches log + excuses log)) queueRound s log := by
  refine among_bind.mpr (sampling_perform nofun fun now loaded after raised onLevel taken same =>
    ?_)
  have levels' : emptyBatches log + levelsFrom after.samplePct ≤ 11 :=
    (Nat.add_le_add_left (levelsFrom_le (raised.trans same.le)) _).trans levels
  cases loaded with
  | error x => exact (kept_failed levels' _ x).ends _
  | ok pct =>
    cases (loadSamplePct_step taken).trans same
    have empty : emptyBatches (log ++ [⟨.loadSamplePct, .ok after.samplePct⟩]) =
        emptyBatches log := by
      simp [isEmptyBatch]
    have excuse : excuses (log ++ [⟨.loadSamplePct, .ok after.samplePct⟩]) = excuses log := by
      simp [isExcuse]
    rw [← empty] at levels'
    rw [← empty, ← excuse]
    generalize log ++ [⟨.loadSamplePct, .ok after.samplePct⟩] = log at levels' ⊢
    refine among_bind.mpr (sampling_perform nofun fun now answer batched raised onLevel' _ same =>
      ?_)
    have seen : after.samplePct ≤ batched.samplePct := raised.trans same.le
    have levels'' : emptyBatches log + levelsFrom batched.samplePct ≤ 11 :=
      (Nat.add_le_add_left (levelsFrom_le seen) _).trans levels'
    rcases answer with x | _ | ⟨url, urls⟩
    · exact (kept_failed levels'' _ x).ends _
    · -- nothing was found
      have counted : emptyBatches (log ++ [⟨.queueBatch after.samplePct urlsPerBatch, .ok []⟩]) =
          emptyBatches log + 1 := by simp [isEmptyBatch]
      have excused : excuses (log ++ [⟨.queueBatch after.samplePct urlsPerBatch, .ok []⟩]) =
          excuses log := by
        simp [isExcuse]
      have more : emptyBatches log + excuses log <
          emptyBatches (log ++ [⟨.queueBatch after.samplePct urlsPerBatch, .ok []⟩]) +
            excuses (log ++ [⟨.queueBatch after.samplePct urlsPerBatch, .ok []⟩]) := by omega
      refine among_bind.mpr ((sampling_advance_empty atomic onLevel seen more (by omega)).mono ?_)
      rintro _ s log ⟨found, rfl, few, counted, low⟩
      by_cases last : 100 ≤ found
      · simp only [AmongThen, last, and_self, if_true]
        exact ⟨few, counted, fun other => absurd rfl other⟩
      · simp only [AmongThen, last, and_false, if_false]
        exact sampling_queued [] (low (Nat.lt_of_not_le last))
    · have kept : LevelsKept (emptyBatches log + excuses log) batched
          (log ++ [⟨.queueBatch after.samplePct urlsPerBatch, .ok (url :: urls)⟩]) := by
        refine ⟨?_, ?_⟩
        · simpa [isEmptyBatch] using levels''
        · simp [isEmptyBatch, isExcuse]
      refine among_bind.mpr ((sampling_advance atomic onLevel seen kept).mono ?_)
      intro outcome s log kept
      cases outcome with
      | error x => exact kept.ends _
      | ok found =>
        simp only [AmongThen, reduceCtorEq, false_and, if_false]
        exact sampling_queued (url :: urls) kept

/-- What a call leaves behind that may go on for `rounds` rounds. -/
structure SamplingEnds {α : Type} (rounds : Nat) (outcome : Except Str (Progress α)) (log : Log) :
    Prop where
  few : emptyBatches log ≤ 11
  excused : outcome = .ok .running → rounds ≤ emptyBatches log + excuses log

theorem LevelsKept.samplingEnds {n rounds : Nat} {s : World} {log : Log} {α : Type}
    {outcome : Except Str (Progress α)} (kept : LevelsKept n s log)
    (ended : outcome ≠ .ok .running) : SamplingEnds rounds outcome log :=
  ⟨(Nat.le_add_right _ _).trans kept.levels, fun running => absurd running ended⟩

theorem sampling_fillQueue (atomic : Atomic fails) (total rounds : Nat) {s : World} {log : Log}
    (levels : emptyBatches log + levelsFrom s.samplePct ≤ 11)
    (enough : total ≤ rounds + (emptyBatches log + excuses log)) :
    Sampling env fails (fun outcome _ log => SamplingEnds total outcome log)
      (fillQueue rounds) s log := by
  induction rounds generalizing s log with
  | zero => exact ⟨(Nat.le_add_right _ _).trans levels, fun _ => by omega⟩
  | succ rounds ih =>
    refine among_bind.mpr (sampling_perform nofun fun now answer after raised onLevel _ same => ?_)
    have levels' : emptyBatches log + levelsFrom after.samplePct ≤ 11 :=
      (Nat.add_le_add_left (levelsFrom_le (raised.trans same.le)) _).trans levels
    cases answer with
    | error x => exact (kept_failed levels' _ x).samplingEnds nofun
    | ok empty =>
      have few : emptyBatches (log ++ [⟨.queueEmpty, .ok empty⟩]) = emptyBatches log := by
        simp [isEmptyBatch]
      have excuse : excuses (log ++ [⟨.queueEmpty, .ok empty⟩]) = excuses log := by simp [isExcuse]
      rw [← few] at levels' enough
      rw [← excuse] at enough
      generalize log ++ [⟨.queueEmpty, .ok empty⟩] = log at levels' enough ⊢
      simp only [AmongThen]
      split
      · exact ⟨(Nat.le_add_right _ _).trans levels', nofun⟩
      · refine among_bind.mpr (among_tryCatch.mpr ((sampling_queueRound atomic levels').mono ?_))
        intro outcome s log' ends
        -- a round that does not end the loop has found nothing, or pages, or it has failed
        have again : outcome ≠ .ok true →
            Sampling env fails (fun outcome _ log => SamplingEnds total outcome log)
            (fillQueue rounds) s log' := by
          intro goes
          have counted := ends.counted
          exact ih (ends.levels goes) (by omega)
        cases outcome with
        | ok exhausted =>
          cases exhausted with
          | true => exact ⟨ends.few, nofun⟩
          | false => exact again nofun
        | error x =>
          simp only [AmongElse, retryRollback]
          split
          · exact again nofun
          · exact ⟨ends.few, nofun⟩

theorem levelsFrom_le_eleven (pct : Nat) : levelsFrom pct ≤ 11 :=
  List.length_filter_le _ sampleLevels

theorem few_tryPop {log : Log} (few : emptyBatches log ≤ 11) (answer : Except Str (Option Str)) :
    emptyBatches (log ++ [⟨.tryPop, answer⟩]) ≤ 11 := by
  simpa [isEmptyBatch] using few

theorem sampling_getNextPotentialCarwlUrl (atomic : Atomic fails) (rounds : Nat) (s : World) :
    Sampling env fails (fun outcome _ log => SamplingEnds rounds outcome log)
      (getNextPotentialCarwlUrl rounds) s [] := by
  have before : emptyBatches [] ≤ 11 := Nat.zero_le _
  refine among_bind.mpr (sampling_perform nofun fun now popped after _ _ _ _ => ?_)
  rcases popped with x | _ | url
  · exact ⟨few_tryPop before _, nofun⟩
  · -- the queue was empty
    have none_yet : emptyBatches [⟨.tryPop, .ok none⟩] = 0 := rfl
    have levels : emptyBatches [⟨.tryPop, .ok none⟩] + levelsFrom after.samplePct ≤ 11 := by
      rw [none_yet, Nat.zero_add]
      exact levelsFrom_le_eleven _
    refine among_bind.mpr ((sampling_fillQueue atomic rounds rounds levels
      (Nat.le_add_right _ _)).mono ?_)
    intro outcome s log ends
    rcases outcome with x | filled | _
    · exact ⟨ends.few, nofun⟩
    · cases filled with
      | true => exact ⟨ends.few, nofun⟩
      | false =>
        refine among_bind.mpr (sampling_perform nofun fun now result after _ _ _ _ => ?_)
        cases result with
        | error x => exact ⟨few_tryPop ends.few _, nofun⟩
        | ok url => exact ⟨few_tryPop ends.few _, nofun⟩
    · exact ⟨ends.few, fun _ => ends.excused rfl⟩
  · exact ⟨few_tryPop before _, nofun⟩

/-- The calls that are under way, while everything but `sample_pct` may change in any way beside
them. -/
abbrev Calling (env : Env) (fails : Op → Str → Prop) (init : World) :
    Pool Op Op.Answer Str (Progress (Option Str)) World Nat → Prop :=
  Reachable (env.step fails) (fun w after => after.samplePct = w.samplePct)
    getNextPotentialCarwlUrl init

/-- In every run of any number of calls, in any interleaving, whatever else becomes of the tables
and the queue: `sample_pct` stays on its levels; no call makes more than eleven queries that find
nothing; and one that goes on for so many rounds has had as many queries and failures, so that
without pages and failures eleven rounds are enough for each. -/
theorem few_empty_queries (atomic : Atomic fails) {init : World} (started : init.samplePct = 1)
    {pool : Pool Op Op.Answer Str (Progress (Option Str)) World Nat}
    (reached : Calling env fails init pool) :
    pool.state.samplePct ∈ sampleLevels ∧ ∀ thread ∈ pool.threads, ∀ outcome,
      thread.program = .done outcome →
      emptyBatches thread.log ≤ 11 ∧
        (outcome = .ok .running → thread.label ≤ emptyBatches thread.log + excuses thread.log) := by
  have initially : OnLevel init := by
    rw [OnLevel, started]
    decide
  have safe : PoolSafe (env.step fails) OnLevel Raised
      (fun rounds outcome log => SamplingEnds rounds outcome log)
      pool := by
    refine reached.poolSafe (fun _ => Nat.le_refl _) (fun _ _ _ => Nat.le_trans)
      (fun s after onLevel moved => ?_)
      (fun s rounds _ => ?_) initially
    · exact ⟨by rwa [OnLevel, moved], moved.ge⟩
    · exact (sampling_getNextPotentialCarwlUrl atomic rounds s).safe fun _ _ _ => id
  refine ⟨safe.1, fun thread member outcome ended => ?_⟩
  have ends := safe.ended member ended
  exact ⟨ends.few, ends.excused⟩

/-- With nothing in the table, the eleventh query is the last. -/
theorem few_empty_queries_idle :
    ∃ pool, Calling Env.small never World.empty pool ∧
      (∃ thread ∈ pool.threads, thread.label = 12 ∧ thread.program = .done (.ok (.finished none)) ∧
        emptyBatches thread.log = 11) ∧
      pool.state.samplePct ∈ sampleLevels ∧ ∀ thread ∈ pool.threads, ∀ outcome,
        thread.program = .done outcome → emptyBatches thread.log ≤ 11 ∧
          (outcome = .ok .running →
            thread.label ≤ emptyBatches thread.log + excuses thread.log) := by
  obtain ⟨ended, run, outcome, queries⟩ : ∃ ended : Except Str (Progress (Option Str)) × Rec,
      Runs (record (Env.small.step never)) (getNextPotentialCarwlUrl 12)
        ⟨World.empty, []⟩ ended.1 ended.2 ∧
        ended.1 = .ok (.finished none) ∧ emptyBatches ended.2.log = 11 :=
    ⟨simulate (recording ((Outside.serving (lit "")).respond Env.small))
      (getNextPotentialCarwlUrl 12) _,
      runs_simulate (record_recording (Outside.respond_step serving_never)) rfl, by decide +kernel,
      by decide +kernel⟩
  have spawned : Calling Env.small never World.empty
      ⟨World.empty, [] ++ ⟨12, getNextPotentialCarwlUrl 12, []⟩ :: []⟩ := .next .start (.spawn 12)
  have reached := Reachable.of_runs spawned run
  refine ⟨_, reached, ⟨_, List.mem_cons_self, rfl, congrArg _ outcome, queries⟩, ?_⟩
  exact few_empty_queries (fun _ _ _ => id) rfl reached

end Tlgs

import Tlgs.Base.Ownership
import Tlgs.Base.Transition

/-!
# `tlgs::Counter`

A `Counter` adds one to an atomic and takes it off again when it is released or destroyed. Its
member `counter_` has no initialiser, and the move constructor writes its own members into the other
object instead of the other way round: the new object holds no count, and the old one is left with
whatever address was in the memory of the new one. Counts are kept track of in a ledger beside the
objects.
-/
namespace Tlgs

open Ownership

/-- The value of `counter_`: null, the atomic, or an address of something else. -/
inductive Address
  | null
  | atomic
  | elsewhere
  deriving DecidableEq, Repr

structure Counter where
  count_ : UInt64
  counter_ : Address
  deriving DecidableEq, Repr

namespace Counter

/-- `Counter(counter)`, with the value of the atomic; the atomic after it stands behind. -/
def construct (atomic : UInt64) : Counter × UInt64 := (⟨atomic, .atomic⟩, atomic + 1)

/-- `Counter(Counter&& other)`, where `memory` is what `counter_` holds before it is assigned. Both
objects after it, the new one first. -/
def move (memory : Address) (other : Counter) : Counter × Counter :=
  let this : Counter := ⟨-1, memory⟩
  let other := { other with counter_ := this.counter_ }
  let other := { other with count_ := this.count_ }
  ({ this with counter_ := .null }, other)

def count (c : Counter) : UInt64 := c.count_

/-- `counter_->fetch_sub(1)`, the value before it; `none` at an address of something else. -/
def fetchSub (c : Counter) (atomic : UInt64) : Option UInt64 :=
  if c.counter_ = .elsewhere then none else some atomic

/-- `release()`: what it returns, the object and the atomic after it. -/
def release (c : Counter) (atomic : UInt64) : Option (UInt64 × Counter × UInt64) :=
  if c.counter_ = .null then some (-1, c, atomic)
  else (c.fetchSub atomic).map fun before => (before - 1, ⟨-1, .null⟩, before - 1)

/-- The destructor: the atomic after it. -/
def destroy (c : Counter) (atomic : UInt64) : Option UInt64 :=
  if c.counter_ ≠ .null then (c.fetchSub atomic).map (· - 1) else some atomic

end Counter

/-! ### Any calls on any objects -/

/-- Objects are named by their number in the order of construction. -/
inductive CounterAction
  | construct
  | move (source : Nat) (memory : Address)
  | release (object : Nat)
  | destroy (object : Nat)
  deriving DecidableEq, Repr

/-- The atomic and the objects, of which those destroyed are `none`; beside them the ledger, and for
each subtraction from the atomic the count that the object held by the ledger. -/
structure Counters where
  atomic : UInt64
  objects : List (Option Counter)
  ledger : Ledger
  subtractions : List (Option Nat)
  deriving DecidableEq, Repr

namespace Counters

def init (atomic : UInt64) : Counters := ⟨atomic, [], .empty, []⟩

/-- An object that is there. -/
def object (s : Counters) (i : Nat) : Option Counter := (s.objects[i]?).join

/-- The subtraction that the release or destruction of an object makes, if any. -/
def subtraction (s : Counters) (i : Nat) (c : Counter) : List (Option Nat) :=
  if c.counter_ = .null then [] else [s.ledger.holder i]

/-- An object gives its count back, and is `after` then. -/
def giveBack (s : Counters) (i : Nat) (c : Counter) (after : Option Counter) (atomic : UInt64) :
    Counters where
  atomic := atomic
  objects := s.objects.set i after
  ledger := s.ledger.giveBack i
  subtractions := s.subtractions ++ s.subtraction i c

/-- One call; `none` if there is no such object or the call is undefined. -/
def step (s : Counters) : CounterAction → Option Counters
  | .construct =>
    let (this, atomic) := Counter.construct s.atomic
    some { s with atomic := atomic, objects := s.objects ++ [some this], ledger := s.ledger.take }
  | .move source memory => (s.object source).map fun other =>
    let (this, other) := Counter.move memory other
    { s with
      objects := s.objects.set source (some other) ++ [some this]
      ledger := s.ledger.transfer source }
  | .release i => (s.object i).bind fun c => (c.release s.atomic).map fun (_, after, atomic) =>
    s.giveBack i c (some after) atomic
  | .destroy i => (s.object i).bind fun c => (c.destroy s.atomic).map fun atomic =>
    s.giveBack i c none atomic

/-! ### When the books balance -/

/-- The object has the address of the atomic exactly if it holds a count, and else none. -/
def Owns : Option Counter → Option Nat → Prop
  | some c, some _ => c.counter_ = .atomic
  | some c, none => c.counter_ = .null
  | none, count => count = none

/-- The atomic is its first value and the counts that are held, objects hold what the ledger says,
and each count that was given back was subtracted once. -/
structure Balanced (initial : UInt64) (s : Counters) : Prop where
  atomic : s.atomic = initial + UInt64.ofNat s.ledger.held.length
  owns : List.Forall₂ Owns s.objects s.ledger.holds
  subtracted : s.subtractions = s.ledger.returned.map some
  settled : s.ledger.Settled

/-- A step that moves no count: only an object that holds none is moved, into memory with a null
pointer. -/
def MovesNone (s : Counters) (action : CounterAction) : Prop :=
  ∀ source memory, action = .move source memory →
    memory = .null ∧ ∀ c, s.object source = some c → c.counter_ = .null

variable {initial : UInt64} {s after : Counters}

theorem Balanced.holder (balanced : Balanced initial s) {i : Nat} {c : Counter}
    (there : s.object i = some c) :
    Owns (some c) (s.ledger.holder i) := by
  have found : s.objects[i]? = some (some c) := Option.join_eq_some_iff.mp there
  obtain ⟨count, holds, owns⟩ := forall₂_getElem? balanced.owns found
  rw [Ledger.holder, holds]
  exact owns

theorem Owns.null_iff {c : Counter} {count : Option Nat} (owns : Owns (some c) count) :
    c.counter_ = .null ↔ count = none := by
  cases count with
  | none => exact iff_of_true owns rfl
  | some count =>
    have atomic : c.counter_ = .atomic := owns
    simp [atomic]

theorem Owns.defined {c : Counter} {count : Option Nat} (owns : Owns (some c) count) :
    c.counter_ ≠ .elsewhere := by
  cases count with
  | none =>
    have null : c.counter_ = .null := owns
    simp [null]
  | some count =>
    have atomic : c.counter_ = .atomic := owns
    simp [atomic]

theorem balanced_init : Balanced initial (init initial) :=
  ⟨by simp [init, Ledger.held, Ledger.empty], .nil, rfl, Ledger.settled_empty⟩

theorem construct_balanced (balanced : Balanced initial s)
    (taken : s.step .construct = some after) :
    Balanced initial after := by
  cases taken
  refine ⟨?_, forall₂_append balanced.owns rfl, balanced.subtracted,
    Ledger.settled_take balanced.settled⟩
  have held : (s.ledger.take).held.length = s.ledger.held.length + 1 := by
    simp [Ledger.held, Ledger.take, List.reduceOption_append, List.reduceOption_cons_of_some]
  rw [held, UInt64.ofNat_add, ← UInt64.add_assoc, ← balanced.atomic]
  rfl

/-- A release or destruction of an object gives back what it holds. -/
theorem giveBack_balanced (balanced : Balanced initial s) {i : Nat} {c : Counter}
    (there : s.object i = some c) (object : Option Counter) (gone : Owns object none) :
    Balanced initial (s.giveBack i c object
      (if c.counter_ = .null then s.atomic else s.atomic - 1)) := by
  have owns := balanced.holder there
  have held := (s.ledger.held_giveBack i).length_eq
  refine ⟨?_, forall₂_set balanced.owns gone i, ?_, Ledger.settled_giveBack balanced.settled i⟩
  · simp only [giveBack]
    rw [balanced.atomic, ← held, List.length_append]
    cases holds : s.ledger.holder i with
    | none =>
      rw [if_pos (owns.null_iff.mpr holds), Option.toList_none, List.length_nil, Nat.zero_add]
    | some count =>
      -- one count fewer is held, and one was subtracted
      have kept : c.counter_ ≠ .null := owns.null_iff.not.mpr (by simp [holds])
      rw [if_neg kept, Option.toList_some, List.length_singleton, Nat.add_comm, UInt64.ofNat_add,
        ← UInt64.add_assoc]
      exact UInt64.add_sub_cancel _ 1
  · simp only [giveBack, subtraction, Ledger.giveBack, List.map_append, balanced.subtracted]
    cases holds : s.ledger.holder i with
    | none => rw [if_pos (owns.null_iff.mpr holds), Option.toList_none, List.map_nil]
    | some count =>
      have kept : c.counter_ ≠ .null := owns.null_iff.not.mpr (by simp [holds])
      rw [if_neg kept, Option.toList_some, List.map_singleton]

theorem release_balanced (balanced : Balanced initial s) {i : Nat}
    (taken : s.step (.release i) = some after) :
    Balanced initial after := by
  obtain ⟨c, there, released⟩ := Option.bind_eq_some_iff.mp taken
  have given := giveBack_balanced balanced there
  by_cases null : c.counter_ = .null
  · rw [Counter.release, if_pos null] at released
    cases released
    have owns : Owns (some c) none := null
    simpa only [null, if_true] using given (some c) owns
  · have defined := (balanced.holder there).defined
    rw [Counter.release, if_neg null, Counter.fetchSub, if_neg defined] at released
    cases released
    simpa only [null, if_false] using given (some ⟨-1, .null⟩) rfl

theorem destroy_balanced (balanced : Balanced initial s) {i : Nat}
    (taken : s.step (.destroy i) = some after) :
    Balanced initial after := by
  obtain ⟨c, there, destroyed⟩ := Option.bind_eq_some_iff.mp taken
  have given := giveBack_balanced balanced there none rfl
  by_cases null : c.counter_ = .null
  · rw [Counter.destroy, if_neg (not_not.mpr null)] at destroyed
    cases destroyed
    simpa only [null, if_true] using given
  · have defined := (balanced.holder there).defined
    rw [Counter.destroy, if_pos null, Counter.fetchSub, if_neg defined] at destroyed
    cases destroyed
    simpa only [null, if_false] using given

/-- A move of a count leaves the new object without it. -/
theorem move_balanced_iff (balanced : Balanced initial s) {source : Nat} {memory : Address}
    (taken : s.step (.move source memory) = some after) :
    Balanced initial after ↔ s.MovesNone (.move source memory) := by
  obtain ⟨c, there, rfl⟩ := Option.map_eq_some_iff.mp taken
  have owns := balanced.holder there
  have moves_none : s.MovesNone (.move source memory) ↔ memory = .null ∧ c.counter_ = .null := by
    constructor
    · intro none
      obtain ⟨null, empty⟩ := none source memory rfl
      exact ⟨null, empty c there⟩
    · rintro ⟨null, empty⟩ source memory ⟨⟩
      refine ⟨null, fun c' there' => ?_⟩
      cases there.symm.trans there'
      exact empty
  rw [moves_none, owns.null_iff]
  -- in the ledger the new object takes over what the other one held
  constructor
  · intro later
    obtain ⟨olds, new⟩ := forall₂_of_append later.owns
    have inside : source < s.objects.length :=
      (List.getElem?_eq_some_iff.mp (Option.join_eq_some_iff.mp there)).1
    obtain ⟨count, holds, old⟩ := forall₂_getElem? olds (List.getElem?_set_self inside)
    have room : source < s.ledger.holds.length := balanced.owns.length_eq ▸ inside
    cases holds.symm.trans (List.getElem?_set_self room)
    exact ⟨old, new.null_iff.mp rfl⟩
  · -- there was nothing to move, and both point nowhere
    rintro ⟨rfl, empty⟩
    have held := (s.ledger.held_transfer source).length_eq
    refine ⟨?_, ?_, balanced.subtracted, Ledger.settled_transfer balanced.settled source⟩
    · rw [held]
      exact balanced.atomic
    · have moved : Owns (some (Counter.move .null c).2) none := rfl
      refine forall₂_append (forall₂_set balanced.owns moved source) ?_
      rw [empty]
      rfl

theorem step_balanced_iff (balanced : Balanced initial s) {action : CounterAction}
    (taken : s.step action = some after) : Balanced initial after ↔ s.MovesNone action := by
  cases action with
  | construct => exact iff_of_true (construct_balanced balanced taken) nofun
  | move source memory => exact move_balanced_iff balanced taken
  | release i => exact iff_of_true (release_balanced balanced taken) nofun
  | destroy i => exact iff_of_true (destroy_balanced balanced taken) nofun

/-- In a run from an atomic without objects, the books balance throughout exactly if no step moves a
count or writes an address that was left in memory. -/
theorem balanced_iff_movesNone {past : List (Counters × CounterAction)} {state : Counters}
    (run : Transition.Run step (init initial) past state) :
    Transition.Always (Balanced initial) past state ↔ Transition.EachStep MovesNone past :=
  run.always_iff_eachStep (fun _ => True) ⟨trivial, balanced_init⟩ (fun _ _ _ _ _ => trivial)
    fun _ _ _ _ balanced taken => step_balanced_iff balanced taken

theorem balanced_iff_movesNone_two :
    let actions : List CounterAction := [.construct, .construct, .release 0, .destroy 1, .destroy 0]
    ∃ past state, Transition.replay step [] (init 7) actions = some (past, state) ∧
      state.atomic = 7 ∧
      (Transition.Always (Balanced 7) past state ↔ Transition.EachStep MovesNone past) := by
  intro actions
  have replayed : Transition.replay step [] (init 7) actions = some _ := rfl
  exact ⟨_, _, replayed, rfl, balanced_iff_movesNone (Transition.Run.of_replay .start replayed)⟩

/-- A count that is moved stays on the atomic when both objects are gone, and an object that was
released and moved may subtract a second time. -/
theorem moved_count_lost :
    (∃ past state, Transition.Run step (init 0) past state ∧ state.objects = [none, none] ∧
      state.ledger.held = [] ∧ state.ledger.returned = [0] ∧ state.subtractions = [] ∧
        state.atomic = 1) ∧
    ∃ past state, Transition.Run step (init 0) past state ∧ state.objects = [none, none] ∧
      state.ledger.held = [] ∧ state.subtractions = [some 0, none] ∧ state.atomic = -1 := by
  constructor
  · have replayed : Transition.replay step [] (init 0)
        [.construct, .move 0 .null, .destroy 0, .destroy 1] =
      some _ := rfl
    exact ⟨_, _, Transition.Run.of_replay .start replayed, rfl, rfl, rfl, rfl, rfl⟩
  · have replayed : Transition.replay step [] (init 0)
      [.construct, .release 0, .move 0 .atomic, .destroy 0, .destroy 1] = some _ := rfl
    exact ⟨_, _, Transition.Run.of_replay .start replayed, rfl, rfl, rfl, rfl⟩

end Counters

end Tlgs

import Mathlib.Data.List.ReduceOption
import Mathlib.Data.List.Forall2

/-!
# Who holds which count

A ledger of counts that objects hold: a new object takes a count, a move hands what an object holds
to a new one, and an object gives back what it holds. Each count is with one object or was given
back, once, whatever the order.
-/
namespace Ownership

/-- Counts are numbered as they are taken, objects as they are made. -/
structure Ledger where
  holds : List (Option Nat)
  counts : Nat
  returned : List Nat
  deriving DecidableEq, Repr

namespace Ledger

def empty : Ledger := ⟨[], 0, []⟩

/-- What an object holds; nothing if there is no such object. -/
def holder (ledger : Ledger) (i : Nat) : Option Nat := (ledger.holds[i]?).join

/-- The counts that some object holds. -/
def held (ledger : Ledger) : List Nat := ledger.holds.reduceOption

/-- A new object takes a count. -/
def take (ledger : Ledger) : Ledger :=
  { ledger with holds := ledger.holds ++ [some ledger.counts], counts := ledger.counts + 1 }

/-- A new object gets what `source` holds. -/
def transfer (ledger : Ledger) (source : Nat) : Ledger :=
  { ledger with holds := ledger.holds.set source none ++ [ledger.holder source] }

/-- An object gives back what it holds. -/
def giveBack (ledger : Ledger) (i : Nat) : Ledger :=
  { ledger with
    holds := ledger.holds.set i none
    returned := ledger.returned ++ (ledger.holder i).toList }

/-- Every count is with one object or was given back, and only once. -/
def Settled (ledger : Ledger) : Prop :=
  (ledger.held ++ ledger.returned).Perm (List.range ledger.counts)

end Ledger

/-! ### Objects in a list -/

/-- What an object no longer holds is what is missing afterwards. -/
theorem reduceOption_set_none (holds : List (Option Nat)) (i : Nat) :
    ((holds[i]?).join.toList ++ (holds.set i none).reduceOption).Perm holds.reduceOption := by
  induction holds generalizing i with
  | nil => exact List.Perm.refl _
  | cons first rest ih =>
    cases i with
    | zero =>
      cases first with
      | none => exact List.Perm.refl _
      | some count => exact List.Perm.refl _
    | succ i =>
      cases first with
      | none => exact ih i
      | some count =>
        -- the count in front stays where it is
        simp only [List.getElem?_cons_succ, List.set_cons_succ, List.reduceOption_cons_of_some]
        exact List.perm_middle.trans ((ih i).cons count)

section Forall

variable {α β : Type} {related : α → β → Prop} {xs : List α} {ys : List β}

theorem forall₂_set (all : List.Forall₂ related xs ys) {x : α} {y : β} (new : related x y)
    (i : Nat) :
    List.Forall₂ related (xs.set i x) (ys.set i y) := by
  induction all generalizing i with
  | nil => exact .nil
  | cons head tail ih =>
    cases i with
    | zero => exact .cons new tail
    | succ i => exact .cons head (ih i)

theorem forall₂_append (all : List.Forall₂ related xs ys) {x : α} {y : β} (new : related x y) :
    List.Forall₂ related (xs ++ [x]) (ys ++ [y]) := by
  induction all with
  | nil => exact .cons new .nil
  | cons head _ ih => exact .cons head ih

theorem forall₂_of_append {x : α} {y : β} (all : List.Forall₂ related (xs ++ [x]) (ys ++ [y])) :
    List.Forall₂ related xs ys ∧ related x y := by
  have same : xs.length = ys.length := by simpa using all.length_eq
  induction xs generalizing ys with
  | nil =>
    rw [List.eq_nil_of_length_eq_zero same.symm] at all ⊢
    cases all with
    | cons last _ => exact ⟨.nil, last⟩
  | cons first xs ih =>
    obtain ⟨other, ys, rfl⟩ := List.exists_cons_of_length_eq_add_one same.symm
    cases all with
    | cons head tail =>
      obtain ⟨rest, last⟩ := ih tail (Nat.succ.inj same)
      exact ⟨.cons head rest, last⟩

theorem forall₂_getElem? (all : List.Forall₂ related xs ys) {i : Nat} {x : α}
    (found : xs[i]? = some x) :
    ∃ y, ys[i]? = some y ∧ related x y := by
  induction all generalizing i with
  | nil => cases found
  | cons head _ ih =>
    cases i with
    | zero =>
      cases found
      exact ⟨_, rfl, head⟩
    | succ i => exact ih found

end Forall

/-! ### Every step settles -/

namespace Ledger

variable {ledger : Ledger}

theorem settled_empty : Settled empty := List.Perm.refl _

theorem settled_take (settled : Settled ledger) : Settled ledger.take := by
  have new : ledger.take.held = ledger.held ++ [ledger.counts] := List.reduceOption_append _ _
  -- the new count is the last one
  calc
    ledger.take.held ++ ledger.returned = ledger.held ++ ([ledger.counts] ++ ledger.returned) := by
      rw [new, List.append_assoc]
    List.Perm _ (ledger.held ++ (ledger.returned ++ [ledger.counts])) :=
      List.Perm.append_left _ List.perm_append_comm
    _ = ledger.held ++ ledger.returned ++ [ledger.counts] := (List.append_assoc _ _ _).symm
    List.Perm _ (List.range ledger.counts ++ [ledger.counts]) := settled.append_right _
    _ = List.range (ledger.counts + 1) := List.range_succ.symm

/-- A move changes who holds a count, and nothing else. -/
theorem held_transfer (ledger : Ledger) (source : Nat) :
    (ledger.transfer source).held.Perm ledger.held := by
  have new : [ledger.holder source].reduceOption = (ledger.holder source).toList := by
    cases ledger.holder source <;> rfl
  simp only [held, transfer, List.reduceOption_append, new]
  exact List.perm_append_comm.trans (reduceOption_set_none ledger.holds source)

theorem settled_transfer (settled : Settled ledger) (source : Nat) :
    Settled (ledger.transfer source) :=
  ((held_transfer ledger source).append_right _).trans settled

theorem held_giveBack (ledger : Ledger) (i : Nat) :
    ((ledger.holder i).toList ++ (ledger.giveBack i).held).Perm ledger.held :=
  reduceOption_set_none ledger.holds i

theorem settled_giveBack (settled : Settled ledger) (i : Nat) : Settled (ledger.giveBack i) := by
  have given := (held_giveBack ledger i).append_right ledger.returned
  calc
    (ledger.giveBack i).held ++ (ledger.returned ++ (ledger.holder i).toList) =
        (ledger.giveBack i).held ++ ledger.returned ++ (ledger.holder i).toList :=
      (List.append_assoc _ _ _).symm
    List.Perm _ ((ledger.holder i).toList ++ ((ledger.giveBack i).held ++ ledger.returned)) :=
      List.perm_append_comm
    _ = (ledger.holder i).toList ++ (ledger.giveBack i).held ++ ledger.returned :=
      (List.append_assoc _ _ _).symm
    List.Perm _ (ledger.held ++ ledger.returned) := given
    List.Perm _ (List.range ledger.counts) := settled

end Ledger

end Ownership

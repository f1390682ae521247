import Mathlib.Order.Defs.Unbundled
import Mathlib.Data.List.Basic
import Mathlib.Data.List.Induction
import Mathlib.Data.List.Pairwise

/-!
# Ordered sets

A set kept as the strictly ascending list of its elements, so that two of them with the
same elements are equal. In a set that is ordered by a comparison of its own, elements that are
neither before nor after each other count as one, and the first to be inserted stays.
-/
namespace OrderedSet

variable {α : Type} [LT α]

/-- Strictly ascending. -/
def Ascending (s : List α) : Prop := s.Pairwise (· < ·)

theorem ascending_nil : Ascending ([] : List α) := List.Pairwise.nil

section Insert

variable [DecidableLT α]

/-- An element that is there already is not inserted again. -/
def insert (x : α) : List α → List α
  | [] => [x]
  | y :: s => if x < y then x :: y :: s else if y < x then y :: insert x s else y :: s

variable [Std.Trichotomous (· < · : α → α → Prop)]

@[simp] theorem mem_insert {x z : α} {s : List α} : z ∈ insert x s ↔ z = x ∨ z ∈ s := by
  induction s with
  | nil => simp [insert]
  | cons y s ih =>
    simp only [insert]
    split
    · simp
    · split
      · simp [ih, or_left_comm]
      next above below =>
        cases Std.Trichotomous.trichotomous (r := (· < ·)) x y above below
        simp

theorem ascending_insert [IsTrans α (· < ·)] {x : α} {s : List α} (ascending : Ascending s) :
    Ascending (insert x s) := by
  induction s with
  | nil => exact List.pairwise_singleton _ _
  | cons y s ih =>
    obtain ⟨least, rest⟩ := List.pairwise_cons.mp ascending
    simp only [insert]
    split
    -- the new element goes first
    next above =>
      refine List.pairwise_cons.mpr ⟨fun z member => ?_, ascending⟩
      rcases List.mem_cons.mp member with rfl | later
      · exact above
      · exact trans_of (· < ·) above (least z later)
    · split
      -- the new element goes further down
      next below =>
        refine List.pairwise_cons.mpr ⟨fun z member => ?_, ih rest⟩
        rcases mem_insert.mp member with rfl | later
        · exact below
        · exact least z later
      · exact ascending

end Insert

theorem eq_of_mem_iff [Std.Asymm (· < · : α → α → Prop)] {s t : List α} (ascending : Ascending s)
    (ascending' : Ascending t) (same : ∀ x, x ∈ s ↔ x ∈ t) : s = t := by
  have distinct : ∀ {s : List α}, Ascending s → s.Nodup := fun ascending =>
    List.Pairwise.imp (fun below equal => by
      subst equal
      exact asymm_of (· < ·) below below) ascending
  refine List.Perm.eq_of_pairwise (fun x y _ _ below above => absurd above (asymm_of (· < ·) below))
    ascending ascending' ?_
  exact (List.perm_ext_iff_of_nodup (distinct ascending) (distinct ascending')).mpr same

/-! ### By a comparison -/

section Comparison

variable {α β γ : Type}

/-- The comparison orders the elements by a key: of two elements with different keys exactly one is
before the other. -/
structure OrderedBy (lt : α → α → Bool) (key : α → β) : Prop where
  apart : ∀ a b, key a ≠ key b → lt a b = true ∨ lt b a = true
  alike : ∀ a b, key a = key b → lt a b = false
  trans : ∀ a b c, lt a b = true → lt b c = true → lt a c = true

theorem OrderedBy.incomparable_iff {lt : α → α → Bool} {key : α → β} (ordered : OrderedBy lt key)
    (a b : α) :
    key a = key b ↔ lt a b = false ∧ lt b a = false := by
  constructor
  · exact fun same => ⟨ordered.alike a b same, ordered.alike b a same.symm⟩
  · rintro ⟨before, after⟩
    by_contra other
    rcases ordered.apart a b other with below | above
    · rw [below] at before
      cases before
    · rw [above] at after
      cases after

/-- By a part first, and by another comparison where the parts are equal. -/
def thenBy [DecidableEq γ] [LT γ] [DecidableLT γ] (part : α → γ) (lt : α → α → Bool) (a b : α) :
    Bool :=
  if part a ≠ part b then part a < part b else lt a b

theorem orderedBy_nothing : OrderedBy (fun _ _ => false) (fun _ : α => ()) where
  apart _ _ other := absurd rfl other
  alike _ _ _ := rfl
  trans _ _ _ before _ := before

theorem OrderedBy.thenBy [DecidableEq γ] [LT γ] [DecidableLT γ]
    [Std.Trichotomous (· < · : γ → γ → Prop)] [Std.Asymm (· < · : γ → γ → Prop)]
    [IsTrans γ (· < ·)] {lt : α → α → Bool} {key : α → β} (ordered : OrderedBy lt key)
    (part : α → γ) :
    OrderedBy (OrderedSet.thenBy part lt) fun a => (part a, key a) where
  apart a b other := by
    by_cases same : part a = part b
    · have keys : key a ≠ key b := fun equal => other (Prod.ext same equal)
      simpa [OrderedSet.thenBy, same] using ordered.apart a b keys
    · have below : part a < part b ∨ part b < part a := by
        by_contra neither
        rw [not_or] at neither
        exact same (Std.Trichotomous.trichotomous (r := (· < ·)) _ _ neither.1 neither.2)
      simpa [OrderedSet.thenBy, same, Ne.symm same] using below
  alike a b same := by
    have parts : part a = part b := congrArg Prod.fst same
    simpa [OrderedSet.thenBy, parts] using ordered.alike a b (congrArg Prod.snd same)
  trans a b c before after := by
    simp only [OrderedSet.thenBy] at before after ⊢
    by_cases first : part a = part b
    · rw [if_neg (not_not.mpr first)] at before
      rw [first]
      by_cases second : part b = part c
      · rw [if_neg (not_not.mpr second)] at after ⊢
        exact ordered.trans a b c before after
      · rwa [if_pos second] at after ⊢
    · -- `part` decides between the first two, so it decides between the first and the last
      rw [if_pos first, decide_eq_true_iff] at before
      have below : part a < part c := by
        by_cases second : part b = part c
        · rwa [← second]
        · rw [if_pos second, decide_eq_true_iff] at after
          exact trans_of (· < ·) before after
      have other : part a ≠ part c := fun equal => by
        rw [equal] at below
        exact asymm_of (· < ·) below below
      rw [if_pos other, decide_eq_true_iff]
      exact below

/-- An element that is neither before nor after one that is there is not inserted. -/
def insertBy (lt : α → α → Bool) (x : α) : List α → List α
  | [] => [x]
  | y :: s => if lt x y then x :: y :: s else if lt y x then y :: insertBy lt x s else y :: s

/-- The elements of a list, inserted one by one. -/
def ofList (lt : α → α → Bool) (xs : List α) : List α := xs.foldl (fun s x => insertBy lt x s) []

/-- Some element of the list, and the first one with its key. -/
def FirstOf (key : α → β) (xs : List α) (x : α) : Prop :=
  ∃ before after, xs = before ++ x :: after ∧ ∀ y ∈ before, key y ≠ key x

variable {lt : α → α → Bool} {key : α → β} {x z : α} {s xs : List α}

theorem mem_insertBy (ordered : OrderedBy lt key)
    (ascending : s.Pairwise fun a b => lt a b = true) :
    z ∈ insertBy lt x s ↔ z ∈ s ∨ z = x ∧ ∀ y ∈ s, key y ≠ key x := by
  induction s with
  | nil => simp [insertBy]
  | cons y s ih =>
    obtain ⟨least, rest⟩ := List.pairwise_cons.mp ascending
    have other_of_lt : ∀ {a b : α}, lt a b = true → key a ≠ key b := fun before same => by
      rw [ordered.alike _ _ same] at before
      cases before
    rw [insertBy]
    split
    next below =>
      -- the new element is before all others
      have new : ∀ w ∈ y :: s, key w ≠ key x := by
        intro w member
        rcases List.mem_cons.mp member with rfl | later
        · exact (other_of_lt below).symm
        · exact (other_of_lt (ordered.trans x y w below (least w later))).symm
      rw [List.mem_cons, or_comm, and_iff_left new]
    next not_below =>
      split
      next above =>
        rw [List.mem_cons, ih rest, List.mem_cons, List.forall_mem_cons,
          and_iff_right (other_of_lt above), or_assoc]
      next not_above =>
        have same : key y = key x := (ordered.incomparable_iff y x).mpr
          ⟨Bool.eq_false_iff.mpr not_above, Bool.eq_false_iff.mpr not_below⟩
        rw [List.forall_mem_cons, or_iff_left]
        exact fun new => new.2.1 same

theorem pairwise_insertBy (ordered : OrderedBy lt key)
    (ascending : s.Pairwise fun a b => lt a b = true) :
    (insertBy lt x s).Pairwise fun a b => lt a b = true := by
  induction s with
  | nil => exact List.pairwise_singleton _ _
  | cons y s ih =>
    obtain ⟨least, rest⟩ := List.pairwise_cons.mp ascending
    rw [insertBy]
    split
    -- in front of all others
    next below =>
      refine List.pairwise_cons.mpr ⟨fun z member => ?_, ascending⟩
      rcases List.mem_cons.mp member with rfl | later
      · exact below
      · exact ordered.trans x y z below (least z later)
    next not_below =>
      split
      -- behind the first one
      next above =>
        refine List.pairwise_cons.mpr ⟨fun z member => ?_, ih rest⟩
        rcases (mem_insertBy ordered rest).mp member with later | ⟨rfl, -⟩
        · exact least z later
        · exact above
      next not_above => exact ascending

theorem ofList_concat (lt : α → α → Bool) (xs : List α) (x : α) :
    ofList lt (xs ++ [x]) = insertBy lt x (ofList lt xs) := by
  rw [ofList, List.foldl_append]
  rfl

theorem pairwise_ofList (ordered : OrderedBy lt key) (xs : List α) :
    (ofList lt xs).Pairwise fun a b => lt a b = true := by
  induction xs using List.reverseRecOn with
  | nil => exact List.Pairwise.nil
  | append_singleton xs x ih =>
    rw [ofList_concat]
    exact pairwise_insertBy ordered ih

theorem firstOf_concat :
    FirstOf key (xs ++ [x]) z ↔ FirstOf key xs z ∨ z = x ∧ ∀ y ∈ xs, key y ≠ key x := by
  constructor
  · rintro ⟨before, after, same, first⟩
    rcases List.eq_nil_or_concat' after with rfl | ⟨after, last, rfl⟩
    · obtain ⟨rfl, equal⟩ := List.append_inj' same rfl
      cases equal
      exact .inr ⟨rfl, first⟩
    · rw [← List.cons_append, ← List.append_assoc] at same
      exact .inl ⟨before, after, (List.append_inj' same rfl).1, first⟩
  · rintro (⟨before, after, rfl, first⟩ | ⟨rfl, first⟩)
    · exact ⟨before, after ++ [x], by simp, first⟩
    · exact ⟨xs, [], rfl, first⟩

theorem FirstOf.mem (first : FirstOf key xs z) : z ∈ xs := by
  obtain ⟨before, after, rfl, -⟩ := first
  exact List.mem_append_right _ List.mem_cons_self

/-- For every element of the list, the first one with its key. -/
theorem exists_firstOf {y : α} (member : y ∈ xs) : ∃ z, FirstOf key xs z ∧ key z = key y := by
  induction xs with
  | nil => cases member
  | cons x xs ih =>
    by_cases here : key x = key y
    · exact ⟨x, ⟨[], xs, rfl, nofun⟩, here⟩
    · have later : y ∈ xs := by
        rcases List.mem_cons.mp member with rfl | later
        · exact absurd rfl here
        · exact later
      obtain ⟨z, ⟨before, after, rfl, first⟩, same⟩ := ih later
      refine ⟨z, ⟨x :: before, after, rfl, ?_⟩, same⟩
      exact List.forall_mem_cons.mpr ⟨same ▸ here, first⟩

/-- The set keeps of each key the element that came first. -/
theorem mem_ofList (ordered : OrderedBy lt key) : z ∈ ofList lt xs ↔ FirstOf key xs z := by
  induction xs using List.reverseRecOn generalizing z with
  | nil => simp [ofList, FirstOf]
  | append_singleton xs x ih =>
    rw [ofList_concat, mem_insertBy ordered (pairwise_ofList ordered xs), firstOf_concat, ih]
    refine or_congr_right (and_congr_right fun _ => ?_)
    constructor
    · intro new y member same
      obtain ⟨w, first, equal⟩ := exists_firstOf member
      exact new w (ih.mpr first) (equal.trans same)
    · exact fun new y member => new y (ih.mp member).mem

/-- No two elements of the set have the same image exactly if, among the elements that came first,
those with the same image have the same key. -/
theorem nodup_map_ofList (ordered : OrderedBy lt key) (image : α → γ) :
    ((ofList lt xs).map image).Nodup ↔
      ∀ a b, FirstOf key xs a → FirstOf key xs b → image a = image b → key a = key b := by
  have ascending : (ofList lt xs).Pairwise fun a b => lt a b = true := pairwise_ofList ordered xs
  rw [List.Nodup, List.pairwise_map]
  constructor
  · intro distinct a b first first' same
    by_contra other
    have member := (mem_ofList ordered).mpr first
    have member' := (mem_ofList ordered).mpr first'
    have apart : a ≠ b := fun equal => other (equal ▸ rfl)
    have symm : Std.Symm fun a b : α => image a ≠ image b := ⟨fun _ _ => Ne.symm⟩
    exact distinct.forall member member' apart same
  · intro keys
    refine List.Pairwise.imp_of_mem (fun {a b} member member' before same => ?_) ascending
    have equal := keys a b ((mem_ofList ordered).mp member) ((mem_ofList ordered).mp member') same
    rw [ordered.alike a b equal] at before
    cases before

end Comparison

end OrderedSet

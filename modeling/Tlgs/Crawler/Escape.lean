import Tlgs.Base.Bytes

/-!
# Quoting text for SQL

`pgSQLRealEscape` prepares a text for a quoted literal by seven replacements in a row,
which together replace every character on its own. A reader that undoes these
escapes gets the text back.
-/
namespace Tlgs

open Bytes

variable (replaceAll : Str → Str → Str → Str)

def pgSQLRealEscape (str : Str) : Str :=
  let str := replaceAll str [92] [92, 92]
  let str := replaceAll str [0] [92, 48]
  let str := replaceAll str [10] [92, 110]
  let str := replaceAll str [13] [92, 114]
  let str := replaceAll str [39] [39, 39]
  let str := replaceAll str [34] [92, 34]
  replaceAll str [26] [92, 90]

/-- Replacing one character replaces each occurrence on its own. -/
private def replaceChar (c : UInt8) (sub : Str) (d : UInt8) : Str := if d = c then sub else [d]

private theorem replaceAllFuel_of_ne {c d : UInt8} (sub : Str) (fuel : Nat) (s : Str)
    (different : d ≠ c) :
    replaceAllFuel [c] sub (fuel + 1) (d :: s) = d :: replaceAllFuel [c] sub (fuel + 1) s := by
  have skip : find [c] (d :: s) = (find [c] s).map (· + 1) :=
    find_append_of_not_mem c [] [d] s (by simpa using different.symm)
  simp only [replaceAllFuel]
  rw [skip]
  cases find [c] s with
  | none => rfl
  | some i => simp

private theorem replaceAllFuel_char (c : UInt8) (sub : Str) {s : Str} {fuel : Nat}
    (enough : s.length ≤ fuel) : replaceAllFuel [c] sub fuel s = s.flatMap (replaceChar c sub) := by
  induction s generalizing fuel with
  | nil => cases fuel <;> rfl
  | cons d s ih =>
    obtain ⟨fuel, rfl⟩ : ∃ fuel', fuel = fuel' + 1 :=
      ⟨fuel - 1, by rw [List.length_cons] at enough; omega⟩
    rw [List.length_cons] at enough
    by_cases same : d = c
    · -- the search stops here, and goes on after the replacement
      subst same
      have found : find [d] (d :: s) = some 0 := find_of_prefix [d] s
      have rest := ih (show s.length ≤ fuel by omega)
      simp [replaceAllFuel, found, replaceChar, rest]
    · rw [replaceAllFuel_of_ne sub fuel s same, ih (by omega)]
      simp [replaceChar, same]

variable {replaceAll}

private theorem replaceAll_char (replaces : ReplacesAll replaceAll) (c : UInt8) (sub s : Str) :
    replaceAll s [c] sub = s.flatMap (replaceChar c sub) := by
  rw [replaces s [c] sub (List.cons_ne_nil _ _)]
  exact replaceAllFuel_char c sub (Nat.le_refl _)

/-- What becomes of one character. -/
def escapeChar (c : UInt8) : Str :=
  if c = 92 then [92, 92]
  else if c = 0 then [92, 48]
  else if c = 10 then [92, 110]
  else if c = 13 then [92, 114]
  else if c = 39 then [39, 39]
  else if c = 34 then [92, 34]
  else if c = 26 then [92, 90]
  else [c]

theorem pgSQLRealEscape_eq (replaces : ReplacesAll replaceAll) (str : Str) :
    pgSQLRealEscape replaceAll str = str.flatMap escapeChar := by
  simp only [pgSQLRealEscape, replaceAll_char replaces, List.flatMap_assoc]
  refine congrArg (str.flatMap ·) (funext fun c => ?_)
  -- one case for each character that is replaced; later replacements leave its escape alone
  simp only [escapeChar]
  repeat' split
  all_goals simp_all [replaceChar]

/-! ### Reading the literal -/

def unescapeChar (c : UInt8) : UInt8 :=
  if c = 48 then 0 else if c = 110 then 10 else if c = 114 then 13 else if c = 90 then 26 else c

/-- Undo backslash escapes and doubled quotes. -/
def readEscapes : Str → Str
  | c :: d :: s =>
    if c = 92 then unescapeChar d :: readEscapes s
    else if c = 39 then 39 :: readEscapes s
    else c :: readEscapes (d :: s)
  | s => s

private theorem readEscapes_plain {c : UInt8} (s : Str) (backslash : c ≠ 92) (quote : c ≠ 39) :
    readEscapes (c :: s) = c :: readEscapes s := by
  cases s with
  | nil => rfl
  | cons d s => simp [readEscapes, backslash, quote]

private theorem readEscapes_escapeChar (c : UInt8) (s : Str) :
    readEscapes (escapeChar c ++ s) = c :: readEscapes s := by
  simp only [escapeChar]
  -- an escaped character is read back from its escape, any other one as it is
  repeat' split
  all_goals first
    | (rename_i same; subst same; rfl)
    | exact readEscapes_plain s (by assumption) (by assumption)

theorem readEscapes_pgSQLRealEscape (replaces : ReplacesAll replaceAll) (str : Str) :
    readEscapes (pgSQLRealEscape replaceAll str) = str := by
  rw [pgSQLRealEscape_eq replaces]
  induction str with
  | nil => rfl
  | cons c str ih => rw [List.flatMap_cons, readEscapes_escapeChar, ih]

end Tlgs

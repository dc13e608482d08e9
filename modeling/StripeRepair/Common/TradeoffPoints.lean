import Mathlib

/-!
# `TradeoffPoints`

A table of colourings that were computed beforehand. A colouring is stored as a string with a
fixed number of digits for each colour.

* `stoi_of_digits`: a string of digits is read as its value, up to `INT_MAX`.
-/

namespace StripeRepair

namespace DistUtil

/-- The value of a string of digits. -/
def value (s : List Char) : Nat := s.foldl (fun n c => n * 10 + (c.toNat - '0'.toNat)) 0

/-- `isspace` -/
def isSpace (c : Char) : Bool := c = ' ' ∨ 9 ≤ c.toNat ∧ c.toNat ≤ 13

/-- The digits that are read; there has to be one. -/
def stoul (s : List Char) : Option Nat :=
  let digits := s.takeWhile Char.isDigit
  if digits = [] then none else some (value digits)

def stol (s : List Char) : Option Int :=
  match s.dropWhile isSpace with
  | '-' :: s => (stoul s).map fun n => -(n : Int)
  | '+' :: s => (stoul s).map fun n => (n : Int)
  | s => (stoul s).map fun n => (n : Int)

/-- `std::stoi`: it throws when there are no digits, or when the value is no `int`. -/
def stoi (s : List Char) : Option Int :=
  (stol s).filter fun v => -2 ^ 31 ≤ v ∧ v < 2 ^ 31

theorem foldl_value (n : Nat) (s : List Char) :
    s.foldl (fun n c => n * 10 + (c.toNat - '0'.toNat)) n = n * 10 ^ s.length + value s := by
  unfold value
  induction s generalizing n with
  | nil => simp
  | cons c s ih =>
    rw [List.foldl_cons, List.foldl_cons, ih, ih (0 * 10 + _), List.length_cons]
    ring

theorem value_cons (c : Char) (s : List Char) :
    value (c :: s) = (c.toNat - '0'.toNat) * 10 ^ s.length + value s := by
  rw [value, List.foldl_cons, foldl_value, Nat.zero_mul, Nat.zero_add]

theorem value_replicate (k : Nat) (s : List Char) :
    value (List.replicate k '0' ++ s) = value s := by
  induction k with
  | zero => rfl
  | succ k ih =>
    rw [List.replicate_succ, List.cons_append, value_cons, ih, Nat.sub_self, Nat.zero_mul,
      Nat.zero_add]

theorem isSpace_of_isDigit {c : Char} (h : c.isDigit = true) : isSpace c = false := by
  have hnat : 48 ≤ c.toNat := (Char.isDigit_iff_toNat.1 h).1
  have hne : c ≠ ' ' := by
    rintro rfl
    exact absurd h (by decide)
  refine decide_eq_false ?_
  rintro (hc | hc)
  · exact hne hc
  · omega

theorem stol_of_digits {s : List Char} (hne : s ≠ []) (hd : ∀ c ∈ s, c.isDigit = true) :
    stol s = some (value s : Int) := by
  have hul : stoul s = some (value s) := by
    unfold stoul
    rw [List.takeWhile_eq_self_iff.2 hd, if_neg hne]
  obtain ⟨c, s, rfl⟩ := List.exists_cons_of_ne_nil hne
  have hc : c.isDigit = true := hd c List.mem_cons_self
  unfold stol
  rw [List.dropWhile_cons_of_neg (by rw [isSpace_of_isDigit hc]; exact Bool.false_ne_true)]
  split
  · next heq =>
    rw [(List.cons.inj heq).1] at hc
    exact absurd hc (by decide)
  · next heq =>
    rw [(List.cons.inj heq).1] at hc
    exact absurd hc (by decide)
  · rw [hul]
    rfl

/-- **A string of digits** is read as its value. -/
theorem stoi_of_digits {s : List Char} (hne : s ≠ []) (hd : ∀ c ∈ s, c.isDigit = true)
    (hlt : value s < 2 ^ 31) : stoi s = some (value s : Int) := by
  rw [stoi, stol_of_digits hne hd]
  refine Option.filter_some_pos (decide_eq_true ?_)
  omega

end DistUtil

/-- `_digits` and `_points`; `_points[idx]` is empty when there is no entry. -/
structure TradeoffPoints where
  digits : Nat
  points : Nat → List Char

namespace TradeoffPoints

/-- The loop of `getColoringByIdx` over the rest of the string, in steps of `digits`. -/
def coloringLoop (digits : Nat) : Nat → List Char → Option (List Int)
  | 0, _ => some []
  | fuel + 1, tmps =>
    if tmps = [] then some []
    else
      match DistUtil.stoi (tmps.take digits) with
      | none => none
      | some v => (coloringLoop digits fuel (tmps.drop digits)).map (v :: ·)

/-- With `digits = 0` the first colour of an entry has no digits. -/
def getColoringByIdx (tp : TradeoffPoints) (idx : Nat) : Option (List Int) :=
  coloringLoop tp.digits (tp.points idx).length (tp.points idx)

end TradeoffPoints

end StripeRepair

import Mathlib
import StripeRepair.Common.TradeoffPoints

/-!
# `Solution` as a string

A solution is written with a fixed number of digits for each entry, and read back by another
program that knows this number.

* `getColoringByIdx_getString`: what is read back is the solution.
* `getString_inj`: two solutions of one size have two strings.
-/

namespace StripeRepair

namespace DistUtil

/-! ## Decimal numbers -/

/-- The loop of `ndigits`, which divides `m` in each round. -/
def ndigitsLoop : Nat → Nat → Nat → Nat
  | 0, digits, _ => digits
  | fuel + 1, digits, m => if m > 0 then ndigitsLoop fuel (digits + 1) (m / 10) else digits

def ndigits (m : Nat) : Nat := ndigitsLoop m 0 m

/-- The first loop of `num2str`: digits from the last to the first. -/
def num2strLoop : Nat → List Char → Nat → List Char
  | 0, toret, _ => toret
  | fuel + 1, toret, num =>
    if num > 0 then num2strLoop fuel (Nat.digitChar (num % 10) :: toret) (num / 10) else toret

/-- The second loop puts zeros before them. -/
def num2str (num digits : Nat) : List Char :=
  List.leftpad digits '0' (num2strLoop num [] num)

theorem ndigitsLoop_add (fuel digits m : Nat) :
    ndigitsLoop fuel digits m = digits + ndigitsLoop fuel 0 m := by
  induction fuel generalizing digits m with
  | zero => rfl
  | succ fuel ih =>
    unfold ndigitsLoop
    split
    · rw [ih, ih (0 + 1)]
      omega
    · rfl

/-- A larger number has no fewer digits. -/
theorem ndigitsLoop_mono {fuel fuel' m m' : Nat} (hf : fuel ≤ fuel') (hm : m ≤ m') :
    ndigitsLoop fuel 0 m ≤ ndigitsLoop fuel' 0 m' := by
  induction fuel generalizing fuel' m m' with
  | zero => exact Nat.zero_le _
  | succ fuel ih =>
    obtain ⟨f, rfl⟩ : ∃ f, fuel' = f + 1 := ⟨fuel' - 1, by omega⟩
    unfold ndigitsLoop
    by_cases h : m > 0
    · rw [if_pos h, if_pos (by omega), ndigitsLoop_add, ndigitsLoop_add f]
      have := ih (show fuel ≤ f by omega) (Nat.div_le_div_right (c := 10) hm)
      omega
    · rw [if_neg h]
      exact Nat.zero_le _

theorem ndigits_mono {m m' : Nat} (hm : m ≤ m') : ndigits m ≤ ndigits m' :=
  ndigitsLoop_mono hm hm

theorem ndigits_pos {m : Nat} (hm : 1 ≤ m) : 1 ≤ ndigits m := ndigits_mono hm

/-- What the first loop adds: the digits of `num`, as many as `ndigits` counts. -/
theorem num2strLoop_spec {fuel num : Nat} (hf : num ≤ fuel) (toret : List Char)
    (hd : ∀ c ∈ toret, c.isDigit = true) :
    (num2strLoop fuel toret num).length = ndigitsLoop fuel 0 num + toret.length ∧
      value (num2strLoop fuel toret num) = num * 10 ^ toret.length + value toret ∧
      ∀ c ∈ num2strLoop fuel toret num, c.isDigit = true := by
  induction fuel generalizing num toret with
  | zero =>
    obtain rfl : num = 0 := by omega
    simpa [num2strLoop, ndigitsLoop] using hd
  | succ fuel ih =>
    unfold num2strLoop ndigitsLoop
    by_cases h : num > 0
    · have hlt : num % 10 < 10 := Nat.mod_lt _ (by omega)
      obtain ⟨hlen, hval, hdig⟩ := ih (show num / 10 ≤ fuel by omega)
        (Nat.digitChar (num % 10) :: toret)
        (List.forall_mem_cons.2 ⟨by rw [Nat.isDigit_digitChar, decide_eq_true hlt], hd⟩)
      rw [if_pos h, if_pos h, ndigitsLoop_add]
      refine ⟨?_, ?_, hdig⟩
      · rw [hlen, List.length_cons]
        omega
      · rw [hval, value_cons, show '0'.toNat = 48 from rfl,
          Nat.toNat_digitChar_sub_48_of_lt_ten hlt, List.length_cons]
        calc num / 10 * 10 ^ (toret.length + 1) + (num % 10 * 10 ^ toret.length + value toret)
            = (10 * (num / 10) + num % 10) * 10 ^ toret.length + value toret := by ring
          _ = num * 10 ^ toret.length + value toret := by rw [Nat.div_add_mod]
    · rw [if_neg h, if_neg h]
      obtain rfl : num = 0 := by omega
      simpa using hd

section
variable {num m : Nat} (h : num ≤ m)
include h

theorem length_num2str : (num2str num (ndigits m)).length = ndigits m := by
  obtain ⟨hlen, -⟩ := num2strLoop_spec (le_refl num) [] (by simp)
  have hmono := ndigits_mono h
  unfold ndigits at hmono
  rw [num2str, List.length_leftpad, hlen, List.length_nil, Nat.add_zero]
  exact Nat.max_eq_left hmono

omit h in
theorem isDigit_num2str (num digits : Nat) : ∀ c ∈ num2str num digits, c.isDigit = true := by
  obtain ⟨-, -, hdig⟩ := num2strLoop_spec (le_refl num) [] (by simp)
  intro c hc
  rw [num2str, List.leftpad, List.mem_append] at hc
  rcases hc with hc | hc
  · rw [(List.mem_replicate.1 hc).2]
    rfl
  · exact hdig c hc

omit h in
theorem value_num2str (num digits : Nat) : value (num2str num digits) = num := by
  obtain ⟨-, hval, -⟩ := num2strLoop_spec (le_refl num) [] (by simp)
  rw [num2str, List.leftpad, value_replicate, hval]
  simp [value]

/-- **A padded number is read back.** -/
theorem stoi_num2str (hm : 1 ≤ m) (hint : num < 2 ^ 31) :
    stoi (num2str num (ndigits m)) = some (num : Int) := by
  have hlen := length_num2str h
  have hpos := ndigits_pos hm
  have hne : num2str num (ndigits m) ≠ [] := List.ne_nil_of_length_pos (by omega)
  have hval := value_num2str num (ndigits m)
  have hread := stoi_of_digits hne (isDigit_num2str num (ndigits m)) (by rwa [hval])
  rwa [hval] at hread

end

end DistUtil

open DistUtil

/-! ## Solutions -/

/-- `Solution::getString` of `_solution`, whose length is `_v`. -/
def getString (m : Nat) (solution : List Nat) : List Char :=
  solution.flatMap fun a => num2str a (ndigits m)

section
variable {m : Nat} (hm : 1 ≤ m)
include hm

theorem coloringLoop_getString (hint : m ≤ 2 ^ 31) {v : List Nat} (hv : ∀ a ∈ v, a < m) {fuel : Nat}
    (hf : v.length ≤ fuel) :
    TradeoffPoints.coloringLoop (ndigits m) fuel (getString m v) = some (v.map Int.ofNat) := by
  induction v generalizing fuel with
  | nil => cases fuel <;> rfl
  | cons a v ih =>
    obtain ⟨f, rfl⟩ : ∃ f, fuel = f + 1 := ⟨fuel - 1, by simp at hf; omega⟩
    have ha : a < m := hv a List.mem_cons_self
    have hlen := length_num2str ha.le
    have hpos := ndigits_pos hm
    have hstr : getString m (a :: v) = num2str a (ndigits m) ++ getString m v :=
      List.flatMap_cons
    have hne : num2str a (ndigits m) ++ getString m v ≠ [] := by
      refine List.append_ne_nil_of_left_ne_nil (List.ne_nil_of_length_pos ?_) _
      omega
    rw [hstr, TradeoffPoints.coloringLoop, if_neg hne, List.take_left' hlen, List.drop_left' hlen,
      stoi_num2str ha.le hm (ha.trans_le hint),
      ih (fun b hb => hv b (List.mem_cons_of_mem _ hb)) (Nat.le_of_succ_le_succ hf)]
    rfl

/-- Each entry has at least one digit. -/
theorem length_le_getString {v : List Nat} (hv : ∀ a ∈ v, a < m) :
    v.length ≤ (getString m v).length := by
  induction v with
  | nil => exact Nat.zero_le _
  | cons a v ih =>
    have hlen := length_num2str (hv a (List.mem_cons_self ..)).le
    have hpos := ndigits_pos hm
    have := ih fun b hb => hv b (List.mem_cons_of_mem _ hb)
    rw [getString, List.flatMap_cons, List.length_append, hlen, List.length_cons]
    unfold getString at this
    omega

/-- **The round trip**: the stored string is read back as the solution; `m` is an `int`. -/
theorem getColoringByIdx_getString (hint : m ≤ 2 ^ 31) {v : List Nat} (hv : ∀ a ∈ v, a < m)
    {tp : TradeoffPoints} {idx : Nat} (hdigits : tp.digits = ndigits m)
    (hpoint : tp.points idx = getString m v) :
    tp.getColoringByIdx idx = some (v.map Int.ofNat) := by
  rw [TradeoffPoints.getColoringByIdx, hdigits, hpoint]
  exact coloringLoop_getString hm hint hv (length_le_getString hm hv)

/-- **Two solutions have two strings**, as each number has the same width. -/
theorem getString_inj {v v' : List Nat} (hv : ∀ a ∈ v, a < m) (hv' : ∀ a ∈ v', a < m)
    (h : getString m v = getString m v') : v = v' := by
  induction v generalizing v' with
  | nil =>
    have hlen := length_le_getString hm hv'
    rw [← h] at hlen
    exact (List.eq_nil_of_length_eq_zero (Nat.le_zero.1 hlen)).symm
  | cons a v ih =>
    cases v' with
    | nil =>
      have hlen := length_le_getString hm hv
      rw [h] at hlen
      exact absurd (Nat.le_zero.1 hlen) (Nat.succ_ne_zero _)
    | cons b v' =>
      have hwidth : (num2str a (ndigits m)).length = (num2str b (ndigits m)).length :=
        (length_num2str (hv a List.mem_cons_self).le).trans
          (length_num2str (hv' b List.mem_cons_self).le).symm
      rw [getString, getString, List.flatMap_cons, List.flatMap_cons] at h
      obtain ⟨hhead, htail⟩ := List.append_inj h hwidth
      have hab : a = b := by
        rw [← value_num2str a (ndigits m), hhead, value_num2str]
      rw [hab, ih (fun x hx => hv x (List.mem_cons_of_mem _ hx))
        (fun x hx => hv' x (List.mem_cons_of_mem _ hx)) htail]

end

/-! ## The colourings of a search -/

/-- A colour below `m` for each of `v` vertices. -/
def Colors (v m : Nat) (c : List Nat) : Prop := c.length = v ∧ ∀ a ∈ c, a < m

/-- The colourings with another colour for one vertex, in the order of the loops. -/
def neighbors (v m : Nat) (solution : List Nat) : List (List Nat) :=
  (List.range v).flatMap fun i =>
    ((List.range m).filter (· ≠ solution.getD i 0)).map fun j => solution.set i j

section
variable {v m : Nat} {c : List Nat}

theorem mem_neighbors {c' : List Nat} : c' ∈ neighbors v m c ↔
    ∃ i < v, ∃ j < m, j ≠ c.getD i 0 ∧ c' = c.set i j := by
  simp only [neighbors, List.mem_flatMap, List.mem_range, List.mem_map, List.mem_filter,
    decide_eq_true_eq]
  constructor
  · rintro ⟨i, hi, j, ⟨hj, hne⟩, rfl⟩
    exact ⟨i, hi, j, hj, hne, rfl⟩
  · rintro ⟨i, hi, j, hj, hne, rfl⟩
    exact ⟨i, hi, j, ⟨hj, hne⟩, rfl⟩

theorem Colors.neighbor (h : Colors v m c) {c' : List Nat} (hc : c' ∈ neighbors v m c) :
    Colors v m c' := by
  obtain ⟨i, -, j, hj, -, rfl⟩ := mem_neighbors.1 hc
  refine ⟨(List.length_set ..).trans h.1, fun a ha => ?_⟩
  rcases List.mem_or_eq_of_mem_set ha with ha | rfl
  · exact h.2 a ha
  · exact hj

/-- With a colour for one vertex, a colouring is the same or one of these. -/
theorem Colors.set_eq_or_mem (h : Colors v m c) {i j : Nat} (hi : i < v) (hj : j < m) :
    c.set i j = c ∨ c.set i j ∈ neighbors v m c := by
  by_cases hold : j = c.getD i 0
  · rw [← h.1] at hi
    rw [hold, List.getD_eq_getElem _ _ hi]
    exact Or.inl (List.set_getElem_self hi)
  · exact Or.inr (mem_neighbors.2 ⟨i, hi, j, hj, hold, rfl⟩)

/-- The colourings, as functions. -/
theorem colors_iff : Colors v m c ↔ ∃ f : Fin v → Fin m, c = List.ofFn fun i => (f i : Nat) := by
  constructor
  · rintro ⟨rfl, h⟩
    exact ⟨fun i => ⟨c.get i, h _ (List.get_mem c i)⟩, (List.ofFn_get c).symm⟩
  · rintro ⟨f, rfl⟩
    refine ⟨List.length_ofFn, fun a ha => ?_⟩
    obtain ⟨i, rfl⟩ := (List.mem_ofFn' _ _).1 ha
    exact (f i).2

/-- **There are finitely many colourings.** -/
theorem length_le_of_colors {l : List (List Nat)} (hd : l.Nodup) (h : ∀ c ∈ l, Colors v m c) :
    l.length ≤ m ^ v := by
  have hcard : Fintype.card (Fin v → Fin m) = m ^ v := by simp
  have hsub : l.toFinset ⊆ Finset.univ.image fun f : Fin v → Fin m =>
      List.ofFn fun i => (f i : Nat) := by
    intro c hc
    obtain ⟨f, rfl⟩ := colors_iff.1 (h c (List.mem_toFinset.1 hc))
    exact Finset.mem_image_of_mem _ (Finset.mem_univ _)
  rw [← List.toFinset_card_of_nodup hd, ← hcard]
  exact (Finset.card_le_card hsub).trans Finset.card_image_le

end

end StripeRepair

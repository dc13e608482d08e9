import Mathlib.Data.Finset.Card
import Mathlib.Data.Finset.Image
import Mathlib.Data.List.GetD
import Mathlib.Data.List.Flatten
import Mathlib.Data.Nat.Bitwise

/-!
# The butterfly pattern

A table of `2 ^ m` rows and `m + 1` columns is reduced to one value for each row. The pattern
is a recursion on halves with the rows mirrored: row `i` takes of column `c` the entries in
the rows `rowsOf m c i`.

* `Peels`: without one column, half of the values are the pattern of half of the rows.
* `Selects`: and of the column each value takes one entry that is not in a known row.
-/

namespace Butterfly

/-- The row that mirrors row `i`. -/
def mir (m i : Nat) : Nat := 2 ^ m - 1 - i

/-- The entries of column `c` in the value of row `i`. -/
def rowsOf : Nat → Nat → Nat → List Nat
  | 0, _, _ => [0]
  | m + 1, 0, i => [mir (m + 1) i]
  | m + 1, c + 1, i =>
    if i < 2 ^ m then rowsOf m c i
    else mir (m + 1) i :: (rowsOf m c (mir (m + 1) i)).map (mir (m + 1))

/-! ## Mirroring -/

section
variable {m i : Nat}

theorem mir_lt (m i : Nat) : mir m i < 2 ^ m := by
  have := Nat.two_pow_pos m
  unfold mir
  omega

theorem mir_mir (hi : i < 2 ^ m) : mir m (mir m i) = i := by
  unfold mir
  omega

theorem mir_lt_half (hi : 2 ^ m ≤ i) : mir (m + 1) i < 2 ^ m := by
  have := Nat.two_pow_pos m
  unfold mir
  rw [Nat.pow_succ]
  omega

theorem half_le_mir (hi : i < 2 ^ m) : 2 ^ m ≤ mir (m + 1) i := by
  unfold mir
  rw [Nat.pow_succ]
  omega

theorem lt_double (hi : i < 2 ^ m) : i < 2 ^ (m + 1) := by
  rw [Nat.pow_succ]
  omega

/-- In binary all digits change. -/
theorem mir_eq_xor (hi : i < 2 ^ m) : mir m i = i ^^^ (2 ^ m - 1) := by
  refine Nat.eq_of_testBit_eq fun j => ?_
  have hsub : mir m i = 2 ^ m - (i + 1) := by
    unfold mir
    omega
  rw [hsub, Nat.testBit_two_pow_sub_succ hi, Nat.testBit_xor, Nat.testBit_two_pow_sub_one]
  by_cases hj : j < m
  · simp [hj]
  · have hbit : i.testBit j = false := by
      refine Nat.testBit_lt_two_pow (hi.trans_le ?_)
      exact Nat.pow_le_pow_right (by omega) (by omega)
    simp [hj, hbit]

theorem mir_div {e : Nat} (he : e ≤ m) (hi : i < 2 ^ m) :
    mir m i / 2 ^ e = 2 ^ (m - e) - (i / 2 ^ e + 1) := by
  have hpow : 2 ^ m = 2 ^ e * 2 ^ (m - e) := by
    rw [← Nat.pow_add]
    congr 1
    omega
  have hsub : mir m i = 2 ^ e * 2 ^ (m - e) - (i + 1) := by
    unfold mir
    omega
  rw [hsub]
  exact Nat.mul_sub_div i (2 ^ e) (2 ^ (m - e)) (hpow ▸ hi)

end

theorem rowsOf_lt {m c i x : Nat} (hi : i < 2 ^ m) (hx : x ∈ rowsOf m c i) : x < 2 ^ m := by
  induction m generalizing c i x with
  | zero =>
    rw [rowsOf, List.mem_singleton] at hx
    omega
  | succ m ih =>
    cases c with
    | zero =>
      rw [rowsOf, List.mem_singleton] at hx
      exact hx ▸ mir_lt _ _
    | succ c =>
      rw [rowsOf] at hx
      split at hx
      · next hlt => exact lt_double (ih hlt hx)
      · rcases List.mem_cons.1 hx with rfl | hx
        · exact mir_lt _ _
        · obtain ⟨y, -, rfl⟩ := List.mem_map.1 hx
          exact mir_lt _ _

theorem nodup_rowsOf {m c i : Nat} (hi : i < 2 ^ m) : (rowsOf m c i).Nodup := by
  induction m generalizing c i with
  | zero => exact List.nodup_singleton 0
  | succ m ih =>
    cases c with
    | zero => exact List.nodup_singleton _
    | succ c =>
      rw [rowsOf]
      split
      · next hlt => exact ih hlt
      · next hge =>
        have hmir : mir (m + 1) i < 2 ^ m := mir_lt_half (not_lt.1 hge)
        refine List.nodup_cons.2 ⟨fun hm => ?_, (ih hmir).map_on fun a ha b hb hab => ?_⟩
        · obtain ⟨y, hy, hye⟩ := List.mem_map.1 hm
          have := half_le_mir (rowsOf_lt hmir hy)
          omega
        · rw [← mir_mir (lt_double (rowsOf_lt hmir ha)), hab,
            mir_mir (lt_double (rowsOf_lt hmir hb))]

/-- The value of a row takes something of each column. -/
theorem rowsOf_ne_nil (m c i : Nat) : rowsOf m c i ≠ [] := by
  induction m generalizing c with
  | zero => exact List.cons_ne_nil _ _
  | succ m ih =>
    cases c with
    | zero => exact List.cons_ne_nil _ _
    | succ c =>
      rw [rowsOf]
      split
      · exact ih c
      · exact List.cons_ne_nil _ _

/-- The value of a row in the lower half takes one entry of each column from the upper half. -/
theorem rowsOf_upper {m c i : Nat} (hge : 2 ^ m ≤ i) :
    (rowsOf (m + 1) c i).filter (· < 2 ^ m) = [mir (m + 1) i] := by
  have hmir := mir_lt_half hge
  cases c with
  | zero => simp [rowsOf, hmir]
  | succ c =>
    rw [rowsOf, if_neg (not_lt.2 hge), List.filter_cons_of_pos (by simpa using hmir)]
    refine congrArg _ (List.filter_eq_nil_iff.2 fun x hx => ?_)
    obtain ⟨y, hy, rfl⟩ := List.mem_map.1 hx
    simpa using half_le_mir (rowsOf_lt hmir hy)

/-! ## Leaving a column out -/

/-- The `c`-th column when column `r` is left out. -/
def skip (r c : Nat) : Nat := if c < r then c else c + 1

theorem skip_succ (r c : Nat) : skip (r + 1) (c + 1) = skip r c + 1 := by
  unfold skip
  split <;> split <;> omega

/-- Without column `r`, the values of the rows `σ` are the pattern of the rows `τ`, and the
other way round. -/
structure Peels (m r : Nat) (σ τ : Nat → Nat) : Prop where
  lt : ∀ i < 2 ^ m, σ i < 2 ^ (m + 1) ∧ τ i < 2 ^ (m + 1)
  fwd : ∀ i < 2 ^ m, ∀ c ≤ m, rowsOf (m + 1) (skip r c) (σ i) = (rowsOf m c i).map τ
  bwd : ∀ i < 2 ^ m, ∀ c ≤ m, rowsOf (m + 1) (skip r c) (τ i) = (rowsOf m c i).map σ

theorem Peels.symm {m r : Nat} {σ τ : Nat → Nat} (h : Peels m r σ τ) : Peels m r τ σ :=
  ⟨fun i hi => (h.lt i hi).symm, h.bwd, h.fwd⟩

theorem Peels.congr {m r : Nat} {σ τ σ' τ' : Nat → Nat} (h : Peels m r σ τ)
    (hσ : ∀ i < 2 ^ m, σ' i = σ i) (hτ : ∀ i < 2 ^ m, τ' i = τ i) : Peels m r σ' τ' := by
  have hmap : ∀ (f g : Nat → Nat), (∀ i < 2 ^ m, f i = g i) → ∀ i < 2 ^ m, ∀ c,
      (rowsOf m c i).map f = (rowsOf m c i).map g :=
    fun f g hfg i hi c => List.map_congr_left fun x hx => hfg x (rowsOf_lt hi hx)
  refine ⟨fun i hi => ?_, fun i hi c hc => ?_, fun i hi c hc => ?_⟩
  · rw [hσ i hi, hτ i hi]
    exact h.lt i hi
  · rw [hσ i hi, hmap τ' τ hτ i hi]
    exact h.fwd i hi c hc
  · rw [hτ i hi, hmap σ' σ hσ i hi]
    exact h.bwd i hi c hc

/-- `σ` on the first half and `τ`, mirrored, on the second. -/
def double (m : Nat) (σ τ : Nat → Nat) (i : Nat) : Nat :=
  if i < 2 ^ m then σ i else mir (m + 2) (τ (mir (m + 1) i))

theorem Peels.fwd_double {m r : Nat} {σ τ : Nat → Nat} (h : Peels m r σ τ) :
    ∀ i < 2 ^ (m + 1), ∀ c ≤ m + 1, rowsOf (m + 2) (skip (r + 1) c) (double m σ τ i) =
      (rowsOf (m + 1) c i).map (double m τ σ) := by
  intro i hi c hc
  by_cases hlt : i < 2 ^ m
  · have hσ := (h.lt i hlt).1
    rw [double, if_pos hlt]
    cases c with
    | zero =>
      have hge : ¬ mir (m + 1) i < 2 ^ m := not_lt.2 (half_le_mir hlt)
      show [mir (m + 2) (σ i)] = [double m τ σ (mir (m + 1) i)]
      rw [double, if_neg hge, mir_mir hi]
    | succ c =>
      rw [skip_succ, rowsOf, if_pos hσ, h.fwd i hlt c (by omega), rowsOf, if_pos hlt]
      refine List.map_congr_left fun x hx => ?_
      rw [double, if_pos (rowsOf_lt hlt hx)]
  · have hmir := mir_lt_half (not_lt.1 hlt)
    have hτ := (h.lt _ hmir).2
    have hback : mir (m + 2) (mir (m + 2) (τ (mir (m + 1) i))) = τ (mir (m + 1) i) :=
      mir_mir (lt_double hτ)
    rw [double, if_neg hlt]
    cases c with
    | zero =>
      show [mir (m + 2) _] = [double m τ σ (mir (m + 1) i)]
      rw [hback, double, if_pos hmir]
    | succ c =>
      have hge : ¬ mir (m + 2) (τ (mir (m + 1) i)) < 2 ^ (m + 1) := not_lt.2 (half_le_mir hτ)
      rw [skip_succ, rowsOf, if_neg hge, hback, h.bwd _ hmir c (by omega), rowsOf, if_neg hlt,
        List.map_cons, List.map_map, List.map_map]
      refine congrArg₂ List.cons ?_ (List.map_congr_left fun x hx => ?_)
      · rw [double, if_pos hmir]
      · have hx := rowsOf_lt hmir hx
        have hno : ¬ mir (m + 1) x < 2 ^ m := not_lt.2 (half_le_mir hx)
        rw [Function.comp_apply, Function.comp_apply, double, if_neg hno, mir_mir (lt_double hx)]

/-- **One more column** on the left. -/
theorem Peels.succ {m r : Nat} {σ τ : Nat → Nat} (h : Peels m r σ τ) :
    Peels (m + 1) (r + 1) (double m σ τ) (double m τ σ) := by
  have hlt : ∀ (σ τ : Nat → Nat), Peels m r σ τ → ∀ i, double m σ τ i < 2 ^ (m + 2) := by
    intro σ τ h i
    unfold double
    split
    · next hi => exact lt_double (h.lt i hi).1
    · exact mir_lt _ _
  exact ⟨fun i _ => ⟨hlt _ _ h i, hlt _ _ h.symm i⟩, h.fwd_double, h.symm.fwd_double⟩

/-- The first column: the upper half is the pattern of itself. -/
theorem peels_first (m : Nat) : Peels m 0 id id := by
  have hall : ∀ i < 2 ^ m, ∀ c ≤ m,
      rowsOf (m + 1) (skip 0 c) (id i) = (rowsOf m c i).map id := by
    intro i hi c _
    rw [List.map_id]
    show rowsOf (m + 1) (c + 1) i = rowsOf m c i
    rw [rowsOf, if_pos hi]
  exact ⟨fun i hi => ⟨lt_double hi, lt_double hi⟩, hall, hall⟩

/-- The last of two columns. -/
theorem peels_last : Peels 0 1 (fun i => 2 * i + 1) (fun i => 2 * i) := by
  refine ⟨by decide, fun i hi c hc => ?_, fun i hi c hc => ?_⟩
  all_goals
    obtain rfl : i = 0 := by omega
    obtain rfl : c = 0 := by omega
    rfl

/-! ## Selected rows -/

section
variable {m : Nat} {P Q : Nat → Bool}

/-- The `i`-th row below `N` that is selected. -/
def nth (P : Nat → Bool) (N i : Nat) : Nat := ((List.range N).filter P).getD i 0

theorem range_double (m : Nat) : List.range (2 ^ (m + 1)) =
    List.range (2 ^ m) ++ (List.range (2 ^ m)).reverse.map (mir (m + 1)) := by
  refine List.ext_getElem ?_ fun i h1 h2 => ?_
  · simp [Nat.pow_succ]
    omega
  · rw [List.length_range] at h1
    rw [List.getElem_range]
    by_cases hi : i < 2 ^ m
    · rw [List.getElem_append_left (by simpa using hi), List.getElem_range]
    · rw [List.getElem_append_right (by simpa using hi)]
      simp only [List.getElem_map, List.getElem_reverse, List.getElem_range, List.length_range]
      rw [Nat.pow_succ] at h1
      unfold mir
      rw [Nat.pow_succ]
      omega

theorem filter_double (hmir : ∀ i < 2 ^ m, P (mir (m + 1) i) = Q i) :
    (List.range (2 ^ (m + 1))).filter P = (List.range (2 ^ m)).filter P ++
      ((List.range (2 ^ m)).filter Q).reverse.map (mir (m + 1)) := by
  rw [range_double, List.filter_append, List.filter_map, ← List.filter_reverse]
  refine congrArg _ (congrArg _ (List.filter_congr fun i hi => ?_))
  rw [List.mem_reverse, List.mem_range] at hi
  exact hmir i hi

theorem nth_double (hmir : ∀ i < 2 ^ (m + 1), P (mir (m + 2) i) = Q i)
    (hP : ((List.range (2 ^ (m + 1))).filter P).length = 2 ^ m)
    (hQ : ((List.range (2 ^ (m + 1))).filter Q).length = 2 ^ m) :
    ∀ i < 2 ^ (m + 1), nth P (2 ^ (m + 2)) i =
      double m (nth P (2 ^ (m + 1))) (nth Q (2 ^ (m + 1))) i := by
  intro i hi
  unfold nth double
  rw [filter_double hmir]
  split
  · next hlt => rw [List.getD_append _ _ _ _ (by rw [hP]; exact hlt)]
  · next hge =>
    have hmir := mir_lt_half (not_lt.1 hge)
    have hidx : i - 2 ^ m < 2 ^ m := by
      rw [Nat.pow_succ] at hi
      omega
    have hrev : 2 ^ m - 1 - (i - 2 ^ m) = mir (m + 1) i := by
      unfold mir
      rw [Nat.pow_succ]
      omega
    rw [List.getD_append_right _ _ _ _ (by rw [hP]; omega), hP,
      List.getD_eq_getElem _ _ (by simpa [hQ] using hidx), List.getElem_map, List.getElem_reverse]
    show _ = mir (m + 2) (((List.range (2 ^ (m + 1))).filter Q).getD (mir (m + 1) i) 0)
    rw [List.getD_eq_getElem _ _ (by rw [hQ]; exact hmir)]
    simp only [hQ, hrev]

/-! ## What is lost -/

/-- The row with the last `q` binary digits changed. -/
def flip (q o : Nat) : Nat := o ^^^ (2 ^ q - 1)

theorem flip_flip (q o : Nat) : flip q (flip q o) = o := by
  unfold flip
  rw [Nat.xor_assoc, Nat.xor_self, Nat.xor_zero]

theorem flip_lt {q o : Nat} (hq : q ≤ m) (ho : o < 2 ^ m) : flip q o < 2 ^ m := by
  refine Nat.xor_lt_two_pow ho ?_
  have := Nat.pow_le_pow_right (by omega : 0 < 2) hq
  have := Nat.two_pow_pos q
  omega

theorem mir_flip {q o : Nat} (hq : q ≤ m) (ho : o < 2 ^ m) : mir m (flip q o) = flip q (mir m o) := by
  rw [mir_eq_xor (flip_lt hq ho), mir_eq_xor ho]
  unfold flip
  rw [Nat.xor_assoc, Nat.xor_assoc, Nat.xor_comm (2 ^ q - 1)]

/-- The rows `P` and the rows `Q` are halves of a table of `m + 2` columns. Without column `r`
the values of one are the pattern of the other; of column `r` each takes one entry that is not
in the other. -/
structure Selects (m r : Nat) (P Q : Nat → Bool) : Prop where
  peels : Peels m r (nth P (2 ^ (m + 1))) (nth Q (2 ^ (m + 1)))
  lengthP : ((List.range (2 ^ (m + 1))).filter P).length = 2 ^ m
  lengthQ : ((List.range (2 ^ (m + 1))).filter Q).length = 2 ^ m
  lostP : ∀ o < 2 ^ (m + 1), P o →
    (rowsOf (m + 1) r o).filter (fun x => !Q x) = [flip (m + 1 - r) o]
  lostQ : ∀ o < 2 ^ (m + 1), Q o →
    (rowsOf (m + 1) r o).filter (fun x => !P x) = [flip (m + 1 - r) o]

theorem Selects.symm {r : Nat} (h : Selects m r P Q) : Selects m r Q P :=
  ⟨h.peels.symm, h.lengthQ, h.lengthP, h.lostQ, h.lostP⟩

theorem mirror_symm {N : Nat} (hmir : ∀ i < 2 ^ N, Q (mir N i) = P i) :
    ∀ i < 2 ^ N, P (mir N i) = Q i := fun i hi => by
  rw [← hmir _ (mir_lt N i), mir_mir hi]

theorem Selects.lost_succ {r : Nat} (h : Selects m r P Q)
    (hmir : ∀ i < 2 ^ (m + 2), Q (mir (m + 2) i) = P i) : ∀ o < 2 ^ (m + 2), P o →
    (rowsOf (m + 2) (r + 1) o).filter (fun x => !Q x) = [flip (m + 2 - (r + 1)) o] := by
  intro o ho hPo
  have hq : m + 2 - (r + 1) = m + 1 - r := by omega
  rw [hq, rowsOf]
  split
  · next hlt => exact h.lostP o hlt hPo
  · next hge =>
    have hlt := mir_lt_half (not_lt.1 hge)
    have hQo : Q (mir (m + 2) o) := (hmir o ho).trans hPo
    have hfilter : ((rowsOf (m + 1) r (mir (m + 2) o)).map (mir (m + 2))).filter (fun x => !Q x) =
        ((rowsOf (m + 1) r (mir (m + 2) o)).filter fun x => !P x).map (mir (m + 2)) := by
      rw [List.filter_map]
      refine congrArg _ (List.filter_congr fun x hx => ?_)
      rw [Function.comp_apply, hmir x (lt_double (rowsOf_lt hlt hx))]
    rw [List.filter_cons_of_neg (by simp [hQo]), hfilter, h.lostQ _ hlt hQo, List.map_singleton,
      mir_flip (by omega) (mir_lt _ _), mir_mir ho]

/-- **One more column**, when the two selections mirror each other. -/
theorem Selects.succ {r : Nat} (h : Selects m r P Q)
    (hmir : ∀ i < 2 ^ (m + 2), Q (mir (m + 2) i) = P i) : Selects (m + 1) (r + 1) P Q := by
  have hmir' := mirror_symm hmir
  have hnth := nth_double (fun i hi => hmir' i (lt_double hi)) h.lengthP h.lengthQ
  have hnth' := nth_double (fun i hi => hmir i (lt_double hi)) h.lengthQ h.lengthP
  have hlen : ∀ {P Q : Nat → Bool}, (∀ i < 2 ^ (m + 1), P (mir (m + 2) i) = Q i) →
      ((List.range (2 ^ (m + 1))).filter P).length = 2 ^ m →
      ((List.range (2 ^ (m + 1))).filter Q).length = 2 ^ m →
      ((List.range (2 ^ (m + 2))).filter P).length = 2 ^ (m + 1) := by
    intro P Q hmir hP hQ
    rw [filter_double hmir, List.length_append, List.length_map, List.length_reverse, hP, hQ,
      Nat.pow_succ]
    omega
  exact ⟨h.peels.succ.congr hnth hnth',
    hlen (fun i hi => hmir' i (lt_double hi)) h.lengthP h.lengthQ,
    hlen (fun i hi => hmir i (lt_double hi)) h.lengthQ h.lengthP,
    h.lost_succ hmir, h.symm.lost_succ hmir'⟩

section
variable {r : Nat} (h : Selects m r P Q)
include h

theorem Selects.lost_mem {o : Nat} (ho : o < 2 ^ (m + 1)) (hP : P o) :
    flip (m + 1 - r) o ∈ rowsOf (m + 1) r o ∧ Q (flip (m + 1 - r) o) = false := by
  have hmem : flip (m + 1 - r) o ∈ (rowsOf (m + 1) r o).filter fun x => !Q x := by
    rw [h.lostP o ho hP]
    exact List.mem_singleton_self _
  obtain ⟨h1, h2⟩ := List.mem_filter.1 hmem
  exact ⟨h1, by simpa using h2⟩

/-- **Every row that is not in the one half is lost** by a row of the other. -/
theorem Selects.lost_surj {x : Nat} (hx : x < 2 ^ (m + 1)) (hQ : Q x = false) :
    ∃ o < 2 ^ (m + 1), P o ∧ flip (m + 1 - r) o = x := by
  have hcard : ∀ R : Nat → Bool, ((Finset.range (2 ^ (m + 1))).filter (R ·)).card =
      ((List.range (2 ^ (m + 1))).filter R).length := by
    intro R
    rw [← List.toFinset_card_of_nodup (List.nodup_range.filter _)]
    congr 1
    ext v
    simp
  have hnot : ((Finset.range (2 ^ (m + 1))).filter fun x => Q x = false).card = 2 ^ m := by
    have hsum := Finset.card_filter_add_card_filter_not (s := Finset.range (2 ^ (m + 1)))
      (fun x => (Q x : Prop))
    have heq : ((Finset.range (2 ^ (m + 1))).filter fun x => ¬ Q x) =
        (Finset.range (2 ^ (m + 1))).filter fun x => Q x = false :=
      Finset.filter_congr fun x _ => by simp
    rw [heq, hcard, h.lengthQ, Finset.card_range] at hsum
    have hpow : 2 ^ (m + 1) = 2 ^ m * 2 := Nat.pow_succ 2 m
    omega
  have himage : ((Finset.range (2 ^ (m + 1))).filter (P ·)).image (flip (m + 1 - r)) =
      (Finset.range (2 ^ (m + 1))).filter fun x => Q x = false := by
    refine Finset.eq_of_subset_of_card_le (fun y hy => ?_) ?_
    · obtain ⟨o, ho, rfl⟩ := Finset.mem_image.1 hy
      rw [Finset.mem_filter, Finset.mem_range] at ho ⊢
      exact ⟨flip_lt (by omega) ho.1, (h.lost_mem ho.1 ho.2).2⟩
    · rw [Finset.card_image_of_injective _ fun a b hab => ?_, hcard, h.lengthP, hnot]
      rw [← flip_flip (m + 1 - r) a, hab, flip_flip]
  have hmem : x ∈ ((Finset.range (2 ^ (m + 1))).filter (P ·)).image (flip (m + 1 - r)) := by
    rw [himage, Finset.mem_filter, Finset.mem_range]
    exact ⟨hx, hQ⟩
  obtain ⟨o, ho, rfl⟩ := Finset.mem_image.1 hmem
  rw [Finset.mem_filter, Finset.mem_range] at ho
  exact ⟨o, ho.1, ho.2, rfl⟩

end

end

/-! ## The two selections -/

/-- Two neighbouring digits are the same. -/
def sameDigits (e i : Nat) : Bool := i / 2 ^ e % 4 = 0 ∨ i / 2 ^ e % 4 = 3

def odd (i : Nat) : Bool := i % 2 = 1

def even (i : Nat) : Bool := i % 2 = 0

theorem sameDigits_mir {m e i : Nat} (he : e + 2 ≤ m) (hi : i < 2 ^ m) :
    sameDigits e (mir m i) = sameDigits e i := by
  have hdiv := mir_div (by omega : e ≤ m) hi
  have hpow : 2 ^ (m - e) = 4 * 2 ^ (m - e - 2) := by
    rw [show (4 : Nat) = 2 ^ 2 from rfl, ← Nat.pow_add]
    congr 1
    omega
  have hlt : i / 2 ^ e < 2 ^ (m - e) := by
    rw [Nat.div_lt_iff_lt_mul (Nat.two_pow_pos e), ← Nat.pow_add]
    rwa [show m - e + e = m by omega]
  unfold sameDigits
  rw [hdiv, hpow, decide_eq_decide]
  rw [hpow] at hlt
  omega

theorem sameDigits_first {m i : Nat} (hi : i < 2 ^ (m + 1)) :
    sameDigits m i = decide (i < 2 ^ m) := by
  have hpos := Nat.two_pow_pos m
  have hlt : i / 2 ^ m < 2 := by
    rw [Nat.div_lt_iff_lt_mul hpos, ← Nat.pow_succ']
    exact hi
  unfold sameDigits
  rw [decide_eq_decide, ← Nat.div_eq_zero_iff_lt hpos]
  generalize i / 2 ^ m = y at hlt ⊢
  omega

/-- **A column that is not the last**: the rows with two digits the same. -/
theorem selects_sameDigits (m r : Nat) (hr : r ≤ m) :
    Selects m r (sameDigits (m - r)) (sameDigits (m - r)) := by
  induction r generalizing m with
  | zero =>
    have hfilter : (List.range (2 ^ (m + 1))).filter (sameDigits m) = List.range (2 ^ m) := by
      have hupper : ((List.range (2 ^ m)).reverse.map (mir (m + 1))).filter (sameDigits m) = [] := by
        refine List.filter_eq_nil_iff.2 fun x hx => ?_
        obtain ⟨y, hy, rfl⟩ := List.mem_map.1 hx
        rw [List.mem_reverse, List.mem_range] at hy
        rw [sameDigits_first (mir_lt _ _)]
        simpa using half_le_mir hy
      rw [range_double, List.filter_append, hupper, List.append_nil, List.filter_eq_self]
      intro x hx
      rw [List.mem_range] at hx
      rw [sameDigits_first (lt_double hx)]
      simpa using hx
    have hlost : ∀ o < 2 ^ (m + 1), sameDigits m o →
        (rowsOf (m + 1) 0 o).filter (fun x => !sameDigits m x) = [flip (m + 1 - 0) o] := by
      intro o ho hP
      rw [sameDigits_first ho, decide_eq_true_eq] at hP
      have hmir : sameDigits m (mir (m + 1) o) = false := by
        rw [sameDigits_first (mir_lt _ _), decide_eq_false_iff_not]
        exact not_lt.2 (half_le_mir hP)
      rw [rowsOf, List.filter_cons_of_pos (by simp [hmir]), List.filter_nil, mir_eq_xor ho]
      rfl
    have hnth : ∀ i < 2 ^ m, nth (sameDigits m) (2 ^ (m + 1)) i = id i := by
      intro i hi
      rw [nth, hfilter, List.getD_eq_getElem _ _ (by simpa using hi), List.getElem_range]
      rfl
    exact ⟨(peels_first m).congr hnth hnth, by simp [hfilter], by simp [hfilter], hlost, hlost⟩
  | succ r ih =>
    obtain ⟨m, rfl⟩ : ∃ m', m = m' + 1 := ⟨m - 1, by omega⟩
    have hsub : m + 1 - (r + 1) = m - r := by omega
    rw [hsub]
    exact (ih m (by omega)).succ fun i hi => sameDigits_mir (by omega) hi

/-- **The last column**: the odd and the even rows. -/
theorem selects_odd (m : Nat) : Selects m (m + 1) odd even := by
  induction m with
  | zero =>
    refine ⟨peels_last.congr ?_ ?_, by decide, by decide, by decide, by decide⟩
    · decide
    · decide
  | succ m ih =>
    refine ih.succ fun i hi => ?_
    unfold even odd mir
    rw [decide_eq_decide]
    have : 2 ^ (m + 2) = 2 * 2 ^ (m + 1) := Nat.pow_succ'
    omega

end Butterfly

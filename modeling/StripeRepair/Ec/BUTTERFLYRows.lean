import StripeRepair.Ec.BUTTERFLYEncode

/-!
# `BUTTERFLY`: the rows are sets

`generate_butterfly_parity_encoding_matrix` writes a 1 for each packet that a row of
`butterfly_func` names. Adding the packet would leave a 0 where a row names it twice.

* `returns_butterflyFunc`: `butterfly_func` comes to an end.
* `butterflyFunc_rows`: no row has an entry twice, and every row has one of each column.
-/

namespace StripeRepair

namespace BUTTERFLY

open Butterfly (rowsOf)
open Function (update update_self)

section
variable {α : Type}

/-- One row of `parity_enc`; `put` is what is done to a cell. -/
def writeRow [DecidableEq α] (put : Nat → Nat) (row : List α) : α → Nat :=
  row.foldl (fun enc x => update enc x (put (enc x))) fun _ => 0

variable [Inhabited α]

/-- A call of `butterfly_func` returns; the calls that it makes return before. -/
inductive Returns : List (List α) → Nat → Nat → List (List α) → Prop
  | one {mat : List (List α)} : Returns mat 1 1 [[entry mat 0 0]]
  | two {mat : List (List α)} : Returns mat 2 2
      [[entry mat 1 0, entry mat 0 1], [entry mat 0 0, entry mat 0 1, entry mat 1 1]]
  | halves {mat A B : List (List α)} {mRow mCol : Nat} :
      ¬ (mRow = 1 ∧ mCol + 1 = 1) → ¬ (mRow = 2 ∧ mCol + 1 = 2) →
      Returns (part mat 0 (mRow / 2) 1 mCol) (mRow / 2) mCol A →
      Returns (permMat (part mat (mRow / 2) (mRow - mRow / 2) 1 mCol)) (mRow / 2) mCol B →
      Returns mat mRow (mCol + 1)
        (addMat (permMat (part mat (mRow / 2) (mRow - mRow / 2) 0 1)) A ++
          permMat (addMat (addMat (part mat 0 (mRow / 2) 0 1) (part mat 0 (mRow / 2) 1 mCol)) B))

/-! ## The recursion -/

/-- What is returned is what the definition computes. -/
theorem Returns.eq {mat ret : List (List α)} {mRow mCol : Nat} (h : Returns mat mRow mCol ret) :
    ret = butterflyFunc mat mRow mCol := by
  induction h with
  | one => rfl
  | two => rfl
  | halves h1 h2 _ _ ihA ihB => rw [butterflyFunc, if_neg h1, if_neg h2, ihA, ihB]

/-- **The recursion ends** on as many columns as the rows can be halved, and one more. -/
theorem returns_butterflyFunc (m : Nat) (mat : List (List α)) :
    Returns mat (2 ^ m) (m + 1) (butterflyFunc mat (2 ^ m) (m + 1)) := by
  induction m generalizing mat with
  | zero => exact .one
  | succ m ih =>
    by_cases hm : m = 0
    · subst hm
      exact .two
    · have hpow : 2 ^ (m + 1) = 2 * 2 ^ m := Nat.pow_succ'
      have htwo : 1 < 2 ^ m := Nat.one_lt_two_pow hm
      have hhalf : 2 ^ (m + 1) / 2 = 2 ^ m := by omega
      have h1 : ¬ (2 ^ (m + 1) = 1 ∧ m + 1 + 1 = 1) := by omega
      have h2 : ¬ (2 ^ (m + 1) = 2 ∧ m + 1 + 1 = 2) := by omega
      have hA := ih (part mat 0 (2 ^ m) 1 (m + 1))
      have hB := ih (permMat (part mat (2 ^ m) (2 ^ (m + 1) - 2 ^ m) 1 (m + 1)))
      rw [← hhalf] at hA hB
      have hret := Returns.halves h1 h2 hA hB
      rwa [hret.eq] at hret

/-! ## Rows -/

/-- The entries of a matrix without repetitions. -/
theorem entry_inj {mat : List (List α)} (hdistinct : mat.flatten.Nodup) {i i' j j' : Nat}
    (hi : i < mat.length) (hj : j < mat[i].length) (hi' : i' < mat.length)
    (hj' : j' < mat[i'].length) (h : entry mat i j = entry mat i' j') : i = i' ∧ j = j' := by
  obtain ⟨hrows, hdisj⟩ := List.nodup_flatten.1 hdistinct
  unfold entry at h
  rw [List.getD_eq_getElem _ _ hi, List.getD_eq_getElem _ _ hi', List.getD_eq_getElem _ _ hj,
    List.getD_eq_getElem _ _ hj'] at h
  have hsame : i = i' := by
    rcases lt_trichotomy i i' with hlt | heq | hgt
    · exact absurd (h ▸ List.getElem_mem hj')
        (List.pairwise_iff_getElem.1 hdisj i i' hi hi' hlt (List.getElem_mem hj))
    · exact heq
    · exact absurd (h.symm ▸ List.getElem_mem hj)
        (List.pairwise_iff_getElem.1 hdisj i' i hi' hi hgt (List.getElem_mem hj'))
  subst hsame
  exact ⟨rfl, (hrows _ (List.getElem_mem hi)).getElem_inj_iff.1 h⟩

theorem entry_mem {mat : List (List α)} {i j : Nat} (hi : i < mat.length)
    (hj : j < mat[i].length) : entry mat i j ∈ mat.flatten := by
  unfold entry
  rw [List.getD_eq_getElem _ _ hi, List.getD_eq_getElem _ _ hj]
  exact List.mem_flatten.2 ⟨mat[i], List.getElem_mem hi, List.getElem_mem hj⟩

omit [Inhabited α] in
/-- What is written into a row without repetitions. -/
theorem writeRow_eq [DecidableEq α] (put : Nat → Nat) {row : List α} (hrow : row.Nodup) (x : α) :
    writeRow put row x = if x ∈ row then put 0 else 0 := by
  have hloop : ∀ (row : List α) (enc : α → Nat), row.Nodup →
      row.foldl (fun enc y => update enc y (put (enc y))) enc x =
        if x ∈ row then put (enc x) else enc x := by
    intro row
    induction row with
    | nil => exact fun _ _ => rfl
    | cons y row ih =>
      intro enc hrow
      obtain ⟨hy, hrow⟩ := List.nodup_cons.1 hrow
      rw [List.foldl_cons, ih _ hrow]
      by_cases hxy : x = y
      · subst hxy
        rw [if_neg hy, update_self, if_pos (List.mem_cons_self ..)]
      · simp [hxy]
  exact hloop row _ hrow

/-- The encoding matrix has the row that was written. -/
theorem encMatrix_eq_writeRow {k w i j : Nat} (hi : k * w + w ≤ i)
    (hrow : ((butterflyFunc (initMat k w) w k).getD (i - (k + 1) * w) []).Nodup) :
    encMatrix k w i j =
      writeRow (fun _ => 1) ((butterflyFunc (initMat k w) w k).getD (i - (k + 1) * w) []) j := by
  rw [writeRow_eq _ hrow]
  unfold encMatrix
  rw [if_neg (by omega), if_neg (by omega)]
  split <;> rfl

/-- **The rows are sets**: `butterfly_func` returns as many rows as the matrix has, each of
different entries of the matrix with one of every column, and a 1 for each of them is what adding
them makes. -/
theorem butterflyFunc_rows [DecidableEq α] {k : Nat} (hk : 1 ≤ k) (mat : List (List α))
    (hrows : mat.length = 2 ^ (k - 1)) (hcols : ∀ row ∈ mat, row.length = k)
    (hdistinct : mat.flatten.Nodup) :
    ∃ ret, Returns mat (2 ^ (k - 1)) k ret ∧ ret.length = 2 ^ (k - 1) ∧
      ∀ row ∈ ret, (∀ x ∈ row, x ∈ mat.flatten) ∧ row.Nodup ∧
        (∀ j < k, ∃ i < 2 ^ (k - 1), entry mat i j ∈ row) ∧
        writeRow (fun _ => 1) row = writeRow (fun cell => cell ^^^ 1) row := by
  obtain ⟨m, rfl⟩ : ∃ m, k = m + 1 := ⟨k - 1, by omega⟩
  rw [Nat.add_sub_cancel] at hrows ⊢
  obtain ⟨hlen, hspec⟩ := butterflyFunc_spec m mat
  refine ⟨_, returns_butterflyFunc m mat, hlen, fun row hrow => ?_⟩
  obtain ⟨i, hi, rfl⟩ := List.getElem_of_mem hrow
  rw [hlen] at hi
  have hperm := hspec i hi
  rw [List.getD_eq_getElem _ _ (hlen.symm ▸ hi)] at hperm
  have hcell : ∀ x < 2 ^ m, ∃ h : x < mat.length, mat[x].length = m + 1 := fun x hx =>
    ⟨hrows.symm ▸ hx, hcols _ (List.getElem_mem _)⟩
  have hnodup : (terms m (entry mat) i).Nodup := by
    refine nodup_terms_of hi fun x hx c hc x' hx' c' hc' h => ?_
    obtain ⟨hxl, hxc⟩ := hcell x hx
    obtain ⟨hxl', hxc'⟩ := hcell x' hx'
    exact entry_inj hdistinct hxl (by omega) hxl' (by omega) h
  have hset := hperm.nodup_iff.2 hnodup
  refine ⟨fun v hv => ?_, hset, fun j hj => ?_, ?_⟩
  · obtain ⟨c, hc, x, hx, rfl⟩ := mem_terms_iff.1 (hperm.mem_iff.1 hv)
    obtain ⟨hxl, hxc⟩ := hcell x (Butterfly.rowsOf_lt hi hx)
    exact entry_mem hxl (by omega)
  · obtain ⟨x, hx⟩ := List.exists_mem_of_ne_nil _ (Butterfly.rowsOf_ne_nil m j i)
    exact ⟨x, Butterfly.rowsOf_lt hi hx, hperm.mem_iff.2 (mem_terms_iff.2 ⟨j, hj, x, hx, rfl⟩)⟩
  · funext x
    rw [writeRow_eq _ hset, writeRow_eq _ hset, Nat.zero_xor]

def fourRows : List (List Int) := [[0, 4, 8], [1, 5, 9], [2, 6, 10], [-3, 7, 11]]

theorem butterflyFunc_rows_three :
    ∃ ret, Returns fourRows 4 3 ret ∧ ret.length = 4 ∧
      ∀ row ∈ ret, (∀ x ∈ row, x ∈ fourRows.flatten) ∧ row.Nodup ∧
        (∀ j < 3, ∃ i < 4, entry fourRows i j ∈ row) ∧
        writeRow (fun _ => 1) row = writeRow (fun cell => cell ^^^ 1) row :=
  butterflyFunc_rows (k := 3) (by decide) fourRows (by decide) (by decide) (by decide)

end

end BUTTERFLY

end StripeRepair

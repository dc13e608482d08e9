import Mathlib.Data.Finset.Card
import Mathlib.Data.Finset.Range
import Mathlib.Data.Finset.SDiff
import Mathlib.Data.List.FinRange
import Mathlib.Data.List.Range
import Mathlib.Data.List.Perm.Basic

/-!
# The blocks and packets a repair starts from

`Stripe::genRepairECDAG` goes through the `n` blocks in ascending order and puts
the `w` packets of each into `to` when the block failed and into `from` otherwise.

* `survivors_split`: the surviving data blocks stand before the surviving parities.
* `take_survivors`: the first `k` survivors are all surviving data blocks and as many
  parities as are missing.
-/

namespace StripeRepair

/-- The surviving blocks in ascending order. -/
def survivors (n : Nat) (failed : Finset Nat) : List Nat := (List.range n).filter (· ∉ failed)

/-- The failed blocks in ascending order. -/
def losses (n : Nat) (failed : Finset Nat) : List Nat := (List.range n).filter (· ∈ failed)

/-- The packets of some blocks, `w` for each. -/
def packets (w : Nat) (blks : List Nat) : List Nat :=
  blks.flatMap fun blkidx => (List.range w).map fun offset => blkidx * w + offset

theorem getD_lt {l : List Nat} {n : Nat} (hn : 0 < n) (hl : ∀ v ∈ l, v < n) (i : Nat) :
    l.getD i 0 < n := by
  rw [List.getD_eq_getElem?_getD]
  cases h : l[i]? with
  | none => exact hn
  | some v => exact hl v (List.mem_of_getElem? h)

theorem map_eq_finRange_map {rows : List Nat} {c : Nat} (hlen : rows.length = c)
    (s : Nat → Nat) : rows.map s = (List.finRange c).map fun i : Fin c => s (rows.getD i 0) := by
  subst hlen
  apply List.ext_getElem
  · simp
  · intro i h1 h2
    simp [List.getD_eq_getElem?_getD]

/-- What is in a list of numbers below `N`, and what is not. -/
theorem length_filter_not_mem {N : Nat} {l : List Nat} (hnodup : l.Nodup) (hlt : ∀ v ∈ l, v < N) :
    ((List.range N).filter (· ∉ l)).length + l.length = N := by
  have hin : ((List.range N).filter (· ∈ l)).length = l.length := by
    refine List.Perm.length_eq ((List.perm_ext_iff_of_nodup (List.nodup_range.filter _) hnodup).2
      fun v => ?_)
    simp only [List.mem_filter, List.mem_range, decide_eq_true_eq]
    exact ⟨fun h => h.2, fun h => ⟨hlt v h, h⟩⟩
  have hout := List.length_eq_length_filter_add (l := List.range N) (· ∈ l)
  have hnot : (List.range N).filter (fun v => !decide (v ∈ l)) = (List.range N).filter (· ∉ l) :=
    List.filter_congr fun v _ => by rw [decide_not]
  rw [List.length_range, hin, hnot] at hout
  omega

section
variable {n k : Nat} {failed : Finset Nat}

theorem mem_survivors {v : Nat} : v ∈ survivors n failed ↔ v < n ∧ v ∉ failed := by
  simp [survivors]

theorem mem_losses {v : Nat} : v ∈ losses n failed ↔ v < n ∧ v ∈ failed := by
  simp [losses]

theorem mem_packets {w v : Nat} (hw : 0 < w) {blks : List Nat} :
    v ∈ packets w blks ↔ v / w ∈ blks := by
  simp only [packets, List.mem_flatMap, List.mem_map, List.mem_range]
  constructor
  · rintro ⟨b, hb, o, ho, rfl⟩
    rwa [Nat.mul_comm, Nat.mul_add_div hw, Nat.div_eq_of_lt ho, Nat.add_zero]
  · intro h
    exact ⟨v / w, h, v % w, Nat.mod_lt v hw, Nat.div_add_mod' v w⟩

theorem length_survivors (hsub : failed ⊆ Finset.range n) :
    (survivors n failed).length = n - failed.card := by
  have h1 : (survivors n failed).toFinset = Finset.range n \ failed := by
    ext v
    simp [mem_survivors]
  have hnodup : (survivors n failed).Nodup := List.nodup_range.filter _
  rw [← List.toFinset_card_of_nodup hnodup, h1, Finset.card_sdiff_of_subset hsub,
    Finset.card_range]

theorem length_losses (hsub : failed ⊆ Finset.range n) :
    (losses n failed).length = failed.card := by
  have h1 : (losses n failed).toFinset = failed := by
    ext v
    simp only [List.mem_toFinset, mem_losses]
    exact ⟨fun h => h.2, fun h => ⟨Finset.mem_range.1 (hsub h), h⟩⟩
  have hnodup : (losses n failed).Nodup := List.nodup_range.filter _
  rw [← List.toFinset_card_of_nodup hnodup, h1]

theorem losses_singleton {f : Nat} (hf : f < n) : losses n {f} = [f] := by
  have hnodup : (losses n {f}).Nodup := List.nodup_range.filter _
  apply List.perm_singleton.1
  rw [List.perm_ext_iff_of_nodup hnodup (List.nodup_singleton f)]
  intro v
  rw [mem_losses, Finset.mem_singleton, List.mem_singleton]
  exact ⟨fun h => h.2, fun h => ⟨h ▸ hf, h⟩⟩

theorem length_packets (w : Nat) (blks : List Nat) :
    (packets w blks).length = blks.length * w := by
  induction blks with
  | nil => simp [packets]
  | cons b blks ih =>
    rw [packets, List.flatMap_cons, List.length_append, ← packets, ih, List.length_map,
      List.length_range, List.length_cons, Nat.succ_mul, Nat.add_comm]

theorem survivors_split (hkn : k ≤ n) :
    survivors n failed = survivors k failed ++
      ((List.range (n - k)).map fun i => k + i).filter (· ∉ failed) := by
  rw [survivors, show n = k + (n - k) by omega, List.range_add, List.filter_append]
  simp [survivors]

theorem losses_split (hkn : k ≤ n) :
    losses n failed = losses k failed ++ (losses n failed).filter (k ≤ ·) := by
  have hsplit : losses n failed = losses k failed ++
      ((List.range (n - k)).map fun i => k + i).filter (· ∈ failed) := by
    rw [losses, show n = k + (n - k) by omega, List.range_add, List.filter_append]
    simp [losses]
  have h1 : (losses k failed).filter (k ≤ ·) = [] := by
    rw [List.filter_eq_nil_iff]
    intro v hv
    have := (mem_losses.1 hv).1
    simpa using this
  rw [hsplit, List.filter_append, h1, List.nil_append]
  congr 1
  symm
  rw [List.filter_eq_self]
  intro v hv
  obtain ⟨i, -, rfl⟩ := List.mem_map.1 (List.mem_filter.1 hv).1
  simp

theorem length_survivors_le : (survivors k failed).length ≤ k := by
  have := List.length_filter_le (fun x => decide (x ∉ failed)) (List.range k)
  rwa [List.length_range] at this

theorem filter_lt_survivors (hkn : k ≤ n) :
    (survivors n failed).filter (· < k) = survivors k failed := by
  rw [survivors_split hkn, List.filter_append]
  have h1 : (survivors k failed).filter (· < k) = survivors k failed := by
    rw [List.filter_eq_self]
    intro v hv
    simpa using (mem_survivors.1 hv).1
  have h2 : (((List.range (n - k)).map fun i => k + i).filter (· ∉ failed)).filter (· < k) = [] := by
    rw [List.filter_eq_nil_iff]
    intro v hv
    obtain ⟨i, -, rfl⟩ := List.mem_map.1 (List.mem_filter.1 hv).1
    simp
  rw [h1, h2, List.append_nil]

/-- All surviving data blocks, then as many parities as are missing to `k`. -/
theorem take_survivors (hkn : k ≤ n) :
    (survivors n failed).filter (· < k) ++
      ((survivors n failed).filter (k ≤ ·)).take (k - ((survivors n failed).filter (· < k)).length) =
    (survivors n failed).take k := by
  have h2 : (survivors n failed).filter (k ≤ ·) =
      ((List.range (n - k)).map fun i => k + i).filter (· ∉ failed) := by
    rw [survivors_split hkn, List.filter_append]
    have h1 : (survivors k failed).filter (k ≤ ·) = [] := by
      rw [List.filter_eq_nil_iff]
      intro v hv
      have := (mem_survivors.1 hv).1
      simpa using this
    rw [h1, List.nil_append, List.filter_eq_self]
    intro v hv
    obtain ⟨i, -, rfl⟩ := List.mem_map.1 (List.mem_filter.1 hv).1
    simp
  have hlen : (survivors k failed).length ≤ k := length_survivors_le
  rw [filter_lt_survivors hkn, h2]
  conv_rhs => rw [survivors_split hkn]
  rw [List.take_append, List.take_of_length_le hlen]

theorem length_take_survivors (hsub : failed ⊆ Finset.range n) (hm : failed.card ≤ n - k)
    (hkn : k ≤ n) : ((survivors n failed).take k).length = k := by
  rw [List.length_take, length_survivors hsub]
  omega

theorem getD_survivors (hsub : failed ⊆ Finset.range n) (hm : failed.card ≤ n - k) (hkn : k ≤ n)
    (i : Fin k) : (survivors n failed).getD i 0 ∈ survivors n failed := by
  have hlen := length_survivors hsub
  have hi : i.1 < (survivors n failed).length := by have := i.2; omega
  rw [List.getD_eq_getElem?_getD, List.getElem?_eq_getElem hi]
  exact List.getElem_mem hi

/-- The surviving data blocks are all among the first `k` survivors. -/
theorem exists_getD_survivors {b : Nat} (hb : b < k) (hkn : k ≤ n) (hsurv : b ∉ failed) :
    ∃ p : Fin k, (survivors n failed).getD p 0 = b := by
  obtain ⟨i, hi, hib⟩ := List.getElem_of_mem (mem_survivors.2 ⟨hb, hsurv⟩)
  have hik : i < k := by
    have : (survivors k failed).length ≤ k := length_survivors_le
    omega
  refine ⟨⟨i, hik⟩, ?_⟩
  rw [List.getD_eq_getElem?_getD, survivors_split hkn, List.getElem?_append_left hi,
    List.getElem?_eq_getElem hi]
  exact hib

end

end StripeRepair

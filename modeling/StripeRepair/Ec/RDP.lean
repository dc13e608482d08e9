import StripeRepair.Ec.ECDAG
import StripeRepair.Ec.FailureSet
import StripeRepair.Lib.PushMap
import Mathlib.Data.List.GetD

/-!
# `RDP`: row-diagonal parity

The first `k + 1` nodes have the rows, node `k` holds the row parities. The packets of a
diagonal are those of these nodes with the same sum of row and node modulo `k + 1`, and the
nodes after them hold the parities of the diagonals. `Decode` repairs one node.

* `mem_encode_lt`, `mem_decode_lt`: the packets in a DAG are packets of the `n` nodes.
-/

namespace StripeRepair

namespace RDP

section
variable (n k w : Nat)

/-- `_p` -/
def p : Nat := k + 1

/-! ## The constructor -/

/-- The row and the node of each packet, in the order of the loops. -/
def symbols : List (Nat × Nat) :=
  (List.range w).flatMap fun rowid => (List.range n).map fun colid => (rowid, colid)

/-- `d` -/
def diagOf (e : Nat × Nat) : Nat := (e.1 + e.2) % p k

/-- `idx` -/
def idxOf (e : Nat × Nat) : Nat := e.2 * w + e.1

/-- `_diag2data[d]` -/
def diag2data (d : Nat) : List Nat :=
  ((symbols n w).filter fun e => diagOf k e = d ∧ d < w ∧ idxOf w e < p k * w).map (idxOf w)

/-- `_diag2code`: the first packet of each diagonal after the rows. -/
def diag2code : AList fun _ : Nat => Nat :=
  ((symbols n w).filter fun e => diagOf k e < w ∧ ¬ idxOf w e < p k * w).foldl
    (fun m e => if diagOf k e ∈ m then m else m.insert (diagOf k e) (idxOf w e)) ∅

/-! ## Encode and Decode -/

/-- A `Join` with all coefficients 1. -/
def xorJoin (code : Nat) (data : List Nat) : Join := ⟨code, data, data.map fun _ => 1⟩

/-- `_diag2code` is walked through as it is hashed. -/
def encodeJoins (ord : HashOrder Unit) : List Join :=
  ((List.range w).map fun i => xorJoin (k * w + i) ((List.range k).map fun j => j * w + i)) ++
  (ord.order () (diag2code n k w).entries).map fun item =>
    xorJoin item.2 (diag2data n k w item.1)

def encode (ord : HashOrder Unit) : ECDAG := .build (encodeJoins n k w ord)

/-- Nothing is built when the packets of `to` are of several nodes. -/
def decodeJoins (dst : List Nat) : Option (List Join) :=
  let fnodeidx := dst.getD 0 0 / w
  if ∃ v ∈ dst, v / w ≠ fnodeidx then none
  else if fnodeidx ≠ n - 1 then
    -- repair by row parity
    some ((List.range w).map fun i =>
      xorJoin (fnodeidx * w + i) (((List.range (p k)).filter (· ≠ fnodeidx)).map fun j => j * w + i))
  else
    -- repair by diagonal parity
    some ((List.range w).map fun rowid =>
      xorJoin ((n - 1) * w + rowid) (diag2data n k w ((n - 1 + rowid) % p k)))

/-- `Decode(from, to)`; `from` is not read. -/
def decode (_src dst : List Nat) : Option ECDAG := (decodeJoins n k w dst).map .build

end

/-! ## The packets in the DAGs -/

section
variable {n k w : Nat}

theorem offset_lt {a b i : Nat} (ha : a < b) (hi : i < w) : a * w + i < b * w := by
  have := Nat.mul_le_mul_right w ha
  rw [Nat.succ_mul] at this
  omega

theorem mem_symbols {e : Nat × Nat} (he : e ∈ symbols n w) : idxOf w e < n * w := by
  obtain ⟨rowid, hrow, he⟩ := List.mem_flatMap.1 he
  obtain ⟨colid, hcol, rfl⟩ := List.mem_map.1 he
  exact offset_lt (List.mem_range.1 hcol) (List.mem_range.1 hrow)

theorem mem_diag2data {d v : Nat} (hv : v ∈ diag2data n k w d) : v < n * w := by
  obtain ⟨e, he, rfl⟩ := List.mem_map.1 hv
  exact mem_symbols (List.mem_of_mem_filter he)

theorem mem_diag2code {e : Sigma fun _ : Nat => Nat} (he : e ∈ (diag2code n k w).entries) :
    e.2 < n * w := by
  have hfold : ∀ (l : List (Nat × Nat)) (m : AList fun _ : Nat => Nat),
      (∀ e ∈ l, idxOf w e < n * w) → (∀ e ∈ m.entries, e.2 < n * w) →
      ∀ e ∈ (l.foldl (fun m e => if diagOf k e ∈ m then m
        else m.insert (diagOf k e) (idxOf w e)) m).entries, e.2 < n * w := by
    intro l
    induction l with
    | nil => exact fun m _ hm => hm
    | cons a l ih =>
      intro m hl hm
      rw [List.foldl_cons]
      refine ih _ (fun e he => hl e (List.mem_cons_of_mem _ he)) ?_
      split
      · exact hm
      · next hnew =>
        intro e he
        rw [AList.entries_insert_of_notMem hnew] at he
        rcases List.mem_cons.1 he with rfl | he
        · exact hl a List.mem_cons_self
        · exact hm e he
  refine hfold _ _ (fun e he => mem_symbols (List.mem_of_mem_filter he)) ?_ e he
  intro e he
  cases he

theorem mem_encode_lt (hk : k < n) (ord : HashOrder Unit) {v : Nat}
    (hv : v ∈ (encode n k w ord).nodeIds) : v < n * w := by
  obtain ⟨j, hj, hv⟩ := (ECDAG.mem_nodeIds_build _ v).1 hv
  rcases List.mem_append.1 hj with hj | hj
  · obtain ⟨i, hi, rfl⟩ := List.mem_map.1 hj
    have hi := List.mem_range.1 hi
    rcases hv with rfl | hv
    · exact offset_lt hk hi
    · obtain ⟨b, hb, rfl⟩ := List.mem_map.1 hv
      exact offset_lt (Nat.lt_trans (List.mem_range.1 hb) hk) hi
  · obtain ⟨item, hitem, rfl⟩ := List.mem_map.1 hj
    rcases hv with rfl | hv
    · exact mem_diag2code ((ord.mem_order () _ _).1 hitem)
    · exact mem_diag2data hv

/-- **`Decode` names packets of the nodes only**, whatever it is asked for. -/
theorem mem_decode_lt (hk : k < n) {src dst : List Nat} (hdst : ∀ v ∈ dst, v < n * w)
    {d : ECDAG} (hd : decode n k w src dst = some d) {v : Nat} (hv : v ∈ d.nodeIds) :
    v < n * w := by
  obtain ⟨js, hjs, rfl⟩ := Option.map_eq_some_iff.1 hd
  obtain ⟨j, hj, hv⟩ := (ECDAG.mem_nodeIds_build _ v).1 hv
  have hnode : dst.getD 0 0 / w < n := by
    cases dst with
    | nil =>
      show 0 / w < n
      rw [Nat.zero_div]
      omega
    | cons u dst => exact Nat.div_lt_of_lt_mul (Nat.mul_comm n w ▸ hdst u List.mem_cons_self)
  unfold decodeJoins at hjs
  dsimp only at hjs
  split at hjs
  · cases hjs
  · split at hjs
    · obtain rfl := Option.some.inj hjs
      obtain ⟨i, hi, rfl⟩ := List.mem_map.1 hj
      have hi := List.mem_range.1 hi
      rcases hv with rfl | hv
      · exact offset_lt hnode hi
      · obtain ⟨b, hb, rfl⟩ := List.mem_map.1 hv
        have hb : b < k + 1 := List.mem_range.1 (List.mem_of_mem_filter hb)
        exact offset_lt (by omega) hi
    · obtain rfl := Option.some.inj hjs
      obtain ⟨i, hi, rfl⟩ := List.mem_map.1 hj
      rcases hv with rfl | hv
      · exact offset_lt (by omega) (List.mem_range.1 hi)
      · exact mem_diag2data hv

/-- The packets of a lost node are joined. -/
theorem exists_mem_decode {v : Nat} (hv : v < n * w) :
    ∃ d, decode n k w (packets w (survivors n {v / w})) (packets w (losses n {v / w})) = some d ∧
      v ∈ d.nodeIds := by
  have hw : 0 < w := by
    rcases Nat.eq_zero_or_pos w with rfl | h
    · rw [Nat.mul_zero] at hv
      omega
    · exact h
  have hb : v / w < n := Nat.div_lt_of_lt_mul (Nat.mul_comm n w ▸ hv)
  have hdst : ∀ u ∈ packets w (losses n {v / w}), u / w = v / w := fun u hu => by
    rw [mem_packets hw, losses_singleton hb] at hu
    exact List.mem_singleton.1 hu
  have hmem : v ∈ packets w (losses n {v / w}) := by
    rw [mem_packets hw, losses_singleton hb]
    exact List.mem_singleton_self _
  generalize packets w (losses n {v / w}) = dst at hdst hmem
  have hfirst : dst.getD 0 0 / w = v / w := by
    rw [List.getD_eq_getElem _ _ (List.length_pos_of_mem hmem)]
    exact hdst _ (List.getElem_mem _)
  have hrow : v % w ∈ List.range w := List.mem_range.2 (Nat.mod_lt _ hw)
  have hsplit : v / w * w + v % w = v := Nat.div_add_mod' v w
  have hnone : ¬ ∃ u ∈ dst, u / w ≠ v / w := fun ⟨u, hu, hne⟩ => hne (hdst u hu)
  unfold decode decodeJoins
  dsimp only
  rw [hfirst, if_neg hnone]
  split
  · refine ⟨_, rfl, (ECDAG.mem_nodeIds_build _ v).2 ⟨_, List.mem_map_of_mem hrow, Or.inl ?_⟩⟩
    exact hsplit.symm
  · next hlast =>
    refine ⟨_, rfl, (ECDAG.mem_nodeIds_build _ v).2 ⟨_, List.mem_map_of_mem hrow, Or.inl ?_⟩⟩
    show v = (n - 1) * w + v % w
    rw [← not_not.1 hlast, hsplit]

end

end RDP

end StripeRepair

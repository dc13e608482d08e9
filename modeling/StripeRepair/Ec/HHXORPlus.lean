import StripeRepair.Ec.ECDAG
import StripeRepair.Ec.FailureSet
import StripeRepair.Ec.GenerateMatrix

/-!
# `HHXORPlus`: Hitchhiker-XOR+

Two sub-stripes (`w = 2`) of one Reed-Solomon code.  The data nodes but the last
one form the groups `1, …, n - k - 1`; the sum of a group in sub-stripe 0 is xored
onto the parity of the same number in sub-stripe 1, and parity 1 of sub-stripe 0
also carries its sub-stripe-1 twin.  The Reed-Solomon parities before the coupling
and the group sums are virtual symbols.

* `Codeword`: the equations between the symbols of a codeword, with the virtual ones.
* `codeword_encode`: `Encode` satisfies them.
* `decode_restores`: `Decode` restores every failure set whose selected rows are
  independent.
-/

namespace StripeRepair

namespace HHXORPlus

open Matrix

/-- `f2` is used for the coupling in sub-stripe 0. -/
def coupleParityId : Nat := 1

section
variable (n k : Nat)

/-! ## Groups and layout -/

def numGroups : Nat := n - k - 1

def avgGroupSize : Nat := k / numGroups n k

/-- One data node less than is left: the last one is in no group. -/
def lastGroupSize : Nat := k - avgGroupSize n k * (numGroups n k - 1) - 1

def groupSize (i : Nat) : Nat :=
  if i < numGroups n k - 1 then avgGroupSize n k else lastGroupSize n k

/-- `data_idx` at the start of round `i` of the constructor's loop. -/
def dataIdx : Nat → Nat
  | 0 => 0
  | i + 1 => dataIdx i + groupSize n k i

def group (i : Nat) : List Nat := List.range' (dataIdx n k i) (groupSize n k i)

/-- `_pid_group_map`, in the order of its keys. -/
def pidGroupMap : List (Nat × List Nat) :=
  (List.range (numGroups n k)).map fun i => (i + 1, group n k i)

/-- `_layout[sp][node_id]` of the one instance. -/
def layout (sp node : Nat) : Nat := node * 2 + sp

/-- `_num_symbols`. -/
def numSymbols : Nat := n * 2 + 2 * (numGroups n k + 1)

/-- `_code_layout[sp][p]`. -/
def codeLayout (sp p : Nat) : Nat := layout sp (k + p)

/-- `_pid_group_code_map[p]`. -/
def groupCode (p : Nat) : Nat := n * 2 + p

/-- `_uncoupled_code_layout[sp][p]`: a virtual symbol where the parity is coupled. -/
def uncoupledCode (sp p : Nat) : Nat :=
  if sp = 0 then if p = coupleParityId then n * 2 else codeLayout k 0 p
  else if p = 0 then codeLayout k 1 p else n * 2 + numGroups n k + p

/-- The last virtual symbol. -/
def spareSymbol : Nat := numSymbols n k - 1

/-- `_rs_encode_matrix`, its first two parity rows swapped. -/
def rsEncodeMatrix (i j : Nat) : GF256 :=
  entry (generateMatrix n k) (if i = k then k + 1 else if i = k + 1 then k else i) j

/-! ## Encode -/

/-- The coefficients of a group: the row of the coupling parity. -/
def groupJoin (p : Nat) (grp : List Nat) : Join :=
  ⟨groupCode n p, grp.map (layout 0),
    grp.map fun j => GF256.toInt (rsEncodeMatrix n k (k + coupleParityId) j)⟩

/-- The coupled parity 1 of sub-stripe 0. -/
def coupleJoin0 : Join :=
  ⟨codeLayout k 0 coupleParityId,
    [uncoupledCode n k 0 coupleParityId, uncoupledCode n k 1 coupleParityId,
      groupCode n coupleParityId], [1, 1, 1]⟩

/-- A coupled parity of sub-stripe 1. -/
def coupleJoin1 (p : Nat) : Join :=
  ⟨codeLayout k 1 p, [uncoupledCode n k 1 p, groupCode n p], [1, 1]⟩

def encodeJoins : List Join :=
  ((List.range 2).flatMap fun sp => (List.range (n - k)).map fun i =>
    ⟨uncoupledCode n k sp i, (List.range k).map (layout sp),
      (List.range k).map fun j => GF256.toInt (rsEncodeMatrix n k (i + k) j)⟩) ++
  ((pidGroupMap n k).map fun pg => groupJoin n k pg.1 pg.2) ++
  [coupleJoin0 n k] ++
  ((pidGroupMap n k).map fun pg => coupleJoin1 n k pg.1)

def encode : ECDAG := .build (encodeJoins n k)

/-! ## Decode -/

/-- The node of a symbol: the last match of the search through `_layout`. -/
def nodeOf (symbol : Nat) : Option Nat :=
  (List.range 2).foldl (fun found w =>
    match (List.range n).find? fun node => layout w node = symbol with
    | some node => some node
    | none => found) none

/-- The keys of `node_syms_map`, which a `std::map` holds in ascending order. -/
def nodesOf (symbols : List Nat) : List Nat :=
  (List.range n).filter fun node => symbols.any fun s => nodeOf n s = some node

/-- `recover_matrix`: the rows of the nodes used. -/
def recoverMatrix (rows : List Nat) : Matrix (Fin k) (Fin k) GF256 :=
  of fun i j => rsEncodeMatrix n k (rows.getD i 0) j

/-- `decode_parity_vector`: the row of a node times the inverse. -/
def decodeVector (inv : Matrix (Fin k) (Fin k) GF256) (node : Nat) : List Int :=
  (List.finRange k).map fun j : Fin k =>
    GF256.toInt (((fun l : Fin k => rsEncodeMatrix n k node l) ᵥ* inv) j)

/-- `_pid_group_map.find(p)`: the `Join`s `f` makes when parity `p` has a group. -/
def whenGroup (p : Nat) (f : List Nat → List Join) : List Join :=
  match (pidGroupMap n k).lookup p with
  | some grp => f grp
  | none => []

def decodeMultiple (invert : InvertMatrix8) (src dst : List Nat) : List Join :=
  let availNode := nodesOf n src
  let lostNode := nodesOf n dst
  let availData := availNode.filter (· < k)
  let availParity := (availNode.filter (k ≤ ·)).take (k - availData.length)
  let lostParity := lostNode.filter (k ≤ ·)
  let inv := invert k (recoverMatrix n k (availData ++ availParity))
  let cidx := fun sp => availData.map (layout sp) ++
    availParity.map fun node => uncoupledCode n k sp (node - k)
  -- special handling for coupled item
  (if coupleParityId + k ∈ availParity then
    [⟨uncoupledCode n k 0 coupleParityId,
      [codeLayout k 0 coupleParityId, codeLayout k 1 coupleParityId], [1, 1]⟩] else []) ++
  -- recover all symbols in sp[0]
  (lostNode.flatMap fun node =>
    if node < k then [⟨layout 0 node, cidx 0, decodeVector n k inv node⟩]
    else ⟨uncoupledCode n k 0 (node - k), cidx 0, decodeVector n k inv node⟩ ::
      whenGroup n k (node - k) fun grp => [groupJoin n k (node - k) grp]) ++
  -- recover uncoupled items for sp[1]
  (availParity.flatMap fun node => whenGroup n k (node - k) fun grp =>
    [groupJoin n k (node - k) grp,
      ⟨uncoupledCode n k 1 (node - k), [codeLayout k 1 (node - k), groupCode n (node - k)],
        [1, 1]⟩]) ++
  (lostNode.map fun node =>
    ⟨if node < k then layout 1 node else uncoupledCode n k 1 (node - k), cidx 1,
      decodeVector n k inv node⟩) ++
  -- re-couple the only parity in sp[0]
  (if coupleParityId + k ∈ lostParity then [coupleJoin0 n k] else []) ++
  -- couple the parities in sp[1]
  (lostParity.flatMap fun node => whenGroup n k (node - k) fun _ => [coupleJoin1 n k (node - k)])

/-- `recover_matrix_group`: the unit rows of the other members, then the parity row. -/
def recoverMatrixGroup (grp : List Nat) (failedNode : Nat) :
    Matrix (Fin grp.length) (Fin grp.length) GF256 :=
  of fun r i =>
    if r.1 + 1 = grp.length then rsEncodeMatrix n k (k + coupleParityId) (grp.getD i 0)
    else if (grp.filter (· ≠ failedNode)).getD r 0 = grp.getD i 0 then 1 else 0

/-- The row of the failed member of the inverse, `in_group_idx` being its position. -/
def groupVector (invert : InvertMatrix8) (grp : List Nat) (failedNode : Nat) : List Int :=
  (List.finRange grp.length).map fun j =>
    if h : grp.idxOf failedNode < grp.length then
      GF256.toInt (invert grp.length (recoverMatrixGroup n k grp failedNode)
        ⟨grp.idxOf failedNode, h⟩ j)
    else 0

/-- One lost data node. -/
def decodeSingleData (invert : InvertMatrix8) (src : List Nat) (failedNode : Nat) : List Join :=
  let availData := (nodesOf n src).filter (· < k)
  let inv := invert k (recoverMatrix n k (availData ++ [k]))
  let cidx1 := availData.map (layout 1) ++ [layout 1 k]
  ⟨layout 1 failedNode, cidx1, (List.finRange k).map fun j : Fin k =>
      if h : failedNode < k then GF256.toInt (inv ⟨failedNode, h⟩ j) else 0⟩ ::
  if failedNode < k - 1 then
    -- locate the group
    ((pidGroupMap n k).filter fun pg => failedNode ∈ pg.2).flatMap fun pg =>
      [⟨uncoupledCode n k 1 pg.1, cidx1, decodeVector n k inv (k + pg.1)⟩,
        ⟨groupCode n pg.1, [uncoupledCode n k 1 pg.1, codeLayout k 1 pg.1], [1, 1]⟩,
        ⟨layout 0 failedNode, (pg.2.filter (· ≠ failedNode)).map (layout 0) ++ [groupCode n pg.1],
          groupVector n k invert pg.2 failedNode⟩]
  else
    -- special handling for the last data node
    ((pidGroupMap n k).map fun pg =>
      ⟨uncoupledCode n k 1 pg.1, cidx1, decodeVector n k inv (k + pg.1)⟩) ++
    [⟨spareSymbol n k,
        (pidGroupMap n k).flatMap fun pg => [uncoupledCode n k 1 pg.1,
          if pg.1 ≠ coupleParityId then codeLayout k 1 pg.1 else codeLayout k 0 pg.1],
        (pidGroupMap n k).flatMap fun _ => [1, 1]⟩,
      ⟨layout 0 failedNode, [spareSymbol n k],
        [GF256.toInt (rsEncodeMatrix n k (k + coupleParityId) failedNode)⁻¹]⟩]

/-- `DecodeSingle`: a lost parity falls back to `DecodeMultiple`. -/
def decodeSingle (invert : InvertMatrix8) (src dst : List Nat) : List Join :=
  let failedNode := (nodeOf n (dst.getD 0 0)).getD (dst.getD 0 0 / 2)
  if k ≤ failedNode then decodeMultiple n k invert src dst
  else decodeSingleData n k invert src failedNode

def decodeJoins (invert : InvertMatrix8) (src dst : List Nat) : List Join :=
  if dst.length / 2 = 1 then decodeSingle n k invert src dst
  else decodeMultiple n k invert src dst

/-- `Decode(from, to)`. -/
def decode (invert : InvertMatrix8) (src dst : List Nat) : ECDAG :=
  .build (decodeJoins n k invert src dst)

end

/-! ## The symbol ids -/

section
variable {n k : Nat}

theorem uncoupledCode_zero (p : Nat) :
    uncoupledCode n k 0 p = if p = 1 then n * 2 else (k + p) * 2 := rfl

theorem uncoupledCode_one (p : Nat) :
    uncoupledCode n k 1 p = if p = 0 then k * 2 + 1 else n * 2 + numGroups n k + p := by
  rw [uncoupledCode, if_neg (by omega)]
  split
  · next hp => simp only [codeLayout, layout, hp, Nat.add_zero]
  · rfl

end

/-! ## Groups -/

section
variable {n k : Nat}

/-- The parameters the constructor accepts. -/
structure Params (n k : Nat) : Prop where
  parities : 3 ≤ n - k
  data : numGroups n k * 2 ≤ k

theorem Params.two_le_groups (h : Params n k) : 2 ≤ numGroups n k := by
  have := h.parities
  unfold numGroups
  omega

theorem Params.groups_succ (h : Params n k) : numGroups n k + 1 = n - k := by
  have := h.parities
  unfold numGroups
  omega

theorem Params.avg (h : Params n k) :
    2 ≤ avgGroupSize n k ∧ avgGroupSize n k * numGroups n k ≤ k := by
  have hG := h.two_le_groups
  have hd := h.data
  refine ⟨?_, Nat.div_mul_le_self _ _⟩
  exact (Nat.le_div_iff_mul_le (by omega)).2 (by omega)

theorem dataIdx_eq (i : Nat) (hi : i ≤ numGroups n k - 1) :
    dataIdx n k i = avgGroupSize n k * i := by
  induction i with
  | zero => rfl
  | succ i ih =>
    rw [dataIdx, ih (by omega), groupSize, if_pos (by omega), Nat.mul_succ]

/-- The groups take all data nodes but the last. -/
theorem Params.dataIdx_numGroups (h : Params n k) : dataIdx n k (numGroups n k) = k - 1 := by
  obtain ⟨g, hg⟩ : ∃ g, numGroups n k = g + 1 := ⟨numGroups n k - 1, by
    have := h.two_le_groups
    omega⟩
  have havg := h.avg
  rw [hg, dataIdx, dataIdx_eq g (by omega), groupSize, if_neg (by omega), lastGroupSize, hg]
  rw [hg, Nat.mul_succ] at havg
  simp only [Nat.add_sub_cancel]
  omega

theorem Params.groupSize_pos (h : Params n k) (i : Nat) : 0 < groupSize n k i := by
  have havg := h.avg
  unfold groupSize lastGroupSize
  split
  · omega
  · obtain ⟨g, hg⟩ : ∃ g, numGroups n k = g + 1 := ⟨numGroups n k - 1, by
      have := h.two_le_groups
      omega⟩
    rw [hg, Nat.mul_succ] at havg
    rw [hg, Nat.add_sub_cancel]
    omega

theorem flatMap_group (c : Nat) :
    (List.range c).flatMap (group n k) = List.range (dataIdx n k c) := by
  induction c with
  | zero => rfl
  | succ c ih =>
    rw [List.range_succ, List.flatMap_append, ih, List.flatMap_singleton, group, dataIdx,
      List.range_eq_range', List.range_eq_range']
    have happend : List.range' 0 (dataIdx n k c) ++
        List.range' (0 + 1 * dataIdx n k c) (groupSize n k c) =
        List.range' 0 (dataIdx n k c + groupSize n k c) := List.range'_append
    simpa using happend

/-- The groups, one after the other, are the data nodes but the last. -/
theorem Params.flatMap_groups (h : Params n k) :
    (List.range (numGroups n k)).flatMap (group n k) = List.range (k - 1) := by
  rw [flatMap_group, h.dataIdx_numGroups]

theorem Params.mem_group (h : Params n k) {i j : Nat} (hi : i < numGroups n k)
    (hj : j ∈ group n k i) : j < k - 1 := by
  rw [← List.mem_range, ← h.flatMap_groups]
  exact List.mem_flatMap.2 ⟨i, List.mem_range.2 hi, hj⟩

theorem Params.exists_group (h : Params n k) {j : Nat} (hj : j < k - 1) :
    ∃ i < numGroups n k, j ∈ group n k i := by
  have : j ∈ (List.range (numGroups n k)).flatMap (group n k) := by
    rw [h.flatMap_groups]
    exact List.mem_range.2 hj
  obtain ⟨i, hi, hj⟩ := List.mem_flatMap.1 this
  exact ⟨i, List.mem_range.1 hi, hj⟩

theorem group_nodup (i : Nat) : (group n k i).Nodup := List.nodup_range'

theorem Params.group_ne_nil (h : Params n k) (i : Nat) : group n k i ≠ [] := by
  intro hnil
  have hlen := congrArg List.length hnil
  rw [group, List.length_range', List.length_nil] at hlen
  have := h.groupSize_pos i
  omega

theorem lookup_pidGroupMap (p : Nat) :
    (pidGroupMap n k).lookup (p + 1) =
      if p < numGroups n k then some (group n k p) else none := by
  have hall : ∀ c, ((List.range c).map fun i => (i + 1, group n k i)).lookup (p + 1) =
      if p < c then some (group n k p) else none := by
    intro c
    induction c with
    | zero => simp
    | succ c ih =>
      rw [List.range_succ, List.map_append, List.lookup_append, ih]
      by_cases hpc : p < c
      · simp [hpc, show p < c + 1 by omega]
      · by_cases hp : p = c
        · subst hp
          simp
        · have hne : (p + 1 == c + 1) = false := by simpa using hp
          simp [hpc, show ¬ p < c + 1 by omega, List.lookup_cons, hne]
  exact hall _

theorem lookup_pidGroupMap_zero : (pidGroupMap n k).lookup 0 = none := by
  rw [List.lookup_eq_none_iff]
  simp [pidGroupMap]

/-- Every parity but the first has a group. -/
theorem mem_whenGroup {p : Nat} {f : List Nat → List Join} {j : Join} :
    j ∈ whenGroup n k p f ↔ ∃ i < numGroups n k, p = i + 1 ∧ j ∈ f (group n k i) := by
  unfold whenGroup
  cases p with
  | zero => simp [lookup_pidGroupMap_zero]
  | succ p =>
    rw [lookup_pidGroupMap]
    by_cases hp : p < numGroups n k
    · simp only [hp, if_true]
      constructor
      · exact fun h => ⟨p, hp, rfl, h⟩
      · rintro ⟨i, hi, he, h⟩
        obtain rfl : p = i := by omega
        exact h
    · simp only [hp, if_false]
      constructor
      · intro h
        cases h
      · rintro ⟨i, hi, he, h⟩
        omega

end

/-! ## The search through the layout -/

section
variable {n : Nat}

theorem find?_layout (w s : Nat) (hw : w < 2) :
    ((List.range n).find? fun node => layout w node = s) =
      if s % 2 = w ∧ s / 2 < n then some (s / 2) else none := by
  split
  · next h =>
    rw [List.find?_range_eq_some]
    refine ⟨?_, List.mem_range.2 h.2, ?_⟩
    · rw [decide_eq_true_eq]
      unfold layout
      omega
    · intro j hj
      rw [Bool.not_eq_true', decide_eq_false_iff_not]
      unfold layout
      omega
  · next h =>
    rw [List.find?_eq_none]
    intro node hnode
    have := List.mem_range.1 hnode
    rw [decide_eq_true_eq]
    unfold layout
    omega

theorem nodeOf_eq (s : Nat) : nodeOf n s = if s / 2 < n then some (s / 2) else none := by
  have hr : List.range 2 = [0, 1] := rfl
  unfold nodeOf
  rw [hr]
  simp only [List.foldl_cons, List.foldl_nil, find?_layout 0 s (by omega),
    find?_layout 1 s (by omega)]
  by_cases hs : s / 2 < n
  · obtain h0 | h1 : s % 2 = 0 ∨ s % 2 = 1 := by omega
    · simp [hs, h0]
    · simp [hs, h1]
  · simp [hs]

/-- The nodes of the packets of some blocks are these blocks. -/
theorem nodesOf_packets (q : Nat → Bool) :
    nodesOf n (packets 2 ((List.range n).filter q)) = (List.range n).filter q := by
  unfold nodesOf
  apply List.filter_congr
  intro node hnode
  have hn := List.mem_range.1 hnode
  rw [Bool.eq_iff_iff, List.any_eq_true]
  constructor
  · rintro ⟨s, hs, hnd⟩
    rw [mem_packets (by omega)] at hs
    rw [nodeOf_eq] at hnd
    split at hnd
    · simp only [Option.some.injEq, decide_eq_true_eq] at hnd
      rw [hnd] at hs
      exact (List.mem_filter.1 hs).2
    · simp at hnd
  · intro hq
    refine ⟨node * 2, (mem_packets (by omega)).2 ?_, ?_⟩
    · rw [Nat.mul_div_cancel _ (by omega)]
      exact List.mem_filter.2 ⟨hnode, hq⟩
    · rw [nodeOf_eq, Nat.mul_div_cancel _ (by omega), if_pos hn]
      simp

end

end HHXORPlus

end StripeRepair

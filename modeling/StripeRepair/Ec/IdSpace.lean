import StripeRepair.Ec.RSPIPE
import StripeRepair.Ec.RDP
import StripeRepair.Ec.BUTTERFLYEncode
import StripeRepair.Ec.HHXORPlusDecode

/-!
# The ids in the DAGs of a code

The packets of the blocks have the ids below `n * w`. A code may have ids of its own behind them:
virtual symbols, sums of groups and temporary packets.

* `mem_encode_lt`, `mem_decode_lt` of each code: how large the ids are.
* `mem_encode`, `mem_decode`, …: that all of them are used.
-/

namespace StripeRepair

/-- All ids of a `Join` are below `N`. -/
def Join.Below (N : Nat) (j : Join) : Prop := j.pidx < N ∧ ∀ v ∈ j.cidx, v < N

theorem ECDAG.lt_of_mem_build {N : Nat} {js : List Join} (h : ∀ j ∈ js, j.Below N) {v : Nat}
    (hv : v ∈ (ECDAG.build js).nodeIds) : v < N := by
  obtain ⟨j, hj, rfl | hv⟩ := (ECDAG.mem_nodeIds_build _ v).1 hv
  · exact (h j hj).1
  · exact (h j hj).2 v hv

/-! ## The packets of the blocks -/

section
variable {n w v : Nat} (hw : 0 < w)
include hw

theorem packets_lt {blks : List Nat} (hblks : ∀ b ∈ blks, b < n) (hv : v ∈ packets w blks) :
    v < n * w :=
  (Nat.div_lt_iff_lt_mul hw).1 (hblks _ ((mem_packets hw).1 hv))

theorem survivors_packets_lt {failed : Finset Nat} (hv : v ∈ packets w (survivors n failed)) :
    v < n * w :=
  packets_lt hw (fun _ hb => (mem_survivors.1 hb).1) hv

theorem losses_packets_lt {failed : Finset Nat} (hv : v ∈ packets w (losses n failed)) :
    v < n * w :=
  packets_lt hw (fun _ hb => (mem_losses.1 hb).1) hv

/-- Each packet is lost with its block. -/
theorem mem_packets_losses (hv : v < n * w) : v ∈ packets w (losses n {v / w}) := by
  rw [mem_packets hw, losses_singleton ((Nat.div_lt_iff_lt_mul hw).2 hv)]
  exact List.mem_singleton_self _

end

/-! ## `RSCONV` -/

namespace RSCONV

variable {n k : Nat}

theorem mem_encode_lt {v : Nat} (hv : v ∈ (encode n k).nodeIds) : v < n := by
  refine ECDAG.lt_of_mem_build (fun j hj => ?_) hv
  obtain ⟨i, hi, rfl⟩ := List.mem_map.1 hj
  have hi := List.mem_range.1 hi
  refine ⟨show i + k < n by omega, fun u hu => ?_⟩
  obtain ⟨l, -, rfl⟩ := List.mem_map.1 hu
  have hl := l.2
  omega

theorem mem_encode (hk : k < n) {v : Nat} (hv : v < n) : v ∈ (encode n k).nodeIds := by
  refine (ECDAG.mem_nodeIds_build _ _).2 ?_
  by_cases hvk : v < k
  · refine ⟨_, List.mem_map_of_mem (List.mem_range.2 (show 0 < n - k by omega)), Or.inr ?_⟩
    exact List.mem_map.2 ⟨⟨v, hvk⟩, List.mem_finRange _, rfl⟩
  · refine ⟨_, List.mem_map_of_mem (List.mem_range.2 (show v - k < n - k by omega)), Or.inl ?_⟩
    show v = v - k + k
    omega

variable (invert : InvertMatrix)

theorem mem_decode_lt {N : Nat} (hpos : 0 < N) {src dst : List Nat} (hsrc : ∀ v ∈ src, v < N)
    (hdst : ∀ v ∈ dst, v < N) {v : Nat} (hv : v ∈ (decode invert n k src dst).nodeIds) :
    v < N := by
  refine ECDAG.lt_of_mem_build (fun j hj => ?_) hv
  obtain ⟨ridx, hr, rfl⟩ := List.mem_map.1 hj
  refine ⟨hdst ridx hr, fun u hu => ?_⟩
  obtain ⟨l, -, rfl⟩ := List.mem_map.1 hu
  exact getD_lt hpos hsrc l

theorem mem_decode (src : List Nat) {dst : List Nat} {v : Nat} (hv : v ∈ dst) :
    v ∈ (decode invert n k src dst).nodeIds :=
  (ECDAG.mem_nodeIds_build _ _).2 ⟨_, List.mem_map_of_mem hv, Or.inl rfl⟩

end RSCONV

/-! ## `BUTTERFLY` -/

namespace BUTTERFLY

/-- The ids of the packets and of the temporary ones, when node `k + 1` is decoded. -/
def numIds (k w : Nat) : Nat := (k + 2) * w + (k - 1) * (w / 2)

section
variable {n k w : Nat}

theorem mem_encode_lt (hk : k < n) (hw : 0 < w) {v : Nat} (hv : v ∈ (encode n k w).nodeIds) :
    v < n * w := by
  have hpos : 0 < n * w := Nat.mul_pos (by omega) hw
  refine ECDAG.lt_of_mem_build (fun j hj => ?_) hv
  obtain ⟨i, -, rfl⟩ := List.mem_map.1 hj
  refine ⟨getD_lt hpos (fun u hu => ?_) i, fun u hu => ?_⟩
  · refine packets_lt hw (fun b hb => ?_) hu
    rw [List.mem_range'_1] at hb
    omega
  · exact packets_lt hw (fun b hb => Nat.lt_trans (List.mem_range.1 hb) hk) hu

theorem mem_encode (hk : k < n) (hw : 0 < w) {v : Nat} (hv : v < n * w) :
    v ∈ (encode n k w).nodeIds := by
  have hm : 0 < n - k := by omega
  have hsplit : k * w + (n - k) * w = n * w := by
    rw [← Nat.add_mul, show k + (n - k) = n by omega]
  refine (ECDAG.mem_nodeIds_build _ _).2 ?_
  by_cases hvk : v < k * w
  · refine ⟨_, List.mem_map_of_mem (List.mem_range.2 (Nat.mul_pos hm hw)), Or.inr ?_⟩
    show v ∈ packets w (List.range k)
    rw [packets_range]
    exact List.mem_range.2 hvk
  · refine ⟨_, List.mem_map_of_mem (List.mem_range.2 (show v - k * w < (n - k) * w by omega)),
      Or.inl ?_⟩
    show v = (packets w (List.range' k (n - k))).getD (v - k * w) 0
    rw [packets_range', getD_map_range _ _ (by omega)]
    omega

theorem below_joinRow {N dst : Nat} {data : List Nat} {coef : List Int} (hdst : dst < N)
    (hdata : ∀ u ∈ data, u < N) : (joinRow dst data coef).Below N := by
  refine ⟨hdst, fun u hu => ?_⟩
  obtain ⟨e, he, rfl⟩ := List.mem_map.1 hu
  exact hdata _ (List.of_mem_zip (List.mem_of_mem_filter he)).1

theorem below_joinRows {N : Nat} {dst data : List Nat} {matrix : List (List Int)}
    (hdst : ∀ u ∈ dst, u < N) (hdata : ∀ u ∈ data, u < N) :
    ∀ j ∈ joinRows n w dst data matrix, j.Below N := by
  intro j hj
  obtain ⟨e, he, rfl⟩ := List.mem_map.1 hj
  exact below_joinRow (hdst _ (List.fst_mem_of_mem_zipIdx he)) hdata

theorem dataOf_lt {r : Nat} {off : Nat → List Nat} (hoff : ∀ i, ∀ o ∈ off i, o < w) {u : Nat}
    (hu : u ∈ dataOf n w r off) : u < n * w := by
  obtain ⟨i, hi, hu⟩ := List.mem_flatMap.1 hu
  obtain ⟨o, ho, rfl⟩ := List.mem_map.1 hu
  exact RDP.offset_lt (List.mem_range.1 (List.mem_of_mem_filter hi)) (hoff i o ho)

end

section
variable {k w : Nat}

/-- The temporary ids of node `sid` stand in a row behind those of the nodes before it. -/
theorem tmp_lt {sid i : Nat} (hsid : sid ∈ List.range' 1 (k - 1)) (hi : i < w / 2) :
    (k + 2) * w + (sid - 1) * (w / 2) + i < numIds k w := by
  rw [List.mem_range'_1] at hsid
  have hrow := RDP.offset_lt (show sid - 1 < k - 1 by omega) hi
  unfold numIds
  omega

theorem mem_decode_lt {src dst : List Nat} (hdst : ∀ v ∈ dst, v < (k + 2) * w) {v : Nat}
    (hv : v ∈ (decode (k + 2) k w src dst).nodeIds) : v < numIds k w := by
  have hle : (k + 2) * w ≤ numIds k w := Nat.le_add_right _ _
  have hdst' : ∀ u ∈ dst, u < numIds k w := fun u hu => Nat.lt_of_lt_of_le (hdst u hu) hle
  have hrows : ∀ {r : Nat} {off : Nat → List Nat} {matrix : List (List Int)},
      (∀ i, ∀ o ∈ off i, o < w) →
      ∀ j ∈ joinRows (k + 2) w dst (dataOf (k + 2) w r off) matrix, j.Below (numIds k w) :=
    fun hoff => below_joinRows hdst' fun u hu => Nat.lt_of_lt_of_le (dataOf_lt hoff hu) hle
  have hfilter : ∀ {P : Nat → Bool}, ∀ o ∈ (List.range w).filter P, o < w := fun o ho =>
    List.mem_range.1 (List.mem_of_mem_filter ho)
  refine ECDAG.lt_of_mem_build (fun j hj => ?_) hv
  unfold decodeJoins at hj
  dsimp only at hj
  split at hj
  · exact hrows (fun _ => hfilter) j hj
  · split at hj
    · refine hrows (fun _ o ho => ?_) j hj
      rw [List.mem_range'_1] at ho
      omega
    · split at hj
      · refine hrows (fun i o ho => ?_) j hj
        split at ho
        · exact hfilter o ho
        · exact hfilter o ho
      · split at hj
        · rcases List.mem_append.1 hj with hj | hj
          · obtain ⟨sid, hsid, hj⟩ := List.mem_flatMap.1 hj
            obtain ⟨i, hi, rfl⟩ := List.mem_map.1 hj
            refine below_joinRow (tmp_lt hsid (List.mem_range.1 hi)) fun u hu => ?_
            obtain ⟨l, hl, rfl⟩ := List.mem_map.1 hu
            rw [List.mem_range'_1] at hsid
            exact Nat.lt_of_lt_of_le
              (RDP.offset_lt (show sid < k + 2 by omega) (List.mem_range.1 hl)) hle
          · obtain ⟨u, hu, rfl⟩ := List.mem_map.1 hj
            exact below_joinRow (hdst' u hu) (fun _ h => absurd h List.not_mem_nil)
        · cases hj

/-- The temporary ids are all used for the last node. -/
theorem mem_decode_last (hw : 0 < w) (src : List Nat) {v : Nat} (hv : (k + 2) * w ≤ v)
    (hlt : v < numIds k w) :
    v ∈ (decode (k + 2) k w src (packets w (losses (k + 2) {k + 1}))).nodeIds := by
  have hlost : losses (k + 2) {k + 1} = [k + 1] := losses_singleton (by omega)
  have hfirst : (packets w [k + 1]).getD 0 0 / w = k + 1 := by
    have hlen : 0 < (packets w [k + 1]).length := by
      rw [length_packets, List.length_singleton]
      omega
    rw [List.getD_eq_getElem _ _ hlen]
    exact List.mem_singleton.1 ((mem_packets hw).1 (List.getElem_mem hlen))
  obtain ⟨row, hrow, i, hi, rfl⟩ : ∃ row < k - 1, ∃ i < w / 2,
      v = (k + 2) * w + row * (w / 2) + i := by
    have hhalf : 0 < w / 2 := by
      rcases Nat.eq_zero_or_pos (w / 2) with h0 | h0
      · rw [numIds, h0] at hlt
        omega
      · exact h0
    have hsplit := Nat.div_add_mod' (v - (k + 2) * w) (w / 2)
    refine ⟨(v - (k + 2) * w) / (w / 2), ?_, (v - (k + 2) * w) % (w / 2), Nat.mod_lt _ hhalf, ?_⟩
    · rw [Nat.div_lt_iff_lt_mul hhalf]
      unfold numIds at hlt
      omega
    · rw [Nat.add_assoc, hsplit]
      omega
  unfold decode decodeJoins
  dsimp only
  rw [hlost, hfirst, if_neg (by omega), if_neg (by omega), if_neg (by omega), if_pos rfl]
  refine (ECDAG.mem_nodeIds_build _ _).2 ⟨_, List.mem_append_left _ (List.mem_flatMap.2
    ⟨row + 1, ?_, List.mem_map_of_mem (List.mem_range.2 hi)⟩), Or.inl rfl⟩
  rw [List.mem_range'_1]
  omega

end

end BUTTERFLY

/-! ## `HHXORPlus` -/

namespace HHXORPlus

variable {n k : Nat}

/-! ### The symbols -/

theorem layout_lt {sp node : Nat} (hsp : sp < 2) (hnode : node < n) :
    layout sp node < numSymbols n k := by
  unfold layout numSymbols
  omega

theorem codeLayout_lt {sp p : Nat} (hsp : sp < 2) (hp : p < n - k) :
    codeLayout k sp p < numSymbols n k :=
  layout_lt hsp (by omega)

section
variable (h : Params n k) {sp p : Nat}
include h

theorem Params.groupCode_lt (hp : p < n - k) : groupCode n p < numSymbols n k := by
  have hg := h.groups_succ
  unfold groupCode numSymbols
  omega

theorem Params.uncoupledCode_lt (sp : Nat) (hp : p < n - k) :
    uncoupledCode n k sp p < numSymbols n k := by
  have hg := h.groups_succ
  unfold uncoupledCode
  split
  · split
    · unfold numSymbols
      omega
    · exact codeLayout_lt Nat.two_pos hp
  · split
    · exact codeLayout_lt Nat.one_lt_two hp
    · unfold numSymbols
      omega

/-- The members of a group are data nodes. -/
theorem Params.below_groupJoin {i : Nat} (hi : i < numGroups n k) :
    (groupJoin n k (i + 1) (group n k i)).Below (numSymbols n k) := by
  have hg := h.groups_succ
  refine ⟨h.groupCode_lt (by omega), fun u hu => ?_⟩
  obtain ⟨l, hl, rfl⟩ := List.mem_map.1 hu
  have hl := h.mem_group hi hl
  exact layout_lt Nat.two_pos (by omega)

theorem Params.below_coupleJoin0 : (coupleJoin0 n k).Below (numSymbols n k) := by
  have hp : coupleParityId < n - k := by
    have := h.parities
    unfold coupleParityId
    omega
  refine ⟨codeLayout_lt Nat.two_pos hp, fun u hu => ?_⟩
  simp only [coupleJoin0, List.mem_cons, List.not_mem_nil, or_false] at hu
  rcases hu with rfl | rfl | rfl
  · exact h.uncoupledCode_lt 0 hp
  · exact h.uncoupledCode_lt 1 hp
  · exact h.groupCode_lt hp

theorem Params.below_coupleJoin1 (hp : p < n - k) :
    (coupleJoin1 n k p).Below (numSymbols n k) := by
  refine ⟨codeLayout_lt Nat.one_lt_two hp, fun u hu => ?_⟩
  rcases List.mem_pair.1 hu with rfl | rfl
  · exact h.uncoupledCode_lt 1 hp
  · exact h.groupCode_lt hp

/-! ### Encode -/

theorem Params.mem_encode_lt {v : Nat} (hv : v ∈ (encode n k).nodeIds) : v < numSymbols n k := by
  have hg := h.groups_succ
  refine ECDAG.lt_of_mem_build (fun j hj => ?_) hv
  rcases mem_encodeJoins.1 hj with ⟨sp, hsp, i, hi, rfl⟩ | ⟨i, hi, rfl⟩ | rfl | ⟨i, hi, rfl⟩
  · refine ⟨h.uncoupledCode_lt sp hi, fun u hu => ?_⟩
    obtain ⟨l, hl, rfl⟩ := List.mem_map.1 hu
    have hl := List.mem_range.1 hl
    exact layout_lt hsp (by omega)
  · exact h.below_groupJoin hi
  · exact h.below_coupleJoin0
  · exact h.below_coupleJoin1 (by omega)

/-- All symbols but the last virtual one. -/
theorem Params.mem_encode {v : Nat} (hv : v < spareSymbol n k) : v ∈ (encode n k).nodeIds := by
  have hg := h.groups_succ
  have hgroups := h.two_le_groups
  have hpidx : ∀ {j : Join}, j ∈ encodeJoins n k → v = j.pidx → v ∈ (encode n k).nodeIds :=
    fun hj he => (ECDAG.mem_nodeIds_build _ _).2 ⟨_, hj, Or.inl he⟩
  unfold spareSymbol numSymbols at hv
  have hcode : ∀ sp < 2, ∀ p < n - k, v = uncoupledCode n k sp p → v ∈ (encode n k).nodeIds :=
    fun sp hsp p hp he => hpidx (mem_encodeJoins.2 (Or.inl ⟨sp, hsp, p, hp, rfl⟩)) he
  by_cases hdata : v < k * 2
  · refine (ECDAG.mem_nodeIds_build _ _).2 ⟨_, mem_encodeJoins.2
      (Or.inl ⟨v % 2, Nat.mod_lt _ Nat.two_pos, 0, by omega, rfl⟩),
      Or.inr (List.mem_map.2 ⟨v / 2, List.mem_range.2 (by omega), ?_⟩)⟩
    unfold layout
    omega
  · by_cases hblocks : v < n * 2
    · -- a parity: coupled, or the one that is computed from the data
      obtain ⟨p, hp, hv'⟩ : ∃ p < n - k, v = (k + p) * 2 ∨ v = (k + p) * 2 + 1 :=
        ⟨v / 2 - k, by omega, by omega⟩
      rcases hv' with rfl | rfl
      · by_cases hp1 : p = 1
        · subst hp1
          exact hpidx (mem_encodeJoins.2 (Or.inr (Or.inr (Or.inl rfl)))) rfl
        · exact hcode 0 Nat.two_pos p hp (by rw [uncoupledCode_zero, if_neg hp1])
      · rcases Nat.eq_zero_or_pos p with rfl | hpos
        · exact hcode 1 Nat.one_lt_two 0 hp (by rw [uncoupledCode_one, if_pos rfl]; rfl)
        · obtain ⟨i, rfl⟩ : ∃ i, p = i + 1 := ⟨p - 1, by omega⟩
          exact hpidx (mem_encodeJoins.2 (Or.inr (Or.inr (Or.inr ⟨i, by omega, rfl⟩)))) rfl
    · rcases Nat.eq_or_lt_of_le (Nat.le_of_not_lt hblocks) with he | hlow
      · exact hcode 0 Nat.two_pos 1 (by omega) (by rw [uncoupledCode_zero, if_pos rfl, he])
      · by_cases hgroup : v ≤ n * 2 + numGroups n k
        · exact hpidx (mem_encodeJoins.2 (Or.inr (Or.inl ⟨v - n * 2 - 1, by omega, rfl⟩)))
            (show v = n * 2 + (v - n * 2 - 1 + 1) by omega)
        · refine hcode 1 Nat.one_lt_two (v - (n * 2 + numGroups n k)) (by omega) ?_
          rw [uncoupledCode_one, if_neg (by omega)]
          omega

/-! ### Decode -/

variable (invert : InvertMatrix8) (src : List Nat)

omit h in
theorem lt_of_mem_nodesOf {symbols : List Nat} {node : Nat} (hnode : node ∈ nodesOf n symbols) :
    node < n :=
  List.mem_range.1 (List.mem_of_mem_filter hnode)

theorem Params.below_decodeMultiple (dst : List Nat) :
    ∀ j ∈ decodeMultiple n k invert src dst, j.Below (numSymbols n k) := by
  have hg := h.groups_succ
  have havail : ∀ node ∈ ((nodesOf n src).filter (k ≤ ·)).take
      (k - ((nodesOf n src).filter (· < k)).length), node - k < n - k := by
    intro node hnode
    obtain ⟨hnode, hk⟩ := List.mem_filter.1 (List.mem_of_mem_take hnode)
    have hlt := lt_of_mem_nodesOf hnode
    have hk := of_decide_eq_true hk
    omega
  -- what the parities and the data are computed from
  have hcidx : ∀ sp < 2, ∀ u ∈ ((nodesOf n src).filter (· < k)).map (layout sp) ++
      (((nodesOf n src).filter (k ≤ ·)).take
        (k - ((nodesOf n src).filter (· < k)).length)).map
          (fun node => uncoupledCode n k sp (node - k)), u < numSymbols n k := by
    intro sp hsp u hu
    rcases List.mem_append.1 hu with hu | hu
    · obtain ⟨node, hnode, rfl⟩ := List.mem_map.1 hu
      exact layout_lt hsp (lt_of_mem_nodesOf (List.mem_of_mem_filter hnode))
    · obtain ⟨node, hnode, rfl⟩ := List.mem_map.1 hu
      exact h.uncoupledCode_lt sp (havail node hnode)
  have hsymbol : ∀ sp < 2, ∀ node ∈ nodesOf n dst, (if node < k then layout sp node
      else uncoupledCode n k sp (node - k)) < numSymbols n k := by
    intro sp hsp node hnode
    have hlt := lt_of_mem_nodesOf hnode
    split
    · exact layout_lt hsp hlt
    · exact h.uncoupledCode_lt sp (by omega)
  intro j hj
  unfold decodeMultiple at hj
  simp only [List.mem_append, or_assoc] at hj
  rcases hj with hj | hj | hj | hj | hj | hj
  · split at hj
    · next hp =>
      have hp := havail _ hp
      rw [Nat.add_sub_cancel] at hp
      obtain rfl := List.mem_singleton.1 hj
      refine ⟨h.uncoupledCode_lt 0 hp, fun u hu => ?_⟩
      rcases List.mem_pair.1 hu with rfl | rfl
      · exact codeLayout_lt Nat.two_pos hp
      · exact codeLayout_lt Nat.one_lt_two hp
    · cases hj
  · obtain ⟨node, hnode, hj⟩ := List.mem_flatMap.1 hj
    have hs := hsymbol 0 Nat.two_pos node hnode
    split at hj
    · next hk =>
      rw [if_pos hk] at hs
      obtain rfl := List.mem_singleton.1 hj
      exact ⟨hs, hcidx 0 Nat.two_pos⟩
    · next hk =>
      rw [if_neg hk] at hs
      rcases List.mem_cons.1 hj with rfl | hj
      · exact ⟨hs, hcidx 0 Nat.two_pos⟩
      · obtain ⟨i, hi, he, hj⟩ := mem_whenGroup.1 hj
        obtain rfl := List.mem_singleton.1 hj
        exact he ▸ h.below_groupJoin hi
  · obtain ⟨node, hnode, hj⟩ := List.mem_flatMap.1 hj
    have hp := havail node hnode
    obtain ⟨i, hi, he, hj⟩ := mem_whenGroup.1 hj
    rcases List.mem_pair.1 hj with rfl | rfl
    · exact he ▸ h.below_groupJoin hi
    · refine ⟨h.uncoupledCode_lt 1 hp, fun u hu => ?_⟩
      rcases List.mem_pair.1 hu with rfl | rfl
      · exact codeLayout_lt Nat.one_lt_two hp
      · exact h.groupCode_lt hp
  · obtain ⟨node, hnode, rfl⟩ := List.mem_map.1 hj
    exact ⟨hsymbol 1 Nat.one_lt_two node hnode, hcidx 1 Nat.one_lt_two⟩
  · split at hj
    · obtain rfl := List.mem_singleton.1 hj
      exact h.below_coupleJoin0
    · cases hj
  · obtain ⟨node, hnode, hj⟩ := List.mem_flatMap.1 hj
    have hlt := lt_of_mem_nodesOf (List.mem_of_mem_filter hnode)
    obtain ⟨i, hi, he, hj⟩ := mem_whenGroup.1 hj
    obtain rfl := List.mem_singleton.1 hj
    exact h.below_coupleJoin1 (by omega)

theorem Params.below_decodeSingleData {failedNode : Nat} (hf : failedNode < k) :
    ∀ j ∈ decodeSingleData n k invert src failedNode, j.Below (numSymbols n k) := by
  have hg := h.groups_succ
  have hlost : ∀ {sp : Nat}, sp < 2 → layout sp failedNode < numSymbols n k := fun hsp =>
    layout_lt hsp (by omega)
  have hcidx : ∀ u ∈ ((nodesOf n src).filter (· < k)).map (layout 1) ++ [layout 1 k],
      u < numSymbols n k := by
    intro u hu
    rcases List.mem_append.1 hu with hu | hu
    · obtain ⟨node, hnode, rfl⟩ := List.mem_map.1 hu
      exact layout_lt Nat.one_lt_two (lt_of_mem_nodesOf (List.mem_of_mem_filter hnode))
    · rw [List.mem_singleton.1 hu]
      exact layout_lt Nat.one_lt_two (by omega)
  have hpid : ∀ pg ∈ pidGroupMap n k, pg.1 < n - k ∧ ∀ l ∈ pg.2, l < n := by
    intro pg hpg
    obtain ⟨i, hi, rfl⟩ := List.mem_map.1 hpg
    have hi := List.mem_range.1 hi
    refine ⟨show i + 1 < n - k by omega, fun l hl => ?_⟩
    have hl := h.mem_group hi hl
    omega
  intro j hj
  rcases List.mem_cons.1 hj with rfl | hj
  · exact ⟨hlost Nat.one_lt_two, hcidx⟩
  · split at hj
    · obtain ⟨pg, hpg, hj⟩ := List.mem_flatMap.1 hj
      obtain ⟨hp, hmem⟩ := hpid pg (List.mem_of_mem_filter hpg)
      simp only [List.mem_cons, List.not_mem_nil, or_false] at hj
      rcases hj with rfl | rfl | rfl
      · exact ⟨h.uncoupledCode_lt 1 hp, hcidx⟩
      · refine ⟨h.groupCode_lt hp, fun u hu => ?_⟩
        rcases List.mem_pair.1 hu with rfl | rfl
        · exact h.uncoupledCode_lt 1 hp
        · exact codeLayout_lt Nat.one_lt_two hp
      · refine ⟨hlost Nat.two_pos, fun u hu => ?_⟩
        rcases List.mem_append.1 hu with hu | hu
        · obtain ⟨l, hl, rfl⟩ := List.mem_map.1 hu
          exact layout_lt Nat.two_pos (hmem l (List.mem_of_mem_filter hl))
        · rw [List.mem_singleton.1 hu]
          exact h.groupCode_lt hp
    · rcases List.mem_append.1 hj with hj | hj
      · obtain ⟨pg, hpg, rfl⟩ := List.mem_map.1 hj
        exact ⟨h.uncoupledCode_lt 1 (hpid pg hpg).1, hcidx⟩
      · have hspare : spareSymbol n k < numSymbols n k := by
          unfold spareSymbol numSymbols
          omega
        rcases List.mem_pair.1 hj with rfl | rfl
        · refine ⟨hspare, fun u hu => ?_⟩
          obtain ⟨pg, hpg, hu⟩ := List.mem_flatMap.1 hu
          have hp := (hpid pg hpg).1
          rcases List.mem_pair.1 hu with rfl | rfl
          · exact h.uncoupledCode_lt 1 hp
          · split
            · exact codeLayout_lt Nat.one_lt_two hp
            · exact codeLayout_lt Nat.two_pos hp
        · refine ⟨hlost Nat.two_pos, fun u hu => ?_⟩
          rw [List.mem_singleton.1 hu]
          exact hspare

theorem Params.mem_decode_lt {dst : List Nat} {v : Nat}
    (hv : v ∈ (decode n k invert src dst).nodeIds) : v < numSymbols n k := by
  refine ECDAG.lt_of_mem_build (fun j hj => ?_) hv
  unfold decodeJoins at hj
  split at hj
  · unfold decodeSingle at hj
    dsimp only at hj
    split at hj
    · exact h.below_decodeMultiple invert src dst j hj
    · next hf => exact h.below_decodeSingleData invert src (Nat.lt_of_not_le hf) j hj
  · exact h.below_decodeMultiple invert src dst j hj

/-- The last virtual symbol is used for the last data node. -/
theorem Params.spare_mem_decode :
    spareSymbol n k ∈ (decode n k invert src (packets 2 (losses n {k - 1}))).nodeIds := by
  have hg := h.groups_succ
  have hgroups := h.two_le_groups
  have hk := h.data
  have hlost : losses n {k - 1} = [k - 1] := losses_singleton (by omega)
  have hnode : (nodeOf n ((packets 2 [k - 1]).getD 0 0)).getD ((packets 2 [k - 1]).getD 0 0 / 2) =
      k - 1 := by
    show (nodeOf n ((k - 1) * 2)).getD _ = _
    rw [nodeOf_eq, Nat.mul_div_cancel _ Nat.two_pos, if_pos (by omega), Option.getD_some]
  refine (ECDAG.mem_nodeIds_build _ _).2 ?_
  rw [hlost, decodeJoins, if_pos (by rw [length_packets, List.length_singleton]), decodeSingle,
    hnode, if_neg (by omega), decodeSingleData, if_neg (Nat.lt_irrefl _)]
  exact ⟨_, List.mem_cons_of_mem _ (List.mem_append_right _ List.mem_cons_self), Or.inl rfl⟩

end

end HHXORPlus

end StripeRepair

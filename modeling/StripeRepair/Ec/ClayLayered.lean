import StripeRepair.Ec.ClayJoins

/-!
# `Clay`: the order of the layered code

The planes are decoded by the number of erased nodes they name. A packet of a node that is
there and its partner of an erased node are in two planes, and the plane of the partner names
one erased node less.

* `order_matePlane`: the order of the plane of the partner.
* `order_le_hammingWeight`: each plane has its turn.
* `decodeLayered_scheduled`: what is read is there or was joined before.
-/

namespace StripeRepair

namespace Clay

variable {c : Clay}

/-! ## The order of a plane -/

theorem countP_getD (P : Nat → Bool) (l : List Nat) :
    (List.range l.length).countP (fun i => P (l.getD i 0)) = l.countP P := by
  have hmap : (List.range l.length).map (fun i => l.getD i 0) = l := by
    apply List.ext_getElem
    · simp
    · intro i h1 h2
      rw [List.getElem_map, List.getElem_range, List.getD_eq_getElem _ _ h2]
  conv_rhs => rw [← hmap, List.countP_map]
  rfl

section
variable (hq : 0 < c.q) (hkn : c.k ≤ c.n) {erased : List Nat} (hnodup : erased.Nodup)
  (hlen : erased.length = c.m) (hlt : ∀ i ∈ erased, i < c.n + c.nu)
include hq hkn hnodup hlen hlt

/-- A plane names one node of each column. -/
theorem order_eq (z : Nat) : c.order erased z =
    (List.range c.t).countP fun y => y * c.q + c.zVec z y ∈ erased := by
  have hcount : c.order erased z = erased.countP fun i => i % c.q = c.zVec z (i / c.q) := by
    unfold order
    rw [← hlen]
    exact countP_getD (fun i => i % c.q = c.zVec z (i / c.q)) erased
  have hperm : (erased.filter fun i => i % c.q = c.zVec z (i / c.q)).Perm
      (((List.range c.t).filter fun y => y * c.q + c.zVec z y ∈ erased).map
        fun y => y * c.q + c.zVec z y) := by
    refine (List.perm_ext_iff_of_nodup (hnodup.filter _) ?_).2 fun i => ?_
    · refine List.Nodup.map_on (fun a ha b hb h => ?_) (List.nodup_range.filter _)
      have ha := List.mem_range.1 (List.mem_of_mem_filter ha)
      have hb := List.mem_range.1 (List.mem_of_mem_filter hb)
      rw [← (node_xy hq a (zVec_lt ha hq z)).2, ← (node_xy hq b (zVec_lt hb hq z)).2, h]
    · simp only [List.mem_map, List.mem_filter, List.mem_range, decide_eq_true_eq]
      constructor
      · rintro ⟨hi, hv⟩
        have hnode : i / c.q * c.q + c.zVec z (i / c.q) = i := by rw [← hv, node_eq]
        exact ⟨i / c.q, ⟨div_lt hq hkn (hlt i hi), by rwa [hnode]⟩, hnode⟩
      · rintro ⟨y, ⟨hy, hm⟩, rfl⟩
        obtain ⟨h1, h2⟩ := node_xy hq y (zVec_lt hy hq z)
        exact ⟨hm, by rw [h1, h2]⟩
  rw [hcount, List.countP_eq_length_filter, List.countP_eq_length_filter, hperm.length_eq,
    List.length_map]

/-- **The plane of the partner** names the node itself in place of the partner. -/
theorem order_matePlane {i : Nat} (hi : i < c.n + c.nu) (z : Nat) :
    c.order erased (c.matePlane i z) + (if c.mate i z ∈ erased then 1 else 0) =
      c.order erased z + if i ∈ erased then 1 else 0 := by
  have hy := div_lt hq hkn hi
  have hperm : (List.range c.t).Perm (i / c.q :: (List.range c.t).erase (i / c.q)) :=
    List.perm_cons_erase (List.mem_range.2 hy)
  rw [order_eq hq hkn hnodup hlen hlt, order_eq hq hkn hnodup hlen hlt, hperm.countP_eq,
    hperm.countP_eq, List.countP_cons, List.countP_cons]
  have hself : i / c.q * c.q + c.zVec (c.matePlane i z) (i / c.q) = i := by
    rw [zVec_matePlane hq hkn hi, node_eq]
  -- the other columns keep their node
  have hrest : ((List.range c.t).erase (i / c.q)).countP
      (fun y => y * c.q + c.zVec (c.matePlane i z) y ∈ erased) =
      ((List.range c.t).erase (i / c.q)).countP fun y => y * c.q + c.zVec z y ∈ erased := by
    refine List.countP_congr fun y hmem => ?_
    obtain ⟨hne, hmem⟩ := List.nodup_range.mem_erase_iff.1 hmem
    rw [zVec_matePlane_of_ne hq hkn hi (List.mem_range.1 hmem) hne]
  rw [hrest, hself]
  show _ + (if decide (i ∈ erased) = true then 1 else 0) + _ =
    _ + (if decide (c.mate i z ∈ erased) = true then 1 else 0) + _
  simp only [decide_eq_true_eq]
  omega

/-- **Each plane has its turn.** -/
theorem order_le_hammingWeight (z : Nat) : c.order erased z ≤ c.hammingWeight erased := by
  rw [order_eq hq hkn hnodup hlen hlt, hammingWeight, weightVec, List.countP_map]
  refine List.countP_mono_left fun y hy hmem => ?_
  have hy := List.mem_range.1 hy
  have hmem := of_decide_eq_true hmem
  obtain ⟨p, hp, hget⟩ := List.getElem_of_mem hmem
  refine decide_eq_true (Nat.pos_iff_ne_zero.1 (List.count_pos_iff.2 ?_))
  refine List.mem_map.2 ⟨p, List.mem_range.2 (hlen ▸ hp), ?_⟩
  rw [List.getD_eq_getElem _ _ hp, hget]
  exact (node_xy hq y (zVec_lt hy hq z)).2

end

/-! ## What one plane joins -/

/-- The coupled packets of the nodes that are not erased. -/
def Present (c : Clay) (erased : List Nat) (v : Nat) : Prop :=
  ∃ i < c.n + c.nu, i ∉ erased ∧ ∃ z < c.w, v = c.coupledId i z

section
variable (hq : 0 < c.q) (hkn : c.k ≤ c.n) {invert : InvertMatrix8} {erased : List Nat} {i z : Nat}
include hq hkn

/-- What a node that is not erased reads: what is there, or an uncoupled packet of an erased
node in the plane of the partner. -/
theorem cidx_erasureJoins (hi : i < c.n + c.nu) (hz : z < c.w)
    {j : Join} (hj : j ∈ c.erasureJoins invert erased i z) {v : Nat} (hv : v ∈ j.cidx) :
    c.Present erased v ∨ i ∉ erased ∧ c.mate i z ∈ erased ∧
      v = c.uncoupledId (c.mate i z) (c.matePlane i z) := by
  unfold erasureJoins at hj
  split at hj
  · exact absurd hj List.not_mem_nil
  · next hno =>
    have hin : i ∉ erased := fun h => hno (Or.inl h)
    have hself : c.Present erased (c.coupledId i z) := ⟨i, hi, hin, z, hz, rfl⟩
    have hpair : c.mate i z ∉ erased → v = c.coupledId i z ∨
        v = c.coupledId (c.mate i z) (c.matePlane i z) → c.Present erased v := by
      rintro hm (rfl | rfl)
      · exact hself
      · exact ⟨_, mate_lt hq hkn hi, hm, _, matePlane_lt hq hkn hi hz, rfl⟩
    have hmixed : c.mate i z ∈ erased → v = c.coupledId i z ∨
        v = c.uncoupledId (c.mate i z) (c.matePlane i z) → c.Present erased v ∨ i ∉ erased ∧
          c.mate i z ∈ erased ∧ v = c.uncoupledId (c.mate i z) (c.matePlane i z) := by
      rintro hm (rfl | rfl)
      · exact Or.inl hself
      · exact Or.inr ⟨hin, hm, rfl⟩
    split at hj
    · split at hj
      · next hm =>
        rcases List.mem_pair.1 hj with rfl | rfl
        · exact Or.inl (hpair hm (List.mem_pair.1 hv))
        · exact Or.inl (hpair hm (List.mem_pair.1 hv))
      · next hm =>
        obtain rfl := List.mem_singleton.1 hj
        exact hmixed (not_not.1 hm) (List.mem_pair.1 hv)
    · split at hj
      · next hm =>
        obtain rfl := List.mem_singleton.1 hj
        exact hmixed hm (List.mem_pair.1 hv)
      · exact absurd hj List.not_mem_nil

/-- The uncoupled packet of a node that is not erased is joined in its plane, or in the plane
of the partner, which is before it and of the same order. -/
theorem pidx_erasureJoins (hi : i < c.n + c.nu) (hin : i ∉ erased) (hn : ¬ c.Named i z) :
    c.uncoupledId i z ∈ (c.erasureJoins invert erased i z).map Join.pidx ∨
      c.mate i z ∉ erased ∧ c.matePlane i z < z ∧ c.uncoupledId i z ∈
        (c.erasureJoins invert erased (c.mate i z) (c.matePlane i z)).map Join.pidx := by
  have hy := div_lt hq hkn hi
  unfold erasureJoins
  rw [if_neg (not_or.2 ⟨hin, hn⟩)]
  by_cases hlow : c.zVec z (i / c.q) < i % c.q
  · left
    rw [if_pos hlow]
    split
    · exact List.mem_cons_self
    · exact List.mem_cons_self
  · by_cases hm : c.mate i z ∈ erased
    · left
      rw [if_neg hlow, if_pos hm]
      exact List.mem_cons_self
    · right
      have hne : c.zVec z (i / c.q) ≠ i % c.q := hn
      have hnm : ¬ c.Named (c.mate i z) (c.matePlane i z) :=
        fun h => hn ((named_mate hq hkn hi).1 h)
      obtain ⟨hmm, hpp⟩ := mate_mate hq hkn hi (z := z)
      refine ⟨hm, (zSw_lt_self hy hq z).2 (by omega), ?_⟩
      have hup : c.zVec (c.matePlane i z) (c.mate i z / c.q) < c.mate i z % c.q := by
        rw [mate_div hq hkn hi, mate_mod hq hkn hi, zVec_matePlane hq hkn hi]
        omega
      rw [if_neg (not_or.2 ⟨hm, hnm⟩), if_pos hup, hmm, hpp, if_pos hin]
      exact List.mem_cons_of_mem _ List.mem_cons_self

theorem mem_decodeErasures (hz : z < c.w) {j : Join} :
    j ∈ c.decodeErasures invert erased z ↔
      (∃ i < c.n + c.nu, j ∈ c.erasureJoins invert erased i z) ∨
        ∃ i ∈ erased, j = c.uncoupledJoin invert erased z i := by
  rw [decodeErasures_eq hq hkn invert erased hz, List.mem_append]
  refine or_congr ?_ ?_
  · simp only [List.mem_flatMap, List.mem_range]
    constructor
    · rintro ⟨x, hx, y, hy, hj⟩
      exact ⟨_, node_lt hq hkn hx hy, hj⟩
    · rintro ⟨i, hi, hj⟩
      refine ⟨i % c.q, Nat.mod_lt _ hq, i / c.q, div_lt hq hkn hi, ?_⟩
      rwa [node_eq]
  · rw [List.mem_map]
    exact exists_congr fun i => and_congr_right fun _ => eq_comm

theorem pidx_decodeErasures (hz : z < c.w) (hie : i ∈ erased) :
    c.uncoupledId i z ∈ (c.decodeErasures invert erased z).map Join.pidx :=
  List.mem_map.2 ⟨c.uncoupledJoin invert erased z i,
    (mem_decodeErasures hq hkn hz).2 (Or.inr ⟨i, hie, rfl⟩), rfl⟩

/-- What follows for an erased node reads what is there and uncoupled packets of erased nodes in
planes of the same order. -/
theorem cidx_layeredJoins (hi : i < c.n + c.nu) (hz : z < c.w)
    {j : Join} (hj : j ∈ c.layeredJoins invert erased i z) {v : Nat} (hv : v ∈ j.cidx) :
    c.Present erased v ∨ v = c.uncoupledId i z ∨
      c.mate i z ∈ erased ∧ v = c.uncoupledId (c.mate i z) (c.matePlane i z) := by
  unfold layeredJoins at hj
  split at hj
  · exact absurd hj List.not_mem_nil
  · split at hj
    · next hm =>
      have hpresent : c.Present erased (c.coupledId (c.mate i z) (c.matePlane i z)) :=
        ⟨_, mate_lt hq hkn hi, hm, _, matePlane_lt hq hkn hi hz, rfl⟩
      have hpair : v = c.coupledId (c.mate i z) (c.matePlane i z) ∨ v = c.uncoupledId i z := by
        split at hj <;> obtain rfl := List.mem_singleton.1 hj
        · exact List.mem_pair.1 hv
        · exact List.mem_pair.1 hv
      rcases hpair with rfl | rfl
      · exact Or.inl hpresent
      · exact Or.inr (Or.inl rfl)
    · next hm =>
      refine Or.inr ?_
      split at hj
      · rcases List.mem_pair.1 hj with rfl | rfl
        · exact (List.mem_pair.1 hv).imp_right fun h => ⟨not_not.1 hm, h⟩
        · exact (List.mem_pair.1 hv).imp_right fun h => ⟨not_not.1 hm, h⟩
      · exact absurd hj List.not_mem_nil

/-- The coupled packet of an erased node is joined in its plane, or in the plane of the partner
when that is erased too. -/
theorem pidx_layeredJoins (hi : i < c.n + c.nu) (hie : i ∈ erased) (hn : ¬ c.Named i z) :
    c.coupledId i z ∈ (c.layeredJoins invert erased i z).map Join.pidx ∨
      c.mate i z ∈ erased ∧ c.coupledId i z ∈
        (c.layeredJoins invert erased (c.mate i z) (c.matePlane i z)).map Join.pidx := by
  unfold layeredJoins
  rw [if_neg hn]
  by_cases hm : c.mate i z ∈ erased
  · by_cases hlow : c.zVec z (i / c.q) < i % c.q
    · left
      rw [if_neg (not_not.2 hm), if_pos hlow]
      exact List.mem_cons_self
    · right
      have hne : c.zVec z (i / c.q) ≠ i % c.q := hn
      have hnm : ¬ c.Named (c.mate i z) (c.matePlane i z) :=
        fun h => hn ((named_mate hq hkn hi).1 h)
      obtain ⟨hmm, hpp⟩ := mate_mate hq hkn hi (z := z)
      have hup : c.zVec (c.matePlane i z) (c.mate i z / c.q) < c.mate i z % c.q := by
        rw [mate_div hq hkn hi, mate_mod hq hkn hi, zVec_matePlane hq hkn hi]
        omega
      rw [if_neg hnm, hmm, hpp, if_neg (not_not.2 hie), if_pos hup]
      exact ⟨hm, List.mem_cons_of_mem _ List.mem_cons_self⟩
  · left
    rw [if_pos hm]
    split
    · exact List.mem_cons_self
    · exact List.mem_cons_self

end

/-! ## All planes -/

/-- In an ascending list what is smaller comes before. -/
theorem mem_left_of_lt {l l₁ l₂ : List Nat} {a b : Nat} (hl : l.Pairwise (· < ·))
    (hsplit : l = l₁ ++ a :: l₂) (hb : b ∈ l) (hlt : b < a) : b ∈ l₁ := by
  subst hsplit
  rcases List.mem_append.1 hb with hb | hb
  · exact hb
  · have hpair := (List.pairwise_append.1 hl).2.1
    rcases List.mem_cons.1 hb with rfl | hb
    · omega
    · have := List.rel_of_pairwise_cons hpair hb
      omega

section
variable (hq : 0 < c.q) (hkn : c.k ≤ c.n) (invert : InvertMatrix8) {erased : List Nat}
  (hnodup : erased.Nodup) (hlen : erased.length = c.m) (hlt : ∀ i ∈ erased, i < c.n + c.nu)

/-- What is known when the planes of order `s` come: what is there, and the uncoupled packets of
the erased nodes in the planes before. -/
def KnownBefore (c : Clay) (erased : List Nat) (s v : Nat) : Prop :=
  c.Present erased v ∨
    ∃ z < c.w, c.order erased z < s ∧ ∃ i ∈ erased, v = c.uncoupledId i z

/-- The planes of one order, as the loop meets them. -/
def planesOf (c : Clay) (erased : List Nat) (s : Nat) : List Nat :=
  (List.range c.subChunkNo).filter fun z => c.order erased z = s

theorem mem_planesOf {s z : Nat} : z ∈ c.planesOf erased s ↔ z < c.w ∧ c.order erased z = s := by
  rw [planesOf, List.mem_filter, List.mem_range, decide_eq_true_iff]
  rfl

theorem planesOf_pairwise (s : Nat) : (c.planesOf erased s).Pairwise (· < ·) :=
  List.pairwise_lt_range.filter _

include hq hkn hnodup hlen hlt

/-- **The planes of one order**: each reads what is known and what the planes before it join. -/
theorem ordered_planes (s : Nat) : JoinsOrdered (c.KnownBefore erased s)
    ((c.planesOf erased s).flatMap fun z => c.decodeErasures invert erased z) := by
  refine LinearProgram.ordered_flatMap_of fun l₁ z l₂ hsplit => ?_
  obtain ⟨hz, hs⟩ := mem_planesOf.1 (hsplit ▸ List.mem_append_right l₁ List.mem_cons_self)
  have horder := @order_matePlane c hq hkn erased hnodup hlen hlt
  rw [decodeErasures_eq hq hkn invert erased hz]
  refine LinearProgram.ordered_append_of (LinearProgram.ordered_of_forall fun j hj v hv => ?_)
    (fun v hv => hv) (LinearProgram.ordered_of_forall fun j hj v hv => ?_)
  · obtain ⟨x, hx, hj⟩ := List.mem_flatMap.1 hj
    obtain ⟨y, hy, hj⟩ := List.mem_flatMap.1 hj
    have hi := node_lt hq hkn (List.mem_range.1 hx) (List.mem_range.1 hy)
    generalize y * c.q + x = i at hi hj
    refine Or.inl ?_
    rcases cidx_erasureJoins hq hkn hi hz hj hv with hv | ⟨hin, hm, hv⟩
    · exact Or.inl hv
    · -- the partner is erased: its plane is of the order before
      have h := horder hi z
      rw [if_pos hm, if_neg hin] at h
      exact Or.inr ⟨_, matePlane_lt hq hkn hi hz, by omega, _, hm, hv⟩
  · obtain ⟨e, -, rfl⟩ := List.mem_map.1 hj
    obtain ⟨i, hsel, rfl⟩ := List.mem_map.1 hv
    rw [selectLines_eq hkn hnodup hlen hlt] at hsel
    obtain ⟨hi, hin⟩ := List.mem_filter.1 hsel
    have hi := List.mem_range.1 hi
    have hin := of_decide_eq_true hin
    by_cases hn : c.Named i z
    · rw [uncoupledId_of_named hq hkn hi hz hn]
      exact Or.inl (Or.inl (Or.inl ⟨i, hi, hin, z, hz, rfl⟩))
    · rcases pidx_erasureJoins hq hkn hi hin hn with hp | ⟨hm, hlow, hp⟩
      · obtain ⟨j', hj', hp⟩ := List.mem_map.1 hp
        refine Or.inr (List.mem_map.2 ⟨j', ?_, hp⟩)
        refine List.mem_flatMap.2 ⟨i % c.q, List.mem_range.2 (Nat.mod_lt _ hq),
          List.mem_flatMap.2 ⟨i / c.q, List.mem_range.2 (div_lt hq hkn hi), ?_⟩⟩
        rwa [node_eq]
      · -- neither is erased: the plane of the partner is of the same order and before this one
        have h := horder hi z
        rw [if_neg hm, if_neg hin] at h
        have hplane := matePlane_lt hq hkn hi hz
        have hbefore : c.matePlane i z ∈ l₁ :=
          mem_left_of_lt (planesOf_pairwise s) hsplit
            (mem_planesOf.2 ⟨hplane, by omega⟩) hlow
        obtain ⟨j', hj', hp⟩ := List.mem_map.1 hp
        exact Or.inl (Or.inr ⟨_, hbefore, List.mem_map.2 ⟨j',
          (mem_decodeErasures hq hkn hplane).2 (Or.inl ⟨_, mate_lt hq hkn hi, hj'⟩), hp⟩⟩)

omit hnodup in
/-- `decode_layered`, order by order. -/
theorem decodeLayered_eq : c.decodeLayered invert erased =
    (List.range (c.hammingWeight erased + 1)).flatMap fun s =>
      ((c.planesOf erased s).flatMap fun z => c.decodeErasures invert erased z) ++
      (c.planesOf erased s).flatMap fun z =>
        erased.flatMap fun i => c.layeredJoins invert erased i z := by
  unfold decodeLayered planesInOrder
  refine List.flatMap_congr fun s _ => congrArg (_ ++ ·) ?_
  refine List.flatMap_congr fun z hz => List.flatMap_congr fun i hi => ?_
  exact coupledLayered_eq hq hkn invert erased hlen (hlt i hi) (mem_planesOf.1 hz).1

/-- All packets of the erased nodes are joined. -/
theorem pidx_decodeLayered {i z : Nat} (hie : i ∈ erased) (hz : z < c.w) :
    c.coupledId i z ∈ (c.decodeLayered invert erased).map Join.pidx := by
  rw [decodeLayered_eq hq hkn invert hlen hlt]
  have hpart : ∀ z' < c.w, ∀ v, v ∈ (c.decodeErasures invert erased z').map Join.pidx ∨
      v ∈ (erased.flatMap fun i => c.layeredJoins invert erased i z').map Join.pidx →
      v ∈ ((List.range (c.hammingWeight erased + 1)).flatMap fun s =>
        ((c.planesOf erased s).flatMap fun z => c.decodeErasures invert erased z) ++
        (c.planesOf erased s).flatMap fun z =>
          erased.flatMap fun i => c.layeredJoins invert erased i z).map Join.pidx := by
    intro z' hz' v hv
    rw [List.map_flatMap]
    refine List.mem_flatMap.2 ⟨c.order erased z', List.mem_range.2 (Nat.lt_succ_of_le
      (order_le_hammingWeight hq hkn hnodup hlen hlt z')), ?_⟩
    have hmem : z' ∈ c.planesOf erased (c.order erased z') := mem_planesOf.2 ⟨hz', rfl⟩
    rw [List.map_append, List.map_flatMap, List.map_flatMap]
    rcases hv with hv | hv
    · exact List.mem_append_left _ (List.mem_flatMap.2 ⟨z', hmem, hv⟩)
    · exact List.mem_append_right _ (List.mem_flatMap.2 ⟨z', hmem, hv⟩)
  have hi := hlt i hie
  by_cases hn : c.Named i z
  · rw [← uncoupledId_of_named hq hkn hi hz hn]
    exact hpart z hz _ (Or.inl (pidx_decodeErasures hq hkn hz hie))
  · rcases pidx_layeredJoins hq hkn hi hie hn with hp | ⟨hm, hp⟩
    · refine hpart z hz _ (Or.inr ?_)
      rw [List.map_flatMap]
      exact List.mem_flatMap.2 ⟨i, hie, hp⟩
    · refine hpart _ (matePlane_lt hq hkn hi hz) _ (Or.inr ?_)
      rw [List.map_flatMap]
      exact List.mem_flatMap.2 ⟨_, hm, hp⟩

/-- **No packet is read before it is joined.** -/
theorem ordered_decodeLayered :
    JoinsOrdered (c.Present erased) (c.decodeLayered invert erased) := by
  have horder := @order_matePlane c hq hkn erased hnodup hlen hlt
  rw [decodeLayered_eq hq hkn invert hlen hlt]
  refine LinearProgram.ordered_flatMap_of fun l₁ s l₂ hsplit => ?_
  refine LinearProgram.ordered_append_of
    ((ordered_planes hq hkn invert hnodup hlen hlt s).mono fun v hv => ?_) (fun v hv => hv)
    (LinearProgram.ordered_of_forall fun j hj v hv => ?_)
  · rcases hv with hv | ⟨z, hz, hs, i, hi, rfl⟩
    · exact Or.inl hv
    · have hs' : c.order erased z ∈ List.range (c.hammingWeight erased + 1) :=
        List.mem_range.2 (Nat.lt_succ_of_le (order_le_hammingWeight hq hkn hnodup hlen hlt z))
      refine Or.inr ⟨_, mem_left_of_lt List.pairwise_lt_range hsplit hs' hs, ?_⟩
      rw [List.map_append, List.map_flatMap]
      exact List.mem_append_left _ (List.mem_flatMap.2
        ⟨z, mem_planesOf.2 ⟨hz, rfl⟩, pidx_decodeErasures hq hkn hz hi⟩)
  · obtain ⟨z, hplane, hj⟩ := List.mem_flatMap.1 hj
    obtain ⟨i, hie, hj⟩ := List.mem_flatMap.1 hj
    obtain ⟨hz, hs⟩ := mem_planesOf.1 hplane
    rw [List.map_flatMap]
    rcases cidx_layeredJoins hq hkn (hlt i hie) hz hj hv with hv | rfl | ⟨hm, rfl⟩
    · exact Or.inl (Or.inl hv)
    · exact Or.inr (List.mem_flatMap.2 ⟨z, hplane, pidx_decodeErasures hq hkn hz hie⟩)
    · -- both are erased: the two planes are of one order
      have h := horder (hlt i hie) z
      rw [if_pos hm, if_pos hie] at h
      have hz' := matePlane_lt hq hkn (hlt i hie) hz
      exact Or.inr (List.mem_flatMap.2 ⟨_, mem_planesOf.2 ⟨hz', by omega⟩,
        pidx_decodeErasures hq hkn hz' hm⟩)

/-- **The layered code is well scheduled**: each packet that is read is a coupled packet of a
node that is not erased or was joined before, and all packets of the erased nodes are joined. -/
theorem decodeLayered_scheduled : JoinsOrdered (c.Present erased) (c.decodeLayered invert erased) ∧
    ∀ i ∈ erased, ∀ z < c.w,
      c.coupledId i z ∈ (c.decodeLayered invert erased).map Join.pidx :=
  ⟨ordered_decodeLayered hq hkn invert hnodup hlen hlt,
    fun _ hie _ hz => pidx_decodeLayered hq hkn invert hnodup hlen hlt hie hz⟩

end

/-- Two of four nodes, in different columns. -/
theorem decodeLayered_scheduled_four :
    (⟨4, 2, 3⟩ : Clay).coupledId 3 1 ∈
      ((⟨4, 2, 3⟩ : Clay).decodeLayered (fun _ A => A) [0, 3]).map Join.pidx :=
  (@decodeLayered_scheduled ⟨4, 2, 3⟩ (by decide) (by decide) (fun _ A => A) [0, 3] (by decide)
    (by decide) (by decide)).2 3 (by decide) 1 (by decide)

end Clay

end StripeRepair

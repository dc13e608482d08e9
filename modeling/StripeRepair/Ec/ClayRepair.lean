import StripeRepair.Ec.ClayColumn
import StripeRepair.Ec.FailureSet

/-!
# `Clay`: Decode of one lost node

* `repairJoins_eq`, `decodeJoins_layered`: the two ways to decode, for any lost nodes.
* `isRepair_singleton`: when the lost node is repaired from parts of the others.
* `mem_minimumToRepair`: then every other node is read.
* `decodeJoins_singleton`: the `Join`s of the repair.
* `optimalRead_iff`: exactly then no more is read than the planes of the lost node.
-/

namespace StripeRepair

namespace Clay

/-- The codes with `d = n - 1`. -/
structure AllHelpers (c : Clay) : Prop where
  k_pos : 1 ≤ c.k
  k_lt : c.k < c.n
  d_eq : c.d = c.n - 1

section
variable {c : Clay}

theorem AllHelpers.q_eq (hc : c.AllHelpers) : c.q = c.n - c.k := by
  have h1 := hc.k_lt
  have h2 := hc.d_eq
  unfold q
  omega

theorem AllHelpers.q_pos (hc : c.AllHelpers) : 0 < c.q := by
  have h1 := hc.k_lt
  rw [hc.q_eq]
  omega

theorem AllHelpers.k_le (hc : c.AllHelpers) : c.k ≤ c.n := hc.k_lt.le

theorem AllHelpers.m_eq (hc : c.AllHelpers) : c.m = c.q := by
  rw [hc.q_eq]
  rfl

theorem AllHelpers.k_add_m (hc : c.AllHelpers) : c.k + c.m = c.n := Clay.k_add_m hc.k_le

/-- There are fewer virtual nodes than a column has. -/
theorem AllHelpers.nu_lt (hc : c.AllHelpers) : c.nu < c.q := by
  have hq := hc.q_pos
  unfold nu
  split <;> omega

/-- The parity nodes are the last column. -/
theorem AllHelpers.dvd_data (hc : c.AllHelpers) : c.q ∣ c.k + c.nu := by
  have hgrid := grid hc.q_pos hc.k_le
  have h1 := hc.k_lt
  have hq := hc.q_eq
  have hsum : c.q * c.t = c.k + c.nu + c.q := by omega
  exact (Nat.dvd_add_left (dvd_refl c.q)).1 ⟨c.t, hsum.symm⟩

theorem AllHelpers.q_le_data (hc : c.AllHelpers) : c.q ≤ c.k + c.nu := by
  have h := hc.k_pos
  exact Nat.le_of_dvd (by omega) hc.dvd_data

/-- When the first column holds all data nodes. -/
theorem AllHelpers.nu_eq_of_lt (hc : c.AllHelpers) (h : c.k < c.q) : c.nu = c.q - c.k := by
  have h1 := hc.k_pos
  obtain ⟨a, ha⟩ := hc.dvd_data
  have hnu := hc.nu_lt
  have hone : a = 1 := by
    rcases Nat.lt_trichotomy a 1 with h0 | h0 | h0
    · obtain rfl : a = 0 := by omega
      omega
    · exact h0
    · have hmul := Nat.mul_le_mul_left c.q h0
      rw [Nat.succ_eq_add_one] at hmul
      omega
  rw [hone, Nat.mul_one] at ha
  omega

end

/-! ## The packets that are lost -/

section
variable {c : Clay} (hq : 0 < c.q)
include hq

theorem getD_packets (L : List Nat) {i : Nat} (hi : i < L.length) :
    (packets c.w L).getD (i * c.w) 0 = L.getD i 0 * c.w := by
  have hw := w_pos hq
  induction L generalizing i with
  | nil => exact absurd hi (Nat.not_lt_zero _)
  | cons b L ih =>
    have hblock : ((List.range c.w).map fun offset => b * c.w + offset).length = c.w := by
      rw [List.length_map, List.length_range]
    show List.getD (_ ++ packets c.w L) _ _ = _
    cases i with
    | zero =>
      rw [Nat.zero_mul, List.getD_append _ _ _ _ (by rw [hblock]; exact hw),
        List.getD_eq_getElem _ _ (by rw [hblock]; exact hw), List.getElem_map, List.getElem_range]
      rfl
    | succ i =>
      rw [List.getD_append_right _ _ _ _ (by rw [hblock, Nat.succ_mul]; omega), hblock,
        Nat.succ_mul, Nat.add_sub_cancel, ih (by simpa using hi)]
      rfl

/-- **The lost nodes** are read off their packets. -/
theorem wantToRead_packets (L : List Nat) : c.wantToRead (packets c.w L) = L := by
  have hw := w_pos hq
  have hlen : ((packets c.w L).length + c.w - 1) / c.w = L.length := by
    rw [length_packets, Nat.add_sub_assoc hw, Nat.mul_comm, Nat.mul_add_div hw,
      Nat.div_eq_of_lt (by omega), Nat.add_zero]
  unfold wantToRead
  rw [hlen]
  refine List.ext_getElem (by simp) fun i h1 h2 => ?_
  rw [List.getElem_map, List.getElem_range, getD_packets hq L h2, Nat.mul_div_cancel _ hw,
    List.getD_eq_getElem _ _ h2]

end

/-! ## The two ways to decode -/

/-- The short numbers of the lost nodes. -/
def lostNodes (c : Clay) (want : List Nat) : List Nat :=
  ((List.range c.n).filter (· ∈ want)).map c.shortNode

/-- The short numbers of the other nodes, with the virtual ones. -/
def otherNodes (c : Clay) (want : List Nat) : List Nat :=
  ((List.range c.n).filter (· ∉ want)).map c.shortNode ++ List.range' c.k c.nu

/-- The short numbers of the nodes that are not among the first `k` available ones. -/
def unusedNodes (c : Clay) (want : List Nat) : List Nat :=
  ((List.range c.n).filter (· ∉ (c.availNodes want).take c.k)).map c.shortNode

theorem shortNode_inj {c : Clay} {i i' : Nat} (h : c.shortNode i = c.shortNode i') : i = i' := by
  rw [← realNode_shortNode (c := c) i, h, realNode_shortNode]

theorem mem_map_shortNode {c : Clay} {l : List Nat} {i : Nat} :
    c.shortNode i ∈ l.map c.shortNode ↔ i ∈ l := by
  constructor
  · intro h
    obtain ⟨i', hi', he⟩ := List.mem_map.1 h
    exact shortNode_inj he ▸ hi'
  · exact fun h => List.mem_map_of_mem h

section
variable {c : Clay} {want : List Nat}

theorem mem_lostNodes {i : Nat} (hi : i < c.n) : c.shortNode i ∈ c.lostNodes want ↔ i ∈ want := by
  rw [lostNodes, mem_map_shortNode, List.mem_filter, List.mem_range, decide_eq_true_eq]
  exact ⟨fun h => h.2, fun h => ⟨hi, h⟩⟩

theorem pairwise_lostNodes (c : Clay) (want : List Nat) :
    (c.lostNodes want).Pairwise (· < ·) := by
  refine (List.pairwise_map.2 ?_)
  refine (List.pairwise_lt_range.filter _).imp fun {i i'} hlt => ?_
  unfold shortNode
  split <;> split <;> omega

theorem oneColumn_lostNodes (hne : want ≠ []) (hlt : ∀ i ∈ want, i < c.n) {y : Nat}
    (hy : ∀ i ∈ want, c.shortNode i / c.q = y) : c.OneColumn (c.lostNodes want) y := by
  have hmem : ∀ f ∈ c.lostNodes want, ∃ i ∈ want, c.shortNode i = f := by
    intro f hf
    obtain ⟨i, hi, rfl⟩ := List.mem_map.1 hf
    exact ⟨i, of_decide_eq_true (List.mem_filter.1 hi).2, rfl⟩
  refine ⟨?_, (pairwise_lostNodes c want).imp fun h => h.ne, fun f hf => ?_, fun f hf => ?_⟩
  · obtain ⟨i, hi⟩ := List.exists_mem_of_ne_nil _ hne
    exact List.ne_nil_of_mem ((mem_lostNodes (hlt i hi)).2 hi)
  · obtain ⟨i, hi, rfl⟩ := hmem f hf
    exact shortNode_lt (hlt i hi)
  · obtain ⟨i, hi, rfl⟩ := hmem f hf
    exact hy i hi

theorem mem_otherNodes (hkn : c.k ≤ c.n) {i : Nat} (hi : i < c.n + c.nu) :
    i ∈ c.otherNodes want ↔ i ∉ c.lostNodes want := by
  rw [otherNodes, List.mem_append, List.mem_map, List.mem_range'_1]
  constructor
  · rintro (⟨r, hr, rfl⟩ | ⟨h1, h2⟩)
    · rw [List.mem_filter, List.mem_range, decide_eq_true_eq] at hr
      rw [mem_lostNodes hr.1]
      exact hr.2
    · intro hm
      obtain ⟨r, -, rfl⟩ := List.mem_map.1 hm
      unfold shortNode at h1 h2
      split at h1 <;> split at h2 <;> omega
  · intro hnot
    by_cases hvirtual : c.k ≤ i ∧ i < c.k + c.nu
    · exact Or.inr hvirtual
    · have hreal := (realNode_lt_iff hkn hi).2 (by omega)
      have hshort := shortNode_realNode hkn hi hreal
      refine Or.inl ⟨c.realNode i, ?_, hshort⟩
      rw [List.mem_filter, List.mem_range, decide_eq_true_eq]
      refine ⟨hreal, fun hm => hnot ?_⟩
      rw [← hshort]
      exact (mem_lostNodes hreal).2 hm

theorem length_otherNodes (c : Clay) (want : List Nat) :
    (c.otherNodes want).length + (c.lostNodes want).length = c.n + c.nu := by
  have hsplit := List.length_eq_length_filter_add (l := List.range c.n) (· ∈ want)
  have hnot : (List.range c.n).filter (fun v => !decide (v ∈ want)) =
      (List.range c.n).filter (· ∉ want) := List.filter_congr fun v _ => by rw [decide_not]
  rw [List.length_range, hnot] at hsplit
  rw [otherNodes, lostNodes, List.length_append, List.length_map, List.length_map,
    List.length_range']
  omega

end

section
variable {c : Clay} (hkn : c.k ≤ c.n) {want : List Nat}
include hkn

theorem availNodes_eq (want : List Nat) :
    c.availNodes want = (List.range (c.n + c.nu)).filter (· ∉ want) := by
  have h := k_add_m hkn
  unfold availNodes
  rw [show c.k + c.nu + c.m = c.n + c.nu by omega]

/-- **The repair of one column**, when all other nodes are read. -/
theorem repairJoins_eq (hq : 0 < c.q) (invert : InvertMatrix8) {chunks : List Nat} {y : Nat}
    (hF : c.OneColumn (c.lostNodes want) y) (hall : ∀ i < c.n, i ∉ want → i ∈ chunks) :
    c.repairJoins invert want chunks = some ((c.lostPlanes (c.lostNodes want)).flatMap
      (c.planeJoins invert y (c.otherNodes want))) := by
  have hhelper : ((List.range c.n).filter fun i => i ∈ chunks ∧ i ∉ want) =
      (List.range c.n).filter (· ∉ want) := by
    refine List.filter_congr fun i hi => ?_
    rw [decide_eq_decide]
    exact ⟨fun h => h.2, fun h => ⟨hall i (List.mem_range.1 hi) h, h⟩⟩
  have haloof : ((List.range c.n).filter fun i => i ∉ chunks ∧ i ∉ want) = [] := by
    rw [List.filter_eq_nil_iff]
    intro i hi
    rw [decide_eq_true_eq]
    exact fun h => h.1 (hall i (List.mem_range.1 hi) h.2)
  have hlen := length_otherNodes c want
  unfold repairJoins
  rw [k_add_m hkn]
  simp only [hhelper, haloof, List.map_nil, List.length_nil, Nat.add_zero]
  rw [grid hq hkn]
  exact (if_pos hlen).trans (hF.repairOneLostChunk_eq hq hkn
    (fun i hi => mem_otherNodes hkn hi) invert)

section
variable (hnodup : want.Nodup) (hlt : ∀ i ∈ want, i < c.n) (hlen : want.length ≤ c.n - c.k)
include hnodup hlt hlen

/-- The first `k` available nodes are no virtual nodes. -/
theorem take_availNodes :
    (c.availNodes want).take c.k = ((List.range c.n).filter (· ∉ want)).take c.k := by
  have hcount := length_filter_not_mem hnodup hlt
  rw [availNodes_eq hkn, List.range_add, List.filter_append, List.take_append_of_le_length]
  omega

theorem length_unusedNodes : (c.unusedNodes want).length = c.m := by
  have htake := take_availNodes hkn hnodup hlt hlen
  have hcount := length_filter_not_mem hnodup hlt
  have hlines : ((c.availNodes want).take c.k).length = c.k := by
    rw [htake, List.length_take]
    omega
  have hsub : ((c.availNodes want).take c.k).Nodup := by
    rw [htake]
    exact (List.nodup_range.filter _).sublist (List.take_sublist _ _)
  have hbelow : ∀ i ∈ (c.availNodes want).take c.k, i < c.n := by
    intro i hi
    rw [htake] at hi
    exact List.mem_range.1 (List.mem_of_mem_filter (List.mem_of_mem_take hi))
  have hrest := length_filter_not_mem hsub hbelow
  rw [unusedNodes, List.length_map, m]
  omega

omit hnodup hlt hlen hkn in
theorem nodup_unusedNodes (c : Clay) (want : List Nat) : (c.unusedNodes want).Nodup :=
  List.Nodup.map_on (fun _ _ _ _ he => shortNode_inj he) (List.nodup_range.filter _)

omit hnodup hlt hlen hkn in
theorem unusedNodes_lt (c : Clay) (want : List Nat) : ∀ i ∈ c.unusedNodes want, i < c.n + c.nu := by
  intro i hi
  obtain ⟨r, hr, rfl⟩ := List.mem_map.1 hi
  exact shortNode_lt (List.mem_range.1 (List.mem_filter.1 hr).1)

omit hnodup hlen in
/-- The lost nodes are among them. -/
theorem mem_unusedNodes {i : Nat} (hi : i ∈ want) :
    c.shortNode i ∈ c.unusedNodes want := by
  rw [unusedNodes, mem_map_shortNode, List.mem_filter, List.mem_range, decide_eq_true_eq]
  refine ⟨hlt i hi, fun hm => ?_⟩
  have hm := List.mem_of_mem_take hm
  rw [availNodes_eq hkn] at hm
  exact of_decide_eq_true (List.mem_filter.1 hm).2 hi

/-- **Otherwise whole nodes are decoded.** -/
theorem decodeJoins_layered (hq : 0 < c.q) (invert : InvertMatrix8) (hne : want ≠ [])
    (hr : ¬ c.isRepair want (c.availNodes want) = true) :
    c.decodeJoins invert (packets c.w want) =
      some (c.decodeLayered invert (c.unusedNodes want)) := by
  obtain ⟨f, hf⟩ := List.exists_mem_of_ne_nil _ hne
  have hnot : ¬ want ⊆ c.availNodes want := by
    intro h
    have hm := h hf
    rw [availNodes_eq hkn, List.mem_filter, decide_eq_true_eq] at hm
    exact hm.2 hf
  have hnot' : ¬ want ⊆ (c.availNodes want).take c.k :=
    fun h => hnot fun v hv => List.mem_of_mem_take (h hv)
  have hm := length_unusedNodes hkn hnodup hlt hlen
  unfold decodeJoins
  rw [wantToRead_packets hq, if_neg hr]
  unfold rsMinimumToDecode rsDecode
  rw [if_neg hnot, if_neg hnot', k_add_m hkn]
  exact if_pos ⟨List.length_pos_of_mem (mem_unusedNodes hkn hlt hf), hm⟩

end

end

/-! ## How it is repaired -/

section
variable {c : Clay} (hc : c.AllHelpers) {f : Nat} (hf : f < c.n)
include hc

theorem AllHelpers.availNodes_singleton (f : Nat) :
    c.availNodes [f] = (List.range (c.n + c.nu)).filter (· ≠ f) := by
  rw [availNodes_eq hc.k_le]
  refine List.filter_congr fun i _ => ?_
  rw [decide_eq_decide, List.mem_singleton]

include hf

omit hc hf in
theorem length_filter_ne {f N : Nat} (hN : f < N) :
    ((List.range N).filter (· ≠ f)).length = N - 1 := by
  have hne : (List.range N).filter (· ≠ f) = (List.range N).erase f := by
    rw [List.nodup_range.erase_eq_filter]
    refine List.filter_congr fun i _ => ?_
    rw [Bool.eq_iff_iff, decide_eq_true_eq, bne_iff_ne]
  rw [hne, List.length_erase_of_mem (List.mem_range.2 hN), List.length_range]

/-- **When the lost node is repaired from parts of the others**: not when it is a data node
and the virtual nodes of its column are more than the data nodes. -/
theorem AllHelpers.isRepair_singleton :
    c.isRepair [f] (c.availNodes [f]) = true ↔ ¬ (f < c.k ∧ 3 * c.k < c.n) := by
  have hk := hc.k_pos
  have hkn := hc.k_lt
  have hqe := hc.q_eq
  have hq := hc.q_pos
  have hnu := hc.nu_lt
  have hd := hc.d_eq
  have hdata := hc.q_le_data
  have hlen : c.d ≤ ((List.range (c.n + c.nu)).filter (· ≠ f)).length := by
    rw [length_filter_ne (by omega)]
    omega
  have havail : ∀ node : Int, node ∈ ((List.range (c.n + c.nu)).filter (· ≠ f)).map Int.ofNat ↔
      0 ≤ node ∧ node < c.n + c.nu ∧ node ≠ f := by
    intro node
    simp only [List.mem_map, List.mem_filter, List.mem_range, decide_eq_true_eq]
    constructor
    · rintro ⟨i, ⟨h1, h2⟩, rfl⟩
      simp only [Int.ofNat_eq_natCast]
      omega
    · rintro ⟨h1, h2, h3⟩
      exact ⟨node.toNat, by omega, by simp only [Int.ofNat_eq_natCast]; omega⟩
  rw [hc.availNodes_singleton]
  simp only [isRepair, decide_eq_true_eq, and_iff_left hlen, havail]
  constructor
  · rintro h ⟨hfk, h3⟩
    have hzero : c.shortNode f / c.q = 0 := by
      rw [shortNode, if_pos hfk, Nat.div_eq_of_lt (by omega)]
    have hnode := h c.k (by omega)
    rw [hzero, Nat.zero_mul, Nat.zero_add, if_neg (by omega)] at hnode
    have hnueq := hc.nu_eq_of_lt (by omega)
    have h0 := (hnode (by omega)).1
    omega
  · intro hno x hx
    have hs := shortNode_lt (c := c) hf
    have hlt := node_lt hq hc.k_le hx (div_lt hq hc.k_le hs)
    generalize hnode : c.shortNode f / c.q * c.q + x = node at hlt ⊢
    split
    · intro hne
      omega
    · next hge =>
      intro hne
      refine ⟨?_, by omega, hne⟩
      by_contra hneg
      -- a virtual node below `_nu` is in the first column
      have hcol : c.shortNode f / c.q = 0 := by
        rcases Nat.eq_zero_or_pos (c.shortNode f / c.q) with h0 | h0
        · exact h0
        · have hmul := Nat.mul_le_mul_right c.q h0
          rw [Nat.succ_eq_add_one] at hmul
          omega
      have hfirst : c.shortNode f < c.q := (Nat.div_eq_zero_iff_lt hq).1 hcol
      have hnueq := hc.nu_eq_of_lt (by omega)
      refine hno ⟨?_, by omega⟩
      by_contra hfk
      rw [shortNode, if_neg hfk] at hfirst
      omega

/-! ### The nodes that are read -/

omit hf hc in
/-- The loop of `minimum_to_repair` over the available nodes takes all of `T` when there is
room for all of `T`. -/
theorem foldl_fill {T : List Nat} {l M : List Nat} (hl : l ⊆ T) (hM : M.Nodup)
    (hsub : M ⊆ T) :
    let R := l.foldl (fun minimum chunk =>
      if T.length ≤ minimum.length ∨ chunk ∈ minimum then minimum else minimum ++ [chunk]) M
    R.Nodup ∧ R ⊆ T ∧ M ⊆ R ∧ l ⊆ R := by
  induction l generalizing M with
  | nil => exact ⟨hM, hsub, fun v hv => hv, fun v hv => absurd hv List.not_mem_nil⟩
  | cons a l ih =>
    have hl' : l ⊆ T := fun v hv => hl (List.mem_cons_of_mem _ hv)
    have ha : a ∈ T := hl (List.mem_cons_self ..)
    rw [List.foldl_cons]
    split
    · next hskip =>
      have hin : a ∈ M := by
        rcases hskip with h | h
        · exact ((List.subperm_of_subset hM hsub).perm_of_length_le h).mem_iff.2 ha
        · exact h
      obtain ⟨h1, h2, h3, h4⟩ := ih hl' hM hsub
      exact ⟨h1, h2, h3, List.cons_subset.2 ⟨h3 hin, h4⟩⟩
    · next hadd =>
      rw [not_or] at hadd
      obtain ⟨h1, h2, h3, h4⟩ := ih hl' (M := M ++ [a])
        (List.nodup_append.2 ⟨hM, List.nodup_singleton a, fun v hv w hw => by
          rw [List.mem_singleton.1 hw]
          rintro rfl
          exact hadd.2 hv⟩)
        (List.append_subset.2 ⟨hsub, fun v hv => List.mem_singleton.1 hv ▸ ha⟩)
      refine ⟨h1, h2, fun v hv => h3 (List.mem_append_left _ hv), ?_⟩
      exact List.cons_subset.2 ⟨h3 (List.mem_append_right _ (List.mem_singleton_self a)), h4⟩

omit hf hc in
/-- When there is no more room, nothing is taken. -/
theorem foldl_full {d : Nat} (l M : List Nat) (hM : d ≤ M.length) :
    l.foldl (fun minimum chunk =>
      if d ≤ minimum.length ∨ chunk ∈ minimum then minimum else minimum ++ [chunk]) M = M := by
  induction l with
  | nil => rfl
  | cons a l ih => rw [List.foldl_cons, if_pos (Or.inl hM), ih]

omit hf hc in
/-- The nodes of the column that are no virtual nodes, as `minimum_to_repair` collects them. -/
def columnNodes (c : Clay) (f : Nat) : List Nat :=
  ((List.range c.q).filter (· ≠ c.shortNode f % c.q)).filterMap fun j =>
    let node := c.shortNode f / c.q * c.q + j
    if node < c.k then some node
    else if c.k + c.nu ≤ node then some (node - c.nu) else none

theorem AllHelpers.columnNodes_subset : c.columnNodes f ⊆ (List.range c.n).filter (· ≠ f) := by
  have hq := hc.q_pos
  have hkn := hc.k_lt
  have hs := shortNode_lt (c := c) hf
  have hnode := node_eq (c := c) (c.shortNode f)
  intro v hv
  obtain ⟨j, hj, hv⟩ := List.mem_filterMap.1 hv
  rw [List.mem_filter, List.mem_range, decide_eq_true_eq] at hj ⊢
  have hlt := node_lt hq hc.k_le hj.1 (div_lt hq hc.k_le hs)
  have hne : c.shortNode f / c.q * c.q + j ≠ c.shortNode f := by omega
  dsimp only at hv
  generalize c.shortNode f / c.q * c.q + j = node at hv hlt hne
  unfold shortNode at hne
  split at hv
  · obtain rfl := Option.some.inj hv
    split at hne <;> omega
  · split at hv
    · obtain rfl := Option.some.inj hv
      split at hne <;> omega
    · cases hv

omit hf hc in
theorem nodup_columnNodes (c : Clay) (f : Nat) : (c.columnNodes f).Nodup := by
  refine (List.nodup_range.filter _).filterMap fun j j' v hj hj' => ?_
  simp only [Option.mem_def] at hj hj'
  generalize c.shortNode f / c.q * c.q = base at hj hj'
  split at hj <;> split at hj' <;> (try split at hj) <;> (try split at hj') <;>
    simp only [Option.some.injEq, reduceCtorEq] at hj hj' <;> omega

/-- **Every other node is read.** -/
theorem AllHelpers.mem_minimumToRepair (i : Nat) :
    i ∈ c.minimumToRepair [f] (c.availNodes [f]) ↔ i < c.n ∧ i ≠ f := by
  have hT : ((List.range c.n).filter (· ≠ f)).Nodup := List.nodup_range.filter _
  have hTlen := length_filter_ne hf
  rw [← hc.d_eq] at hTlen
  have hsplit : c.availNodes [f] = (List.range c.n).filter (· ≠ f) ++
      ((List.range c.nu).map (c.n + ·)).filter (· ≠ f) := by
    rw [hc.availNodes_singleton, List.range_add, List.filter_append]
  have hlen : c.d ≤ (c.availNodes [f]).length := by
    rw [hsplit, List.length_append]
    omega
  have hmin : c.minimumToRepair [f] (c.availNodes [f]) = (c.availNodes [f]).foldl
      (fun minimum chunk =>
        if c.d ≤ minimum.length ∨ chunk ∈ minimum then minimum else minimum ++ [chunk])
      (c.columnNodes f) := if_pos hlen
  have hfill := foldl_fill (fun v hv => hv) (nodup_columnNodes c f) (hc.columnNodes_subset hf)
  rw [hTlen] at hfill
  obtain ⟨h1, h2, -, h4⟩ := hfill
  have hfull := (List.subperm_of_subset hT h4).length_le
  rw [hTlen] at hfull
  rw [hmin, hsplit, List.foldl_append, foldl_full _ _ hfull]
  have hiff : i ∈ (List.range c.n).filter (· ≠ f) ↔ i < c.n ∧ i ≠ f := by
    rw [List.mem_filter, List.mem_range, decide_eq_true_eq]
  exact ⟨fun h => hiff.1 (h2 h), fun h => h4 (hiff.2 h)⟩

/-! ### The repair -/

/-- The short numbers of the nodes that are there. -/
def helperNodes (c : Clay) (f : Nat) : List Nat :=
  ((List.range c.n).filter (· ≠ f)).map c.shortNode ++ List.range' c.k c.nu

omit hc in
theorem lostNodes_singleton : c.lostNodes [f] = [c.shortNode f] := by
  have hlost : (List.range c.n).filter (· ∈ [f]) = [f] := by
    rw [← losses_singleton hf]
    refine List.filter_congr fun i _ => ?_
    rw [decide_eq_decide, losses_singleton hf, List.mem_singleton, Finset.mem_singleton]
  rw [lostNodes, hlost, List.map_singleton]

omit hc hf in
theorem helperNodes_eq (c : Clay) (f : Nat) : c.helperNodes f = c.otherNodes [f] := by
  unfold helperNodes otherNodes
  refine congrArg (fun l => List.map c.shortNode l ++ _) (List.filter_congr fun i _ => ?_)
  rw [decide_eq_decide, List.mem_singleton]

theorem AllHelpers.mem_helperNodes {i : Nat} (hi : i < c.n + c.nu) :
    i ∈ c.helperNodes f ↔ i ∉ [c.shortNode f] := by
  rw [helperNodes_eq, mem_otherNodes hc.k_le hi, lostNodes_singleton hf]

omit hc in
theorem oneColumn_singleton : c.OneColumn [c.shortNode f] (c.shortNode f / c.q) := by
  rw [← lostNodes_singleton hf]
  refine oneColumn_lostNodes (List.cons_ne_nil _ _) (fun i hi => ?_) fun i hi => ?_
  · rw [List.mem_singleton.1 hi]
    exact hf
  · rw [List.mem_singleton.1 hi]

/-- **The repair of one node** from parts of the others. -/
theorem AllHelpers.decodeJoins_singleton (hr : ¬ (f < c.k ∧ 3 * c.k < c.n))
    (invert : InvertMatrix8) : c.decodeJoins invert (packets c.w [f]) =
      some ((c.lostPlanes [c.shortNode f]).flatMap
        (c.planeJoins invert (c.shortNode f / c.q) (c.helperNodes f))) := by
  have hF := oneColumn_singleton hf
  rw [← lostNodes_singleton hf] at hF
  unfold decodeJoins
  rw [wantToRead_packets hc.q_pos, if_pos ((hc.isRepair_singleton hf).2 hr),
    repairJoins_eq hc.k_le hc.q_pos invert hF fun i hi hne => ?_, lostNodes_singleton hf,
    helperNodes_eq]
  exact (hc.mem_minimumToRepair hf i).2 ⟨hi, fun he => hne (List.mem_singleton.2 he)⟩

/-! ### No packet is defined twice -/

omit hc hf in
theorem flatMap_ite_singleton {α β : Type} (l : List α) (p : α → Prop) [DecidablePred p]
    (g : α → β) : (l.flatMap fun a => if p a then [] else [g a]) = (l.filter (¬ p ·)).map g := by
  induction l with
  | nil => rfl
  | cons a l ih =>
    rw [List.flatMap_cons, ih, List.filter_cons]
    by_cases h : p a
    · rw [if_pos h, if_neg (by simpa using h)]
      rfl
    · rw [if_neg h, if_pos (by simpa using h)]
      rfl

/-- What one plane defines. -/
theorem AllHelpers.targets_planeJoins (invert : InvertMatrix8) {z : Nat}
    (hn : c.Named (c.shortNode f) z) :
    (c.planeJoins invert (c.shortNode f / c.q) (c.helperNodes f) z).map Join.pidx =
      ((List.range (c.n + c.nu)).filter fun i =>
        ¬ (i / c.q = c.shortNode f / c.q ∨ c.Named i z)).map (c.uncoupledId · z) ++
      (c.column (c.shortNode f / c.q)).map (c.uncoupledId · z) ++
      ((c.column (c.shortNode f / c.q)).filter (· ≠ c.shortNode f)).map fun i =>
        c.coupledId (c.shortNode f) (c.matePlane i z) := by
  have hq := hc.q_pos
  rw [planeJoins_eq hq hc.k_le, List.map_append, List.map_append, List.map_map, List.map_flatMap,
    List.map_flatMap]
  refine congrArg₂ (· ++ ·) (congrArg₂ (· ++ ·) ?_ rfl) ?_
  · rw [← flatMap_ite_singleton]
    exact List.flatMap_congr fun i _ => map_pidx_helperJoins _ i z
  · have hrec : ∀ i ∈ c.column (c.shortNode f / c.q),
        (c.recoverJoins invert (c.helperNodes f) i z).map Join.pidx =
          if i = c.shortNode f then []
          else [c.coupledId (c.shortNode f) (c.matePlane i z)] := by
      intro i hi
      rw [mem_column hq] at hi
      have hs := shortNode_lt (c := c) hf
      have hmate : c.mate i z = c.shortNode f := by
        have hn' : c.zVec z (c.shortNode f / c.q) = c.shortNode f % c.q := hn
        rw [mate, hi, hn', node_eq]
      have hilt : i < c.n + c.nu := by
        rw [← node_eq (c := c) i, hi]
        exact node_lt hq hc.k_le (Nat.mod_lt _ hq) (div_lt hq hc.k_le hs)
      unfold recoverJoins
      by_cases he : i = c.shortNode f
      · rw [if_pos he, he, if_pos hn]
        rfl
      · have hno : ¬ c.Named i z := by
          intro hin
          have hin' : c.zVec z (i / c.q) = i % c.q := hin
          refine he ?_
          rw [← hmate, mate, hin', node_eq]
        rw [if_neg he, if_neg hno, if_pos ((hc.mem_helperNodes hf hilt).2
          (by rwa [List.mem_singleton])), hmate]
        rfl
    rw [List.flatMap_congr hrec, flatMap_ite_singleton]

/-- The packets that are defined, told apart by node and plane. -/
theorem AllHelpers.mem_targets (invert : InvertMatrix8) {z v : Nat}
    (hn : c.Named (c.shortNode f) z)
    (hv : v ∈ (c.planeJoins invert (c.shortNode f / c.q) (c.helperNodes f) z).map Join.pidx) :
    (∃ i < c.n + c.nu, v = c.uncoupledId i z) ∨
      ∃ i < c.n + c.nu, i / c.q = c.shortNode f / c.q ∧ i ≠ c.shortNode f ∧
        v = c.coupledId (c.shortNode f) (c.matePlane i z) := by
  have hq := hc.q_pos
  have hlt : ∀ i ∈ c.column (c.shortNode f / c.q), i < c.n + c.nu := by
    intro i hi
    rw [mem_column hq] at hi
    rw [← node_eq (c := c) i, hi]
    exact node_lt hq hc.k_le (Nat.mod_lt _ hq) (div_lt hq hc.k_le (shortNode_lt hf))
  rw [hc.targets_planeJoins hf invert hn, List.mem_append, List.mem_append] at hv
  rcases hv with (hv | hv) | hv
  · obtain ⟨i, hi, rfl⟩ := List.mem_map.1 hv
    exact Or.inl ⟨i, List.mem_range.1 (List.mem_filter.1 hi).1, rfl⟩
  · obtain ⟨i, hi, rfl⟩ := List.mem_map.1 hv
    exact Or.inl ⟨i, hlt i hi, rfl⟩
  · obtain ⟨i, hi, rfl⟩ := List.mem_map.1 hv
    rw [List.mem_filter, decide_eq_true_eq] at hi
    exact Or.inr ⟨i, hlt i hi.1, (mem_column hq).1 hi.1, hi.2, rfl⟩

/-- **No packet is defined twice.** -/
theorem AllHelpers.nodup_targets (invert : InvertMatrix8) :
    (((c.lostPlanes [c.shortNode f]).flatMap
      (c.planeJoins invert (c.shortNode f / c.q) (c.helperNodes f))).map Join.pidx).Nodup := by
  have hq := hc.q_pos
  have hs := shortNode_lt (c := c) hf
  have hF := oneColumn_singleton (c := c) hf
  have hplane : ∀ z ∈ c.lostPlanes [c.shortNode f], z < c.w ∧ c.Named (c.shortNode f) z := by
    intro z hz
    obtain ⟨hzw, hmem⟩ := (hF.mem_lostPlanes hq hc.k_le).1 hz
    exact ⟨hzw, (hF.named_iff (List.mem_singleton_self _)).2 (List.mem_singleton.1 hmem).symm⟩
  -- a packet of the lost node in the plane of a partner is found from one plane only
  have hback : ∀ i < c.n + c.nu, i / c.q = c.shortNode f / c.q → ∀ z, c.Named (c.shortNode f) z →
      c.mate i z = c.shortNode f ∧ c.mate (c.shortNode f) (c.matePlane i z) = i ∧
        c.matePlane (c.shortNode f) (c.matePlane i z) = z := by
    intro i hi hcol z hn
    have hmate : c.mate i z = c.shortNode f := by
      have hn' : c.zVec z (c.shortNode f / c.q) = c.shortNode f % c.q := hn
      rw [mate, hcol, hn', node_eq]
    obtain ⟨h1, h2⟩ := mate_mate hq hc.k_le hi (z := z)
    rw [hmate] at h1 h2
    exact ⟨hmate, h1, h2⟩
  have hcross : ∀ i < c.n + c.nu, ∀ i' < c.n + c.nu, i' / c.q = c.shortNode f / c.q →
      i' ≠ c.shortNode f → ∀ z < c.w, ∀ z' < c.w, c.Named (c.shortNode f) z' →
      c.uncoupledId i z ≠ c.coupledId (c.shortNode f) (c.matePlane i' z') := by
    intro i hi i' hi' hcol hne z hz z' hz' hn he
    obtain ⟨hnamed, rfl, rfl⟩ := uncoupledId_eq_coupledId hq hc.k_le hi hs hz
      (matePlane_lt hq hc.k_le hi' hz') he
    obtain ⟨-, hb, -⟩ := hback i' hi' hcol z' hn
    have hnamed' : c.zVec (c.matePlane i' z') (c.shortNode f / c.q) = c.shortNode f % c.q := hnamed
    rw [mate, hnamed', node_eq] at hb
    exact hne hb.symm
  rw [List.map_flatMap, List.nodup_flatMap]
  constructor
  · intro z hz
    obtain ⟨hzw, hn⟩ := hplane z hz
    have hcolumn : ∀ i ∈ c.column (c.shortNode f / c.q), i < c.n + c.nu := by
      intro i hi
      rw [mem_column hq] at hi
      rw [← node_eq (c := c) i, hi]
      exact node_lt hq hc.k_le (Nat.mod_lt _ hq) (div_lt hq hc.k_le hs)
    rw [hc.targets_planeJoins hf invert hn]
    refine List.nodup_append.2 ⟨List.nodup_append.2 ⟨?_, ?_, ?_⟩, ?_, ?_⟩
    · refine List.Nodup.map_on (fun i hi i' hi' he => ?_) (List.nodup_range.filter _)
      rw [List.mem_filter, List.mem_range] at hi hi'
      exact (uncoupledId_inj hq hc.k_le hi.1 hi'.1 hzw hzw he).1
    · refine List.Nodup.map_on (fun i hi i' hi' he => ?_) (nodup_column c _)
      exact (uncoupledId_inj hq hc.k_le (hcolumn i hi) (hcolumn i' hi') hzw hzw he).1
    · intro v hv v' hv' he
      obtain ⟨i, hi, rfl⟩ := List.mem_map.1 hv
      obtain ⟨i', hi', rfl⟩ := List.mem_map.1 hv'
      rw [List.mem_filter, List.mem_range, decide_eq_true_eq, not_or] at hi
      obtain ⟨rfl, -⟩ := uncoupledId_inj hq hc.k_le hi.1 (hcolumn i' hi') hzw hzw he
      exact hi.2.1 ((mem_column hq).1 hi')
    · refine List.Nodup.map_on (fun i hi i' hi' he => ?_) ((nodup_column c _).filter _)
      rw [List.mem_filter] at hi hi'
      have hi1 := hcolumn i hi.1
      have hi1' := hcolumn i' hi'.1
      have hplanes := (coupledId_inj hq hc.k_le hs hs (matePlane_lt hq hc.k_le hi1 hzw)
        (matePlane_lt hq hc.k_le hi1' hzw) he).2
      rw [← (hback i hi1 ((mem_column hq).1 hi.1) z hn).2.1, hplanes]
      exact (hback i' hi1' ((mem_column hq).1 hi'.1) z hn).2.1
    · intro v hv v' hv' he
      obtain ⟨i', hi', rfl⟩ := List.mem_map.1 hv'
      rw [List.mem_filter, decide_eq_true_eq] at hi'
      have hno := fun i hi => hcross i hi i' (hcolumn i' hi'.1) ((mem_column hq).1 hi'.1) hi'.2 z hzw
        z hzw hn
      rcases List.mem_append.1 hv with hv | hv
      · obtain ⟨i, hi, rfl⟩ := List.mem_map.1 hv
        exact hno i (List.mem_range.1 (List.mem_filter.1 hi).1) he
      · obtain ⟨i, hi, rfl⟩ := List.mem_map.1 hv
        exact hno i (hcolumn i hi) he
  · refine List.Pairwise.imp_of_mem (fun {z z'} hz hz' hne => ?_)
      (hF.nodup_lostPlanes hq hc.k_le)
    obtain ⟨hzw, hn⟩ := hplane z hz
    obtain ⟨hzw', hn'⟩ := hplane z' hz'
    rw [Function.onFun, List.disjoint_left]
    intro v hv hv'
    obtain ⟨i, hi, he⟩ | ⟨i, hi, hcol, hno, he⟩ := hc.mem_targets hf invert hn hv <;>
      obtain ⟨i', hi', he'⟩ | ⟨i', hi', hcol', hno', he'⟩ := hc.mem_targets hf invert hn' hv'
    · exact hne (uncoupledId_inj hq hc.k_le hi hi' hzw hzw' (he.symm.trans he')).2
    · exact hcross i hi i' hi' hcol' hno' z hzw z' hzw' hn' (he.symm.trans he')
    · exact hcross i' hi' i hi hcol hno z' hzw' z hzw hn (he'.symm.trans he)
    · have hplanes := (coupledId_inj hq hc.k_le hs hs (matePlane_lt hq hc.k_le hi hzw)
        (matePlane_lt hq hc.k_le hi' hzw') (he.symm.trans he')).2
      have hb := (hback i hi hcol z hn).2.2
      rw [hplanes, (hback i' hi' hcol' z' hn').2.2] at hb
      exact hne hb.symm

/-- All packets of the lost node are defined. -/
theorem AllHelpers.mem_lost_targets (invert : InvertMatrix8) {z : Nat} (hz : z < c.w) :
    c.coupledId (c.shortNode f) z ∈ ((c.lostPlanes [c.shortNode f]).flatMap
      (c.planeJoins invert (c.shortNode f / c.q) (c.helperNodes f))).map Join.pidx :=
  (oneColumn_singleton hf).mem_targets hc.q_pos hc.k_le (fun _ hi => hc.mem_helperNodes hf hi)
    invert (List.mem_singleton_self _) hz

/-! ### Repair as of several lost nodes -/

/-- The nodes that are lost or not read, when `k` whole nodes are read. -/
def unreadNodes (c : Clay) (f : Nat) : List Nat :=
  ((List.range c.n).filter (· ∉ (c.availNodes [f]).take c.k)).map c.shortNode

omit hf in
/-- The first `k` other nodes. -/
theorem AllHelpers.take_availNodes_data (hfk : f < c.k) :
    (c.availNodes [f]).take c.k = (List.range (c.k + 1)).filter (· ≠ f) := by
  have hk := hc.k_lt
  have hlen : ((List.range (c.k + 1)).filter (· ≠ f)).length = c.k := by
    rw [length_filter_ne (by omega), Nat.add_sub_cancel]
  rw [hc.availNodes_singleton, show c.n + c.nu = c.k + 1 + (c.n + c.nu - (c.k + 1)) by omega,
    List.range_add, List.filter_append, List.take_append_of_le_length hlen.ge,
    List.take_of_length_le hlen.le]

omit hf in
theorem AllHelpers.unreadNodes_eq (hfk : f < c.k) :
    c.unreadNodes f = f :: (List.range' (c.k + 1) (c.n - (c.k + 1))).map c.shortNode := by
  have hk := hc.k_lt
  have hsplit : (List.range c.n).filter (· ∉ (c.availNodes [f]).take c.k) =
      f :: List.range' (c.k + 1) (c.n - (c.k + 1)) := by
    have hrange : List.range c.n =
        List.range (c.k + 1) ++ (List.range (c.n - (c.k + 1))).map (c.k + 1 + ·) := by
      rw [← List.range_add]
      congr 1
      omega
    have hfirst : (List.range (c.k + 1)).filter
        (· ∉ (List.range (c.k + 1)).filter (· ≠ f)) = [f] := by
      rw [← losses_singleton (show f < c.k + 1 by omega)]
      refine List.filter_congr fun i hi => ?_
      rw [decide_eq_decide, List.mem_filter, decide_eq_true_eq, Finset.mem_singleton]
      exact ⟨fun h => not_not.1 fun hne => h ⟨hi, hne⟩, fun h h' => h'.2 h⟩
    have hrest : ((List.range (c.n - (c.k + 1))).map (c.k + 1 + ·)).filter
        (· ∉ (List.range (c.k + 1)).filter (· ≠ f)) =
          List.range' (c.k + 1) (c.n - (c.k + 1)) := by
      rw [List.range'_eq_map_range]
      refine List.filter_eq_self.2 fun i hi => ?_
      obtain ⟨j, -, rfl⟩ := List.mem_map.1 hi
      rw [decide_eq_true_eq, List.mem_filter, List.mem_range]
      omega
    rw [hc.take_availNodes_data hfk, hrange, List.filter_append, hfirst, hrest]
    rfl
  rw [unreadNodes, hsplit, List.map_cons, shortNode, if_pos hfk]

/-- **The repair of one node** from `k` whole nodes. -/
theorem AllHelpers.decodeJoins_whole (hfk : f < c.k) (h3 : 3 * c.k < c.n)
    (invert : InvertMatrix8) : c.decodeJoins invert (packets c.w [f]) =
      some (c.decodeLayered invert (c.unreadNodes f)) := by
  have hk := hc.k_lt
  refine decodeJoins_layered hc.k_le (List.nodup_singleton f) (fun i hi => ?_) ?_ hc.q_pos invert
    (List.cons_ne_nil _ _) fun h => (hc.isRepair_singleton hf).1 h ⟨hfk, h3⟩
  · rw [List.mem_singleton.1 hi]
    exact hf
  · rw [List.length_singleton]
    omega

omit hf in
/-- **Of an erased node nothing is read** that a plane names. -/
theorem AllHelpers.reads_layered (invert : InvertMatrix8) {erased : List Nat}
    (hnodup : erased.Nodup) (hlen : erased.length = c.m) (hlt : ∀ i ∈ erased, i < c.n + c.nu)
    {j : Join} (hj : j ∈ c.decodeLayered invert erased) : ∀ v ∈ j.cidx,
      ∃ i < c.n + c.nu, ∃ z < c.w, (i ∉ erased ∨ ¬ c.Named i z) ∧
        (v = c.coupledId i z ∨ v = c.uncoupledId i z) := by
  have hq := hc.q_pos
  have hkn := hc.k_le
  intro v hv
  unfold decodeLayered planesInOrder at hj
  obtain ⟨hmW, -, hj⟩ := List.mem_flatMap.1 hj
  dsimp only at hj
  rcases List.mem_append.1 hj with hj | hj
  · obtain ⟨z, hz, hj⟩ := List.mem_flatMap.1 hj
    have hz : z < c.w := List.mem_range.1 (List.mem_filter.1 hz).1
    rw [decodeErasures_eq hq hkn invert erased hz] at hj
    rcases List.mem_append.1 hj with hj | hj
    · obtain ⟨x, hx, hj⟩ := List.mem_flatMap.1 hj
      obtain ⟨y, hy, hj⟩ := List.mem_flatMap.1 hj
      rw [List.mem_range] at hx hy
      have hi := node_lt hq hkn hx hy
      obtain ⟨hno, hread⟩ := of_mem_erasureJoins hj
      have hmate := fun h => hno ((named_mate hq hkn hi).1 h)
      rcases hread _ hv with rfl | rfl | rfl
      · exact ⟨_, hi, z, hz, Or.inr hno, Or.inl rfl⟩
      · exact ⟨_, mate_lt hq hkn hi, _, matePlane_lt hq hkn hi hz, Or.inr hmate, Or.inl rfl⟩
      · exact ⟨_, mate_lt hq hkn hi, _, matePlane_lt hq hkn hi hz, Or.inr hmate, Or.inr rfl⟩
    · obtain ⟨i, -, rfl⟩ := List.mem_map.1 hj
      obtain ⟨l, hl, rfl⟩ := List.mem_map.1 hv
      rw [selectLines_eq hkn hnodup hlen hlt, List.mem_filter, List.mem_range,
        decide_eq_true_eq] at hl
      exact ⟨l, hl.1, z, hz, Or.inl hl.2, Or.inr rfl⟩
  · obtain ⟨z, hz, hj⟩ := List.mem_flatMap.1 hj
    have hz : z < c.w := List.mem_range.1 (List.mem_filter.1 hz).1
    obtain ⟨i, hi, hj⟩ := List.mem_flatMap.1 hj
    have hilt := hlt i hi
    rw [coupledLayered_eq hq hkn invert erased hlen hilt hz] at hj
    obtain ⟨hno, hread⟩ := of_mem_layeredJoins hj
    have hmate := fun h => hno ((named_mate hq hkn hilt).1 h)
    rcases hread _ hv with rfl | rfl | rfl
    · exact ⟨_, mate_lt hq hkn hilt, _, matePlane_lt hq hkn hilt hz, Or.inr hmate, Or.inl rfl⟩
    · exact ⟨i, hilt, z, hz, Or.inr hno, Or.inr rfl⟩
    · exact ⟨_, mate_lt hq hkn hilt, _, matePlane_lt hq hkn hilt hz, Or.inr hmate, Or.inr rfl⟩

end

/-! ## Optimal read -/

/-- Of each other node exactly the planes of the lost node are read, `q ^ (t - 1)` of them,
as coupled packets or, without a partner, as uncoupled packets; each packet of the lost node
is defined once. -/
structure OptimalRead (c : Clay) (f : Nat) (js : List Join) : Prop where
  leaves : ∀ i < c.n, i ≠ f → ∀ z < c.w,
    (i * c.w + z ∈ (ECDAG.build js).ecLeaves ∨
      c.Named (c.shortNode i) z ∧ c.uncoupled (i * c.w + z) ∈ (ECDAG.build js).ecLeaves) ↔
    c.Named (c.shortNode f) z
  paired : ∀ i < c.n, i ≠ f → ∀ z < c.w,
    c.uncoupled (i * c.w + z) ∈ (ECDAG.build js).ecLeaves → c.Named (c.shortNode i) z
  planes : ((List.range c.w).filter fun z => c.Named (c.shortNode f) z).length = c.q ^ (c.t - 1)
  once : ∀ z < c.w, (js.map Join.pidx).count (f * c.w + z) = 1

/-- The DAG of `Decode` for one lost node reads optimally. -/
def RepairsOptimally (c : Clay) (invert : InvertMatrix8) (f : Nat) : Prop :=
  ∀ src, ∃ js, c.decodeJoins invert (packets c.w [f]) = some js ∧
    c.decode invert src (packets c.w [f]) = some (.build js) ∧ c.OptimalRead f js

section
variable {c : Clay} (hc : c.AllHelpers) {f : Nat} (hf : f < c.n)
include hc hf

omit hf in
theorem AllHelpers.coupledId_shortNode {i z : Nat} (hi : i < c.n) (hz : z < c.w) :
    c.coupledId (c.shortNode i) z = i * c.w + z := by
  rw [coupledId_eq hc.q_pos hc.k_le (shortNode_lt hi) hz, realNode_shortNode]

/-- How many planes name a node. -/
theorem AllHelpers.length_named :
    ((List.range c.w).filter fun z => c.Named (c.shortNode f) z).length = c.q ^ (c.t - 1) := by
  have hq := hc.q_pos
  have hs := shortNode_lt (c := c) hf
  have ht : 0 < c.t := Nat.lt_of_le_of_lt (Nat.zero_le _) (div_lt hq hc.k_le hs)
  have hperm : ((List.range c.w).filter fun z => c.Named (c.shortNode f) z).Perm
      (repairPlanes (c.getRepairSubchunks (c.shortNode f))) := by
    rw [List.perm_ext_iff_of_nodup (List.nodup_range.filter _) (nodup_repairPlanes hq)]
    intro z
    rw [mem_repairPlanes hq hc.k_le hs, List.mem_filter, List.mem_range, decide_eq_true_eq]
  have hlen := length_repairPlanes hq hc.k_le hs
  have hpow : c.w = c.q ^ (c.t - 1) * c.q := by
    rw [w_eq, ← Nat.pow_succ]
    congr 1
    omega
  rw [hpow] at hlen
  rw [hperm.length_eq]
  exact Nat.eq_of_mul_eq_mul_right hq hlen

theorem AllHelpers.repairsOptimally (hr : ¬ (f < c.k ∧ 3 * c.k < c.n)) (invert : InvertMatrix8) :
    c.RepairsOptimally invert f := by
  have hq := hc.q_pos
  have hkn := hc.k_le
  have hs := shortNode_lt (c := c) hf
  have hF := oneColumn_singleton (c := c) hf
  have hdecode := hc.decodeJoins_singleton hf hr invert
  have hread := hF.mem_ecLeaves_planes hq hkn hc.m_eq (fun i hi => hc.mem_helperNodes hf hi)
    (List.pairwise_singleton _ _) invert
  have hplane : ∀ z, z ∈ c.lostPlanes [c.shortNode f] ↔ z < c.w ∧ c.Named (c.shortNode f) z := by
    intro z
    rw [hF.mem_lostPlanes hq hkn, List.mem_singleton, hF.named_iff (List.mem_singleton_self _)]
    exact and_congr_right fun _ => eq_comm
  -- no uncoupled packet of a pair is a leaf
  have hpaired : ∀ i < c.n, ∀ z < c.w, c.uncoupled (i * c.w + z) ∉ (ECDAG.build
      ((c.lostPlanes [c.shortNode f]).flatMap
        (c.planeJoins invert (c.shortNode f / c.q) (c.helperNodes f)))).ecLeaves := by
    intro i hi z hz hv
    obtain ⟨i', hi', -, z', hz', he⟩ := (hread _).1 hv
    have hlt := coupledId_lt hq hkn hi' ((hplane z').1 hz').1
    rw [← he, uncoupled] at hlt
    omega
  refine fun src => ⟨_, hdecode, ?_, ?_, ?_, hc.length_named hf, ?_⟩
  · rw [decode, hdecode]
    rfl
  · intro i hi hne z hz
    rw [or_iff_left fun h => hpaired i hi z hz h.2, hread]
    constructor
    · rintro ⟨i', hi', -, z', hz', he⟩
      rw [hplane] at hz'
      rw [← hc.coupledId_shortNode hi hz] at he
      rw [(coupledId_inj hq hkn (shortNode_lt hi) hi' hz hz'.1 he).2]
      exact hz'.2
    · intro hn
      refine ⟨c.shortNode i, shortNode_lt hi, ?_, z, (hplane z).2 ⟨hz, hn⟩, ?_⟩
      · rw [List.mem_singleton]
        intro he
        exact hne (by rw [← realNode_shortNode (c := c) i, he, realNode_shortNode])
      · exact (hc.coupledId_shortNode hi hz).symm
  · exact fun i hi _ z hz hv => absurd hv (hpaired i hi z hz)
  · intro z hz
    rw [← hc.coupledId_shortNode hf hz]
    exact List.count_eq_one_of_mem (hc.nodup_targets hf invert) (hc.mem_lost_targets hf invert hz)

omit hf in
/-- A plane that names two nodes of different columns. -/
theorem AllHelpers.exists_named {a b : Nat} (ha : a < c.n + c.nu) (hb : b < c.n + c.nu)
    (hne : a / c.q ≠ b / c.q) : ∃ z < c.w, c.Named a z ∧ c.Named b z := by
  have hq := hc.q_pos
  have hya := div_lt hq hc.k_le ha
  have hyb := div_lt hq hc.k_le hb
  have hxa : a % c.q < c.q := Nat.mod_lt _ hq
  have hxb : b % c.q < c.q := Nat.mod_lt _ hq
  refine ⟨c.zSw (a % c.q) (a / c.q) (c.zSw (b % c.q) (b / c.q) 0), ?_, ?_, ?_⟩
  · exact zSw_lt hya hxa (zSw_lt hyb hxb (w_pos hq))
  · exact zVec_zSw_self hya hxa _
  · unfold Named
    rw [zVec_zSw_of_ne hya hxa hyb hne.symm]
    exact zVec_zSw_self hyb hxb _

/-- When whole nodes are read, the last node is not read at all. -/
theorem AllHelpers.not_repairsOptimally (hfk : f < c.k) (h3 : 3 * c.k < c.n)
    (invert : InvertMatrix8) : ¬ c.RepairsOptimally invert f := by
  have hq := hc.q_pos
  have hkn := hc.k_le
  have hk := hc.k_pos
  have hqe := hc.q_eq
  have hlast : c.n - 1 < c.n := by omega
  have hslt := shortNode_lt (c := c) hlast
  have hflt := shortNode_lt (c := c) hf
  have hshort : c.shortNode (c.n - 1) = c.n - 1 + c.nu := by
    rw [shortNode, if_neg (by omega)]
  have hunread := hc.unreadNodes_eq hfk
  have hmem : ∀ i ∈ c.unreadNodes f, i < c.n + c.nu := unusedNodes_lt c [f]
  have hnodup : (c.unreadNodes f).Nodup := nodup_unusedNodes c [f]
  have hlen : (c.unreadNodes f).length = c.m := by
    rw [hunread, List.length_cons, List.length_map, List.length_range', m]
    omega
  have hin : c.shortNode (c.n - 1) ∈ c.unreadNodes f := by
    rw [hunread]
    refine List.mem_cons_of_mem _ (List.mem_map_of_mem ?_)
    rw [List.mem_range'_1]
    omega
  -- it is in the column of the parity nodes, the lost node in the first one
  have hcol : c.shortNode f / c.q ≠ c.shortNode (c.n - 1) / c.q := by
    have hdata := hc.q_le_data
    have hge : 0 < c.shortNode (c.n - 1) / c.q := by
      refine Nat.div_pos ?_ hq
      omega
    rw [shortNode, if_pos hfk, Nat.div_eq_of_lt (by omega)]
    omega
  obtain ⟨z, hz, hnf, hnl⟩ := hc.exists_named hflt hslt hcol
  intro h
  obtain ⟨js, hjs, -, hread⟩ := h []
  rw [hc.decodeJoins_whole hf hfk h3 invert] at hjs
  obtain rfl := Option.some.inj hjs
  have hreads : ∀ v ∈ (ECDAG.build (c.decodeLayered invert (c.unreadNodes f))).ecLeaves,
      ∃ i < c.n + c.nu, ∃ z < c.w, (i ∉ c.unreadNodes f ∨ ¬ c.Named i z) ∧
        (v = c.coupledId i z ∨ v = c.uncoupledId i z) := by
    intro v hv
    obtain ⟨j, hj, hv⟩ := ECDAG.mem_cidx_of_mem_ecLeaves hv
    exact hc.reads_layered invert hnodup hlen hmem hj v hv
  have hnot : ∀ i < c.n + c.nu, ∀ z' < c.w, (i ∉ c.unreadNodes f ∨ ¬ c.Named i z') →
      ¬ (i = c.shortNode (c.n - 1) ∧ z' = z) := by
    rintro i - z' - hor ⟨rfl, rfl⟩
    exact hor.elim (fun h => h hin) fun h => h hnl
  have hpacket := hc.coupledId_shortNode hlast hz
  rcases (hread.leaves _ hlast (by omega) z hz).2 hnf with hv | ⟨-, hv⟩
  · obtain ⟨i, hi, z', hz', hor, he | he⟩ := hreads _ hv
    · rw [← hpacket] at he
      obtain ⟨h1, h2⟩ := coupledId_inj hq hkn hslt hi hz hz' he
      exact hnot i hi z' hz' hor ⟨h1.symm, h2.symm⟩
    · rw [← hpacket] at he
      obtain ⟨-, h1, h2⟩ := uncoupledId_eq_coupledId hq hkn hi hslt hz' hz he.symm
      exact hnot i hi z' hz' hor ⟨h1, h2⟩
  · obtain ⟨i, hi, z', hz', hor, he | he⟩ := hreads _ hv
    · have hlt := coupledId_lt hq hkn hi hz'
      rw [← he, uncoupled] at hlt
      omega
    · by_cases hn : c.Named i z'
      · have hlt := coupledId_lt hq hkn hi hz'
        rw [← uncoupledId_of_named hq hkn hi hz' hn, ← he, uncoupled] at hlt
        omega
      · rw [uncoupledId_of_not_named hq hkn hi hz' hn, ← realNode_shortNode (c := c) (c.n - 1)] at he
        have hidx : c.realNode (c.shortNode (c.n - 1)) * c.w + z = c.realNode i * c.w + z' := by
          unfold uncoupled at he
          omega
        obtain ⟨h1, h2⟩ := packet_inj hq hz hz' hidx
        exact hnot i hi z' hz' hor ⟨(realNode_inj hkn hslt hi h1).symm, h2.symm⟩

/-- **Optimal read**: exactly when the lost node is a parity node or the virtual nodes of the
first column are no more than the data nodes. -/
theorem optimalRead_iff (invert : InvertMatrix8) :
    c.RepairsOptimally invert f ↔ ¬ (f < c.k ∧ 3 * c.k < c.n) := by
  refine ⟨fun h hbad => ?_, fun h => hc.repairsOptimally hf h invert⟩
  exact hc.not_repairsOptimally hf hbad.1 hbad.2 invert h

end

theorem optimalRead_iff_six :
    (⟨6, 4, 5⟩ : Clay).RepairsOptimally (fun _ A => A) 5 ↔ ¬ (5 < 4 ∧ 3 * 4 < 6) :=
  optimalRead_iff (c := ⟨6, 4, 5⟩) ⟨by decide, by decide, by decide⟩ (by decide) _

/-- One data node, three parity nodes, two virtual nodes: whole nodes are read. -/
theorem optimalRead_fails : (⟨4, 1, 3⟩ : Clay).AllHelpers ∧
    ∀ invert : InvertMatrix8, ¬ (⟨4, 1, 3⟩ : Clay).RepairsOptimally invert 0 := by
  have hc : (⟨4, 1, 3⟩ : Clay).AllHelpers := ⟨by decide, by decide, by decide⟩
  exact ⟨hc, fun invert => hc.not_repairsOptimally (by decide) (by decide) (by decide) invert⟩

end Clay

end StripeRepair

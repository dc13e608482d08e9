import StripeRepair.Lib.PushMap
import StripeRepair.Ec.WellFormed
import Mathlib.Data.List.GetD

/-!
# `genLeveledTopologicalSorting`

The vertices are taken off the DAG level by level: a level is what has no child left.
`_ecNodeMap` and `inref` are unordered maps, so the order within a level is not specified.

* `Consistent`: what the loop needs, that the lists describe the edges of an acyclic graph.
* `Consistent.sorting_eq`: it ends, and level `l` holds the vertices of height `l`, each once.
* `sorting_leveled`: so it partitions the vertices by their longest path down.
* `sorting_eq`: on a well-formed DAG level `l` is `levelAt d ord l`.
-/

namespace StripeRepair

/-- The unordered maps that are walked through while tasks are compiled. -/
inductive Walk
  | inref (level : Nat)
  | blkidx2readdagidxlist
  | nodeid2virdagidxlist
  | nodeid2dagidxlist (level : Nat)
  | sendfrom2dagidxlist (level : Nat)
  | recvnodeid2dagidxlist (level : Nat)
  | nodeid2zerodagidxlist (level : Nat)

namespace ECDAG

/-- How often `v` is a child. -/
def outref (d : ECDAG) (v : Nat) : Nat := (d.ecNodeMap.flatMap ECNode.childNodes).count v

/-- `inref[pidx]--` -/
def decRef (inref : List (Nat × Int)) (pidx : Nat) : List (Nat × Int) :=
  if pidx ∈ inref.map Prod.fst then
    inref.map fun e => if e.1 = pidx then (e.1, e.2 - 1) else e
  else inref ++ [(pidx, -1)]

/-- Take the vertex `idx` of the current level off. -/
def removeLeaf (d : ECDAG) (inref : List (Nat × Int)) (idx : Nat) : List (Nat × Int) :=
  (if d.outref idx ≠ 0 then (d.parentIds idx).foldl decRef inref else inref).filter
    fun e => e.1 ≠ idx

/-- The rounds of the loop from `level` on, at most `fuel` of them. -/
def levelsFrom (d : ECDAG) (ord : HashOrder Walk) :
    (fuel level : Nat) → (inref : List (Nat × Int)) → List (List Nat)
  | 0, _, _ => []
  | fuel + 1, level, inref =>
    if inref = [] then []
    else
      let leaves := ((ord.order (.inref level) inref).filter fun e => e.2 = 0).map Prod.fst
      leaves :: levelsFrom d ord fuel (level + 1) (leaves.foldl d.removeLeaf inref)

/-- A round takes a vertex off, so there are no more rounds than vertices. -/
def genLeveledTopologicalSorting (d : ECDAG) (ord : HashOrder Walk) : List (List Nat) :=
  levelsFrom d ord d.ecNodeMap.length 0
    (d.ecNodeMap.map fun nd => (nd.nodeId, (nd.childNodes.length : Int)))

/-! ## The map `inref` -/

/-- `inref` when the vertices in `rem` are left. -/
def inrefOf (d : ECDAG) (rem : Nat → Bool) : List (Nat × Int) :=
  (d.ecNodeMap.filter fun nd => rem nd.nodeId).map
    fun nd => (nd.nodeId, (nd.childNodes.countP rem : Int))

theorem foldl_decRef {ps : List Nat} {inref : List (Nat × Int)}
    (hps : ∀ p ∈ ps, p ∈ inref.map Prod.fst) :
    ps.foldl decRef inref = inref.map fun e => (e.1, e.2 - ((ps.count e.1 : Nat) : Int)) := by
  induction ps generalizing inref with
  | nil => simp
  | cons p ps ih =>
    have hstep : decRef inref p = inref.map fun e => if e.1 = p then (e.1, e.2 - 1) else e :=
      if_pos (hps p (List.mem_cons_self ..))
    have hkeys : (decRef inref p).map Prod.fst = inref.map Prod.fst := by
      rw [hstep, List.map_map]
      refine List.map_congr_left fun e _ => ?_
      simp only [Function.comp_apply]
      split <;> rfl
    rw [List.foldl_cons, ih (by
      rw [hkeys]
      exact fun q hq => hps q (List.mem_cons_of_mem _ hq)), hstep, List.map_map]
    refine List.map_congr_left fun e _ => ?_
    simp only [Function.comp_apply]
    by_cases he : e.1 = p
    · subst he
      simp only [if_pos, List.count_cons_self, Nat.cast_add, Nat.cast_one]
      rw [Int.sub_sub, Int.add_comm]
    · rw [if_neg he, List.count_cons_of_ne (Ne.symm he)]

theorem countP_erase_all (cs : List Nat) {rem : Nat → Bool} {idx : Nat} (hrem : rem idx = true) :
    (cs.countP fun v => rem v && v ≠ idx) + cs.count idx = cs.countP rem := by
  induction cs with
  | nil => rfl
  | cons c cs ih =>
    by_cases hc : c = idx
    · subst hc
      rw [List.countP_cons_of_neg (by simp), List.count_cons_self, List.countP_cons_of_pos hrem]
      omega
    · rw [List.count_cons_of_ne hc]
      by_cases hr : rem c = true
      · rw [List.countP_cons_of_pos (by simp [hr, hc]), List.countP_cons_of_pos hr]
        omega
      · rw [List.countP_cons_of_neg (by simp [hr]), List.countP_cons_of_neg hr]
        exact ih

/-! ## What the loop needs -/

/-- The parent and the child lists describe the same edges, and there is no cycle. -/
structure Consistent (d : ECDAG) : Prop where
  nodup : d.nodeIds.Nodup
  closed : ∀ p c, c ∈ d.childIndices p → c ∈ d.nodeIds
  edges : ∀ u v, (d.parentIds v).count u = (d.childIndices u).count v
  acyclic : ∀ v, ¬ Relation.TransGen (fun c p => c ∈ d.childIndices p) v v

theorem childIndices_eq_of_nodup {d : ECDAG} (hd : d.nodeIds.Nodup) {nd : ECNode}
    (hnd : nd ∈ d.ecNodeMap) : d.childIndices nd.nodeId = nd.childNodes := by
  obtain ⟨b, hb⟩ := Option.isSome_iff_exists.1
    (List.find?_isSome (p := fun q : ECNode => q.nodeId = nd.nodeId).2 ⟨nd, hnd, by simp⟩)
  have hid : b.nodeId = nd.nodeId := by simpa using List.find?_some hb
  rw [childIndices, node?, hb, List.inj_on_of_nodup_map hd (List.mem_of_find?_eq_some hb) hnd hid]
  rfl

/-- A vertex with children is there. -/
theorem mem_nodeIds_of_childIndices {d : ECDAG} {p c : Nat} (h : c ∈ d.childIndices p) :
    p ∈ d.nodeIds := by
  unfold childIndices node? at h
  cases hf : d.ecNodeMap.find? fun nd => nd.nodeId = p with
  | none =>
    rw [hf] at h
    cases h
  | some q =>
    have hid : q.nodeId = p := by simpa using List.find?_some hf
    exact hid ▸ List.mem_map_of_mem (List.mem_of_find?_eq_some hf)

section
variable {d : ECDAG} (hd : d.Consistent)
include hd

theorem Consistent.mem_parentIds {v p : Nat} : p ∈ d.parentIds v ↔ v ∈ d.childIndices p := by
  rw [← List.count_pos_iff, hd.edges, List.count_pos_iff]

theorem Consistent.outref_eq_zero {v : Nat} (h : d.outref v = 0) : d.parentIds v = [] := by
  refine List.eq_nil_iff_forall_not_mem.2 fun p hp => ?_
  have hc := hd.mem_parentIds.1 hp
  obtain ⟨q, hq, rfl⟩ := List.mem_map.1 (mem_nodeIds_of_childIndices hc)
  rw [childIndices_eq_of_nodup hd.nodup hq] at hc
  exact List.count_eq_zero.1 h (List.mem_flatMap.2 ⟨q, hq, hc⟩)

/-- There are heights. -/
theorem Consistent.exists_measures : ∃ h, LinearProgram.Measures d.childIndices h := by
  refine LinearProgram.exists_measures (LinearProgram.wellFounded_of_acyclic
    (List.finite_toSet d.nodeIds) (fun c p hc => ?_) hd.acyclic)
  exact ⟨hd.closed p c hc, mem_nodeIds_of_childIndices hc⟩

/-- **One vertex off**, when all its parents are still there. -/
theorem Consistent.removeLeaf {rem : Nat → Bool} {idx : Nat} (hrem : rem idx = true)
    (hpar : ∀ p, idx ∈ d.childIndices p → rem p = true) :
    d.removeLeaf (d.inrefOf rem) idx = d.inrefOf fun v => rem v && v ≠ idx := by
  have hmap : (if d.outref idx ≠ 0 then (d.parentIds idx).foldl decRef (d.inrefOf rem)
      else d.inrefOf rem) =
      (d.inrefOf rem).map fun e => (e.1, e.2 - (((d.parentIds idx).count e.1 : Nat) : Int)) := by
    split
    · refine foldl_decRef fun p hp => ?_
      have hc := hd.mem_parentIds.1 hp
      obtain ⟨q, hq, rfl⟩ := List.mem_map.1 (mem_nodeIds_of_childIndices hc)
      refine List.mem_map.2 ⟨(q.nodeId, _), List.mem_map.2 ⟨q, ?_, rfl⟩, rfl⟩
      exact List.mem_filter.2 ⟨hq, hpar _ hc⟩
    · next h0 =>
      rw [hd.outref_eq_zero (not_not.1 h0)]
      simp
  unfold ECDAG.removeLeaf
  rw [hmap]
  unfold inrefOf
  rw [List.map_map, List.filter_map, List.filter_filter]
  have hfilter : (d.ecNodeMap.filter fun nd =>
      ((fun e : Nat × Int => decide (e.1 ≠ idx)) ∘ (fun e : Nat × Int =>
        (e.1, e.2 - (((d.parentIds idx).count e.1 : Nat) : Int))) ∘
        fun nd => (nd.nodeId, (nd.childNodes.countP rem : Int))) nd && rem nd.nodeId) =
      d.ecNodeMap.filter fun nd => rem nd.nodeId && nd.nodeId ≠ idx :=
    List.filter_congr fun nd _ => Bool.and_comm ..
  rw [hfilter]
  refine List.map_congr_left fun nd hnd => ?_
  have hmem := List.mem_of_mem_filter hnd
  have hcount := countP_erase_all nd.childNodes hrem
  simp only [Function.comp_apply, Prod.mk.injEq, true_and]
  rw [hd.edges, childIndices_eq_of_nodup hd.nodup hmem]
  omega

/-- The vertices of a level off, one after the other. -/
theorem Consistent.foldl_removeLeaf {leaves : List Nat} {rem : Nat → Bool}
    (hleaves : ∀ v ∈ leaves, rem v = true)
    (hpar : ∀ v ∈ leaves, ∀ p, v ∈ d.childIndices p → rem p = true ∧ p ∉ leaves)
    (hnd : leaves.Nodup) :
    leaves.foldl d.removeLeaf (d.inrefOf rem) = d.inrefOf fun v => rem v && v ∉ leaves := by
  induction leaves generalizing rem with
  | nil => simp
  | cons idx leaves ih =>
    obtain ⟨hidx, hnd⟩ := List.nodup_cons.1 hnd
    rw [List.foldl_cons, hd.removeLeaf (hleaves idx (List.mem_cons_self ..))
      fun p hp => (hpar idx (List.mem_cons_self ..) p hp).1]
    rw [ih ?_ ?_ hnd]
    · congr 1
      funext v
      simp [Bool.and_assoc, not_or]
    · intro v hv
      have hne : v ≠ idx := fun he => hidx (he ▸ hv)
      simp [hleaves v (List.mem_cons_of_mem _ hv), hne]
    · intro v hv p hp
      obtain ⟨h1, h2⟩ := hpar v (List.mem_cons_of_mem _ hv) p hp
      rw [List.mem_cons, not_or] at h2
      exact ⟨by simp [h1, h2.1], h2.2⟩

end

/-! ## The levels of an acyclic graph -/

/-- The vertices of height `level` and above, for the heights `h`. -/
def inrefFrom (d : ECDAG) (h : Nat → Nat) (level : Nat) : List (Nat × Int) :=
  d.inrefOf fun v => level ≤ h v

/-- The vertices of a level in the order in which `inref` is walked through. -/
def levelFrom (d : ECDAG) (h : Nat → Nat) (ord : HashOrder Walk) (level : Nat) : List Nat :=
  ((ord.order (.inref level) (d.inrefFrom h level)).filter fun e => e.2 = 0).map Prod.fst

theorem inrefFrom_zero (d : ECDAG) (h : Nat → Nat) :
    d.inrefFrom h 0 = d.ecNodeMap.map fun nd => (nd.nodeId, (nd.childNodes.length : Int)) := by
  simp [inrefFrom, inrefOf]

theorem inrefFrom_eq_nil {d : ECDAG} {h : Nat → Nat} {level : Nat} :
    d.inrefFrom h level = [] ↔ LinearProgram.above h d.nodeIds ≤ level := by
  unfold inrefFrom inrefOf
  rw [List.map_eq_nil_iff, List.filter_eq_nil_iff, LinearProgram.above_le_iff]
  simp only [decide_eq_true_eq, not_le, nodeIds, List.forall_mem_map]

section
variable {d : ECDAG} (hd : d.Consistent) {h : Nat → Nat}
  (hh : LinearProgram.Measures d.childIndices h)
include hd hh

/-- What has no child left is what has no child that high. -/
theorem Consistent.filter_inrefFrom (level : Nat) :
    ((d.inrefFrom h level).filter fun e => e.2 = 0).map Prod.fst =
      d.nodeIds.filter fun v => h v = level := by
  unfold inrefFrom inrefOf nodeIds
  rw [List.filter_map, List.map_map, List.filter_filter, List.filter_map]
  show List.map ECNode.nodeId _ = _
  congr 1
  refine List.filter_congr fun nd hnd => ?_
  have hch := childIndices_eq_of_nodup hd.nodup hnd
  simp only [Function.comp_apply, Nat.cast_eq_zero, List.countP_eq_zero, decide_eq_true_eq,
    not_le]
  rw [← Bool.decide_and, decide_eq_decide, ← hch]
  constructor
  · rintro ⟨hlow, hle⟩
    by_contra hne
    obtain ⟨c, hc, hcl⟩ := hh.exists_pred
      (show h nd.nodeId = (h nd.nodeId - 1) + 1 by omega)
    have h1 := hlow c hc
    omega
  · intro he
    refine ⟨fun c hc => ?_, by omega⟩
    have := hh.lt hc
    omega

/-- **A level holds the vertices of its height**, each once. -/
theorem Consistent.levelFrom_perm (ord : HashOrder Walk) (level : Nat) :
    (d.levelFrom h ord level).Perm (d.nodeIds.filter fun v => h v = level) := by
  rw [← hd.filter_inrefFrom hh level]
  exact ((ord.perm (.inref level) (d.inrefFrom h level)).filter _).map _

theorem Consistent.mem_levelFrom {ord : HashOrder Walk} {level v : Nat} :
    v ∈ d.levelFrom h ord level ↔ v ∈ d.nodeIds ∧ h v = level := by
  rw [(hd.levelFrom_perm hh ord level).mem_iff, List.mem_filter, decide_eq_true_iff]

theorem Consistent.levelFrom_nodup (ord : HashOrder Walk) (level : Nat) :
    (d.levelFrom h ord level).Nodup :=
  (hd.levelFrom_perm hh ord level).nodup_iff.2 (hd.nodup.filter _)

/-- **The levels partition the vertices.** -/
theorem Consistent.flatMap_levelFrom_perm (ord : HashOrder Walk) :
    ((List.range (LinearProgram.above h d.nodeIds)).flatMap (d.levelFrom h ord)).Perm
      d.nodeIds := by
  refine (List.perm_ext_iff_of_nodup ?_ hd.nodup).2 fun v => ?_
  · refine List.nodup_flatMap.2 ⟨fun l _ => hd.levelFrom_nodup hh ord l, ?_⟩
    refine List.nodup_range.pairwise_of_forall_ne fun l _ l' _ hne v hv hv' => hne ?_
    rw [← ((hd.mem_levelFrom hh).1 hv).2, ((hd.mem_levelFrom hh).1 hv').2]
  · rw [List.mem_flatMap]
    constructor
    · rintro ⟨l, -, hv⟩
      exact ((hd.mem_levelFrom hh).1 hv).1
    · intro hv
      exact ⟨h v, List.mem_range.2 (LinearProgram.lt_above hv), (hd.mem_levelFrom hh).2 ⟨hv, rfl⟩⟩

/-- One round leaves what is higher. -/
theorem Consistent.inrefFrom_succ (ord : HashOrder Walk) (level : Nat) :
    (d.levelFrom h ord level).foldl d.removeLeaf (d.inrefFrom h level) =
      d.inrefFrom h (level + 1) := by
  have hmem : ∀ v, v ∈ d.levelFrom h ord level ↔ v ∈ d.nodeIds ∧ h v = level :=
    fun v => hd.mem_levelFrom hh
  unfold inrefFrom
  rw [hd.foldl_removeLeaf ?_ ?_ (hd.levelFrom_nodup hh ord level)]
  · have hrem : ∀ v ∈ d.nodeIds, (decide (level ≤ h v) && decide (v ∉ d.levelFrom h ord level)) =
        decide (level + 1 ≤ h v) := by
      intro v hv
      rw [← Bool.decide_and, decide_eq_decide, hmem]
      constructor
      · rintro ⟨h1, h2⟩
        have h3 : h v ≠ level := fun he => h2 ⟨hv, he⟩
        omega
      · intro hle
        exact ⟨by omega, fun h2 => by omega⟩
    unfold inrefOf
    rw [List.filter_congr fun nd hnd => hrem nd.nodeId (List.mem_map_of_mem hnd)]
    refine List.map_congr_left fun nd hnd => ?_
    have hch := childIndices_eq_of_nodup hd.nodup (List.mem_of_mem_filter hnd)
    rw [List.countP_congr fun c hc => by
      rw [hrem c (hd.closed nd.nodeId c (hch.symm ▸ hc))]]
  · intro v hv
    simp [((hmem v).1 hv).2]
  · intro v hv p hp
    have h1 := ((hmem v).1 hv).2
    have h2 := hh.lt hp
    refine ⟨by simp only [decide_eq_true_eq]; omega, fun hm => ?_⟩
    have := ((hmem p).1 hm).2
    omega

/-- A level that is not the end has a vertex. -/
theorem Consistent.exists_levelFrom (ord : HashOrder Walk) {level : Nat}
    (hl : level < LinearProgram.above h d.nodeIds) : ∃ v, v ∈ d.levelFrom h ord level := by
  have hne : ¬ LinearProgram.above h d.nodeIds ≤ level := by omega
  rw [LinearProgram.above_le_iff] at hne
  push Not at hne
  obtain ⟨v, hv, hle⟩ := hne
  obtain ⟨u, hu, he⟩ := hh.exists_eq (P := fun v => v ∈ d.nodeIds)
    (fun p c _ hc => hd.closed p c hc) hv hle
  exact ⟨u, (hd.mem_levelFrom hh).2 ⟨hu, he⟩⟩

theorem Consistent.levelsFrom_eq (ord : HashOrder Walk) (fuel level : Nat)
    (hfuel : LinearProgram.above h d.nodeIds ≤ level + fuel) :
    levelsFrom d ord fuel level (d.inrefFrom h level) =
      (List.range' level (LinearProgram.above h d.nodeIds - level)).map (d.levelFrom h ord) := by
  generalize hn : LinearProgram.above h d.nodeIds = n at hfuel
  have hnil : ∀ l, d.inrefFrom h l = [] ↔ n ≤ l := fun l => hn ▸ inrefFrom_eq_nil
  induction fuel generalizing level with
  | zero =>
    rw [show n - level = 0 by omega]
    rfl
  | succ fuel ih =>
    rw [levelsFrom]
    split
    · next h0 =>
      have := (hnil level).1 h0
      rw [show n - level = 0 by omega]
      rfl
    · next h0 =>
      have hlt : ¬ n ≤ level := fun hle => h0 ((hnil level).2 hle)
      show d.levelFrom h ord level :: levelsFrom d ord fuel (level + 1)
        ((d.levelFrom h ord level).foldl d.removeLeaf (d.inrefFrom h level)) = _
      rw [hd.inrefFrom_succ hh, ih (level + 1) (by omega),
        show n - level = (n - (level + 1)) + 1 by omega, List.range'_succ]
      rfl

/-- The heights that occur have no gap, so there are no more of them than vertices. -/
theorem Consistent.above_le : LinearProgram.above h d.nodeIds ≤ d.ecNodeMap.length := by
  have hsub : List.range (LinearProgram.above h d.nodeIds) ⊆ d.nodeIds.map h := by
    intro m hm
    obtain ⟨v, hv⟩ := hd.exists_levelFrom hh (HashOrder.insertion Walk) (List.mem_range.1 hm)
    obtain ⟨h1, h2⟩ := (hd.mem_levelFrom hh).1 hv
    exact h2 ▸ List.mem_map_of_mem h1
  have hle := (List.nodup_range.subperm hsub).length_le
  simpa [nodeIds] using hle

/-- **The loop ends, and its rounds are the levels.** -/
theorem Consistent.sorting_eq (ord : HashOrder Walk) : d.genLeveledTopologicalSorting ord =
    (List.range (LinearProgram.above h d.nodeIds)).map (d.levelFrom h ord) := by
  unfold genLeveledTopologicalSorting
  rw [← inrefFrom_zero d h, hd.levelsFrom_eq hh ord _ 0 (by have := hd.above_le hh; omega),
    List.range_eq_range', Nat.sub_zero]

end

/-- The rounds of the loop without a bound on their number: it ends when `inref` is empty. -/
inductive Rounds (d : ECDAG) (ord : HashOrder Walk) :
    Nat → List (Nat × Int) → List (List Nat) → Prop
  | done (level : Nat) : Rounds d ord level [] []
  | round {level : Nat} {inref : List (Nat × Int)} {leaves : List Nat} {rest : List (List Nat)}
      (hne : inref ≠ [])
      (hleaves : leaves = ((ord.order (.inref level) inref).filter fun e => e.2 = 0).map Prod.fst)
      (h : Rounds d ord (level + 1) (leaves.foldl d.removeLeaf inref) rest) :
      Rounds d ord level inref (leaves :: rest)

/-- The levels partition the vertices, and a vertex stands in the level of its longest path
down. -/
structure Leveled (d : ECDAG) (levels : List (List Nat)) : Prop where
  partition : levels.flatten.Perm d.nodeIds
  nonempty : ∀ level ∈ levels, level ≠ []
  longest : ∀ v ∈ d.nodeIds, ∀ l, v ∈ levels.getD l [] ↔
    IsGreatest {m | LinearProgram.DownPath d.childIndices v m} l
  lower : ∀ v c, c ∈ d.childIndices v → ∀ l, v ∈ levels.getD l [] → ∃ l' < l, c ∈ levels.getD l' []

section
variable {d : ECDAG} (hd : d.Consistent)
include hd

/-- The loop ends. -/
theorem Consistent.rounds {h : Nat → Nat} (hh : LinearProgram.Measures d.childIndices h)
    (ord : HashOrder Walk) (k level : Nat)
    (hk : LinearProgram.above h d.nodeIds ≤ level + k) :
    Rounds d ord level (d.inrefFrom h level)
      ((List.range' level (LinearProgram.above h d.nodeIds - level)).map (d.levelFrom h ord)) := by
  generalize hn : LinearProgram.above h d.nodeIds = n at hk
  have hnil : ∀ l, d.inrefFrom h l = [] ↔ n ≤ l := fun l => hn ▸ inrefFrom_eq_nil
  have hdone : ∀ l, n ≤ l → Rounds d ord l (d.inrefFrom h l)
      ((List.range' l (n - l)).map (d.levelFrom h ord)) := by
    intro l hl
    rw [(hnil l).2 hl, show n - l = 0 by omega]
    exact .done l
  induction k generalizing level with
  | zero => exact hdone level hk
  | succ k ih =>
    by_cases hl : n ≤ level
    · exact hdone level hl
    · rw [show n - level = (n - (level + 1)) + 1 by omega, List.range'_succ]
      refine .round (fun h0 => hl ((hnil level).1 h0)) rfl ?_
      show Rounds d ord (level + 1)
        ((d.levelFrom h ord level).foldl d.removeLeaf (d.inrefFrom h level)) _
      rw [hd.inrefFrom_succ hh]
      exact ih (level + 1) (by omega)

/-- **Leveled topological sort**: on every acyclic graph the loop ends, and its levels are the
vertices by their longest path down. -/
theorem sorting_leveled (ord : HashOrder Walk) :
    Rounds d ord 0 (d.ecNodeMap.map fun nd => (nd.nodeId, (nd.childNodes.length : Int)))
      (d.genLeveledTopologicalSorting ord) ∧ d.Leveled (d.genLeveledTopologicalSorting ord) := by
  obtain ⟨h, hh⟩ := hd.exists_measures
  have hmem : ∀ l v, v ∈ (d.genLeveledTopologicalSorting ord).getD l [] ↔
      v ∈ d.nodeIds ∧ h v = l := by
    intro l v
    rw [hd.sorting_eq hh]
    by_cases hl : l < LinearProgram.above h d.nodeIds
    · rw [List.getD_eq_getElem _ _ (by simpa using hl), List.getElem_map, List.getElem_range,
        hd.mem_levelFrom hh]
    · rw [List.getD_eq_default _ _ (by simpa using hl)]
      refine iff_of_false List.not_mem_nil ?_
      rintro ⟨hv, rfl⟩
      exact hl (LinearProgram.lt_above hv)
  refine ⟨?_, ?_, ?_, ?_, ?_⟩
  · have hrounds := hd.rounds hh ord (LinearProgram.above h d.nodeIds) 0 (by omega)
    rwa [inrefFrom_zero, Nat.sub_zero, ← List.range_eq_range', ← hd.sorting_eq hh] at hrounds
  · rw [hd.sorting_eq hh, ← List.flatMap_def]
    exact hd.flatMap_levelFrom_perm hh ord
  · intro level hlevel
    rw [hd.sorting_eq hh] at hlevel
    obtain ⟨l, hl, rfl⟩ := List.mem_map.1 hlevel
    obtain ⟨v, hv⟩ := hd.exists_levelFrom hh ord (List.mem_range.1 hl)
    exact List.ne_nil_of_mem hv
  · intro v hv l
    rw [hmem, and_iff_right hv]
    constructor
    · rintro rfl
      exact hh.isGreatest v
    · exact fun hl => (hh.isGreatest v).unique hl
  · intro v c hc l hv
    obtain ⟨-, rfl⟩ := (hmem l v).1 hv
    exact ⟨h c, hh.lt hc, (hmem _ c).2 ⟨hd.closed v c hc, rfl⟩⟩

end

/-! ## The levels -/

/-- The vertices of height `level` and above. -/
def inrefAt (d : ECDAG) (level : Nat) : List (Nat × Int) :=
  d.inrefOf fun v => level ≤ d.height v

/-- The vertices of a level in the order in which `inref` is walked through. -/
def levelAt (d : ECDAG) (ord : HashOrder Walk) (level : Nat) : List Nat :=
  ((ord.order (.inref level) (d.inrefAt level)).filter fun e => e.2 = 0).map Prod.fst

/-- One more than the height of the highest vertex. -/
def numLevels (d : ECDAG) : Nat := LinearProgram.above d.height d.nodeIds

theorem height_lt_numLevels {d : ECDAG} {v : Nat} (hv : v ∈ d.nodeIds) :
    d.height v < d.numLevels := LinearProgram.lt_above hv

section
variable {d : ECDAG} (hd : d.WellFormed)
include hd

theorem WellFormed.consistent : d.Consistent := by
  have hlt : ∀ u v, Relation.TransGen (fun c p => c ∈ d.childIndices p) u v →
      d.height u < d.height v := by
    intro u v huv
    induction huv with
    | single hc => exact hd.height_lt hc
    | tail _ hc ih => exact ih.trans (hd.height_lt hc)
  refine ⟨hd.nodup, fun p c hc => (hd.childIndices_nodeIds hc).1, hd.count_edges, fun v hv => ?_⟩
  exact Nat.lt_irrefl _ (hlt v v hv)

theorem WellFormed.measures : LinearProgram.Measures d.childIndices d.height := by
  intro v
  by_cases hv : v ∈ d.nodeIds
  · obtain ⟨nd, hnd, rfl⟩ := List.mem_map.1 hv
    rw [hd.childIndices_eq hnd]
    exact LinearProgram.height_dst hd.ordered hd.nodup nd hnd
  · have hnil : d.childIndices v = [] :=
      List.eq_nil_iff_forall_not_mem.2 fun c hc => hv (hd.childIndices_nodeIds hc).2
    rw [hnil]
    exact LinearProgram.height_of_not_mem hv

theorem WellFormed.outref_eq_zero {v : Nat} (h : d.outref v = 0) : d.parentIds v = [] :=
  hd.consistent.outref_eq_zero h

theorem WellFormed.mem_levelAt {ord : HashOrder Walk} {level v : Nat} :
    v ∈ d.levelAt ord level ↔ v ∈ d.nodeIds ∧ d.height v = level :=
  hd.consistent.mem_levelFrom hd.measures

theorem WellFormed.levelAt_nodup (ord : HashOrder Walk) (level : Nat) :
    (d.levelAt ord level).Nodup := hd.consistent.levelFrom_nodup hd.measures ord level

/-- **The levels partition the vertices.** -/
theorem WellFormed.flatMap_levelAt_perm (ord : HashOrder Walk) :
    ((List.range d.numLevels).flatMap (d.levelAt ord)).Perm d.nodeIds :=
  hd.consistent.flatMap_levelFrom_perm hd.measures ord

/-- What is done for the vertices of each level is done for all vertices. -/
theorem WellFormed.flatMap_levels_perm (ord : HashOrder Walk) {α : Type} {P : Nat → Bool}
    {g : Nat → List α} {h : Nat → List α}
    (hg : ∀ level < d.numLevels, (h level).Perm (((d.levelAt ord level).filter P).flatMap g)) :
    ((List.range d.numLevels).flatMap h).Perm ((d.nodeIds.filter P).flatMap g) := by
  have h1 : ((List.range d.numLevels).flatMap h).Perm
      ((List.range d.numLevels).flatMap fun l => ((d.levelAt ord l).filter P).flatMap g) :=
    List.Perm.flatMap_left _ fun l hl => hg l (List.mem_range.1 hl)
  refine h1.trans ?_
  rw [← List.flatMap_assoc, ← List.filter_flatMap]
  exact ((hd.flatMap_levelAt_perm ord).filter P).flatMap_right g

/-- Vertex 0 is shared: vertex 2 is above it, and vertex 3 above both. -/
def sharedChild : ECDAG := build [⟨2, [0, 1], [1, 1]⟩, ⟨3, [2, 0], [1, 1]⟩]

omit hd in
theorem consistent_sharedChild : sharedChild.Consistent :=
  (built_build _).wellFormed.consistent

omit hd in
theorem sorting_leveled_sharedChild :
    sharedChild.genLeveledTopologicalSorting (HashOrder.insertion Walk) = [[0, 1], [2], [3]] ∧
    sharedChild.Leveled
      (sharedChild.genLeveledTopologicalSorting (HashOrder.insertion Walk)) :=
  ⟨by decide, (sorting_leveled consistent_sharedChild _).2⟩

/-- **The loop ends, and its rounds are the levels.** -/
theorem WellFormed.sorting_eq (ord : HashOrder Walk) :
    d.genLeveledTopologicalSorting ord = (List.range d.numLevels).map (d.levelAt ord) :=
  hd.consistent.sorting_eq hd.measures ord

end

end ECDAG

end StripeRepair

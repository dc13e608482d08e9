import StripeRepair.Common.SendRecv
import StripeRepair.Ec.HHXORPlus
import Mathlib.LinearAlgebra.Matrix.NonsingularInverse

/-!
# Persist tasks

`genRepairECDAG` adds a vertex for each failed block to the DAG of the code.  A persist
task is made for each vertex of the last level, and for no other.

* `persists_eq`: the persist tasks of a node for a block.
* `persistLaw_iff`: each failed block is persisted once, and nothing else, exactly when
  the vertices of the failed blocks are the last level.
-/

namespace StripeRepair

/-- `Stripe::genRepairECDAG`: decode, then concatenate the packets of each failed block. -/
def genRepairECDAG (decode : List Nat → List Nat → ECDAG) (n w : Nat) (failed : Finset Nat) :
    ECDAG :=
  (decode (packets w (survivors n failed)) (packets w (losses n failed))).concact
    (packets w (losses n failed)) n w

/-- The packets of block `i` in ascending order. -/
def blockPackets (w i : Nat) : List Nat := (List.range w).map fun offset => i * w + offset

/-! ## The concatenation vertices -/

theorem concactBlock_packets {w : Nat} {blks : List Nat} (hblks : blks.Nodup) (i : Nat) :
    ECDAG.concactBlock (packets w blks) w i = if i ∈ blks then blockPackets w i else [] := by
  have hblock : ∀ b, (blockPackets w b).filter (fun it => it / w = i) =
      if b = i then blockPackets w b else [] := by
    intro b
    have hdiv : ∀ it ∈ blockPackets w b, it / w = b := by
      intro it hit
      obtain ⟨o, ho, rfl⟩ := List.mem_map.1 hit
      have ho := List.mem_range.1 ho
      rw [Nat.mul_comm, Nat.mul_add_div (by omega), Nat.div_eq_of_lt ho, Nat.add_zero]
    split
    · next h => exact List.filter_eq_self.2 fun it hit => decide_eq_true ((hdiv it hit).trans h)
    · next h =>
      refine List.filter_eq_nil_iff.2 fun it hit he => h ?_
      exact (hdiv it hit).symm.trans (of_decide_eq_true he)
  unfold ECDAG.concactBlock packets
  induction blks with
  | nil => rfl
  | cons b blks ih =>
    obtain ⟨hb, hblks⟩ := List.nodup_cons.1 hblks
    rw [List.flatMap_cons, List.filter_append, ih hblks]
    show (blockPackets w b).filter _ ++ _ = _
    rw [hblock b]
    by_cases h : b = i
    · subst h
      simp [hb]
    · simp [h, Ne.symm h]

namespace ECDAG

theorem ecConcacts_join (d : ECDAG) (p : Nat) (cs : List Nat) (co : List Int) :
    (d.join p cs co).ecConcacts = d.ecConcacts := by
  have hchild : ∀ (cs : List Nat) (d : ECDAG), (cs.foldl addChild d).ecConcacts = d.ecConcacts := by
    intro cs
    induction cs with
    | nil => exact fun d => rfl
    | cons c cs ih =>
      intro d
      rw [List.foldl_cons, ih]
      unfold addChild
      split <;> rfl
  unfold join addVertex
  split <;> exact hchild cs d

theorem ecConcacts_build (js : List Join) : (build js).ecConcacts = [] := by
  induction js using List.reverseRecOn with
  | nil => rfl
  | append_singleton js j ih => rw [build_concat, ecConcacts_join, ih]

theorem ecConcacts_concact (d : ECDAG) (cidx : List Nat) (n w : Nat) :
    (d.concact cidx n w).ecConcacts = d.ecConcacts ++
      ((List.range n).filter fun i => concactBlock cidx w i ≠ []).map fun i => REQUESTOR - i := by
  unfold concact
  induction List.range n generalizing d with
  | nil => simp
  | cons i l ih =>
    rw [List.foldl_cons, ih, concactStep, List.filter_cons]
    by_cases h : concactBlock cidx w i = []
    · simp [h]
    · simp [h, ecConcacts_join]

theorem ecConcacts_refreshECDAG (d : ECDAG) : d.refreshECDAG.ecConcacts = d.ecConcacts := by
  have hfold : ∀ (hs : List Nat) (d : ECDAG),
      (hs.foldl removeHeader d).ecConcacts = d.ecConcacts := by
    intro hs
    induction hs with
    | nil => exact fun d => rfl
    | cons h hs ih =>
      intro d
      rw [List.foldl_cons, ih]
      unfold removeHeader
      split <;> rfl
  unfold refreshECDAG
  split
  · exact hfold _ d
  · rfl

end ECDAG

/-- The concatenation vertices are those of the failed blocks. -/
theorem ecConcacts_genRepairECDAG {decode : List Nat → List Nat → ECDAG} {n w : Nat}
    {failed : Finset Nat} (hw : 0 < w) {js : List Join}
    (hdec : decode (packets w (survivors n failed)) (packets w (losses n failed)) = .build js) :
    (genRepairECDAG decode n w failed).ecConcacts =
      (losses n failed).map fun i => REQUESTOR - i := by
  have hne : ∀ i, blockPackets w i ≠ [] := fun i h => by
    have := congrArg List.length h
    simp [blockPackets] at this
    omega
  rw [genRepairECDAG, ECDAG.ecConcacts_concact, hdec, ECDAG.ecConcacts_build, List.nil_append]
  congr 1
  refine List.filter_congr fun i hi => ?_
  have hnodup : (losses n failed).Nodup := List.nodup_range.filter _
  have hlt := List.mem_range.1 hi
  rw [decide_eq_decide, concactBlock_packets hnodup]
  by_cases hf : i ∈ failed
  · simp [mem_losses, hlt, hf, hne i]
  · simp [mem_losses, hf]

/-- What a stripe starts from, with or without `refreshECDAG`. -/
theorem genRepairECDAG_spec {decode : List Nat → List Nat → ECDAG} {n w : Nat}
    {failed : Finset Nat} (hw : 0 < w) {js : List Join}
    (hdec : decode (packets w (survivors n failed)) (packets w (losses n failed)) = .build js)
    {d : ECDAG} (hdag : d = genRepairECDAG decode n w failed ∨
      d = (genRepairECDAG decode n w failed).refreshECDAG) :
    d.Built ∧ d.ecConcacts = (losses n failed).map fun i => REQUESTOR - i := by
  have hbuilt : (genRepairECDAG decode n w failed).Built := by
    rw [genRepairECDAG, hdec]
    exact .concact _ _ _ (ECDAG.built_build js)
  rw [← ecConcacts_genRepairECDAG hw hdec]
  rcases hdag with rfl | rfl
  · exact ⟨hbuilt, rfl⟩
  · exact ⟨hbuilt.refresh, ECDAG.ecConcacts_refreshECDAG _⟩

/-! ## The persist tasks of a node -/

def Task.persistsTo (b : Option String) : Task → Bool
  | .persist _ b' => b' = b
  | _ => false

namespace Stripe

/-- The vertices that `genLastLevel` goes through. -/
def handledByLast (s : Stripe) (ord : HashOrder Walk) : List Nat :=
  let topolevel := s.ecdag.genLeveledTopologicalSorting ord
  (topolevel.zipIdx.filter fun item => item.2 ≠ 0 ∧ item.2 = topolevel.length - 1).flatMap Prod.fst

theorem blkAt_inj {s : Stripe} {i j : Int} (hi : (s.blkAt i).isSome)
    (h : s.blkAt i = s.blkAt j) : i = j := by
  obtain ⟨b, hb⟩ := Option.isSome_iff_exists.1 hi
  have hj : s.blkAt j = some b := h ▸ hb
  unfold blkAt at hb hj
  split at hb
  · split at hj
    · obtain ⟨h1, h2⟩ := List.getElem?_eq_some_iff.1 hb
      obtain ⟨h3, h4⟩ := List.getElem?_eq_some_iff.1 hj
      have := s.distinct.getElem_inj_iff.1 (h2.trans h4.symm)
      omega
    · cases hj
  · cases hb

theorem isSome_blkAt {s : Stripe} {i : Nat} (hi : i < s.blklist.length) :
    (s.blkAt i).isSome := by
  unfold blkAt
  rw [if_pos (by omega)]
  simpa using hi

section
variable {s : Stripe} (hd : s.ecdag.WellFormed) (ord : HashOrder Walk)
include hd

theorem mem_handledByLast {v : Nat} : v ∈ s.handledByLast ord ↔
    v ∈ s.ecdag.nodeIds ∧ s.ecdag.height v = s.ecdag.numLevels - 1 ∧ s.ecdag.height v ≠ 0 := by
  unfold handledByLast
  simp only [hd.sorting_eq ord, zipIdx_range_map, List.length_map, List.length_range]
  simp only [List.mem_flatMap, List.mem_filter, List.mem_map, List.mem_range, decide_eq_true_eq]
  constructor
  · rintro ⟨_, ⟨⟨level, hlt, rfl⟩, h0, hlast⟩, hv⟩
    obtain ⟨hv, hh⟩ := hd.mem_levelAt.1 hv
    exact ⟨hv, hh.trans hlast, fun h => h0 (hh.symm.trans h)⟩
  · rintro ⟨hv, hlast, h0⟩
    exact ⟨_, ⟨⟨s.ecdag.height v, ECDAG.height_lt_numLevels hv, rfl⟩, h0, hlast⟩,
      hd.mem_levelAt.2 ⟨hv, rfl⟩⟩

variable (ecn ecw : Nat) (c : Int)

/-- Only the last level persists. -/
theorem persists_of_ne_last (b : Option String) {level : Nat}
    (h : level ≠ s.ecdag.numLevels - 1 ∨ level = 0) :
    (s.levelTasksOn ecn ecw ord c level).filter (Task.persistsTo b) = [] := by
  have hfor : ∀ {f : List Nat → Task} {l : List Nat}, (∀ vs, (f vs).persistsTo b = false) →
      (taskFor f l).filter (Task.persistsTo b) = [] := by
    intro f l hf
    unfold taskFor
    split
    · rfl
    · rw [List.filter_singleton, hf]
      rfl
  have hmove : (s.moveTasks ecn ecw ord c level).filter (Task.persistsTo b) = [] := by
    rw [moveTasks, List.filter_append, List.filter_append, hfor fun _ => rfl, hfor fun _ => rfl,
      hfor fun _ => rfl]
    rfl
  by_cases h0 : level = 0
  · subst h0
    rw [levelTasksOn_zero hd, List.filter_append, hmove, List.append_nil]
    refine List.filter_eq_nil_iff.2 fun t ht => ?_
    obtain ⟨x, hx, rfl⟩ := List.mem_map.1 ht
    obtain ⟨item, -, rfl⟩ := List.mem_map.1 (List.mem_of_mem_filter hx)
    exact Bool.false_ne_true
  · rw [levelTasksOn_mid hd ecn ecw ord c h0 (h.resolve_right h0), List.filter_append, hmove,
      hfor fun _ => rfl]
    rfl

/-- **The persist tasks of a node for block `i`**: the one of the vertex of the block, if that
is on the last level. -/
theorem persists_eq {i : Nat} (hi : i < s.blklist.length) (hR : i ≤ REQUESTOR) :
    (s.nodeTasks ecn ecw ord c).filter (Task.persistsTo (s.blkAt i)) =
      if REQUESTOR - i ∈ s.handledByLast ord ∧ s.coloring (REQUESTOR - i) = c then
        [.persist (s.ecdag.childIndices (REQUESTOR - i)) (s.blkAt i)]
      else [] := by
  simp only [nodeTasks, List.filter_flatMap, mem_handledByLast hd ord]
  by_cases h0 : s.ecdag.numLevels - 1 = 0
  · rw [List.flatMap_eq_nil_iff.2, if_neg]
    · rintro ⟨⟨-, h1, h2⟩, -⟩
      omega
    · intro level hlevel
      have := List.mem_range.1 hlevel
      exact persists_of_ne_last hd ord ecn ecw c _ (Or.inr (by omega))
  · have hfront : (List.range (s.ecdag.numLevels - 1)).flatMap (fun level =>
        (s.levelTasksOn ecn ecw ord c level).filter (Task.persistsTo (s.blkAt i))) = [] := by
      refine List.flatMap_eq_nil_iff.2 fun level hlevel => ?_
      have := List.mem_range.1 hlevel
      exact persists_of_ne_last hd ord ecn ecw c _ (Or.inl (by omega))
    rw [show s.ecdag.numLevels = (s.ecdag.numLevels - 1) + 1 by omega, List.range_succ,
      List.flatMap_append, hfront, List.nil_append, List.flatMap_singleton,
      Nat.add_sub_cancel, levelTasksOn_last ecn ecw ord c h0, List.filter_map, List.filter_filter]
    -- the name of a block belongs to one vertex
    have hname : ∀ v : Nat, s.blkAt (REQUESTOR - v) = s.blkAt i ↔ v = REQUESTOR - i := by
      intro v
      constructor
      · intro h
        have := blkAt_inj (isSome_blkAt hi) h.symm
        omega
      · rintro rfl
        congr 1
        omega
    have hfilter : ((s.ecdag.levelAt ord (s.ecdag.numLevels - 1)).filter fun v =>
        (Task.persistsTo (s.blkAt i) ∘ fun v =>
          Task.persist (s.ecdag.childIndices v) (s.blkAt (REQUESTOR - v))) v &&
          decide (s.coloring v = c)) =
        (s.ecdag.levelAt ord (s.ecdag.numLevels - 1)).filter fun v =>
          v = REQUESTOR - i ∧ s.coloring (REQUESTOR - i) = c := by
      refine List.filter_congr fun v _ => ?_
      show (decide (s.blkAt (REQUESTOR - v) = s.blkAt i) && _) = _
      rw [← Bool.decide_and, decide_eq_decide, hname]
      refine and_congr_right ?_
      rintro rfl
      rfl
    rw [hfilter]
    by_cases hc : s.coloring (REQUESTOR - i) = c
    · simp only [hc, and_true]
      split
      · next h =>
        have hmem : REQUESTOR - i ∈ s.ecdag.levelAt ord (s.ecdag.numLevels - 1) :=
          hd.mem_levelAt.2 ⟨h.1, h.2.1⟩
        rw [List.filter_eq, List.count_eq_one_of_mem (hd.levelAt_nodup ord _) hmem]
        show [Task.persist _ _] = _
        rw [(hname _).2 rfl]
      · next h =>
        rw [List.filter_eq_nil_iff.2, List.map_nil]
        intro v hv he
        obtain ⟨hv, hh⟩ := hd.mem_levelAt.1 hv
        obtain rfl := of_decide_eq_true he
        exact h ⟨hv, hh, by omega⟩
    · rw [if_neg fun h => hc h.2, List.filter_eq_nil_iff.2, List.map_nil]
      exact fun v _ he => hc (of_decide_eq_true he).2

end

/-! ## The law -/

/-- Each failed block is persisted once; a concatenation is not computed, and nothing else is
handled as one. -/
structure PersistLaw (s : Stripe) (ord : HashOrder Walk) (n w : Nat) (failed : Finset Nat)
    (tasks : Int → List Task) : Prop where
  persisted : ∀ i ∈ failed, ∀ c, (tasks c).filter (Task.persistsTo (s.blkAt i)) =
    if s.coloring (REQUESTOR - i) = c then [.persist (blockPackets w i) (s.blkAt i)] else []
  notComputed : ∀ c, ∀ v ∈ s.ecdag.ecConcacts, v ∉ (tasks c).flatMap Task.computedEntries
  handled : ∀ v ∈ s.handledByLast ord, v ∈ s.ecdag.ecConcacts ∧ v ≤ REQUESTOR ∧ REQUESTOR - v < n

/-- The vertices of the failed blocks are the last level. -/
structure ConcactsLast (d : ECDAG) (w : Nat) (failed : Finset Nat) : Prop where
  /-- The ids of these vertices are no ids of packets. -/
  children : ∀ i ∈ failed, d.childIndices (REQUESTOR - i) = blockPackets w i
  last : ∀ i ∈ failed, d.height (REQUESTOR - i) = d.numLevels - 1
  only : ∀ v ∈ d.nodeIds, d.height v = d.numLevels - 1 → v ∈ d.ecConcacts

/-- **Persist law**, for every code, failure set and colouring: it holds exactly when the
vertices of the failed blocks are the last level. -/
theorem persistLaw_iff (s : Stripe) (decode : List Nat → List Nat → ECDAG) (n w : Nat)
    (failed : Finset Nat) (hn : s.blklist.length = n) (hR : n ≤ REQUESTOR) (hw : 0 < w)
    (hsub : failed ⊆ Finset.range n) (hne : failed.Nonempty) (js : List Join)
    (hdec : decode (packets w (survivors n failed)) (packets w (losses n failed)) = .build js)
    (hdag : s.ecdag = genRepairECDAG decode n w failed ∨
      s.ecdag = (genRepairECDAG decode n w failed).refreshECDAG)
    (ord : HashOrder Walk) (fail2repair : Int → Option Int) :
    (s.remap fail2repair).PersistLaw ord n w failed (s.tasksOf ord n w fail2repair) ↔
      ConcactsLast s.ecdag w failed := by
  obtain ⟨hbuilt, hconcacts⟩ := genRepairECDAG_spec hw hdec hdag
  have hd := hbuilt.wellFormed
  have hlt : ∀ i ∈ failed, i < n := fun i hi => Finset.mem_range.1 (hsub hi)
  have hblk : ∀ i, blockPackets w i ≠ [] := fun i h => by
    have := congrArg List.length h
    simp [blockPackets] at this
    omega
  have htasks : ∀ c, s.tasksOf ord n w fail2repair c = (s.remap fail2repair).nodeTasks n w ord c :=
    fun c => tasksOf_eq_nodeTasks hd n w ord c fail2repair
  have hdr : (s.remap fail2repair).ecdag.WellFormed := hd
  have hmem : ∀ {v}, v ∈ (s.remap fail2repair).handledByLast ord ↔
      v ∈ s.ecdag.nodeIds ∧ s.ecdag.height v = s.ecdag.numLevels - 1 ∧ s.ecdag.height v ≠ 0 :=
    fun {v} => mem_handledByLast hdr ord
  have hpersists : ∀ i ∈ failed, ∀ c,
      (s.tasksOf ord n w fail2repair c).filter (Task.persistsTo (s.blkAt i)) =
        if REQUESTOR - i ∈ (s.remap fail2repair).handledByLast ord ∧
            (s.remap fail2repair).coloring (REQUESTOR - i) = c then
          [.persist (s.ecdag.childIndices (REQUESTOR - i)) (s.blkAt i)]
        else [] := by
    intro i hi c
    have := hlt i hi
    rw [htasks c]
    exact persists_eq hdr ord n w c (hn.symm ▸ this) (by omega)
  constructor
  · intro h
    have hon : ∀ i ∈ failed, REQUESTOR - i ∈ (s.remap fail2repair).handledByLast ord ∧
        s.ecdag.childIndices (REQUESTOR - i) = blockPackets w i := by
      intro i hi
      have h1 := h.persisted i hi ((s.remap fail2repair).coloring (REQUESTOR - i))
      rw [if_pos rfl] at h1
      have h2 := (hpersists i hi _).symm.trans h1
      split at h2
      · next hand =>
        simp only [List.cons.injEq, Task.persist.injEq, and_true] at h2
        exact ⟨hand.1, h2.1⟩
      · cases h2
    have htop : ∀ i ∈ failed, s.ecdag.height (REQUESTOR - i) = s.ecdag.numLevels - 1 :=
      fun i hi => (hmem.1 (hon i hi).1).2.1
    refine ⟨fun i hi => (hon i hi).2, htop, fun v hv hh => ?_⟩
    obtain ⟨i, hi⟩ := hne
    have h0 := (hmem.1 (hon i hi).1).2.2
    have := htop i hi
    exact (h.handled v (hmem.2 ⟨hv, hh, by omega⟩)).1
  · intro h
    have hon : ∀ i ∈ failed, REQUESTOR - i ∈ (s.remap fail2repair).handledByLast ord := by
      intro i hi
      obtain ⟨c, hc⟩ := List.exists_mem_of_ne_nil _ (h.children i hi ▸ hblk i)
      have hlow := hd.height_lt hc
      exact hmem.2 ⟨(hd.childIndices_nodeIds hc).2, h.last i hi, by omega⟩
    refine ⟨fun i hi c => ?_, fun c v hv hcomp => ?_, fun v hv => ?_⟩
    · refine (hpersists i hi c).trans ?_
      simp only [hon i hi, true_and, h.children i hi]
      rfl
    · have hv : v ∈ s.ecdag.ecConcacts := hv
      rw [hconcacts] at hv
      obtain ⟨i, hi, rfl⟩ := List.mem_map.1 hv
      rw [htasks c, nodeTasks, List.flatMap_assoc] at hcomp
      obtain ⟨level, -, hcomp⟩ := List.mem_flatMap.1 hcomp
      obtain ⟨-, hl, hne⟩ := of_mem_computedEntries ord hdr hcomp
      exact hne ((hdr.mem_levelAt.1 hl).2.symm.trans (h.last i (mem_losses.1 hi).2))
    · obtain ⟨hmem, hh, -⟩ := hmem.1 hv
      have hc := h.only v hmem hh
      refine ⟨hc, ?_⟩
      rw [hconcacts] at hc
      obtain ⟨i, hi, rfl⟩ := List.mem_map.1 hc
      have := (mem_losses.1 hi).1
      omega

/-- A single failure: block 2 of the (3, 2) stripe. -/
theorem sumStripe_persisted : sumStripe.PersistLaw (HashOrder.insertion Walk) 3 1 {2}
    (sumStripe.tasksOf (HashOrder.insertion Walk) 3 1 fun _ => none) :=
  (persistLaw_iff sumStripe (fun _ _ => .build [⟨2, [0, 1, 3], [1, 1, 1]⟩]) 3 1 {2} rfl (by decide)
    (by decide) (by decide) (by decide) _ rfl (Or.inl (by decide)) _ fun _ => none).2
    ⟨by decide, by decide, by decide⟩

/-! ## Two failed blocks at different heights -/

/-- Blocks 4 and 5 of a Hitchhiker-XOR+ (7, 4) stripe, repaired on node 7 as the centralized
planner does; block 5 is written on node 8. -/
noncomputable def parityStripe : Stripe where
  ecdag := genRepairECDAG (HHXORPlus.decode 7 4 fun _ A => A⁻¹) 7 2 {4, 5}
  blklist := ["b0", "b1", "b2", "b3", "b4", "b5", "b6"]
  coloring v := if v ∈ [0, 1, 2, 3, 4, 5, 6, 7, 12, 13] then (v / 2 : Nat)
    else if v = REQUESTOR - 5 then 8 else 7
  distinct := by decide
  named := by decide

/-- Block 4 is complete one level below block 5: no task writes it. -/
theorem parityStripe_not_persisted :
    parityStripe.Legal 7 2 (fun i => i) ∧ ∀ ord : HashOrder Walk,
      ¬ parityStripe.PersistLaw ord 7 2 {4, 5} (parityStripe.tasksOf ord 7 2 fun _ => none) := by
  refine ⟨⟨by decide +kernel, by decide, by decide +kernel⟩, fun ord h => ?_⟩
  have hd : parityStripe.ecdag.WellFormed := .concact (ECDAG.built_build _).wellFormed _ _ _
  have hlow : REQUESTOR - 4 ∉ parityStripe.handledByLast ord := by
    rw [mem_handledByLast hd ord]
    exact fun h => absurd h.2.1 (by decide +kernel)
  have hone := h.persisted 4 (by decide) 7
  have hnone := persists_eq hd ord 7 2 7 (s := parityStripe) (i := 4) (by decide) (by decide)
  rw [if_neg fun h => hlow h.1] at hnone
  rw [tasksOf_eq_nodeTasks hd] at hone
  exact absurd (hnone.symm.trans hone) (by decide +kernel)

end Stripe

end StripeRepair

import StripeRepair.Common.ClusterRun
import StripeRepair.Common.Layers

/-!
# Repairs that end under any colouring

Whether the threads of a repair block each other depends on its colouring. When the DAG is in
layers it does not: then every legal colouring will do.

* `wellPlanned_of_oneLevel`: a DAG whose packets are used on one level each.
* `oneLevel_of_central`: one node that does all the work needs it to be so.
* `exists_color`: a node has tasks when it is the colour of a vertex.
* `Layers.wellPlanned`: the DAGs in layers are such DAGs.
* `Layers.ready`: what a stripe needs besides, to be repaired with the others.
-/

namespace StripeRepair

namespace Stripe

section
variable {s : Stripe}

/-- **Any colouring** that puts the last level on nodes. -/
theorem wellPlanned_of_oneLevel (h : s.ecdag.OneLevel)
    (hplaced : ∀ v ∈ s.ecdag.nodeIds, s.ecdag.height v = s.ecdag.numLevels - 1 →
      s.ecdag.height v ≠ 0 → s.coloring v ≠ -1) : s.WellPlanned where
  consumer _ _ u := ⟨fun p hp q hq _ _ => h.level u p hp q hq, fun p hp _ hlast =>
    ⟨(h.last u p hp hlast).1, fun q hq _ => (h.last u p hp hlast).2 q hq⟩⟩
  placed := hplaced

/-- **One node for all that is computed** needs each packet to be used on one level. -/
theorem oneLevel_of_central (hd : s.ecdag.WellFormed) (h : s.WellPlanned) {node : Int}
    (hnode : node ≠ -1)
    (hcentral : ∀ v ∈ s.ecdag.nodeIds, s.ecdag.childIndices v ≠ [] → s.coloring v = node) :
    s.ecdag.OneLevel := by
  have hparent : ∀ u, ∀ p ∈ s.ecdag.parentIds u, s.coloring p = node := by
    intro u p hp
    have hu := hd.mem_parentIds.1 hp
    exact hcentral p (hd.childIndices_nodeIds hu).2 (List.ne_nil_of_mem hu)
  constructor
  · intro u p hp q hq
    exact (h.consumer node hnode u).1 p hp q hq (hparent u p hp) (hparent u q hq)
  · intro u p hp hlast
    obtain ⟨hcount, honly⟩ := (h.consumer node hnode u).2 p hp (hparent u p hp) hlast
    exact ⟨hcount, fun q hq => honly q hq (hparent u q hq)⟩

/-! ## The nodes with tasks -/

section
variable {ecn ecw : Nat} (hd : s.ecdag.WellFormed) (ord : HashOrder Walk) {c : Int}
include hd

/-- A node that has tasks is the colour of a vertex. -/
theorem exists_color (h : s.nodeTasks ecn ecw ord c ≠ []) :
    ∃ v ∈ s.ecdag.nodeIds, s.coloring v = c := by
  obtain ⟨t, ht⟩ := List.exists_mem_of_ne_nil _ h
  obtain ⟨level, -, ht⟩ := List.mem_flatMap.1 ht
  have hmade : ∀ {l v}, v ∈ s.madeAt ecn ecw ord l → v ∈ s.ecdag.nodeIds := fun hv =>
    (hd.mem_levelAt.1 (List.mem_of_mem_filter hv)).1
  have hused : ∀ v, s.UsedOn v c → ∃ p ∈ s.ecdag.nodeIds, s.coloring p = c := by
    rintro v ⟨p, hp, hpc⟩
    exact ⟨p, (hd.childIndices_nodeIds (hd.mem_parentIds.1 hp)).2, hpc⟩
  have hmove : ∀ {l}, t ∈ s.moveTasks ecn ecw ord c l → ∃ v ∈ s.ecdag.nodeIds, s.coloring v = c := by
    intro l ht
    rcases List.mem_append.1 ht with ht | ht
    · rcases List.mem_append.1 ht with ht | ht
      · obtain ⟨-, v, hv⟩ := mem_taskFor ht
        obtain ⟨hv, hc⟩ := List.mem_filter.1 hv
        exact ⟨v, hmade hv, (of_decide_eq_true hc).2⟩
      · obtain ⟨-, v, hv⟩ := mem_taskFor ht
        exact hused v (s.mem_sendto.1 (of_decide_eq_true (List.mem_filter.1 hv).2)).2
    · obtain ⟨-, v, hv⟩ := mem_taskFor ht
      exact hused v (of_decide_eq_true (List.mem_filter.1 hv).2).1
  by_cases h0 : level = 0
  · rw [h0, levelTasksOn_zero hd] at ht
    rcases List.mem_append.1 ht with ht | ht
    · -- the key of a read task is the colour of its first packet
      obtain ⟨x, hx, -⟩ := List.mem_map.1 ht
      obtain ⟨hx, hc⟩ := List.mem_filter.1 hx
      obtain ⟨item, hitem, rfl⟩ := List.mem_map.1 hx
      obtain ⟨hne, hmem⟩ := mem_blkidx2readdagidxlist ecw ((ord.mem_order _ _ _).1 hitem)
      obtain ⟨v, vs, he⟩ := List.exists_cons_of_ne_nil hne
      have hv : v ∈ item.2 := he ▸ List.mem_cons_self
      refine ⟨v, hmade ((hmem v).1 hv).1, ?_⟩
      have hc := of_decide_eq_true hc
      rwa [he, List.headD_cons] at hc
    · exact hmove ht
  · by_cases hlast : level = s.ecdag.numLevels - 1
    · subst hlast
      rw [levelTasksOn_last ecn ecw ord c h0] at ht
      obtain ⟨v, hv, -⟩ := List.mem_map.1 ht
      obtain ⟨hv, hc⟩ := List.mem_filter.1 hv
      exact ⟨v, (hd.mem_levelAt.1 hv).1, of_decide_eq_true hc⟩
    · rw [levelTasksOn_mid hd ecn ecw ord c h0 hlast] at ht
      rcases List.mem_append.1 ht with ht | ht
      · obtain ⟨-, v, hv⟩ := mem_taskFor ht
        obtain ⟨hv, hc⟩ := List.mem_filter.1 hv
        exact ⟨v, hmade hv, of_decide_eq_true hc⟩
      · exact hmove ht

omit hd in
/-- A key of `_taskmap` has tasks. -/
theorem tasksOf_ne_nil (fail2repair : Int → Option Int)
    (hc : c ∈ (s.genRepairTasks ord ecn ecw fail2repair).keys) :
    s.tasksOf ord ecn ecw fail2repair c ≠ [] := by
  have hfold : ∀ (items : List (List Nat × Nat)) (res : TaskMap), (∀ c ∈ res, res.get c ≠ []) →
      ∀ c ∈ items.foldl ((s.remap fail2repair).genLevel ord ecn ecw
          (s.ecdag.genLeveledTopologicalSorting ord).length) res,
        (items.foldl ((s.remap fail2repair).genLevel ord ecn ecw
          (s.ecdag.genLeveledTopologicalSorting ord).length) res).get c ≠ [] := by
    intro items
    induction items with
    | nil => exact fun res h => h
    | cons item items ih =>
      intro res h
      rw [List.foldl_cons]
      refine ih _ ?_
      rw [genLevel_eq]
      exact PushMap.get_pushAll_ne_nil h _
  exact hfold _ ∅ (fun c hc => absurd hc (AList.notMem_empty c)) c (AList.mem_keys.2 hc)

end

end

end Stripe

/-! ## Stripes of a code in layers -/

theorem losses_ne_nil_of_nonempty {n : Nat} {failed : Finset Nat} (hsub : failed ⊆ Finset.range n)
    (hne : failed.Nonempty) : losses n failed ≠ [] := by
  obtain ⟨i, hi⟩ := hne
  exact List.ne_nil_of_mem (mem_losses.2 ⟨Finset.mem_range.1 (hsub hi), hi⟩)

section
variable {s : Stripe} {decode : List Nat → List Nat → ECDAG} {js : List Join} {n w top : Nat}
  {failed : Finset Nat} {height : Nat → Nat} (hR : n ≤ REQUESTOR) (hw : 0 < w)
  (h : Layers js n w failed height top)
  (hdec : decode (packets w (survivors n failed)) (packets w (losses n failed)) = ECDAG.build js)
  (hgen : s.ecdag = genRepairECDAG decode n w failed) (hsub : failed ⊆ Finset.range n)
  (hne : failed.Nonempty)
include hR hw h hdec hgen hsub hne

theorem Layers.keysFree : s.KeysFree := by
  obtain ⟨i, hi⟩ := hne
  have hn : 0 < n := (Nat.zero_le i).trans_lt (Finset.mem_range.1 (hsub hi))
  have hwf : (genRepairECDAG decode n w failed).WellFormed :=
    (genRepairECDAG_spec hw hdec (Or.inl rfl)).1.wellFormed
  rw [Stripe.KeysFree, hgen]
  intro nd hnd hc
  exact h.requestor_not_mem hw hR hdec hn nd.nodeId (hwf.mem_childIndices.2 ⟨nd, hnd, rfl, hc⟩)

/-- **Any colouring** that has a node for each repaired block. -/
theorem Layers.wellPlanned {fail2repair : Int → Option Int}
    (hplaced : ∀ i ∈ failed, (s.remap fail2repair).coloring (REQUESTOR - i) ≠ -1) :
    (s.remap fail2repair).WellPlanned := by
  have hlosses := losses_ne_nil_of_nonempty hsub hne
  have hone : (s.remap fail2repair).ecdag.OneLevel := by
    show s.ecdag.OneLevel
    exact hgen ▸ h.oneLevel hw hR hdec hlosses
  refine Stripe.wellPlanned_of_oneLevel hone fun v hv hh _ => ?_
  change v ∈ s.ecdag.nodeIds at hv
  change s.ecdag.height v = s.ecdag.numLevels - 1 at hh
  rw [hgen] at hv hh
  have hmem := (h.concactsLast hw hR hdec hlosses hsub).only v hv hh
  rw [ecConcacts_genRepairECDAG hw hdec] at hmem
  obtain ⟨i, hi, rfl⟩ := List.mem_map.1 hmem
  exact hplaced i (mem_losses.1 hi).2

end

/-! ## A stripe in a batch -/

section
variable {cl : Cluster} {st : BatchStripe} {decode : List Nat → List Nat → ECDAG} {js : List Join}
  {height : Nat → Nat} {top : Nat} (hR : cl.ecn ≤ REQUESTOR) (hw : 0 < cl.ecw)
  (h : Layers js cl.ecn cl.ecw st.failed height top)
  (hdec : decode (packets cl.ecw (survivors cl.ecn st.failed))
    (packets cl.ecw (losses cl.ecn st.failed)) = ECDAG.build js)
  (hdag : st.stripe.ecdag = genRepairECDAG decode cl.ecn cl.ecw st.failed ∨
    st.stripe.ecdag = (genRepairECDAG decode cl.ecn cl.ecw st.failed).refreshECDAG)
  (hsub : st.failed ⊆ Finset.range cl.ecn) (hne : st.failed.Nonempty)
include hR hw h hdec hdag hsub hne

/-- **A stripe whose DAG is in layers** is ready under any legal colouring that has a node for
each repaired block. -/
theorem Layers.ready (hblocks : st.stripe.blklist.length = cl.ecn)
    (hlegal : (st.stripe.remap cl.fail2repair).Legal cl.ecn cl.ecw st.placement)
    (hplaced : ∀ i ∈ st.failed, (st.stripe.remap cl.fail2repair).coloring (REQUESTOR - i) ≠ -1) :
    st.Ready cl := by
  have hgen : st.stripe.ecdag = genRepairECDAG decode cl.ecn cl.ecw st.failed :=
    hdag.elim id fun he => he.trans (h.refreshECDAG_eq hw hR hdec)
  have hlosses := losses_ne_nil_of_nonempty hsub hne
  exact ⟨hblocks, ⟨decode, js, hdec, hdag⟩, hgen ▸ h.concactsLast hw hR hdec hlosses hsub, hsub,
    h.keysFree hR hw hdec hgen hsub hne, hlegal, h.wellPlanned hR hw hdec hgen hsub hne hplaced⟩

end

/-- **All nodes with tasks have an address** when the colours do. -/
theorem BatchStripe.hasNode {cl : Cluster} {st : BatchStripe} (hd : st.stripe.ecdag.WellFormed)
    (hlegal : (st.stripe.remap cl.fail2repair).Legal cl.ecn cl.ecw st.placement)
    (hplan : (st.stripe.remap cl.fail2repair).WellPlanned)
    (hcolor : ∀ v ∈ st.stripe.ecdag.nodeIds, (st.stripe.remap cl.fail2repair).coloring v = -1 ∨
      cl.conf.HasNode ((st.stripe.remap cl.fail2repair).coloring v)) :
    ∀ c ∈ st.nodes cl, cl.conf.HasNode c := by
  intro c hc
  have hd' : (st.stripe.remap cl.fail2repair).ecdag.WellFormed := hd
  have hne := Stripe.tasksOf_ne_nil st.walks cl.fail2repair hc
  rw [Stripe.tasksOf_eq_nodeTasks hd] at hne
  obtain ⟨v, hv, rfl⟩ := Stripe.exists_color hd' st.walks hne
  refine (hcolor v hv).resolve_left fun hneg => hne ?_
  rw [hneg]
  exact Stripe.nodeTasks_neg hd' hlegal st.walks hplan.placed

end StripeRepair

import StripeRepair.Common.Persist
import StripeRepair.Ec.Representation

/-!
# The DAG a stripe is repaired with

What the planner relies on after `genRepairECDAG` and `refreshECDAG`.

* `Decodes`: what a code promises about the vertices of its `Decode`.
* `RepairDag.of_decodes`: then the headers are the vertices of the failed blocks, and the
  leaves are the vertices without children, none of a failed block.
-/

namespace StripeRepair

namespace ECDAG

/-! ## Leaves and headers -/

/-- `_ecLeaves` holds the vertices without children, and no header is one. -/
structure LeavesRight (d : ECDAG) : Prop where
  leaves : ∀ v, v ∈ d.ecLeaves ↔ v ∈ d.nodeIds ∧ d.childIndices v = []
  headers : ∀ v ∈ d.ecHeaders, d.childIndices v ≠ []

theorem leavesRight_empty : LeavesRight .empty :=
  ⟨fun v => by simp [empty, nodeIds], fun v hv => absurd hv List.not_mem_nil⟩

section
variable {d : ECDAG} (hd : d.WellFormed)
include hd

theorem WellFormed.childIndices_join_eq_nil (p : Nat) {cs : List Nat} (hcs : cs ≠ [])
    (co : List Int) (v : Nat) : (d.join p cs co).childIndices v = [] ↔
      d.childIndices v = [] ∧ ¬ (p ∉ d.nodeIds ∧ p ∉ cs ∧ v = p) := by
  obtain ⟨c0, hc0⟩ := List.exists_mem_of_ne_nil cs hcs
  simp only [List.eq_nil_iff_forall_not_mem, hd.mem_childIndices_join p cs co v, not_or,
    forall_and]
  refine and_congr_right fun _ => ⟨fun h hp => h c0 ⟨hp.1, hp.2.1, hp.2.2, hc0⟩, ?_⟩
  rintro h c ⟨h1, h2, h3, -⟩
  exact h ⟨h1, h2, h3⟩

theorem LeavesRight.join (hl : d.LeavesRight) (p : Nat) {cs : List Nat} (hcs : cs ≠ [])
    (co : List Int) : (d.join p cs co).LeavesRight := by
  have hnone : ∀ v, v ∉ d.nodeIds → d.childIndices v = [] := fun v hv =>
    List.eq_nil_iff_forall_not_mem.2 fun c hc => hv (hd.childIndices_nodeIds hc).2
  refine ⟨fun v => ?_, fun v hv => ?_⟩
  · rw [ecLeaves_join, mem_ecLeaves_foldl_addChild_iff, hl.leaves, mem_nodeIds_join,
      hd.childIndices_join_eq_nil p hcs]
    constructor
    · rintro (⟨hv, h0⟩ | ⟨hv, hnew⟩)
      · exact ⟨Or.inl hv, h0, fun h => h.1 (h.2.2 ▸ hv)⟩
      · exact ⟨Or.inr (Or.inl hv), hnone v hnew, fun h => h.2.1 (h.2.2 ▸ hv)⟩
    · rintro ⟨hv, h0, hno⟩
      by_cases hvd : v ∈ d.nodeIds
      · exact Or.inl ⟨hvd, h0⟩
      · refine Or.inr ⟨?_, hvd⟩
        rcases hv with hv | hv | rfl
        · exact absurd hv hvd
        · exact hv
        · by_contra hvc
          exact hno ⟨hvd, hvc, rfl⟩
  · rw [ne_eq, hd.childIndices_join_eq_nil p hcs]
    rcases (hd.mem_ecHeaders_join p cs co v).1 hv with ⟨hv, -⟩ | hv
    · exact fun h => hl.headers v hv h.1
    · exact fun h => h.2 hv

theorem LeavesRight.concactStep (hl : d.LeavesRight) (cs : List Nat) (w i : Nat) :
    (d.concactStep cs w i).LeavesRight := by
  unfold ECDAG.concactStep
  split
  · exact hl
  · next hne =>
    obtain ⟨h1, h2⟩ := hl.join hd (REQUESTOR - i) hne (List.replicate cs.length (-1))
    exact ⟨h1, h2⟩

end

theorem leavesRight_build {js : List Join} (hne : ∀ j ∈ js, j.cidx ≠ []) :
    (build js).LeavesRight := by
  induction js using List.reverseRecOn with
  | nil => exact leavesRight_empty
  | append_singleton js j ih =>
    rw [build_concat]
    have hj := hne j (List.mem_append_right _ (List.mem_singleton_self _))
    exact (ih fun i hi => hne i (List.mem_append_left _ hi)).join (built_build js).wellFormed _ hj _

/-! ## `Concact` on fresh ids -/

section
variable {d : ECDAG} {cs : List Nat} {w : Nat}

theorem nodeIds_concactStep (hcs : ∀ c ∈ cs, c ∈ d.nodeIds) (i v : Nat) :
    v ∈ (d.concactStep cs w i).nodeIds ↔
      v ∈ d.nodeIds ∨ (concactBlock cs w i ≠ [] ∧ v = REQUESTOR - i) := by
  unfold concactStep
  split
  · next h => simp [h]
  · next h =>
    show v ∈ (d.join _ _ _).nodeIds ↔ _
    rw [mem_nodeIds_join]
    constructor
    · rintro (hv | hv | hv)
      · exact Or.inl hv
      · exact Or.inl (hcs v (List.mem_of_mem_filter hv))
      · exact Or.inr ⟨h, hv⟩
    · rintro (hv | ⟨-, hv⟩)
      · exact Or.inl hv
      · exact Or.inr (Or.inr hv)

theorem foldl_addChild_ecLeaves {cs : List Nat} (hcs : ∀ c ∈ cs, c ∈ d.nodeIds) :
    (cs.foldl addChild d).ecLeaves = d.ecLeaves := by
  induction cs generalizing d with
  | nil => rfl
  | cons c cs ih =>
    have hc := hcs c (List.mem_cons_self ..)
    have hids : (d.addChild c).nodeIds = d.nodeIds := by rw [nodeIds_addChild, if_pos hc]
    rw [List.foldl_cons, ih fun b hb => hids ▸ hcs b (List.mem_cons_of_mem _ hb), addChild,
      if_pos hc]

theorem ecLeaves_concactStep (hcs : ∀ c ∈ cs, c ∈ d.nodeIds) (i : Nat) :
    (d.concactStep cs w i).ecLeaves = d.ecLeaves := by
  unfold concactStep
  split
  · rfl
  · show (d.join _ _ _).ecLeaves = _
    rw [ecLeaves_join]
    exact foldl_addChild_ecLeaves fun c hc => hcs c (List.mem_of_mem_filter hc)

theorem WellFormed.mem_ecHeaders_foldl_concactStep (hd : d.WellFormed) {v : Nat} (hv : v ∉ cs)
    (hmem : v ∈ d.ecHeaders) (l : List Nat) :
    v ∈ (l.foldl (ECDAG.concactStep cs w) d).ecHeaders := by
  induction l generalizing d with
  | nil => exact hmem
  | cons i l ih =>
    refine ih (hd.concactStep cs w i) ?_
    unfold ECDAG.concactStep
    split
    · exact hmem
    · refine (hd.mem_ecHeaders_join _ _ _ v).2 (Or.inl ⟨hmem, fun hm => hv ?_⟩)
      exact List.mem_of_mem_filter hm

/-- The vertices of the blocks in `l` become headers, and no leaf is added. -/
theorem WellFormed.foldl_concactStep (hd : d.WellFormed) (hl : d.LeavesRight) {l : List Nat}
    (hcs : ∀ c ∈ cs, c ∈ d.nodeIds) (hnd : (l.map fun i => REQUESTOR - i).Nodup)
    (hfresh : ∀ i ∈ l, REQUESTOR - i ∉ d.nodeIds) :
    (l.foldl (ECDAG.concactStep cs w) d).LeavesRight ∧
      (l.foldl (ECDAG.concactStep cs w) d).ecLeaves = d.ecLeaves ∧
      ∀ i ∈ l, concactBlock cs w i ≠ [] →
        REQUESTOR - i ∈ (l.foldl (ECDAG.concactStep cs w) d).ecHeaders := by
  induction l generalizing d with
  | nil => exact ⟨hl, rfl, fun i hi => absurd hi List.not_mem_nil⟩
  | cons i l ih =>
    rw [List.map_cons, List.nodup_cons] at hnd
    have hi := hfresh i (List.mem_cons_self ..)
    have hmem := nodeIds_concactStep (w := w) hcs i
    obtain ⟨h1, h2, h3⟩ := ih (hd.concactStep cs w i) (hl.concactStep hd cs w i)
      (fun c hc => (hmem c).2 (Or.inl (hcs c hc))) hnd.2 fun j hj hm => by
        rcases (hmem _).1 hm with hm | ⟨-, hm⟩
        · exact hfresh j (List.mem_cons_of_mem _ hj) hm
        · exact hnd.1 (hm ▸ List.mem_map_of_mem hj)
    rw [List.foldl_cons]
    refine ⟨h1, h2.trans (ecLeaves_concactStep hcs i), fun j hj hne => ?_⟩
    rcases List.mem_cons.1 hj with rfl | hj
    · refine (hd.concactStep cs w j).mem_ecHeaders_foldl_concactStep (fun hm => hi (hcs _ hm)) ?_ l
      unfold ECDAG.concactStep
      rw [if_neg hne]
      refine (hd.mem_ecHeaders_join _ _ _ _).2 (Or.inr ⟨hi, fun hm => hi ?_, rfl⟩)
      exact hcs _ (List.mem_of_mem_filter hm)
    · exact h3 j hj hne

end

/-! ## `refreshECDAG` -/

section
variable {d : ECDAG}

theorem mem_nodeIds_removeHeader (h v : Nat) :
    v ∈ (d.removeHeader h).nodeIds ↔ v ∈ d.nodeIds ∧ (v = h → h ∈ d.ecConcacts) := by
  unfold removeHeader
  split
  · next hc => simp [hc]
  · next hc =>
    simp only [nodeIds, List.map_map, List.mem_map, List.mem_filter, decide_eq_true_eq]
    constructor
    · rintro ⟨q, ⟨hq, hne⟩, rfl⟩
      have hid : (ECNode.nodeId ∘ fun nd : ECNode =>
          if nd.nodeId ∈ d.childIndices h then
            { nd with parentNodes := nd.parentNodes.filter fun p => p ≠ h }
          else nd) q = q.nodeId := by
        simp only [Function.comp_apply]
        split <;> rfl
      rw [hid]
      exact ⟨⟨q, hq, rfl⟩, fun he => absurd he hne⟩
    · rintro ⟨⟨q, hq, rfl⟩, hno⟩
      refine ⟨q, ⟨hq, fun he => hc (hno he)⟩, ?_⟩
      simp only [Function.comp_apply]
      split <;> rfl

theorem edge_removeHeader (h v c : Nat) :
    (∃ q ∈ (d.removeHeader h).ecNodeMap, q.nodeId = v ∧ c ∈ q.childNodes) ↔
      (∃ q ∈ d.ecNodeMap, q.nodeId = v ∧ c ∈ q.childNodes) ∧ (v = h → h ∈ d.ecConcacts) := by
  unfold removeHeader
  split
  · next hc => simp [hc]
  · next hc =>
    constructor
    · rintro ⟨q, hq, rfl, hqc⟩
      obtain ⟨q', hq', rfl⟩ := List.mem_map.1 hq
      obtain ⟨hq', hne⟩ := List.mem_filter.1 hq'
      have hsame : (if q'.nodeId ∈ d.childIndices h then
          { q' with parentNodes := q'.parentNodes.filter fun p => p ≠ h } else q').childNodes =
            q'.childNodes ∧ (if q'.nodeId ∈ d.childIndices h then
          { q' with parentNodes := q'.parentNodes.filter fun p => p ≠ h } else q').nodeId =
            q'.nodeId := by
        split <;> exact ⟨rfl, rfl⟩
      rw [hsame.1] at hqc
      rw [hsame.2]
      exact ⟨⟨q', hq', rfl, hqc⟩, fun he => absurd he (of_decide_eq_true hne)⟩
    · rintro ⟨⟨q, hq, rfl, hqc⟩, hno⟩
      refine ⟨_, List.mem_map_of_mem (List.mem_filter.2 ⟨hq, decide_eq_true fun he =>
        hc (hno he)⟩), ?_, ?_⟩
      · split <;> rfl
      · split <;> exact hqc

/-- What a walk over the headers `hs` leaves. -/
theorem foldl_removeHeader_spec (hs : List Nat) (v : Nat) :
    (v ∈ (hs.foldl removeHeader d).nodeIds ↔
      v ∈ d.nodeIds ∧ (v ∈ hs → v ∈ d.ecConcacts)) ∧
    (v ∈ (hs.foldl removeHeader d).ecHeaders ↔
      v ∈ d.ecHeaders ∧ (v ∈ hs → v ∈ d.ecConcacts)) ∧
    (∀ c, (∃ q ∈ (hs.foldl removeHeader d).ecNodeMap, q.nodeId = v ∧ c ∈ q.childNodes) ↔
      (∃ q ∈ d.ecNodeMap, q.nodeId = v ∧ c ∈ q.childNodes) ∧ (v ∈ hs → v ∈ d.ecConcacts)) ∧
    (hs.foldl removeHeader d).ecLeaves = d.ecLeaves := by
  induction hs generalizing d with
  | nil => simp
  | cons h hs ih =>
    have hconcacts : (d.removeHeader h).ecConcacts = d.ecConcacts := by
      unfold removeHeader
      split <;> rfl
    have hleaves : (d.removeHeader h).ecLeaves = d.ecLeaves := by
      unfold removeHeader
      split <;> rfl
    have hheaders : v ∈ (d.removeHeader h).ecHeaders ↔
        v ∈ d.ecHeaders ∧ (v = h → h ∈ d.ecConcacts) := by
      unfold removeHeader
      split
      · next hc => simp [hc]
      · next hc => simp [hc]
    have hcond : (v = h → h ∈ d.ecConcacts) ∧ (v ∈ hs → v ∈ d.ecConcacts) ↔
        (v ∈ h :: hs → v ∈ d.ecConcacts) := by
      rw [List.mem_cons, or_imp]
      exact and_congr_left fun _ => ⟨fun hi he => he ▸ hi he, fun hi he => he ▸ hi he⟩
    obtain ⟨h1, h2, h3, h4⟩ := ih (d := d.removeHeader h)
    rw [List.foldl_cons]
    refine ⟨?_, ?_, fun c => ?_, h4.trans hleaves⟩
    · rw [h1, mem_nodeIds_removeHeader, hconcacts, and_assoc, hcond]
    · rw [h2, hheaders, hconcacts, and_assoc, hcond]
    · rw [h3, edge_removeHeader, hconcacts, and_assoc, hcond]

/-- **After `refreshECDAG`** the headers are the concatenations; a dangling vertex is no
leaf, so the leaves are those there were. -/
theorem WellFormed.refresh_spec (hd : d.WellFormed) (hl : d.LeavesRight)
    (hnd : d.ecConcacts.Nodup) (hsub : ∀ v ∈ d.ecConcacts, v ∈ d.ecHeaders) :
    (∀ v, v ∈ d.refreshECDAG.ecHeaders ↔ v ∈ d.ecConcacts) ∧
      d.refreshECDAG.ecLeaves = d.ecLeaves ∧
      (∀ v, v ∈ d.ecLeaves ↔ v ∈ d.refreshECDAG.nodeIds ∧ d.refreshECDAG.childIndices v = []) ∧
      ∀ v ∈ d.ecConcacts, d.refreshECDAG.childIndices v ≠ [] := by
  have hwf := hd.refreshECDAG
  revert hwf
  unfold ECDAG.refreshECDAG
  split
  · intro hwf
    have hspec := foldl_removeHeader_spec (d := d) d.ecHeaders
    refine ⟨fun v => ?_, (hspec 0).2.2.2, fun v => ?_, fun v hv => ?_⟩
    · rw [(hspec v).2.1]
      exact ⟨fun h => h.2 h.1, fun h => ⟨hsub v h, fun _ => h⟩⟩
    · rw [hl.leaves, (hspec v).1, and_assoc]
      refine and_congr_right fun hv => ?_
      simp only [List.eq_nil_iff_forall_not_mem, hwf.mem_childIndices, (hspec v).2.2.1,
        ← hd.mem_childIndices, not_and]
      refine ⟨fun h => ⟨fun hh => ?_, fun c hc => absurd hc (h c)⟩, fun h c hc => h.2 c hc h.1⟩
      exact absurd (List.eq_nil_iff_forall_not_mem.2 h) (hl.headers v hh)
    · obtain ⟨c, hc⟩ := List.exists_mem_of_ne_nil _ (hl.headers v (hsub v hv))
      refine List.ne_nil_of_mem (?_ : c ∈ _)
      rw [hwf.mem_childIndices, (hspec v).2.2.1]
      exact ⟨hd.mem_childIndices.1 hc, fun _ => hv⟩
  · next hlen =>
    intro hwf
    have hperm := (List.subperm_of_subset hnd hsub).perm_of_length_le (not_not.1 hlen).le
    exact ⟨fun v => hperm.mem_iff.symm, rfl, hl.leaves, fun v hv => hl.headers v (hsub v hv)⟩

end

end ECDAG

/-! ## The DAG of a repair -/

/-- What a code promises about the vertices of the DAG that `Decode` returns: a `Join` has
children, the leaves are of surviving blocks or of no block, each lost packet is a vertex,
and the ids of the concatenations are not used. -/
structure Decodes (js : List Join) (n w : Nat) (failed : Finset Nat) : Prop where
  nonempty : ∀ j ∈ js, j.cidx ≠ []
  leaves : ∀ v ∈ (ECDAG.build js).ecLeaves, v / w ∉ failed
  defined : ∀ v ∈ packets w (losses n failed), v ∈ (ECDAG.build js).nodeIds
  fresh : ∀ i ∈ losses n failed, REQUESTOR - i ∉ (ECDAG.build js).nodeIds

/-- The DAG that is planned: its headers are the vertices of the failed blocks. -/
structure RepairDag (d : ECDAG) (n w : Nat) (failed : Finset Nat) : Prop where
  wellFormed : d.WellFormed
  leaves : ∀ v, v ∈ d.ecLeaves ↔ v ∈ d.nodeIds ∧ d.childIndices v = []
  surviving : ∀ v ∈ d.ecLeaves, v / w ∉ failed
  concacts : d.ecConcacts = (losses n failed).map fun i => REQUESTOR - i
  headers : ∀ v, v ∈ d.ecHeaders ↔ v ∈ d.ecConcacts
  inner : ∀ v ∈ d.ecConcacts, d.childIndices v ≠ []

theorem RepairDag.concact_mem {d : ECDAG} {n w : Nat} {failed : Finset Nat}
    (h : RepairDag d n w failed) {v : Nat} (hv : v ∈ d.ecConcacts) :
    v ∈ d.nodeIds ∧ v ∉ d.ecLeaves :=
  ⟨h.wellFormed.headersMem v ((h.headers v).2 hv), fun hl => h.inner v hv ((h.leaves v).1 hl).2⟩

theorem nodup_concacts {n : Nat} (hR : n ≤ REQUESTOR) (failed : Finset Nat) :
    ((losses n failed).map fun i => REQUESTOR - i).Nodup := by
  refine List.Nodup.map_on (fun i hi j hj he => ?_) (List.nodup_range.filter _)
  have hi := (mem_losses.1 hi).1
  have hj := (mem_losses.1 hj).1
  omega

theorem foldl_skip {σ α : Type} (f : σ → α → σ) (p : α → Bool) {l : List α}
    (h : ∀ s, ∀ a ∈ l, ¬ p a → f s a = s) (s : σ) : l.foldl f s = (l.filter p).foldl f s := by
  rw [List.foldl_filter]
  refine List.foldl_ext _ _ _ fun t a ha => ?_
  split
  · rfl
  · next hp => exact h t a ha hp

/-- **The DAG the stripe builds**, when the code keeps its promise: the concatenations are
headers, and the leaves are those of `Decode`. -/
theorem genRepairECDAG_of_decodes {decode : List Nat → List Nat → ECDAG} {n w : Nat}
    {failed : Finset Nat} (hR : n ≤ REQUESTOR) (hw : 0 < w) {js : List Join}
    (hdec : decode (packets w (survivors n failed)) (packets w (losses n failed)) = .build js)
    (h : Decodes js n w failed) :
    (genRepairECDAG decode n w failed).WellFormed ∧
      (genRepairECDAG decode n w failed).LeavesRight ∧
      (genRepairECDAG decode n w failed).ecLeaves = (ECDAG.build js).ecLeaves ∧
      ∀ v ∈ (genRepairECDAG decode n w failed).ecConcacts,
        v ∈ (genRepairECDAG decode n w failed).ecHeaders := by
  have hbuilt := (ECDAG.built_build js).wellFormed
  have hright := ECDAG.leavesRight_build h.nonempty
  have hdag : genRepairECDAG decode n w failed =
      (List.range n).foldl (ECDAG.concactStep (packets w (losses n failed)) w) (.build js) := by
    rw [genRepairECDAG, hdec]
    rfl
  have hnodup : (losses n failed).Nodup := List.nodup_range.filter _
  -- a block that did not fail has no packets, and its round does nothing
  have hskip : (List.range n).foldl (ECDAG.concactStep (packets w (losses n failed)) w) (.build js)
      = (losses n failed).foldl (ECDAG.concactStep (packets w (losses n failed)) w) (.build js) := by
    refine foldl_skip _ _ (fun d i _ hf => ?_) _
    have hnot : i ∉ losses n failed := fun hm => hf (by simpa using (mem_losses.1 hm).2)
    unfold ECDAG.concactStep
    rw [if_pos ((concactBlock_packets hnodup i).trans (if_neg hnot))]
  have hblock : ∀ i ∈ losses n failed, ECDAG.concactBlock (packets w (losses n failed)) w i ≠ [] := by
    intro i hi he
    rw [concactBlock_packets hnodup, if_pos hi] at he
    have := congrArg List.length he
    simp [blockPackets] at this
    omega
  obtain ⟨h1, h2, h3⟩ := hbuilt.foldl_concactStep (w := w) hright h.defined
    (nodup_concacts hR failed) h.fresh
  rw [← hskip, ← hdag] at h1 h2 h3
  have hwf : (genRepairECDAG decode n w failed).WellFormed := by
    rw [genRepairECDAG, hdec]
    exact hbuilt.concact _ _ _
  refine ⟨hwf, h1, h2, fun v hv => ?_⟩
  rw [ecConcacts_genRepairECDAG hw hdec] at hv
  obtain ⟨i, hi, rfl⟩ := List.mem_map.1 hv
  exact h3 i hi (hblock i hi)

/-- **The DAG that is planned**: `refreshECDAG` leaves no other headers. -/
theorem RepairDag.of_decodes {decode : List Nat → List Nat → ECDAG} {n w : Nat}
    {failed : Finset Nat} (hR : n ≤ REQUESTOR) (hw : 0 < w) {js : List Join}
    (hdec : decode (packets w (survivors n failed)) (packets w (losses n failed)) = .build js)
    (h : Decodes js n w failed) :
    RepairDag (genRepairECDAG decode n w failed).refreshECDAG n w failed := by
  have hconcacts := ecConcacts_genRepairECDAG hw hdec
  obtain ⟨hwf, h1, h2, h3⟩ := genRepairECDAG_of_decodes hR hw hdec h
  obtain ⟨h4, h5, h6, h7⟩ := hwf.refresh_spec h1 (hconcacts ▸ nodup_concacts hR failed) h3
  have hrefresh := ECDAG.ecConcacts_refreshECDAG (genRepairECDAG decode n w failed)
  refine ⟨hwf.refreshECDAG, fun v => h5 ▸ h6 v, fun v hv => ?_, hrefresh.trans hconcacts,
    fun v => hrefresh.symm ▸ h4 v, fun v hv => h7 v (hrefresh ▸ hv)⟩
  rw [h5, h2] at hv
  exact h.leaves v hv

end StripeRepair

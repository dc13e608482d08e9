import StripeRepair.Common.RepairDag
import StripeRepair.Lib.Draws
import StripeRepair.Sol.ChooseColor

/-!
# `ParallelSolution::prepare`

Before the planner colours anything, the leaves get the nodes that store their blocks and the
concatenations the nodes on which the failed blocks are repaired: the standby nodes one after
the other, or random nodes that store nothing of the stripe.

* `prepare_spec`: the repair nodes are distinct, not failed and not in the placement.
-/

namespace StripeRepair

open PRSolution (colorAt)

inductive Scenario
  | standby
  | scatter
  deriving DecidableEq, Repr

structure ParallelSolution where
  /-- `_ec->_n` and `_ec->_w` -/
  ecn : Nat
  ecw : Nat
  standbySize : Nat
  agentsNum : Nat
  deriving DecidableEq, Repr

/-- `res.insert(make_pair(dagidx, nodeid))`: nothing when the key is there. -/
def Coloring.insertNew (res : Coloring) (dagidx : Nat) (nodeid : Int) : Coloring :=
  if dagidx ∈ res then res else res.insert dagidx nodeid

namespace ParallelSolution

section
variable (p : ParallelSolution) (placement : List Int)

def clusterSize : Nat := p.standbySize + p.agentsNum

/-- The node of a leaf: -1 when it is of no block. -/
def leafNode (dagidx : Nat) : Int :=
  if dagidx / p.ecw < p.ecn then placement.getD (dagidx / p.ecw) 0 else -1

/-- `res` and `avoid_node_ids` after one leaf. -/
def colorLeaf (st : Coloring × List Int) (dagidx : Nat) : Coloring × List Int :=
  let nodeid := p.leafNode placement dagidx
  (st.1.insertNew dagidx nodeid,
    if dagidx / p.ecw < p.ecn ∧ nodeid ∉ st.2 then st.2 ++ [nodeid] else st.2)

/-- The second component of the item is `fail_node_count`. -/
def colorConcactStandby (res : Coloring) (item : Nat × Nat) : Coloring :=
  res.insertNew item.1 ((p.agentsNum + item.2 : Nat) : Int)

/-- `candidates`: the nodes that are not to be avoided. -/
def spare (avoid : List Int) : List Int :=
  ((List.range p.clusterSize).map fun i : Nat => (i : Int)).filter
    fun i => i ∉ placement ∧ i ∉ avoid

/-- `draws` is what `rand` returns, one number for each concatenation. -/
def colorConcactScatter (draws : Nat → Nat) (st : Coloring × List Int) (item : Nat × Nat) :
    Coloring × List Int :=
  let candidates := p.spare placement st.2
  let repairNode := candidates.getD (draws item.2 % candidates.length) 0
  (st.1.insertNew item.1 repairNode, st.2 ++ [repairNode])

def prepare (d : ECDAG) (failNodeIds : List Int) (scenario : Scenario) (draws : Nat → Nat) :
    Coloring :=
  let st := d.ecLeaves.foldl (p.colorLeaf placement) (∅, failNodeIds)
  match scenario with
  | .standby => d.ecConcacts.zipIdx.foldl p.colorConcactStandby st.1
  | .scatter => (d.ecConcacts.zipIdx.foldl (p.colorConcactScatter placement draws) st).1

/-- The failed blocks. -/
def failBlocks (failNodeIds : List Int) : Finset Nat :=
  (Finset.range p.ecn).filter fun i => placement.getD i 0 ∈ failNodeIds

/-- What the planner is called with: a block on each node of the placement, and enough nodes to
repair on. -/
structure Admissible (failNodeIds : List Int) (scenario : Scenario) : Prop where
  length : placement.length = p.ecn
  nodup : placement.Nodup
  nodes : ∀ x ∈ placement, 0 ≤ x
  standby : scenario = .standby → ∀ x ∈ placement ++ failNodeIds, x < p.agentsNum
  scatter : scenario = .scatter →
    (p.failBlocks placement failNodeIds).card ≤ (p.spare placement failNodeIds).length

/-- What `prepare` has to leave. -/
structure Prepared (d : ECDAG) (failNodeIds : List Int) (res : Coloring) : Prop where
  keys : ∀ v, v ∈ res ↔ v ∈ d.ecLeaves ∨ v ∈ d.ecConcacts
  leaf : ∀ v ∈ d.ecLeaves, colorAt res v = p.leafNode placement v
  nodup : (d.ecConcacts.map (colorAt res)).Nodup
  fresh : ∀ v ∈ d.ecConcacts, 0 ≤ colorAt res v ∧ colorAt res v ∉ failNodeIds ∧
    colorAt res v ∉ placement

end

end ParallelSolution

/-! ## Filling the colouring -/

namespace Coloring

theorem mem_insertNew (res : Coloring) (v : Nat) (c : Int) (u : Nat) :
    u ∈ res.insertNew v c ↔ u = v ∨ u ∈ res := by
  unfold insertNew
  split
  · next h =>
    refine ⟨Or.inr, ?_⟩
    rintro (rfl | hu)
    · exact h
    · exact hu
  · exact AList.mem_insert res

theorem colorAt_insertNew (res : Coloring) (v : Nat) (c : Int) (u : Nat) :
    colorAt (res.insertNew v c) u = if u = v ∧ u ∉ res then c else colorAt res u := by
  unfold insertNew
  split
  · next h =>
    refine (if_neg ?_).symm
    rintro ⟨rfl, hu⟩
    exact hu h
  · next h =>
    rw [PRSolution.colorAt_insert]
    by_cases hu : u = v
    · subst hu
      simp [h]
    · simp [hu]

/-- A loop of `insert`s of one colour. -/
theorem foldl_insertNew_const (c : Int) (l : List Nat) (res : Coloring) :
    (∀ v, v ∈ l.foldl (fun r it => Coloring.insertNew r it c) res ↔ v ∈ l ∨ v ∈ res) ∧
      ∀ v, colorAt (l.foldl (fun r it => Coloring.insertNew r it c) res) v =
        if v ∈ l ∧ v ∉ res then c else colorAt res v := by
  induction l generalizing res with
  | nil => simp
  | cons a l ih =>
    obtain ⟨h1, h2⟩ := ih (insertNew res a c)
    refine ⟨fun v => ?_, fun v => ?_⟩
    · rw [List.foldl_cons, h1, mem_insertNew, List.mem_cons, or_left_comm, or_assoc]
    · simp only [List.foldl_cons, h2, colorAt_insertNew, mem_insertNew, List.mem_cons]
      by_cases hv : v ∈ res <;> by_cases ha : v = a <;> by_cases hl : v ∈ l <;> simp [hv, ha, hl]

/-- A loop of `insert`s, the keys not there before and distinct. -/
theorem foldl_insertNew_zip (vs : List Nat) (cs : List Int) (res : Coloring)
    (hlen : vs.length = cs.length) (hnd : vs.Nodup) (hnew : ∀ v ∈ vs, v ∉ res) :
    (∀ u, u ∈ (vs.zip cs).foldl (fun r e => Coloring.insertNew r e.1 e.2) res ↔ u ∈ vs ∨ u ∈ res) ∧
      (∀ u, u ∉ vs → colorAt ((vs.zip cs).foldl (fun r e => Coloring.insertNew r e.1 e.2) res) u =
        colorAt res u) ∧
      vs.map (colorAt ((vs.zip cs).foldl (fun r e => Coloring.insertNew r e.1 e.2) res)) = cs := by
  induction vs generalizing cs res with
  | nil =>
    cases cs with
    | nil => simp
    | cons c cs => simp at hlen
  | cons v vs ih =>
    cases cs with
    | nil => simp at hlen
    | cons c cs =>
      rw [List.nodup_cons] at hnd
      obtain ⟨h1, h2, h3⟩ := ih cs (res.insertNew v c) (by simpa using hlen) hnd.2 fun u hu hm => by
        rcases (mem_insertNew res v c u).1 hm with rfl | hm
        · exact hnd.1 hu
        · exact hnew u (List.mem_cons_of_mem _ hu) hm
      rw [List.zip_cons_cons, List.foldl_cons]
      refine ⟨fun u => ?_, fun u hu => ?_, ?_⟩
      · rw [h1, mem_insertNew, List.mem_cons]
        constructor
        · rintro (h | h | h)
          · exact Or.inl (Or.inr h)
          · exact Or.inl (Or.inl h)
          · exact Or.inr h
        · rintro ((h | h) | h)
          · exact Or.inr (Or.inl h)
          · exact Or.inl h
          · exact Or.inr (Or.inr h)
      · rw [List.mem_cons, not_or] at hu
        rw [h2 u hu.2, colorAt_insertNew, if_neg fun h => hu.1 h.1]
      · rw [List.map_cons, h3, h2 v hnd.1, colorAt_insertNew,
          if_pos ⟨rfl, hnew v (List.mem_cons_self ..)⟩]

end Coloring

namespace ParallelSolution

section
variable {p : ParallelSolution} {placement : List Int}

/-- **The leaves**: each gets its node, and only nodes of the placement are to be avoided. -/
theorem foldl_colorLeaf (hlen : placement.length = p.ecn) (ls : List Nat)
    (st : Coloring × List Int) (hst : ∀ u ∈ st.1, colorAt st.1 u = p.leafNode placement u) :
    (∀ u, u ∈ (ls.foldl (p.colorLeaf placement) st).1 ↔ u ∈ ls ∨ u ∈ st.1) ∧
      (∀ u ∈ (ls.foldl (p.colorLeaf placement) st).1,
        colorAt (ls.foldl (p.colorLeaf placement) st).1 u = p.leafNode placement u) ∧
      (∀ x ∈ st.2, x ∈ (ls.foldl (p.colorLeaf placement) st).2) ∧
      ∀ x ∈ (ls.foldl (p.colorLeaf placement) st).2, x ∈ st.2 ∨ x ∈ placement := by
  induction ls generalizing st with
  | nil => exact ⟨by simp, hst, fun x hx => hx, fun x hx => Or.inl hx⟩
  | cons l ls ih =>
    have hnext : ∀ u ∈ (p.colorLeaf placement st l).1,
        colorAt (p.colorLeaf placement st l).1 u = p.leafNode placement u := by
      intro u hu
      rcases (Coloring.mem_insertNew _ _ _ _).1 hu with rfl | hu
      · simp only [colorLeaf, Coloring.colorAt_insertNew]
        split
        · rfl
        · next h => exact hst u (by simpa using h)
      · simp only [colorLeaf, Coloring.colorAt_insertNew]
        rw [if_neg fun h => h.2 hu]
        exact hst u hu
    obtain ⟨h1, h2, h3, h4⟩ := ih (p.colorLeaf placement st l) hnext
    rw [List.foldl_cons]
    refine ⟨fun u => ?_, h2, fun x hx => h3 x ?_, fun x hx => ?_⟩
    · rw [h1, List.mem_cons, colorLeaf, Coloring.mem_insertNew, or_assoc, or_left_comm]
    · simp only [colorLeaf]
      split
      · exact List.mem_append_left _ hx
      · exact hx
    · refine (h4 x hx).elim (fun hx => ?_) Or.inr
      simp only [colorLeaf] at hx
      split at hx
      · next hreal =>
        rcases List.mem_append.1 hx with hx | hx
        · exact Or.inl hx
        · rw [List.mem_singleton.1 hx, leafNode, if_pos hreal.1,
            List.getD_eq_getElem _ _ (hlen.symm ▸ hreal.1)]
          exact Or.inr (List.getElem_mem _)
      · exact Or.inl hx

/-- **The entries of `prepare`** are those of the leaves and the concatenations. -/
theorem mem_prepare (p : ParallelSolution) (placement : List Int) (d : ECDAG)
    (failNodeIds : List Int) (scenario : Scenario) (draws : Nat → Nat) (u : Nat) :
    u ∈ p.prepare placement d failNodeIds scenario draws ↔ u ∈ d.ecLeaves ∨ u ∈ d.ecConcacts := by
  have hleaves : ∀ (ls : List Nat) (st : Coloring × List Int),
      u ∈ (ls.foldl (p.colorLeaf placement) st).1 ↔ u ∈ ls ∨ u ∈ st.1 := by
    intro ls
    induction ls with
    | nil => simp
    | cons l ls ih =>
      intro st
      rw [List.foldl_cons, ih, colorLeaf, Coloring.mem_insertNew, List.mem_cons, or_left_comm, or_assoc]
  have hstandby : ∀ (vs : List Nat) (i : Nat) (res : Coloring),
      u ∈ (vs.zipIdx i).foldl p.colorConcactStandby res ↔ u ∈ vs ∨ u ∈ res := by
    intro vs
    induction vs with
    | nil => simp
    | cons v vs ih =>
      intro i res
      rw [List.zipIdx_cons, List.foldl_cons, ih, colorConcactStandby, Coloring.mem_insertNew,
        List.mem_cons, or_left_comm, or_assoc]
  have hscatter : ∀ (vs : List Nat) (i : Nat) (st : Coloring × List Int),
      u ∈ ((vs.zipIdx i).foldl (p.colorConcactScatter placement draws) st).1 ↔ u ∈ vs ∨ u ∈ st.1 := by
    intro vs
    induction vs with
    | nil => simp
    | cons v vs ih =>
      intro i st
      rw [List.zipIdx_cons, List.foldl_cons, ih, colorConcactScatter, Coloring.mem_insertNew,
        List.mem_cons, or_left_comm, or_assoc]
  have hempty : u ∉ (∅ : Coloring) := AList.notMem_empty u
  unfold prepare
  cases scenario with
  | standby =>
    simp only [hstandby, hleaves, hempty, or_false]
    exact or_comm
  | scatter =>
    simp only [hscatter, hleaves, hempty, or_false]
    exact or_comm

/-- **Standby**: one node after the other. -/
theorem foldl_colorConcactStandby (vs : List Nat) (i : Nat) (res : Coloring) :
    (vs.zipIdx i).foldl p.colorConcactStandby res =
      (vs.zip ((List.range' i vs.length).map fun j => ((p.agentsNum + j : Nat) : Int))).foldl
        (fun r e => Coloring.insertNew r e.1 e.2) res := by
  induction vs generalizing i res with
  | nil => rfl
  | cons v vs ih =>
    rw [List.zipIdx_cons, List.foldl_cons, ih, List.length_cons, List.range'_succ, List.map_cons,
      List.zip_cons_cons, List.foldl_cons]
    rfl

/-- The nodes drawn so far are not drawn again. -/
theorem shrinks_spare : Draws.Shrinks (p.spare placement) := by
  have hnodup : ∀ avoid, (p.spare placement avoid).Nodup := fun avoid =>
    (List.nodup_range.map fun _ _ h => Int.ofNat_inj.1 h).filter _
  refine ⟨hnodup, fun avoid r _ => ?_⟩
  rw [(hnodup avoid).erase_eq_filter, spare, spare, List.filter_filter]
  refine List.filter_congr fun i _ => ?_
  rw [Bool.eq_iff_iff]
  simp only [Bool.and_eq_true, decide_eq_true_eq, List.mem_append, List.mem_singleton, not_or,
    bne_iff_ne, ne_eq]
  exact ⟨fun h => ⟨h.2.2, h.1, h.2.1⟩, fun h => ⟨h.2.1, h.2.2, h.1⟩⟩

/-- **Scatter**: the concatenations get the draws. -/
theorem foldl_colorConcactScatter (placement : List Int) (draws : Nat → Nat) (vs : List Nat) (i : Nat)
    (st : Coloring × List Int) : ((vs.zipIdx i).foldl (p.colorConcactScatter placement draws) st).1 =
      (vs.zip (Draws.draw (p.spare placement) 0 draws i st.2 vs.length)).foldl
        (fun r e => Coloring.insertNew r e.1 e.2) st.1 := by
  induction vs generalizing i st with
  | nil => rfl
  | cons v vs ih =>
    rw [List.zipIdx_cons, List.foldl_cons, ih]
    rfl

/-- Where a repair node comes from. -/
def RepairNode (p : ParallelSolution) (placement failNodeIds : List Int) (scenario : Scenario)
    (r : Int) : Prop :=
  match scenario with
  | .standby => (p.agentsNum : Int) ≤ r
  | .scatter => r ∈ p.spare placement failNodeIds

theorem RepairNode.fresh {failNodeIds : List Int} {scenario : Scenario}
    (ha : p.Admissible placement failNodeIds scenario) {r : Int}
    (h : p.RepairNode placement failNodeIds scenario r) :
    0 ≤ r ∧ r ∉ failNodeIds ∧ r ∉ placement := by
  cases scenario with
  | standby =>
    have hsmall := ha.standby rfl
    have hr : (p.agentsNum : Int) ≤ r := h
    refine ⟨by omega, fun hm => ?_, fun hm => ?_⟩
    · have := hsmall _ (List.mem_append_right _ hm)
      omega
    · have := hsmall _ (List.mem_append_left _ hm)
      omega
  | scatter =>
    have hr : r ∈ p.spare placement failNodeIds := h
    rw [spare, List.mem_filter, decide_eq_true_eq] at hr
    obtain ⟨j, -, rfl⟩ := List.mem_map.1 hr.1
    exact ⟨by omega, hr.2.2, hr.2.1⟩

section
variable {failNodeIds : List Int} {scenario : Scenario}
  (ha : p.Admissible placement failNodeIds scenario) (draws : Nat → Nat) {d : ECDAG}
  (hR : p.ecn ≤ REQUESTOR) (hd : RepairDag d p.ecn p.ecw (p.failBlocks placement failNodeIds))
include ha hR hd

omit hR in
/-- The repair nodes are entered one after the other into the colouring of the leaves. -/
theorem prepare_zip : ∃ rs : List Int, rs.length = d.ecConcacts.length ∧ rs.Nodup ∧
    (∀ r ∈ rs, p.RepairNode placement failNodeIds scenario r) ∧
    p.prepare placement d failNodeIds scenario draws =
      (d.ecConcacts.zip rs).foldl (fun r e => Coloring.insertNew r e.1 e.2)
        (d.ecLeaves.foldl (p.colorLeaf placement) (∅, failNodeIds)).1 := by
  have hempty : ∀ u ∈ ((∅ : Coloring), failNodeIds).1,
      colorAt ((∅ : Coloring), failNodeIds).1 u = p.leafNode placement u :=
    fun u hu => absurd hu (AList.notMem_empty u)
  obtain ⟨-, -, hav1, hav2⟩ := foldl_colorLeaf ha.length d.ecLeaves (∅, failNodeIds) hempty
  unfold prepare
  cases scenario with
  | standby =>
    refine ⟨_, ?_, ?_, fun r hr => ?_, foldl_colorConcactStandby ..⟩
    · simp
    · exact List.Nodup.map (fun a b h => by omega) List.nodup_range'
    · obtain ⟨j, -, rfl⟩ := List.mem_map.1 hr
      show (p.agentsNum : Int) ≤ _
      omega
  | scatter =>
    have hspare : p.spare placement
        (d.ecLeaves.foldl (p.colorLeaf placement) (∅, failNodeIds)).2 =
          p.spare placement failNodeIds := by
      refine List.filter_congr fun i _ => ?_
      rw [decide_eq_decide]
      refine and_congr_right fun hi => not_congr ⟨fun hm => ?_, hav1 i⟩
      exact (hav2 i hm).resolve_right hi
    have hcount : d.ecConcacts.length = (p.failBlocks placement failNodeIds).card := by
      rw [hd.concacts, List.length_map]
      exact length_losses (Finset.filter_subset _ _)
    have henough : d.ecConcacts.length ≤ (p.spare placement
        (d.ecLeaves.foldl (p.colorLeaf placement) (∅, failNodeIds)).2).length := by
      rw [hspare, hcount]
      exact ha.scatter rfl
    refine ⟨_, Draws.length_draw .., Draws.nodup_draw shrinks_spare henough, fun r hr => ?_,
      foldl_colorConcactScatter placement draws d.ecConcacts 0 _⟩
    have hr' := Draws.mem_of_mem_draw shrinks_spare henough hr
    rw [hspare] at hr'
    exact hr'

/-- **After `prepare`** the repair nodes are distinct, not failed and not in the placement. -/
theorem prepare_spec :
    p.Prepared placement d failNodeIds (p.prepare placement d failNodeIds scenario draws) ∧
      ∀ v ∈ d.ecConcacts, p.RepairNode placement failNodeIds scenario
        (colorAt (p.prepare placement d failNodeIds scenario draws) v) := by
  obtain ⟨rs, hlen, hrs, horigin, heq⟩ := prepare_zip ha draws hd
  have hempty : ∀ u ∈ ((∅ : Coloring), failNodeIds).1,
      colorAt ((∅ : Coloring), failNodeIds).1 u = p.leafNode placement u :=
    fun u hu => absurd hu (AList.notMem_empty u)
  obtain ⟨hkeys, hleaf, -, -⟩ := foldl_colorLeaf ha.length d.ecLeaves (∅, failNodeIds) hempty
  have hnodup : d.ecConcacts.Nodup := hd.concacts ▸ nodup_concacts hR _
  -- a concatenation is a header, so it has children and is no leaf
  have hnew : ∀ v ∈ d.ecConcacts,
      v ∉ (d.ecLeaves.foldl (p.colorLeaf placement) (∅, failNodeIds)).1 := by
    intro v hv hm
    have hl : v ∈ d.ecLeaves := by simpa [AList.notMem_empty] using (hkeys v).1 hm
    exact (hd.concact_mem hv).2 hl
  obtain ⟨h1, h2, h3⟩ := Coloring.foldl_insertNew_zip d.ecConcacts rs _ hlen.symm hnodup hnew
  rw [← heq] at h1 h2 h3
  have hfrom : ∀ v ∈ d.ecConcacts, p.RepairNode placement failNodeIds scenario
      (colorAt (p.prepare placement d failNodeIds scenario draws) v) := by
    intro v hv
    have hmem := List.mem_map_of_mem
      (f := colorAt (p.prepare placement d failNodeIds scenario draws)) hv
    rw [h3] at hmem
    exact horigin _ hmem
  refine ⟨⟨fun v => ?_, fun v hv => ?_, h3.symm ▸ hrs, fun v hv => (hfrom v hv).fresh ha⟩, hfrom⟩
  · rw [h1, hkeys, or_comm]
    simp [AList.notMem_empty]
  · have hm := (hkeys v).2 (Or.inl hv)
    rw [h2 v fun hc => hnew v hc hm]
    exact hleaf v hm

end

end

end ParallelSolution

end StripeRepair

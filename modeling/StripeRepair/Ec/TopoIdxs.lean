import StripeRepair.Lib.Worklist
import StripeRepair.Ec.Levels
import StripeRepair.Ec.Representation
import Mathlib.Data.List.Sort

/-!
# `genTopoIdxs` and `genItmIdxs`

The planner colours the intermediate vertices children first.

* `Consistent.genTopoIdxs_spec`: each vertex that is no leaf and no concatenation is
  listed once, after its children.
* `zeros`: the vertices whose packet is known to be zero.
-/

namespace StripeRepair

namespace ECDAG

/-- The vertices that are neither headers nor leaves, in ascending order. -/
def genItmIdxs (d : ECDAG) : List Nat :=
  (d.nodeIds.filter fun v => v ∉ d.ecHeaders ∧ v ∉ d.ecLeaves).insertionSort (· ≤ ·)

/-- The vertices in the order the queue gives them out. A round takes a vertex off, so there
are no more rounds than vertices. -/
def queueOrder (d : ECDAG) (ord : HashOrder Walk) : List Nat :=
  Worklist.run (fun idx => if d.outref idx = 0 then [] else d.parentIds idx) d.ecNodeMap.length
    ⟨fun v => (d.childIndices v).length,
      (ord.order (.inref 0) d.nodeIds).filter fun v => d.childIndices v = []⟩

def genTopoIdxs (d : ECDAG) (ord : HashOrder Walk) : List Nat :=
  (d.queueOrder ord).filter fun idx => idx ∉ d.ecConcacts ∧ idx ∉ d.ecLeaves

/-- The packet of the vertex is zero, when those of `zs` are. -/
def isZero (d : ECDAG) (ecn ecw : Nat) (zs : List Nat) (nd : ECNode) : Bool :=
  if nd.childNodes = [] then ¬ nd.nodeId / ecw < ecn
  else nd.nodeId ∉ d.ecConcacts ∧ ∀ c ∈ nd.childNodes, c ∈ zs

/-- The leaves of no block, and the vertices with such children only, among the vertices `l`. -/
def zerosIn (d : ECDAG) (ecn ecw : Nat) (l : List ECNode) : List Nat :=
  l.foldl (fun zs nd => if d.isZero ecn ecw zs nd then zs ++ [nd.nodeId] else zs) []

def zeros (d : ECDAG) (ecn ecw : Nat) : List Nat := d.zerosIn ecn ecw d.ecNodeMap

theorem mem_genItmIdxs {d : ECDAG} {v : Nat} :
    v ∈ d.genItmIdxs ↔ v ∈ d.nodeIds ∧ v ∉ d.ecHeaders ∧ v ∉ d.ecLeaves := by
  rw [genItmIdxs, (List.perm_insertionSort _ _).mem_iff, List.mem_filter, decide_eq_true_eq]

/-! ## The order -/

/-- What the queue starts with. -/
def queueStart (d : ECDAG) (ord : HashOrder Walk) : Worklist.State Nat :=
  ⟨fun v => (d.childIndices v).length,
    (ord.order (.inref 0) d.nodeIds).filter fun v => d.childIndices v = []⟩

/-- The parents whose count is lowered. -/
def waiting (d : ECDAG) (idx : Nat) : List Nat := if d.outref idx = 0 then [] else d.parentIds idx

/-- **The queue gives each vertex out once**, after its children; then it is empty. -/
theorem Consistent.queueOrder_spec {d : ECDAG} (hd : d.Consistent) (ord : HashOrder Walk) :
    (d.queueOrder ord).Perm d.nodeIds ∧
      LinearProgram.Ordered id d.childIndices (fun v => v ∈ []) (d.queueOrder ord) ∧
      Worklist.Rounds d.waiting (d.queueStart ord) (d.queueOrder ord) := by
  obtain ⟨h, hh⟩ := hd.exists_measures
  have hedge : ∀ v ∈ d.nodeIds, ∀ p, (d.waiting v).count p = (d.childIndices p).count v := by
    intro v _ p
    rw [← hd.edges, waiting]
    split
    · next h0 => rw [hd.outref_eq_zero h0]
    · rfl
  have hfront : Worklist.Front d.nodeIds d.childIndices [] (d.queueStart ord) := by
    refine ⟨((ord.perm _ _).nodup_iff.2 hd.nodup).filter _, fun v => ?_, fun v => ?_⟩
    · rw [List.countP_eq_length.2 (by simp)]
      rfl
    · rw [List.nil_append, queueStart, List.mem_filter, HashOrder.mem_order, decide_eq_true_eq,
        List.eq_nil_iff_forall_not_mem]
      simp
  exact hfront.run_spec hedge
    (fun p c hc => ⟨hd.closed p c hc, mem_nodeIds_of_childIndices hc⟩) h
    (fun p c hc => hh.lt hc) hd.nodup _ (by simp [nodeIds])

/-- **Each vertex that is no leaf and no concatenation once**, after its children. -/
theorem Consistent.genTopoIdxs_spec {d : ECDAG} (hd : d.Consistent) (ord : HashOrder Walk) :
    (d.genTopoIdxs ord).Nodup ∧
      (∀ v, v ∈ d.genTopoIdxs ord ↔ v ∈ d.nodeIds ∧ v ∉ d.ecConcacts ∧ v ∉ d.ecLeaves) ∧
      LinearProgram.Ordered id d.childIndices (fun v => v ∈ d.ecConcacts ∨ v ∈ d.ecLeaves)
        (d.genTopoIdxs ord) := by
  obtain ⟨hperm, hord, -⟩ := hd.queueOrder_spec ord
  refine ⟨(hperm.nodup_iff.2 hd.nodup).filter _, fun v => ?_, ?_⟩
  · rw [genTopoIdxs, List.mem_filter, hperm.mem_iff, decide_eq_true_eq]
  · refine (hord.filter fun v => decide (v ∉ d.ecConcacts ∧ v ∉ d.ecLeaves)).mono fun v hv => ?_
    rcases hv with hv | hv
    · exact absurd hv List.not_mem_nil
    · rw [decide_eq_true_eq, not_and_or, not_not, not_not] at hv
      exact hv

section
variable {d : ECDAG} (hd : d.WellFormed)
include hd

theorem WellFormed.genTopoIdxs_spec (ord : HashOrder Walk) :
    (d.genTopoIdxs ord).Nodup ∧
      (∀ v, v ∈ d.genTopoIdxs ord ↔ v ∈ d.nodeIds ∧ v ∉ d.ecConcacts ∧ v ∉ d.ecLeaves) ∧
      LinearProgram.Ordered id d.childIndices (fun v => v ∈ d.ecConcacts ∨ v ∈ d.ecLeaves)
        (d.genTopoIdxs ord) := hd.consistent.genTopoIdxs_spec ord

/-- Fewer vertices come before one in the list than there are. -/
theorem WellFormed.length_pre_lt {ord : HashOrder Walk} {pre post : List Nat} {v : Nat}
    (hl : d.genTopoIdxs ord = pre ++ v :: post) : pre.length < d.nodeIds.length := by
  obtain ⟨hnodup, hmem, -⟩ := hd.genTopoIdxs_spec ord
  have hsub : d.genTopoIdxs ord ⊆ d.nodeIds := fun u hu => ((hmem u).1 hu).1
  have hle := hnodup.length_le_of_subset hsub
  rw [hl, List.length_append, List.length_cons] at hle
  omega

/-! ## The zero vertices -/

omit hd in
theorem isZero_congr {ecn ecw : Nat} {zs zs' : List Nat} {nd : ECNode}
    (h : ∀ c ∈ nd.childNodes, c ∈ zs ↔ c ∈ zs') :
    d.isZero ecn ecw zs nd = d.isZero ecn ecw zs' nd := by
  have hall : (∀ c ∈ nd.childNodes, c ∈ zs) ↔ ∀ c ∈ nd.childNodes, c ∈ zs' :=
    forall₂_congr fun c hc => h c hc
  unfold isZero
  simp only [hall]

omit hd in
theorem mem_zerosIn_concat (ecn ecw : Nat) (l : List ECNode) (x : ECNode) (v : Nat) :
    v ∈ d.zerosIn ecn ecw (l ++ [x]) ↔ v ∈ d.zerosIn ecn ecw l ∨
      (d.isZero ecn ecw (d.zerosIn ecn ecw l) x = true ∧ v = x.nodeId) := by
  simp only [zerosIn, List.foldl_append, List.foldl_cons, List.foldl_nil]
  split
  · next h => simp [h]
  · next h => simp [h]

omit hd in
theorem zerosIn_subset (ecn ecw : Nat) (l : List ECNode) :
    ∀ v ∈ d.zerosIn ecn ecw l, v ∈ l.map ECNode.nodeId := by
  induction l using List.reverseRecOn with
  | nil => exact fun v hv => hv
  | append_singleton l x ih =>
    intro v hv
    rw [List.map_append, List.mem_append]
    rcases (mem_zerosIn_concat ecn ecw l x v).1 hv with hv | ⟨-, hv⟩
    · exact Or.inl (ih v hv)
    · exact Or.inr (by simp [hv])

omit hd in
/-- A later vertex adds itself only, and is no child of an earlier one. -/
theorem mem_zerosIn (ecn ecw : Nat) {l : List ECNode}
    (hord : LinearProgram.Ordered ECNode.nodeId ECNode.childNodes (fun _ => False) l)
    (hnodup : (l.map ECNode.nodeId).Nodup) : ∀ nd ∈ l, nd.nodeId ∈ d.zerosIn ecn ecw l ↔
      d.isZero ecn ecw (d.zerosIn ecn ecw l) nd = true := by
  induction l using List.reverseRecOn with
  | nil => exact fun nd hnd => absurd hnd List.not_mem_nil
  | append_singleton l x ih =>
    rw [LinearProgram.ordered_append] at hord
    rw [List.map_append, List.nodup_append] at hnodup
    have hx : x.nodeId ∉ l.map ECNode.nodeId := fun h =>
      hnodup.2.2 _ h _ (List.mem_singleton_self _) rfl
    have hother : ∀ v ∈ l.map ECNode.nodeId,
        v ∈ d.zerosIn ecn ecw (l ++ [x]) ↔ v ∈ d.zerosIn ecn ecw l := by
      intro v hv
      rw [mem_zerosIn_concat]
      exact or_iff_left fun h => hx (h.2 ▸ hv)
    intro nd hnd
    rcases List.mem_append.1 hnd with hnd | hnd
    · have hchild : ∀ c ∈ nd.childNodes, c ∈ l.map ECNode.nodeId := fun c hc => by
        simpa only [false_or] using hord.1.srcs_mem nd hnd c hc
      rw [hother _ (List.mem_map_of_mem hnd), ih hord.1 hnodup.1 nd hnd]
      exact Bool.eq_iff_iff.1 (isZero_congr fun c hc => (hother c (hchild c hc)).symm)
    · have hchild : ∀ c ∈ x.childNodes, c ∈ l.map ECNode.nodeId := fun c hc => by
        simpa only [false_or] using hord.2.1 c hc
      rw [List.mem_singleton.1 hnd, ← isZero_congr fun c hc => (hother c (hchild c hc)).symm,
        mem_zerosIn_concat, and_iff_left rfl]
      exact or_iff_right fun h => hx (zerosIn_subset ecn ecw l _ h)

theorem WellFormed.mem_zeros_leaf {v : Nat} (hv : v ∈ d.nodeIds) (h : d.childIndices v = [])
    (ecn ecw : Nat) : v ∈ d.zeros ecn ecw ↔ ¬ v / ecw < ecn := by
  obtain ⟨nd, hnd, rfl⟩ := List.mem_map.1 hv
  rw [hd.childIndices_eq hnd] at h
  rw [zeros, mem_zerosIn ecn ecw hd.ordered hd.nodup nd hnd, isZero, if_pos h, decide_eq_true_eq]

theorem WellFormed.mem_zeros_inner {v : Nat} (h : d.childIndices v ≠ []) (hc : v ∉ d.ecConcacts)
    (ecn ecw : Nat) : v ∈ d.zeros ecn ecw ↔ ∀ c ∈ d.childIndices v, c ∈ d.zeros ecn ecw := by
  obtain ⟨c, hcv⟩ := List.exists_mem_of_ne_nil _ h
  obtain ⟨nd, hnd, rfl⟩ := List.mem_map.1 (hd.childIndices_nodeIds hcv).2
  rw [hd.childIndices_eq hnd] at h ⊢
  rw [zeros, mem_zerosIn ecn ecw hd.ordered hd.nodup nd hnd, isZero, if_neg h, decide_eq_true_eq,
    and_iff_right hc]

theorem WellFormed.not_mem_zeros_concact {v : Nat} (h : d.childIndices v ≠ [])
    (hc : v ∈ d.ecConcacts) (ecn ecw : Nat) : v ∉ d.zeros ecn ecw := by
  obtain ⟨c, hcv⟩ := List.exists_mem_of_ne_nil _ h
  obtain ⟨nd, hnd, rfl⟩ := List.mem_map.1 (hd.childIndices_nodeIds hcv).2
  rw [hd.childIndices_eq hnd] at h
  rw [zeros, mem_zerosIn ecn ecw hd.ordered hd.nodup nd hnd, isZero, if_neg h, decide_eq_true_eq]
  exact fun hz => hz.1 hc

end

end ECDAG

end StripeRepair

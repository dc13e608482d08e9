import StripeRepair.Ec.WellFormed

/-!
# The value of a DAG, vertex by vertex

* `WellFormed.eval_inner`: a vertex is the combination of its children.
* `WellFormed.eval_leaf`: a leaf keeps its packet.
* `WellFormed.eval_induction`: what holds of a vertex when it holds of its children.
-/

namespace StripeRepair

namespace ECDAG

def instrOf (nd : ECNode) : LinearProgram.Instr GF256 Nat := ⟨nd.nodeId, nd.args⟩

theorem srcs_instrOf {nd : ECNode} {v : Nat} (hv : v ∈ (instrOf nd).srcs) : v ∈ nd.childNodes := by
  obtain ⟨a, ha, rfl⟩ := List.mem_map.1 hv
  exact (List.of_mem_zip ha).2

/-- The assignments are in order when the vertices are: a leaf is nobody's target. -/
theorem inOrder_instrs {l : List ECNode} {S T : Nat → Prop} (hST : ∀ v, S v → T v)
    (hleaf : ∀ nd ∈ l, nd.childNodes = [] → T nd.nodeId)
    (hl : LinearProgram.Ordered ECNode.nodeId ECNode.childNodes S l) :
    LinearProgram.InOrder T ((l.filter fun nd => nd.childNodes ≠ []).map instrOf) := by
  induction l generalizing S T with
  | nil => trivial
  | cons nd l ih =>
    have hleaf' : ∀ nd ∈ l, nd.childNodes = [] → T nd.nodeId :=
      fun nd hnd => hleaf nd (List.mem_cons_of_mem _ hnd)
    rw [List.filter_cons]
    by_cases hnil : nd.childNodes = []
    · rw [if_neg (by simpa using hnil)]
      refine ih ?_ hleaf' hl.2
      rintro v (hv | rfl)
      · exact hST v hv
      · exact hleaf nd (List.mem_cons_self ..) hnil
    · rw [if_pos (by simpa using hnil)]
      refine ⟨fun v hv => hST v (hl.1 v (srcs_instrOf hv)), ih ?_ ?_ hl.2⟩
      · rintro v (hv | rfl)
        · exact Or.inl (hST v hv)
        · exact Or.inr rfl
      · exact fun nd hnd h => Or.inl (hleaf' nd hnd h)

section
variable {d : ECDAG} (hd : d.WellFormed)
include hd

omit hd in
theorem targets_program : LinearProgram.targets d.program =
    (d.ecNodeMap.filter fun nd => nd.childNodes ≠ []).map ECNode.nodeId := by
  rw [LinearProgram.targets, program, List.map_map]
  rfl

theorem WellFormed.not_mem_targets {v : Nat} (h : d.childIndices v = []) :
    v ∉ LinearProgram.targets d.program := by
  rw [targets_program]
  intro hv
  obtain ⟨nd, hnd, rfl⟩ := List.mem_map.1 hv
  obtain ⟨hnd, hne⟩ := List.mem_filter.1 hnd
  rw [hd.childIndices_eq hnd] at h
  exact absurd h (of_decide_eq_true hne)

theorem WellFormed.getCoefs_eq {nd : ECNode} (hnd : nd ∈ d.ecNodeMap) :
    d.getCoefs nd.nodeId = nd.coefs := by
  rw [getCoefs, hd.node?_eq hnd]
  rfl

/-- What holds of a vertex when it holds of its children holds of all vertices. -/
theorem WellFormed.eval_induction {P : Nat → Prop}
    (step : ∀ v ∈ d.nodeIds, (∀ c ∈ d.childIndices v, P c) → P v) : ∀ v ∈ d.nodeIds, P v := by
  intro v hv
  obtain ⟨nd, hnd, rfl⟩ := List.mem_map.1 hv
  refine hd.ordered.induction (fun _ h => h.elim) (fun q hq ih => ?_) nd hnd
  refine step _ (List.mem_map_of_mem hq) fun c hc => ih c ?_
  rwa [hd.childIndices_eq hq] at hc

variable {M : Type} [AddCommMonoid M] [Module GF256 M] (x : Nat → M)

theorem WellFormed.eval_leaf {v : Nat} (h : d.childIndices v = []) : d.eval x v = x v :=
  LinearProgram.run_of_not_mem x (hd.not_mem_targets h)

/-- **A vertex is the combination of its children.** -/
theorem WellFormed.eval_inner {v : Nat} (h : d.childIndices v ≠ []) : d.eval x v =
    LinearProgram.combine (((d.getCoefs v).map GF256.ofInt).zip (d.childIndices v)) (d.eval x) := by
  obtain ⟨c, hc⟩ := List.exists_mem_of_ne_nil _ h
  obtain ⟨nd, hnd, rfl⟩ := List.mem_map.1 (hd.childIndices_nodeIds hc).2
  rw [hd.childIndices_eq hnd] at h ⊢
  rw [hd.getCoefs_eq hnd]
  have hnodup : (LinearProgram.targets d.program).Nodup := by
    rw [targets_program]
    exact hd.nodup.sublist (List.filter_sublist.map _)
  have hord : LinearProgram.InOrder (fun v => v ∉ LinearProgram.targets d.program) d.program := by
    refine inOrder_instrs (fun _ h => h.elim) (fun q hq hnil => hd.not_mem_targets ?_) hd.ordered
    rw [hd.childIndices_eq hq, hnil]
  refine LinearProgram.run_dst x hnodup hord (instrOf nd) ?_
  exact List.mem_map_of_mem (List.mem_filter.2 ⟨hnd, decide_eq_true h⟩)

end

end ECDAG

end StripeRepair

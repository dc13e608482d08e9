import StripeRepair.Sol.Coloring
import StripeRepair.Ec.HHXORPlus

/-!
# The colouring is legal

What both methods leave: every vertex on a node that may be used, the leaves and the repaired
blocks where they were put before.

* `coloring_safe`: every colour is -1, a surviving node or a repair node.
* `undropped_of_nodup`: method 1 drops no transfer when its groups are disjoint.
* `coloring_legal`: method 0 is legal, and method 1 is when no transfer is dropped and no group
  holds a concatenation or a zero vertex.
* `coloring_moves_concact`: a run of method 1 that moves a failed block.
-/

namespace StripeRepair

open PRSolution (colorAt)

namespace ParallelSolution

/-! ## What a colouring has to be -/

section
variable (p : ParallelSolution) (d : ECDAG) (placement failNodeIds : List Int)

/-- A surviving node of the stripe or one of its repair nodes. -/
def Usable (prepared : Coloring) (c : Int) : Prop :=
  (c ∈ placement ∧ c ∉ failNodeIds) ∨ ∃ v ∈ d.ecConcacts, colorAt prepared v = c

/-- The colouring is total and legal; `prepared` is the one `prepare` left. -/
structure Legal (prepared coloring : Coloring) : Prop where
  total : ∀ v ∈ d.nodeIds, v ∈ coloring
  realLeaf : ∀ v ∈ d.ecLeaves, v / p.ecw < p.ecn →
    placement[v / p.ecw]? = some (colorAt coloring v)
  virtualLeaf : ∀ v ∈ d.ecLeaves, ¬ v / p.ecw < p.ecn → colorAt coloring v = -1
  concact : ∀ v ∈ d.ecConcacts, colorAt coloring v = colorAt prepared v
  repairNodup : (d.ecConcacts.map (colorAt prepared)).Nodup
  repairNew : ∀ v ∈ d.ecConcacts, colorAt prepared v ∉ failNodeIds ∧ colorAt prepared v ∉ placement
  usable : ∀ v ∈ d.nodeIds, v ∉ d.ecLeaves → v ∉ d.ecConcacts →
    colorAt coloring v = -1 ∨ Usable d placement failNodeIds prepared (colorAt coloring v)
  zero : ∀ v ∈ d.nodeIds, v ∉ d.ecLeaves → v ∉ d.ecConcacts →
    (colorAt coloring v = -1 ↔ ∀ c ∈ d.childIndices v, colorAt coloring c = -1)

/-- A bound on what the planner adds to an entry of the load table. -/
def moveBound : Nat :=
  d.nodeIds.length * d.numEdges + d.nodeIds.length * (2 * d.numEdges * d.numEdges) +
    (d.numEdges * d.numEdges + 2 * d.numEdges)

/-- The loads that are evaluated stay below `INT_MAX`. -/
def Room (loadTable : List (List Int)) : Prop :=
  ∀ row ∈ loadTable, row.getD 0 0 + moveBound d < INT_MAX ∧ row.getD 1 0 + moveBound d < INT_MAX

end

/-! ## The groups of method 1 -/

/-- `lead` lists the vertices whose group is coloured, `colored` what these groups hold. -/
structure Groups where
  lead : List Nat
  colored : List Nat

def groupStep (d : ECDAG) (ecn ecw : Nat) (g : Groups) (idx : Nat) : Groups :=
  if idx ∈ g.colored ∨ ∀ c ∈ d.childIndices idx, c ∈ d.ecLeaves ∧ ¬ c / ecw < ecn then g
  else ⟨g.lead ++ [idx], g.colored ++ d.siblings idx⟩

/-- A vertex leads its group when no group before it holds it, and not all its children are
leaves of no block. -/
def groups (d : ECDAG) (ecn ecw : Nat) (ord : HashOrder Walk) : Groups :=
  (d.genTopoIdxs ord).foldl (groupStep d ecn ecw) ⟨[], []⟩

/-- The groups before are groups after. -/
theorem colored_prefix (d : ECDAG) (ecn ecw : Nat) (l : List Nat) (g : Groups) :
    g.colored <+: (l.foldl (groupStep d ecn ecw) g).colored := by
  induction l generalizing g with
  | nil => exact List.prefix_rfl
  | cons a l ih =>
    refine List.IsPrefix.trans ?_ (ih _)
    unfold groupStep
    split
    · exact List.prefix_rfl
    · exact List.prefix_append _ _

/-! ## Recolouring -/

section
variable {p : ParallelSolution} {placement failNodeIds : List Int} {d : ECDAG}
  {prepared : Coloring}

variable (p placement failNodeIds d prepared) in
/-- What holds while the stripe is coloured: every vertex is -1 or on a node that may be used. -/
structure Safe (st : StripeTables) (B : Nat) : Prop where
  keys : ∀ v, v ∈ st.coloring ↔ v ∈ d.nodeIds
  leaf : ∀ v ∈ d.ecLeaves, colorAt st.coloring v = p.leafNode placement v
  usable : ∀ v ∈ d.nodeIds, colorAt st.coloring v = -1 ∨
    Usable d placement failNodeIds prepared (colorAt st.coloring v)
  concact : ∀ v ∈ d.ecConcacts, colorAt st.coloring v ≠ -1
  cells : st.cells.LeBy B

theorem Safe.mono {st : StripeTables} {B B' : Nat} (h : Safe p placement failNodeIds d prepared st B)
    (hB : B ≤ B') : Safe p placement failNodeIds d prepared st B' :=
  ⟨h.keys, h.leaf, h.usable, h.concact, h.cells.mono hB⟩

variable (hd : RepairDag d p.ecn p.ecw (p.failBlocks placement failNodeIds))
  (hlen : placement.length = p.ecn) (hnodes : ∀ x ∈ placement, 0 ≤ x)
  (hp : p.Prepared placement d failNodeIds prepared)

include hnodes hp in
theorem Usable.ne {c : Int} (h : Usable d placement failNodeIds prepared c) : c ≠ -1 := by
  rcases h with ⟨hc, -⟩ | ⟨v, hv, rfl⟩
  · have := hnodes c hc
    omega
  · have := (hp.fresh v hv).1
    omega

variable (prepared) in
include hd hlen in
/-- A leaf of a block is on the node that stores it, and that node survived. -/
theorem leafNode_usable {v : Nat} (hv : v ∈ d.ecLeaves) (hreal : v / p.ecw < p.ecn) :
    placement[v / p.ecw]? = some (p.leafNode placement v) ∧
      Usable d placement failNodeIds prepared (p.leafNode placement v) := by
  have hlt : v / p.ecw < placement.length := hlen.symm ▸ hreal
  have hnode : p.leafNode placement v = placement[v / p.ecw] := by
    rw [leafNode, if_pos hreal, List.getD_eq_getElem _ _ hlt]
  have hfail := hd.surviving v hv
  simp only [failBlocks, Finset.mem_filter, Finset.mem_range, not_and] at hfail
  refine ⟨by rw [hnode, List.getElem?_eq_getElem hlt], Or.inl ⟨?_, ?_⟩⟩
  · rw [hnode]
    exact List.getElem_mem hlt
  · rw [leafNode, if_pos hreal]
    exact hfail hreal

include hd hnodes hp

theorem Safe.changeColor {ord' : HashOrder EvalWalk} {st st' : StripeTables} {B : Nat}
    (h : Safe p placement failNodeIds d prepared st B) {v : Nat} (hv : v ∈ d.nodeIds)
    (hl : v ∉ d.ecLeaves) {c : Int} (hc : Usable d placement failNodeIds prepared c)
    (hst : st.changeColor d ord' v c = some st') :
    Safe p placement failNodeIds d prepared st' (B + 2 * d.numEdges) ∧
      ∀ u, colorAt st'.coloring u = if u = v then c else colorAt st.coloring u := by
  obtain ⟨hcoloring, hcells⟩ := StripeTables.changeColor_some hst
  have hcolor : ∀ u, colorAt st'.coloring u = if u = v then c else colorAt st.coloring u := by
    intro u
    rw [hcoloring, PRSolution.colorAt_insert]
  refine ⟨⟨fun u => ?_, fun u hu => ?_, fun u hu => ?_, fun u hu => ?_,
    hcells ▸ hd.wellFormed.changeCells_leBy st.coloring h.cells v c⟩, hcolor⟩
  · rw [hcoloring, AList.mem_insert, h.keys]
    refine or_iff_right_of_imp ?_
    rintro rfl
    exact hv
  · rw [hcolor, if_neg fun he : u = v => hl (he ▸ hu)]
    exact h.leaf u hu
  · rw [hcolor]
    split
    · exact Or.inr hc
    · exact h.usable u hu
  · rw [hcolor]
    split
    · exact hc.ne hnodes hp
    · exact h.concact u hu

/-- A group gets one colour. -/
theorem Safe.recolorGroup {ord' : HashOrder EvalWalk} {c : Int}
    (hc : Usable d placement failNodeIds prepared c) (group : List Nat) {st st' : StripeTables}
    {B : Nat} (h : Safe p placement failNodeIds d prepared st B)
    (hgroup : ∀ v ∈ group, v ∈ d.nodeIds ∧ v ∉ d.ecLeaves)
    (hst : recolorGroup d ord' group c st = some st') :
    Safe p placement failNodeIds d prepared st' (B + group.length * (2 * d.numEdges)) ∧
      ∀ u, colorAt st'.coloring u = if u ∈ group then c else colorAt st.coloring u := by
  induction group generalizing st B with
  | nil =>
    obtain rfl : st = st' := Option.some.inj hst
    exact ⟨by simpa using h, fun u => rfl⟩
  | cons v group ih =>
    obtain ⟨hv, hl⟩ := hgroup v (List.mem_cons_self ..)
    obtain ⟨s1, hs1, hrun⟩ := Lts.run_cons hst
    obtain ⟨hsafe, hcolor⟩ := h.changeColor hd hnodes hp hv hl hc hs1
    obtain ⟨h1, h2⟩ := ih hsafe (fun u hu => hgroup u (List.mem_cons_of_mem _ hu)) hrun
    refine ⟨h1.mono ?_, fun u => ?_⟩
    · rw [List.length_cons, Nat.succ_mul group.length]
      omega
    · rw [h2, hcolor]
      by_cases hu : u ∈ group
      · rw [if_pos hu, if_pos (List.mem_cons_of_mem _ hu)]
      · rw [if_neg hu]
        by_cases huv : u = v
        · rw [if_pos huv, if_pos (huv ▸ List.mem_cons_self ..)]
        · rw [if_neg huv, if_neg (by simp [huv, hu])]

omit hd hnodes hp in
theorem cells_blank (ord' : HashOrder EvalWalk) : (blank d ord' prepared).cells =
    d.evaluateCells ord' (blank d ord' prepared).coloring :=
  StripeTables.cells_evaluateColoring ord' _

omit hnodes hp in
/-- **The start**: every vertex has an entry, and those that are neither leaves nor concatenations
are -1. -/
theorem blank_total (hkeys : ∀ v, v ∈ prepared ↔ v ∈ d.ecLeaves ∨ v ∈ d.ecConcacts)
    (ord' : HashOrder EvalWalk) : (blank d ord' prepared).Total d ∧
      (∀ v ∈ prepared, colorAt (blank d ord' prepared).coloring v = colorAt prepared v) ∧
      ∀ v ∈ d.nodeIds, v ∉ d.ecLeaves → v ∉ d.ecConcacts →
        colorAt (blank d ord' prepared).coloring v = -1 := by
  obtain ⟨hmem, hcolor⟩ := Coloring.foldl_insertNew_const (-1) d.genItmIdxs prepared
  have hitm : ∀ v, v ∈ d.genItmIdxs ↔ v ∈ d.nodeIds ∧ v ∉ d.ecConcacts ∧ v ∉ d.ecLeaves :=
    fun v => by rw [ECDAG.mem_genItmIdxs, hd.headers]
  refine ⟨fun v => ?_, fun v hv => (hcolor v).trans (if_neg fun h => h.2 hv), fun v hv hl hc => ?_⟩
  · refine (hmem v).trans ?_
    rw [hitm, hkeys]
    by_cases hl : v ∈ d.ecLeaves
    · simp [hl, ((hd.leaves v).1 hl).1]
    · by_cases hc : v ∈ d.ecConcacts
      · simp [hc, (hd.concact_mem hc).1]
      · simp [hl, hc]
  · refine (hcolor v).trans (if_pos ⟨(hitm v).2 ⟨hv, hc, hl⟩, fun hm => ?_⟩)
    exact ((hkeys v).1 hm).elim hl hc

omit hnodes in
/-- What is coloured at the start is as `prepare` left it. -/
theorem blank_safe (hlen : placement.length = p.ecn) (ord' : HashOrder EvalWalk) :
    Safe p placement failNodeIds d prepared (blank d ord' prepared)
        (d.nodeIds.length * d.numEdges) ∧
      ∀ v ∈ d.ecConcacts, colorAt (blank d ord' prepared).coloring v = colorAt prepared v := by
  obtain ⟨htotal, hold, hitm⟩ := blank_total hd hp.keys ord'
  have hconcact : ∀ v ∈ d.ecConcacts,
      colorAt (blank d ord' prepared).coloring v = colorAt prepared v :=
    fun v hv => hold v ((hp.keys v).2 (Or.inr hv))
  have hleaf : ∀ v ∈ d.ecLeaves,
      colorAt (blank d ord' prepared).coloring v = p.leafNode placement v :=
    fun v hv => (hold v ((hp.keys v).2 (Or.inl hv))).trans (hp.leaf v hv)
  refine ⟨⟨htotal, hleaf, fun v hv => ?_, fun v hv => ?_, ?_⟩, hconcact⟩
  · by_cases hl : v ∈ d.ecLeaves
    · rw [hleaf v hl]
      by_cases hreal : v / p.ecw < p.ecn
      · exact Or.inr (leafNode_usable prepared hd hlen hl hreal).2
      · exact Or.inl (if_neg hreal)
    · by_cases hc : v ∈ d.ecConcacts
      · exact Or.inr (Or.inr ⟨v, hc, (hconcact v hc).symm⟩)
      · exact Or.inl (hitm v hv hl hc)
  · rw [hconcact v hv]
    have := (hp.fresh v hv).1
    omega
  · have hperm : (blank d ord' prepared).coloring.keys.Perm d.nodeIds :=
      (List.perm_ext_iff_of_nodup (AList.keys_nodup _) hd.wellFormed.nodup).2 fun v => by
        rw [← AList.mem_keys]
        exact htotal v
    rw [← hperm.length_eq, cells_blank]
    exact hd.wellFormed.evaluateCells_leBy _ ord'

/-! ## One vertex -/

omit hnodes hp in
theorem candidates_usable (hR : p.ecn ≤ REQUESTOR) :
    ∀ c ∈ candidatesOf d p placement failNodeIds prepared,
      Usable d placement failNodeIds prepared c := by
  intro c hc
  rcases List.mem_append.1 hc with hc | hc
  · rw [List.mem_filter, decide_eq_true_eq] at hc
    exact Or.inl hc
  · obtain ⟨i, hi, rfl⟩ := List.mem_map.1 hc
    have hperm : d.ecHeaders.Perm d.ecConcacts :=
      (List.perm_ext_iff_of_nodup hd.wellFormed.headersNodup
        (hd.concacts ▸ nodup_concacts hR _)).2 hd.headers
    have hlt : i < d.ecHeaders.length := by
      rw [hperm.length_eq, hd.concacts, List.length_map]
      exact (List.mem_range.1 hi).trans_eq (length_losses (Finset.filter_subset _ _)).symm
    rw [List.getD_eq_getElem _ _ hlt]
    exact Or.inr ⟨_, (hd.headers _).1 (List.getElem_mem hlt), rfl⟩

omit hd hnodes hp in
theorem candidates_ne_nil (hlen : placement.length = p.ecn) (hn : 0 < p.ecn) :
    candidatesOf d p placement failNodeIds prepared ≠ [] := by
  intro h
  obtain ⟨h1, h2⟩ := List.append_eq_nil_iff.1 h
  have hcard : (p.failBlocks placement failNodeIds).card = 0 := by
    have := congrArg List.length h2
    simpa using this
  have hmem : placement.getD 0 0 ∈ placement := by
    rw [List.getD_eq_getElem _ _ (hlen.symm ▸ hn)]
    exact List.getElem_mem _
  -- block 0 survives when no block failed
  have hsurvives : placement.getD 0 0 ∉ failNodeIds := fun hf => by
    have hblock : 0 ∈ p.failBlocks placement failNodeIds :=
      Finset.mem_filter.2 ⟨Finset.mem_range.2 hn, hf⟩
    rw [Finset.card_eq_zero.1 hcard] at hblock
    exact absurd hblock (Finset.notMem_empty 0)
  have hin : placement.getD 0 0 ∈ placement.filter (· ∉ failNodeIds) :=
    List.mem_filter.2 ⟨hmem, decide_eq_true hsurvives⟩
  rw [h1] at hin
  exact List.not_mem_nil hin

omit hnodes hp in
theorem childColors_usable {st : StripeTables} {B : Nat}
    (h : Safe p placement failNodeIds d prepared st B) {idx : Nat} {c : Int}
    (hc : c ∈ d.getChildColors st.coloring idx) :
    c ≠ -1 ∧ Usable d placement failNodeIds prepared c := by
  obtain ⟨hne, child, hchild, rfl⟩ := ECDAG.mem_getChildColors.1 hc
  exact ⟨hne, (h.usable child (hd.wellFormed.childIndices_nodeIds hchild).1).resolve_left hne⟩

omit hd hnodes hp in
theorem childColors_eq_nil {coloring : Coloring} {idx : Nat} :
    d.getChildColors coloring idx = [] ↔ ∀ c ∈ d.childIndices idx, colorAt coloring c = -1 := by
  rw [List.eq_nil_iff_forall_not_mem]
  simp only [ECDAG.mem_getChildColors, not_and, not_exists]
  constructor
  · intro h c hc
    by_contra hne
    exact h _ hne c hc rfl
  · rintro h c hne child hchild rfl
    exact hne (h child hchild)

variable {loadTable : List (List Int)} (hroom : Room d loadTable)
include hroom

omit hnodes hp in
theorem fullnode_mem {st : StripeTables} {B : Nat} (h : Safe p placement failNodeIds d prepared st B)
    (hB : B + 2 * d.numEdges ≤ moveBound d) {colors : List Int} (hne : colors ≠ []) (idx : Nat) :
    chooseColor_fullnode d st.coloring st.cells colors loadTable idx ∈ colors :=
  chooseColor_mem hne fun c _ =>
    evalTable1_lt (hd.wellFormed.changeCells_leBy st.coloring h.cells idx c) fun row hrow => by
      have := hroom row hrow
      omega

omit hd hnodes hp hroom in
theorem length_siblings_le (hwf : d.WellFormed) (idx : Nat) :
    (d.siblings idx).length ≤ d.numEdges := hwf.length_parentIds_le _

omit hnodes hp in
theorem color2New_mem {st : StripeTables} {B : Nat} (h : Safe p placement failNodeIds d prepared st B)
    (hB : B + (d.numEdges * d.numEdges + d.numEdges) ≤ moveBound d) {colors : List Int}
    (hne : colors ≠ []) (idx : Nat) :
    chooseColor2New d st.coloring st.cells colors loadTable (d.siblings idx) ∈ colors :=
  chooseColor_mem hne fun c _ =>
    evalTable1_lt (hd.wellFormed.changeGroup_leBy st.coloring h.cells (d.siblings idx) c)
      fun row hrow => by
        have := hroom row hrow
        have := Nat.mul_le_mul_right d.numEdges (length_siblings_le hd.wellFormed idx)
        omega

/-- **One vertex of method 0**: it is -1 exactly when its children are. -/
theorem Safe.yhStep {ord' : HashOrder EvalWalk} {st st' : StripeTables} {B : Nat}
    (h : Safe p placement failNodeIds d prepared st B) (hB : B + 2 * d.numEdges ≤ moveBound d)
    {idx : Nat} (hidx : idx ∈ d.nodeIds) (hl : idx ∉ d.ecLeaves)
    (hold : colorAt st.coloring idx = -1) (hst : yhStep d loadTable ord' st idx = some st') :
    Safe p placement failNodeIds d prepared st' (B + 2 * d.numEdges) ∧
      (∀ u, u ≠ idx → colorAt st'.coloring u = colorAt st.coloring u) ∧
      (colorAt st'.coloring idx = -1 ↔ ∀ c ∈ d.childIndices idx, colorAt st.coloring c = -1) := by
  have hno : d.getChildColors st.coloring idx ≠ [-1] := fun he =>
    (childColors_usable hd h (he.symm ▸ List.mem_singleton_self (-1 : Int))).1 rfl
  unfold ParallelSolution.yhStep at hst
  simp only [hold, if_neg hno] at hst
  by_cases h0 : d.getChildColors st.coloring idx = []
  · rw [if_pos (by rw [h0]; rfl)] at hst
    obtain rfl := Option.some.inj hst
    exact ⟨h.mono (Nat.le_add_right _ _), fun u _ => rfl,
      iff_of_true hold (childColors_eq_nil.1 h0)⟩
  · have hbest := fullnode_mem hd hroom h hB h0 idx
    obtain ⟨hne, huse⟩ := childColors_usable hd h hbest
    rw [if_neg hne] at hst
    obtain ⟨hsafe, hcolor⟩ := h.changeColor hd hnodes hp hidx hl huse hst
    refine ⟨hsafe, fun u hu => (hcolor u).trans (if_neg hu), ?_⟩
    refine iff_of_false (fun he => hne ?_) fun hall => h0 (childColors_eq_nil.2 hall)
    exact ((hcolor idx).trans (if_pos rfl)).symm.trans he

/-- **The colour of method 1** is usable unless all children are leaves of no block. -/
theorem Safe.levelColor (hR : p.ecn ≤ REQUESTOR) (hlen : placement.length = p.ecn) (hn : 0 < p.ecn)
    {st : StripeTables} {B : Nat} (h : Safe p placement failNodeIds d prepared st B)
    (hB : B + (d.numEdges * d.numEdges + d.numEdges) ≤ moveBound d) (idx : Nat) :
    (levelColor d loadTable (candidatesOf d p placement failNodeIds prepared) st idx = -1 ∧
      ∀ c ∈ d.childIndices idx, c ∈ d.ecLeaves ∧ ¬ c / p.ecw < p.ecn) ∨
    (¬ (∀ c ∈ d.childIndices idx, c ∈ d.ecLeaves ∧ ¬ c / p.ecw < p.ecn) ∧
      Usable d placement failNodeIds prepared
        (levelColor d loadTable (candidatesOf d p placement failNodeIds prepared) st idx)) := by
  unfold ParallelSolution.levelColor
  dsimp only
  -- the colours that are tried are usable, and there are some unless all children are zero leaves
  have huse : ∀ c ∈ (if ∀ c ∈ d.childIndices idx, c ∈ d.ecLeaves then
      d.getChildColors st.coloring idx
      else candidatesOf d p placement failNodeIds prepared),
      Usable d placement failNodeIds prepared c := by
    intro c hc
    split at hc
    · exact (childColors_usable hd h hc).2
    · exact candidates_usable hd hR c hc
  have hnil : (if ∀ c ∈ d.childIndices idx, c ∈ d.ecLeaves then
      d.getChildColors st.coloring idx
      else candidatesOf d p placement failNodeIds prepared) = [] ↔
      ∀ c ∈ d.childIndices idx, c ∈ d.ecLeaves ∧ ¬ c / p.ecw < p.ecn := by
    split
    · next hleaves =>
      rw [childColors_eq_nil]
      refine forall₂_congr fun c hc => ?_
      rw [h.leaf c (hleaves c hc), and_iff_right (hleaves c hc)]
      by_cases hreal : c / p.ecw < p.ecn
      · have hu := (leafNode_usable prepared hd hlen (hleaves c hc) hreal).2
        exact iff_of_false (hu.ne hnodes hp) (not_not.2 hreal)
      · exact iff_of_true (if_neg hreal) hreal
    · next hleaves =>
      exact iff_of_false (candidates_ne_nil hlen hn) fun hall => hleaves fun c hc => (hall c hc).1
  generalize (if ∀ c ∈ d.childIndices idx, c ∈ d.ecLeaves then d.getChildColors st.coloring idx
    else candidatesOf d p placement failNodeIds prepared) = colors at huse hnil ⊢
  by_cases h0 : colors = []
  · subst h0
    exact Or.inl ⟨rfl, hnil.1 rfl⟩
  · exact Or.inr ⟨fun hall => h0 (hnil.2 hall), huse _ (color2New_mem hd hroom h hB h0 idx)⟩

/-- **One vertex of method 1**: nothing, or its whole group gets one colour. -/
theorem Safe.levelStep {ord' : HashOrder EvalWalk} (hR : p.ecn ≤ REQUESTOR)
    (hlen : placement.length = p.ecn) (hn : 0 < p.ecn) {st st' : StripeTables} {B : Nat}
    (h : Safe p placement failNodeIds d prepared st B)
    (hB : B + (d.numEdges * d.numEdges + d.numEdges) ≤ moveBound d) (idx : Nat)
    (hst : levelStep d loadTable ord' (candidatesOf d p placement failNodeIds prepared) st idx =
      some st') :
    (st' = st ∧ (colorAt st.coloring idx ≠ -1 ∨
      ∀ c ∈ d.childIndices idx, c ∈ d.ecLeaves ∧ ¬ c / p.ecw < p.ecn)) ∨
    (colorAt st.coloring idx = -1 ∧
      (¬ ∀ c ∈ d.childIndices idx, c ∈ d.ecLeaves ∧ ¬ c / p.ecw < p.ecn) ∧
      ∃ c, Usable d placement failNodeIds prepared c ∧
        ParallelSolution.recolorGroup d ord' (d.siblings idx) c st = some st') := by
  unfold ParallelSolution.levelStep at hst
  by_cases hold : colorAt st.coloring idx = -1
  swap
  · rw [if_pos hold] at hst
    exact Or.inl ⟨(Option.some.inj hst).symm, Or.inl hold⟩
  simp only [hold, ne_eq, not_true_eq_false, if_false] at hst
  rcases h.levelColor hd hnodes hp hroom hR hlen hn hB idx with ⟨hnone, hzero⟩ | ⟨hlead, hu⟩
  · rw [if_pos hnone] at hst
    exact Or.inl ⟨(Option.some.inj hst).symm, Or.inr hzero⟩
  · rw [if_neg (hu.ne hnodes hp)] at hst
    exact Or.inr ⟨hold, hlead, _, hu, hst⟩

/-! ## The runs -/

omit hd hnodes hp hroom in
theorem mem_siblings (hwf : d.WellFormed) {idx u : Nat} (hu : u ∈ d.siblings idx) :
    u ∈ d.nodeIds ∧ d.childIndices u ≠ [] := by
  have hc := hwf.mem_parentIds.1 hu
  exact ⟨(hwf.childIndices_nodeIds hc).2, List.ne_nil_of_mem hc⟩

omit hd hnodes hp hroom in
/-- A vertex with children is in its own group. -/
theorem self_mem_siblings (hwf : d.WellFormed) {idx : Nat} (h : d.childIndices idx ≠ []) :
    idx ∈ d.siblings idx := by
  refine hwf.mem_parentIds.2 ?_
  obtain ⟨c, cs, hcs⟩ := List.exists_cons_of_ne_nil h
  rw [hcs]
  exact List.mem_cons_self ..

variable (p placement failNodeIds d prepared) in
/-- Method 0 after the vertices `pre`. -/
structure YhInv (pre : List Nat) (st : StripeTables) : Prop where
  safe : Safe p placement failNodeIds d prepared st
    (d.nodeIds.length * d.numEdges + pre.length * (2 * d.numEdges))
  concact : ∀ v ∈ d.ecConcacts, colorAt st.coloring v = colorAt prepared v
  todo : ∀ v ∈ d.nodeIds, v ∉ d.ecLeaves → v ∉ d.ecConcacts → v ∉ pre → colorAt st.coloring v = -1
  zero : ∀ v ∈ pre, colorAt st.coloring v = -1 ↔
    ∀ c ∈ d.childIndices v, colorAt st.coloring c = -1

theorem yh_run (hlen : placement.length = p.ecn) (ord : HashOrder Walk)
    (ord' : HashOrder EvalWalk) {st : StripeTables}
    (hrun : GloballyMLP_yh d loadTable ord ord' prepared = some st) :
    YhInv p placement failNodeIds d prepared (d.genTopoIdxs ord) st := by
  obtain ⟨hnodup, hmem, hord⟩ := hd.wellFormed.genTopoIdxs_spec ord
  obtain ⟨hsafe, hconcact⟩ := blank_safe hd hp hlen ord'
  have htodo := (blank_total hd hp.keys ord').2.2
  refine Lts.run_prefix_inv (YhInv p placement failNodeIds d prepared)
    (fun pre a rest st st' hl h hst => ?_)
    ⟨by simpa using hsafe, hconcact, fun v hv h1 h2 _ => htodo v hv h1 h2, by simp⟩ hrun
  have ha := (hmem a).1 (hl ▸ List.mem_append_right _ (List.mem_cons_self ..))
  have hpre := Lts.not_mem_prefix hnodup hl
  have hcount := hd.wellFormed.length_pre_lt hl
  rw [hl, LinearProgram.ordered_append] at hord
  have hroom' : d.nodeIds.length * d.numEdges + pre.length * (2 * d.numEdges) +
      2 * d.numEdges ≤ moveBound d := by
    have h1 := Nat.mul_le_mul_right (2 * d.numEdges) (Nat.succ_le_of_lt hcount)
    rw [Nat.succ_mul pre.length] at h1
    have h2 : d.nodeIds.length * (2 * d.numEdges) ≤
        d.nodeIds.length * (2 * d.numEdges * d.numEdges) := by
      rw [Nat.mul_assoc 2]
      exact Nat.mul_le_mul_left _ (Nat.mul_le_mul_left _ (Nat.le_mul_self _))
    unfold moveBound
    omega
  obtain ⟨h1, h2, h3⟩ := h.safe.yhStep hd hnodes hp hroom hroom' ha.1 ha.2.2
    (h.todo a ha.1 ha.2.2 ha.2.1 hpre) hst
  -- the children of a vertex that is done are done, so they keep their colours
  have hother : ∀ v ∈ pre ++ [a], ∀ c ∈ d.childIndices v, c ≠ a := by
    rintro v hv c hc rfl
    rcases List.mem_append.1 hv with hv | hv
    · rcases hord.1.srcs_mem v hv c hc with (hS | hS) | hS
      · exact ha.2.1 hS
      · exact ha.2.2 hS
      · rw [List.map_id] at hS
        exact hpre hS
    · rw [List.mem_singleton.1 hv] at hc
      exact absurd (hd.wellFormed.height_lt hc) (lt_irrefl _)
  have hself : (∀ c ∈ d.childIndices a, colorAt st'.coloring c = -1) ↔
      ∀ c ∈ d.childIndices a, colorAt st.coloring c = -1 :=
    forall₂_congr fun c hc => by rw [h2 c (hother a (by simp) c hc)]
  refine ⟨h1.mono ?_, fun v hv => ?_, fun v hv hl hc hno => ?_, fun v hv => ?_⟩
  · rw [List.length_append, List.length_singleton, Nat.add_mul, Nat.one_mul]
    omega
  · rw [h2 v fun he => ha.2.1 (he ▸ hv)]
    exact h.concact v hv
  · rw [List.mem_append, List.mem_singleton, not_or] at hno
    rw [h2 v hno.2]
    exact h.todo v hv hl hc hno.1
  · by_cases hva : v = a
    · subst hva
      rw [h3, hself]
    · have hvp : v ∈ pre := by simpa [hva] using hv
      rw [h2 v hva, h.zero v hvp]
      exact forall₂_congr fun c hc => by rw [h2 c (hother v hv c hc)]

variable (p placement failNodeIds d prepared) in
/-- Method 1 after the vertices `pre`; `g` are the groups that were coloured. -/
structure LevelInv (g : Groups) (pre : List Nat) (st : StripeTables) : Prop where
  safe : Safe p placement failNodeIds d prepared st
    (d.nodeIds.length * d.numEdges + pre.length * (2 * d.numEdges * d.numEdges))
  concact : ∀ v ∈ d.ecConcacts, v ∉ g.colored → colorAt st.coloring v = colorAt prepared v
  colored : ∀ v ∈ d.nodeIds, v ∉ d.ecLeaves → v ∉ d.ecConcacts →
    (colorAt st.coloring v ≠ -1 ↔ v ∈ g.colored)
  done : ∀ v ∈ pre, v ∈ g.colored ∨
    ∀ c ∈ d.childIndices v, c ∈ d.ecLeaves ∧ ¬ c / p.ecw < p.ecn
  inner : ∀ v ∈ g.colored, v ∈ d.nodeIds ∧ d.childIndices v ≠ []

omit hnodes hp hroom in
/-- There is room for one more vertex. -/
theorem level_room {ord : HashOrder Walk} {pre : List Nat} {a : Nat} {rest : List Nat}
    (hl : d.genTopoIdxs ord = pre ++ a :: rest) :
    d.nodeIds.length * d.numEdges + pre.length * (2 * d.numEdges * d.numEdges) +
      (d.numEdges * d.numEdges + d.numEdges) ≤ moveBound d := by
  have h1 := Nat.mul_le_mul_right (2 * d.numEdges * d.numEdges) (hd.wellFormed.length_pre_lt hl).le
  unfold moveBound
  omega

omit hnodes hroom in
theorem levelInv_blank (hlen : placement.length = p.ecn) (ord' : HashOrder EvalWalk) :
    LevelInv p placement failNodeIds d prepared ⟨[], []⟩ [] (blank d ord' prepared) := by
  obtain ⟨hsafe, hconcact⟩ := blank_safe hd hp hlen ord'
  have htodo := (blank_total hd hp.keys ord').2.2
  exact ⟨by simpa using hsafe, fun v hv _ => hconcact v hv,
    fun v hv h1 h2 => iff_of_false (not_not.2 (htodo v hv h1 h2)) (by simp), by simp, by simp⟩

theorem LevelInv.step (hR : p.ecn ≤ REQUESTOR) (hlen : placement.length = p.ecn) (hn : 0 < p.ecn)
    {ord : HashOrder Walk} {ord' : HashOrder EvalWalk} {pre : List Nat} {a : Nat}
    {rest : List Nat} (hl : d.genTopoIdxs ord = pre ++ a :: rest) {st st' : StripeTables}
    (h : LevelInv p placement failNodeIds d prepared
      (pre.foldl (groupStep d p.ecn p.ecw) ⟨[], []⟩) pre st)
    (hst : levelStep d loadTable ord' (candidatesOf d p placement failNodeIds prepared) st a =
      some st') :
    LevelInv p placement failNodeIds d prepared
      ((pre ++ [a]).foldl (groupStep d p.ecn p.ecw) ⟨[], []⟩) (pre ++ [a]) st' := by
  rw [List.foldl_concat]
  generalize pre.foldl (groupStep d p.ecn p.ecw) ⟨[], []⟩ = g at h ⊢
  have ha := ((hd.wellFormed.genTopoIdxs_spec ord).2.1 a).1
    (hl ▸ List.mem_append_right _ (List.mem_cons_self ..))
  have hroom' := level_room hd hl
  have hne : d.childIndices a ≠ [] := fun h0 => ha.2.2 ((hd.leaves a).2 ⟨ha.1, h0⟩)
  have hiff := h.colored a ha.1 ha.2.2 ha.2.1
  unfold groupStep
  rcases h.safe.levelStep hd hnodes hp hroom hR hlen hn hroom' a hst with
    ⟨rfl, hskip⟩ | ⟨hold, hlead, c, hc, hgroupRun⟩
  · rw [if_pos (hskip.imp_left hiff.1)]
    refine ⟨h.safe.mono ?_, h.concact, h.colored, fun v hv => ?_, h.inner⟩
    · rw [List.length_append, Nat.add_mul]
      omega
    · rcases List.mem_append.1 hv with hv | hv
      · exact h.done v hv
      · rw [List.mem_singleton.1 hv]
        exact hskip.imp_left hiff.1
  · have hnot : ¬ (a ∈ g.colored ∨ ∀ c ∈ d.childIndices a, c ∈ d.ecLeaves ∧ ¬ c / p.ecw < p.ecn) :=
      not_or.2 ⟨fun hm => hiff.2 hm hold, hlead⟩
    have hgroup : ∀ v ∈ d.siblings a, v ∈ d.nodeIds ∧ v ∉ d.ecLeaves := fun v hv => by
      obtain ⟨h1, h2⟩ := mem_siblings hd.wellFormed hv
      exact ⟨h1, fun hl => h2 ((hd.leaves v).1 hl).2⟩
    obtain ⟨h1, h2⟩ := h.safe.recolorGroup hd hnodes hp hc (d.siblings a) hgroup hgroupRun
    rw [if_neg hnot]
    refine ⟨h1.mono ?_, fun v hv hno => ?_, fun v hv hl hcv => ?_, fun v hv => ?_, fun v hv => ?_⟩
    · rw [List.length_append, List.length_singleton, Nat.add_mul pre.length, Nat.one_mul]
      have := Nat.mul_le_mul_right (2 * d.numEdges) (length_siblings_le hd.wellFormed a)
      have hswap : d.numEdges * (2 * d.numEdges) = 2 * d.numEdges * d.numEdges := Nat.mul_comm _ _
      omega
    · rw [List.mem_append, not_or] at hno
      rw [h2, if_neg hno.2]
      exact h.concact v hv hno.1
    · rw [h2, List.mem_append, ← h.colored v hv hl hcv]
      by_cases hs : v ∈ d.siblings a
      · rw [if_pos hs]
        exact iff_of_true (hc.ne hnodes hp) (Or.inr hs)
      · rw [if_neg hs]
        exact (or_iff_left hs).symm
    · rcases List.mem_append.1 hv with hv | hv
      · exact (h.done v hv).imp_left (List.mem_append_left _)
      · rw [List.mem_singleton.1 hv]
        exact Or.inl (List.mem_append_right _ (self_mem_siblings hd.wellFormed hne))
    · rcases List.mem_append.1 hv with hv | hv
      · exact h.inner v hv
      · exact mem_siblings hd.wellFormed hv

theorem level_run (hR : p.ecn ≤ REQUESTOR) (hlen : placement.length = p.ecn) (hn : 0 < p.ecn)
    (ord : HashOrder Walk) (ord' : HashOrder EvalWalk) {st : StripeTables}
    (hrun : GloballyMLPLevel d loadTable ord ord' prepared
      (candidatesOf d p placement failNodeIds prepared) = some st) :
    LevelInv p placement failNodeIds d prepared (groups d p.ecn p.ecw ord) (d.genTopoIdxs ord)
      st := by
  refine Lts.run_prefix_inv (fun pre st => LevelInv p placement failNodeIds d prepared
      (pre.foldl (groupStep d p.ecn p.ecw) ⟨[], []⟩) pre st)
    (fun pre a rest st st' hl h hst => ?_) (levelInv_blank hd hp hlen ord') hrun
  exact h.step hd hnodes hp hroom hR hlen hn hl hst

/-! ## Groups that are disjoint -/

/-- **Disjoint groups** that hold no concatenation drop nothing, whatever the loads. -/
theorem undropped_of_nodup (hR : p.ecn ≤ REQUESTOR) (hlen : placement.length = p.ecn)
    (hn : 0 < p.ecn) (ord : HashOrder Walk) (ord' : HashOrder EvalWalk)
    (hnodup : (groups d p.ecn p.ecw ord).colored.Nodup)
    (hconcact : ∀ v ∈ (groups d p.ecn p.ecw ord).colored, v ∉ d.ecConcacts) :
    Lts.Meets (levelStep d loadTable ord' (candidatesOf d p placement failNodeIds prepared))
      (Undropped d loadTable ord' (candidatesOf d p placement failNodeIds prepared))
      (blank d ord' prepared) (d.genTopoIdxs ord) := by
  refine Lts.meets_of_prefix_inv (fun pre st => LevelInv p placement failNodeIds d prepared
      (pre.foldl (groupStep d p.ecn p.ecw) ⟨[], []⟩) pre st)
    (fun pre a rest st st' hl h hst => ?_) (fun pre a rest st hl h hold hbest => ?_)
    (levelInv_blank hd hp hlen ord')
  · exact h.step hd hnodes hp hroom hR hlen hn hl hst
  · have ha := ((hd.wellFormed.genTopoIdxs_spec ord).2.1 a).1
      (hl ▸ List.mem_append_right _ (List.mem_cons_self ..))
    have hpre := colored_prefix d p.ecn p.ecw rest
      (groupStep d p.ecn p.ecw (pre.foldl (groupStep d p.ecn p.ecw) ⟨[], []⟩) a)
    rw [← List.foldl_cons, ← List.foldl_append, ← hl] at hpre
    generalize pre.foldl (groupStep d p.ecn p.ecw) ⟨[], []⟩ = g at h hpre
    have hout : a ∉ g.colored := fun hm => (h.colored a ha.1 ha.2.2 ha.2.1).2 hm hold
    rcases h.safe.levelColor hd hnodes hp hroom hR hlen hn (level_room hd hl) a with
      ⟨hnone, -⟩ | ⟨hlead, -⟩
    · exact absurd hnone hbest
    -- the group is new, so its members have no colour
    rw [groupStep, if_neg (not_or.2 ⟨hout, hlead⟩)] at hpre
    obtain ⟨-, hsib, hdisj⟩ := List.nodup_append.1 (hpre.sublist.nodup hnodup)
    refine meets_uncolored hbest hsib fun v hv => ?_
    obtain ⟨hmem, hne⟩ := mem_siblings hd.wellFormed hv
    have hcv := hconcact v (hpre.subset (List.mem_append_right _ hv))
    by_contra hcolor
    exact hdisj v ((h.colored v hmem (fun hm => hne ((hd.leaves v).1 hm).2) hcv).1 hcolor) v hv rfl

/-! ## Legality -/

/-- **Whatever the method**, every vertex is -1, on a surviving node or on a repair node, and
every leaf of a block on the node that stores it. -/
theorem coloring_safe (hR : p.ecn ≤ REQUESTOR) (hlen : placement.length = p.ecn) (hn : 0 < p.ecn)
    (ord : HashOrder Walk) (ord' : HashOrder EvalWalk) (method : Nat) {st : StripeTables}
    (hrun : (if method = 1 then GloballyMLPLevel d loadTable ord ord' prepared
        (candidatesOf d p placement failNodeIds prepared)
      else GloballyMLP_yh d loadTable ord ord' prepared) = some st) :
    ∃ B, Safe p placement failNodeIds d prepared st B := by
  split at hrun
  · exact ⟨_, (level_run hd hnodes hp hroom hR hlen hn ord ord' hrun).safe⟩
  · exact ⟨_, (yh_run hd hnodes hp hroom hlen ord ord' hrun).safe⟩

omit hnodes hroom in
/-- What is left to show when a colouring is safe. -/
theorem Safe.legal (hlen : placement.length = p.ecn) {st : StripeTables} {B : Nat}
    (h : Safe p placement failNodeIds d prepared st B)
    (hconcact : ∀ v ∈ d.ecConcacts, colorAt st.coloring v = colorAt prepared v)
    (hzero : ∀ v ∈ d.nodeIds, v ∉ d.ecLeaves → v ∉ d.ecConcacts →
      (colorAt st.coloring v = -1 ↔ ∀ c ∈ d.childIndices v, colorAt st.coloring c = -1)) :
    Legal p d placement failNodeIds prepared st.coloring where
  total v hv := (h.keys v).2 hv
  realLeaf v hv hreal := by
    rw [h.leaf v hv]
    exact (leafNode_usable prepared hd hlen hv hreal).1
  virtualLeaf v hv hno := (h.leaf v hv).trans (if_neg hno)
  concact := hconcact
  repairNodup := hp.nodup
  repairNew v hv := (hp.fresh v hv).2
  usable v hv _ _ := h.usable v hv
  zero := hzero

omit hroom in
theorem Safe.mem_zeros_leaf {st : StripeTables} {B : Nat}
    (h : Safe p placement failNodeIds d prepared st B) (hlen : placement.length = p.ecn) {v : Nat}
    (hl : v ∈ d.ecLeaves) : colorAt st.coloring v = -1 ↔ v ∈ d.zeros p.ecn p.ecw := by
  obtain ⟨hv, h0⟩ := (hd.leaves v).1 hl
  rw [h.leaf v hl, hd.wellFormed.mem_zeros_leaf hv h0]
  by_cases hreal : v / p.ecw < p.ecn
  · have hu := (leafNode_usable prepared hd hlen hl hreal).2
    exact iff_of_false (hu.ne hnodes hp) (not_not.2 hreal)
  · exact iff_of_true (if_neg hreal) hreal

omit hroom in
/-- A vertex that method 1 leaves without a node is zero. -/
theorem LevelInv.mem_zeros {g : Groups} {pre : List Nat} {st : StripeTables}
    (h : LevelInv p placement failNodeIds d prepared g pre st) (hlen : placement.length = p.ecn)
    (hpre : ∀ v ∈ d.nodeIds, v ∉ d.ecLeaves → v ∉ d.ecConcacts → v ∈ pre) {v : Nat}
    (hv : v ∈ d.nodeIds) (hneg : colorAt st.coloring v = -1) : v ∈ d.zeros p.ecn p.ecw := by
  by_cases hl : v ∈ d.ecLeaves
  · exact (h.safe.mem_zeros_leaf hd hnodes hp hlen hl).1 hneg
  · have hne : d.childIndices v ≠ [] := fun h0 => hl ((hd.leaves v).2 ⟨hv, h0⟩)
    have hc : v ∉ d.ecConcacts := fun hc => h.safe.concact v hc hneg
    have hg : v ∉ g.colored := fun hg => (h.colored v hv hl hc).2 hg hneg
    -- it is in no group, so its children are leaves of no block
    refine (hd.wellFormed.mem_zeros_inner hne hc _ _).2 fun c hcv => ?_
    obtain ⟨hcl, hno⟩ := (h.done v (hpre v hv hl hc)).resolve_left hg c hcv
    obtain ⟨hcm, hc0⟩ := (hd.leaves c).1 hcl
    exact (hd.wellFormed.mem_zeros_leaf hcm hc0 _ _).2 hno

omit hroom in
/-- If no group holds a zero vertex, the vertices without a node are the zero vertices. -/
theorem LevelInv.neg_one_iff {g : Groups} {pre : List Nat} {st : StripeTables}
    (h : LevelInv p placement failNodeIds d prepared g pre st) (hlen : placement.length = p.ecn)
    (hpre : ∀ v ∈ d.nodeIds, v ∉ d.ecLeaves → v ∉ d.ecConcacts → v ∈ pre)
    (hfree : ∀ v ∈ g.colored, v ∉ d.zeros p.ecn p.ecw) {v : Nat} (hv : v ∈ d.nodeIds) :
    colorAt st.coloring v = -1 ↔ v ∈ d.zeros p.ecn p.ecw := by
  refine ⟨h.mem_zeros hd hnodes hp hlen hpre hv, fun hz => ?_⟩
  by_cases hl : v ∈ d.ecLeaves
  · exact (h.safe.mem_zeros_leaf hd hnodes hp hlen hl).2 hz
  · have hne : d.childIndices v ≠ [] := fun h0 => hl ((hd.leaves v).2 ⟨hv, h0⟩)
    have hc : v ∉ d.ecConcacts := fun hc => hd.wellFormed.not_mem_zeros_concact hne hc _ _ hz
    by_contra hno
    exact hfree v ((h.colored v hv hl hc).1 hno) hz

/-- **Whatever the method**, only zero vertices are left without a node. -/
theorem unplaced_zero (hR : p.ecn ≤ REQUESTOR) (hlen : placement.length = p.ecn) (hn : 0 < p.ecn)
    (ord : HashOrder Walk) (ord' : HashOrder EvalWalk) (method : Nat) {st : StripeTables}
    (hrun : (if method = 1 then GloballyMLPLevel d loadTable ord ord' prepared
        (candidatesOf d p placement failNodeIds prepared)
      else GloballyMLP_yh d loadTable ord ord' prepared) = some st) :
    ∀ v ∈ d.nodeIds, colorAt st.coloring v = -1 → v ∈ d.zeros p.ecn p.ecw := by
  have hwf := hd.wellFormed
  have htopo := (hwf.genTopoIdxs_spec ord).2.1
  split at hrun
  · have h := level_run hd hnodes hp hroom hR hlen hn ord ord' hrun
    exact fun v => h.mem_zeros hd hnodes hp hlen fun u hu hl hc => (htopo u).2 ⟨hu, hc, hl⟩
  · have h := yh_run hd hnodes hp hroom hlen ord ord' hrun
    have hall : ∀ m v, d.height v = m → v ∈ d.nodeIds → colorAt st.coloring v = -1 →
        v ∈ d.zeros p.ecn p.ecw := by
      intro m
      induction m using Nat.strongRecOn with
      | ind m ih =>
        intro v hm hv hneg
        by_cases hl : v ∈ d.ecLeaves
        · exact (h.safe.mem_zeros_leaf hd hnodes hp hlen hl).1 hneg
        · have hc : v ∉ d.ecConcacts := fun hc => h.safe.concact v hc hneg
          have hne : d.childIndices v ≠ [] := fun h0 => hl ((hd.leaves v).2 ⟨hv, h0⟩)
          refine (hwf.mem_zeros_inner hne hc _ _).2 fun c hcv => ?_
          exact ih _ (hm ▸ hwf.height_lt hcv) c rfl (hwf.childIndices_nodeIds hcv).1
            ((h.zero v ((htopo v).2 ⟨hv, hc, hl⟩)).1 hneg c hcv)
    exact fun v => hall _ v rfl

end

/-- What is left when no assertion fails. -/
theorem genColoring_some {p : ParallelSolution} {d : ECDAG} {placement failNodeIds : List Int}
    {scenario : Scenario} {draws : Nat → Nat} {loadTable : List (List Int)} {ord : HashOrder Walk}
    {ord' : HashOrder EvalWalk} {method : Nat} {res : Coloring × List (List Int)}
    (h : genColoringForMultipleFailureLevelNew d loadTable ord ord' p placement failNodeIds scenario
      draws method = some res) :
    ∃ st : StripeTables, (if method = 1 then GloballyMLPLevel d loadTable ord ord'
        (p.prepare placement d failNodeIds scenario draws) (candidatesOf d p placement failNodeIds
          (p.prepare placement d failNodeIds scenario draws))
      else GloballyMLP_yh d loadTable ord ord' (p.prepare placement d failNodeIds scenario draws)) =
        some st ∧
      res = (st.coloring, (ord'.order .coloring st.coloring.keys).foldl
        (d.evalVertex (colorAt st.coloring) Stripe.counted Stripe.bump) loadTable) := by
  obtain ⟨st, hst, rfl⟩ := Option.map_eq_some_iff.1 h
  exact ⟨st, hst, rfl⟩

/-- **The colouring that is left**, whatever the method: a leaf of a block is on the node that
stores it, and every vertex is on a usable node, but for zero vertices. -/
theorem coloring_usable {p : ParallelSolution} {d : ECDAG} {placement failNodeIds : List Int}
    {scenario : Scenario} (hd : RepairDag d p.ecn p.ecw (p.failBlocks placement failNodeIds))
    (ha : p.Admissible placement failNodeIds scenario) (hn : 0 < p.ecn) (hR : p.ecn ≤ REQUESTOR)
    (draws : Nat → Nat) {loadTable : List (List Int)} (hroom : Room d loadTable)
    (ord : HashOrder Walk) (ord' : HashOrder EvalWalk) (method : Nat)
    {coloring : Coloring} {loadTable' : List (List Int)}
    (hrun : genColoringForMultipleFailureLevelNew d loadTable ord ord' p placement failNodeIds
      scenario draws method = some (coloring, loadTable')) :
    let prepared := p.prepare placement d failNodeIds scenario draws
    (∀ v ∈ d.ecLeaves, v / p.ecw < p.ecn → placement[v / p.ecw]? = some (colorAt coloring v) ∧
      Usable d placement failNodeIds prepared (colorAt coloring v)) ∧
    (∀ v ∈ d.nodeIds, (colorAt coloring v = -1 ∧ v ∈ d.zeros p.ecn p.ecw) ∨
      Usable d placement failNodeIds prepared (colorAt coloring v)) ∧
    ∀ v ∈ d.ecConcacts, Usable d placement failNodeIds prepared (colorAt coloring v) := by
  intro prepared
  have hp := (prepare_spec ha draws hR hd).1
  obtain ⟨st, hst, hres⟩ := genColoring_some hrun
  obtain ⟨rfl, -⟩ := Prod.mk.inj hres
  obtain ⟨B, hsafe⟩ := coloring_safe hd ha.nodes hp hroom hR ha.length hn ord ord' method hst
  have hzero := unplaced_zero hd ha.nodes hp hroom hR ha.length hn ord ord' method hst
  refine ⟨fun v hv hreal => ?_, fun v hv => ?_, fun v hv => ?_⟩
  · have h := leafNode_usable prepared hd ha.length hv hreal
    rw [← hsafe.leaf v hv] at h
    exact h
  · exact (hsafe.usable v hv).imp (fun h => ⟨h, hzero v hv h⟩) id
  · exact (hsafe.usable v (hd.concact_mem hv).1).resolve_left (hsafe.concact v hv)

/-- In a legal colouring the zero vertices are -1. -/
theorem Legal.zero_eq {p : ParallelSolution} {d : ECDAG} {placement failNodeIds : List Int}
    {prepared coloring : Coloring}
    (hd : RepairDag d p.ecn p.ecw (p.failBlocks placement failNodeIds))
    (h : Legal p d placement failNodeIds prepared coloring) :
    ∀ v ∈ d.nodeIds, v ∈ d.zeros p.ecn p.ecw → colorAt coloring v = -1 := by
  have hwf := hd.wellFormed
  have hall : ∀ m v, d.height v = m → v ∈ d.nodeIds → v ∈ d.zeros p.ecn p.ecw →
      colorAt coloring v = -1 := by
    intro m
    induction m using Nat.strongRecOn with
    | ind m ih =>
      intro v hm hv hz
      by_cases h0 : d.childIndices v = []
      · exact h.virtualLeaf v ((hd.leaves v).2 ⟨hv, h0⟩) ((hwf.mem_zeros_leaf hv h0 _ _).1 hz)
      · have hc : v ∉ d.ecConcacts := fun hc => hwf.not_mem_zeros_concact h0 hc _ _ hz
        have hl : v ∉ d.ecLeaves := fun hl => h0 ((hd.leaves v).1 hl).2
        refine (h.zero v hv hl hc).2 fun c hcv => ?_
        exact ih _ (hm ▸ hwf.height_lt hcv) c rfl (hwf.childIndices_nodeIds hcv).1
          ((hwf.mem_zeros_inner h0 hc _ _).1 hz c hcv)
  exact fun v => hall _ v rfl

/-- **The planner gets to its end** with method 0, and with method 1 when no transfer is
dropped. -/
theorem genColoring_runs {p : ParallelSolution} {d : ECDAG} {placement failNodeIds : List Int}
    (hd : RepairDag d p.ecn p.ecw (p.failBlocks placement failNodeIds)) (scenario : Scenario)
    (draws : Nat → Nat) (loadTable : List (List Int)) (ord : HashOrder Walk)
    (ord' : HashOrder EvalWalk) (method : Nat)
    (hdrops : method = 1 → DropsNone d loadTable ord ord' p placement failNodeIds scenario draws) :
    ∃ res, genColoringForMultipleFailureLevelNew d loadTable ord ord' p placement failNodeIds
      scenario draws method = some res := by
  have hc := hd.wellFormed.consistent
  obtain ⟨htotal, -, htodo⟩ := blank_total hd
    (fun v => mem_prepare p placement d failNodeIds scenario draws v) ord'
  unfold genColoringForMultipleFailureLevelNew
  by_cases hm : method = 1
  · obtain ⟨st, hst⟩ := level_runs hc ord htotal (hdrops hm)
    simp only [if_pos hm, hst]
    exact ⟨_, rfl⟩
  · have hmem := (hd.wellFormed.genTopoIdxs_spec ord).2.1
    obtain ⟨st, hst⟩ := @yh_runs d hc loadTable ord' ord _ htotal fun v hv =>
      htodo v ((hmem v).1 hv).1 ((hmem v).1 hv).2.2 ((hmem v).1 hv).2.1
    simp only [if_neg hm, hst]
    exact ⟨_, rfl⟩

/-- **Colouring legality**, for every code that keeps its promise, every placement and failure
set, every draw, load table and order of the unordered maps: method 0 gets to its end and is legal,
and method 1 does and is when no transfer is dropped and no group holds a concatenation or a zero
vertex. A group that holds a zero vertex makes the colouring illegal. -/
theorem coloring_legal (p : ParallelSolution) (placement failNodeIds : List Int)
    (scenario : Scenario) (ha : p.Admissible placement failNodeIds scenario) (hn : 0 < p.ecn)
    (hR : p.ecn ≤ REQUESTOR) (hw : 0 < p.ecw) (decode : List Nat → List Nat → ECDAG)
    (js : List Join)
    (hdec : decode (packets p.ecw (survivors p.ecn (p.failBlocks placement failNodeIds)))
      (packets p.ecw (losses p.ecn (p.failBlocks placement failNodeIds))) = .build js)
    (hjs : Decodes js p.ecn p.ecw (p.failBlocks placement failNodeIds)) (d : ECDAG)
    (hdag : d = (genRepairECDAG decode p.ecn p.ecw
      (p.failBlocks placement failNodeIds)).refreshECDAG) (draws : Nat → Nat)
    (loadTable : List (List Int)) (hroom : Room d loadTable) (method : Nat)
    (ord : HashOrder Walk) (ord' : HashOrder EvalWalk) :
    ((method = 1 → DropsNone d loadTable ord ord' p placement failNodeIds scenario draws ∧
        ∀ v ∈ (groups d p.ecn p.ecw ord).colored, v ∉ d.ecConcacts ∧ v ∉ d.zeros p.ecn p.ecw) →
      ∃ res, genColoringForMultipleFailureLevelNew d loadTable ord ord' p placement failNodeIds
          scenario draws method = some res ∧
        Legal p d placement failNodeIds (p.prepare placement d failNodeIds scenario draws) res.1) ∧
    ((∃ res, genColoringForMultipleFailureLevelNew d loadTable ord ord' p placement failNodeIds
          scenario draws method = some res ∧
        Legal p d placement failNodeIds (p.prepare placement d failNodeIds scenario draws) res.1) →
      method = 1 → ∀ v ∈ (groups d p.ecn p.ecw ord).colored, v ∉ d.zeros p.ecn p.ecw) := by
  have hd : RepairDag d p.ecn p.ecw (p.failBlocks placement failNodeIds) :=
    hdag ▸ RepairDag.of_decodes hR hw hdec hjs
  have hp := (prepare_spec ha draws hR hd).1
  have htopo := (hd.wellFormed.genTopoIdxs_spec ord).2.1
  have hpre : ∀ v ∈ d.nodeIds, v ∉ d.ecLeaves → v ∉ d.ecConcacts → v ∈ d.genTopoIdxs ord :=
    fun v hv hl hc => (htopo v).2 ⟨hv, hc, hl⟩
  have hinner : ∀ v ∈ d.nodeIds, v ∉ d.ecLeaves → d.childIndices v ≠ [] :=
    fun v hv hl h0 => hl ((hd.leaves v).2 ⟨hv, h0⟩)
  constructor
  · intro hcond
    obtain ⟨res, hres⟩ := genColoring_runs hd scenario draws loadTable ord ord' method
      fun hm => (hcond hm).1
    refine ⟨res, hres, ?_⟩
    obtain ⟨st, hst, rfl⟩ := genColoring_some hres
    by_cases hm : method = 1
    · rw [if_pos hm] at hst
      have hlevel := level_run hd ha.nodes hp hroom hR ha.length hn ord ord' hst
      have hfree := (hcond hm).2
      have hneg : ∀ {v}, v ∈ d.nodeIds → (colorAt _ v = -1 ↔ v ∈ d.zeros p.ecn p.ecw) :=
        fun hv => hlevel.neg_one_iff hd ha.nodes hp ha.length hpre (fun u hu => (hfree u hu).2) hv
      refine hlevel.safe.legal hd hp ha.length (fun v hv => ?_) fun v hv hl hc => ?_
      · exact hlevel.concact v hv fun hg => (hfree v hg).1 hv
      · rw [hneg hv, hd.wellFormed.mem_zeros_inner (hinner v hv hl) hc]
        refine forall₂_congr fun c hcv => ?_
        exact (hneg (hd.wellFormed.childIndices_nodeIds hcv).1).symm
    · rw [if_neg hm] at hst
      have hyh := yh_run hd ha.nodes hp hroom ha.length ord ord' hst
      exact hyh.safe.legal hd hp ha.length hyh.concact fun v hv hl hc =>
        hyh.zero v (hpre v hv hl hc)
  · rintro ⟨res, hres, hlegal⟩ hm v hg hz
    obtain ⟨st, hst, rfl⟩ := genColoring_some hres
    rw [if_pos hm] at hst
    have hlevel := level_run hd ha.nodes hp hroom hR ha.length hn ord ord' hst
    obtain ⟨hv, hne⟩ := hlevel.inner v hg
    have hl : v ∉ d.ecLeaves := fun hl => hne ((hd.leaves v).1 hl).2
    have hc : v ∉ d.ecConcacts := fun hc =>
      hd.wellFormed.not_mem_zeros_concact hne hc _ _ hz
    exact (hlevel.colored v hv hl hc).2 hg (hlegal.zero_eq hd v hv hz)

/-- A leaf of no block and one parity: block 2 of the (3, 2) stripe, repaired on node 5. -/
theorem coloring_legal_sum : ∃ res, genColoringForMultipleFailureLevelNew
      (genRepairECDAG (fun _ _ => .build [⟨2, [0, 1, 3], [1, 1, 1]⟩]) 3 1 {2}).refreshECDAG
      (List.replicate 6 [0, 0]) (HashOrder.insertion Walk) (HashOrder.insertion EvalWalk)
      ⟨3, 1, 1, 5⟩ [0, 1, 2] [2] .standby (fun _ => 0) 1 = some res ∧
    Legal ⟨3, 1, 1, 5⟩
      (genRepairECDAG (fun _ _ => .build [⟨2, [0, 1, 3], [1, 1, 1]⟩]) 3 1 {2}).refreshECDAG
      [0, 1, 2] [2]
      (prepare ⟨3, 1, 1, 5⟩ [0, 1, 2]
        (genRepairECDAG (fun _ _ => .build [⟨2, [0, 1, 3], [1, 1, 1]⟩]) 3 1 {2}).refreshECDAG
        [2] .standby fun _ => 0) res.1 :=
  (coloring_legal ⟨3, 1, 1, 5⟩ [0, 1, 2] [2] .standby
    ⟨rfl, by decide, by decide, by decide, by decide⟩ (by decide) (by decide) (by decide)
    (fun _ _ => .build [⟨2, [0, 1, 3], [1, 1, 1]⟩]) [⟨2, [0, 1, 3], [1, 1, 1]⟩] rfl
    ⟨by decide, by decide, by decide, by decide⟩ _ (by decide) (fun _ => 0) (List.replicate 6 [0, 0])
    (by unfold Room; decide) 1 _ _).1 fun _ => ⟨by decide +kernel, by decide⟩

/-! ## A concatenation that is moved -/

/-- Blocks 0 and 1 of a Hitchhiker-XOR+ (7, 4) stripe; packet 15 is made of the packets 0 and 2
that are recovered. -/
noncomputable def twoLostDag : ECDAG :=
  (genRepairECDAG (HHXORPlus.decode 7 4 fun _ A => A⁻¹) 7 2 {0, 1}).refreshECDAG

/-- `prepare` puts block 0 on node 7. Vertex 15 leads the parents of packet 0, and one of them
is the concatenation of block 0: it is moved to the surviving node 2. -/
theorem coloring_moves_concact :
    Decodes (HHXORPlus.decodeJoins 7 4 (fun _ A => A⁻¹) (packets 2 (survivors 7 {0, 1}))
      (packets 2 (losses 7 {0, 1}))) 7 2 {0, 1} ∧
    Admissible ⟨7, 2, 2, 10⟩ [0, 1, 2, 3, 4, 5, 6] [0, 1] .scatter ∧
    Room twoLostDag (List.replicate 12 [0, 0]) ∧
    ¬ ∃ res, genColoringForMultipleFailureLevelNew twoLostDag (List.replicate 12 [0, 0])
          (HashOrder.insertion Walk) (HashOrder.insertion EvalWalk) ⟨7, 2, 2, 10⟩
          [0, 1, 2, 3, 4, 5, 6] [0, 1] .scatter (fun _ => 0) 1 = some res ∧
      Legal ⟨7, 2, 2, 10⟩ twoLostDag [0, 1, 2, 3, 4, 5, 6] [0, 1]
        (prepare ⟨7, 2, 2, 10⟩ [0, 1, 2, 3, 4, 5, 6] twoLostDag [0, 1] .scatter fun _ => 0)
        res.1 := by
  refine ⟨⟨by decide +kernel, by decide +kernel, by decide +kernel, by decide +kernel⟩,
    ⟨rfl, by decide, by decide, by decide, by decide +kernel⟩, by unfold Room; decide +kernel,
    ?_⟩
  rintro ⟨res, hres, h⟩
  have hmoved := h.concact REQUESTOR (by decide +kernel)
  have hnode : (genColoringForMultipleFailureLevelNew twoLostDag (List.replicate 12 [0, 0])
      (HashOrder.insertion Walk) (HashOrder.insertion EvalWalk) ⟨7, 2, 2, 10⟩
      [0, 1, 2, 3, 4, 5, 6] [0, 1] .scatter (fun _ => 0) 1).map (fun res =>
        colorAt res.1 REQUESTOR) = some 2 := by decide +kernel
  rw [hres, Option.map_some, Option.some.injEq, hmoved] at hnode
  revert hnode
  decide +kernel

end ParallelSolution

end StripeRepair

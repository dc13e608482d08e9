import StripeRepair.Ec.TopoIdxs
import StripeRepair.Sol.Prepare
import StripeRepair.Sol.ChangeColor
import StripeRepair.Lib.Run

/-!
# Colouring a repair DAG

`genColoringForMultipleFailureLevelNew` colours the intermediate vertices children first.
Method 0 gives each vertex a colour of its children.  Method 1 gives a vertex that has no
colour, together with all other parents of its first child, one colour. `changeColor` asserts
that no counter is negative, and the planner stops where the assertion fails.

* `children_visited`: the order of the vertices.
* `yh_runs`, `level_runs`: method 0 gets to its end, and method 1 does when no transfer is
  dropped.
-/

namespace StripeRepair

open PRSolution (colorAt)

/-- `itm_idx_parents`: the parents of the first child. -/
def ECDAG.siblings (d : ECDAG) (idx : Nat) : List Nat := d.parentIds ((d.childIndices idx).getD 0 0)

namespace ParallelSolution

section
variable (d : ECDAG) (loadTable : List (List Int)) (ord : HashOrder Walk)
  (ord' : HashOrder EvalWalk)

/-- One vertex of `GloballyMLP_yh`; `none` when an assertion fails. -/
def yhStep (st : StripeTables) (idx : Nat) : Option StripeTables :=
  let oldColor := colorAt st.coloring idx
  let childColors := d.getChildColors st.coloring idx
  let bestColor := if childColors = [-1] then -1
    else chooseColor_fullnode d st.coloring st.cells childColors loadTable idx
  if bestColor = oldColor then some st else st.changeColor d ord' idx bestColor

/-- `bestColor`: of the colours of the children when all of them are leaves, else of the
candidates. -/
def levelColor (candidates : List Int) (st : StripeTables) (idx : Nat) : Int :=
  let colors := if ∀ c ∈ d.childIndices idx, c ∈ d.ecLeaves then d.getChildColors st.coloring idx
    else candidates
  chooseColor2New d st.coloring st.cells colors loadTable (d.siblings idx)

/-- `for (auto it : itm_idx_parents) stripe->changeColor(it, bestColor)` -/
def recolorGroup (group : List Nat) (bestColor : Int) (st : StripeTables) : Option StripeTables :=
  Lts.run (fun st it => st.changeColor d ord' it bestColor) st group

/-- One vertex of `GloballyMLPLevel`; `none` when an assertion fails. -/
def levelStep (candidates : List Int) (st : StripeTables) (idx : Nat) : Option StripeTables :=
  let oldColor := colorAt st.coloring idx
  if oldColor ≠ -1 then some st
  else
    let bestColor := levelColor d loadTable candidates st idx
    if bestColor = oldColor then some st
    else recolorGroup d ord' (d.siblings idx) bestColor st

/-- What both methods start from: -1 for each intermediate vertex. -/
def blank (coloring : Coloring) : StripeTables :=
  let coloring := d.genItmIdxs.foldl (fun r it => Coloring.insertNew r it (-1)) coloring
  StripeTables.evaluateColoring d ord' ⟨.empty, coloring, 0, 0⟩

def GloballyMLP_yh (coloring : Coloring) : Option StripeTables :=
  Lts.run (yhStep d loadTable ord') (blank d ord' coloring) (d.genTopoIdxs ord)

def GloballyMLPLevel (coloring : Coloring) (candidates : List Int) : Option StripeTables :=
  Lts.run (levelStep d loadTable ord' candidates) (blank d ord' coloring) (d.genTopoIdxs ord)

/-- `candidates`: the surviving nodes, then the repair nodes. -/
def candidatesOf (p : ParallelSolution) (placement failNodeIds : List Int) (coloring : Coloring) :
    List Int :=
  placement.filter (· ∉ failNodeIds) ++
    (List.range (p.failBlocks placement failNodeIds).card).map fun i =>
      colorAt coloring (d.ecHeaders.getD i 0)

/-- The colouring that is left, and the load table. -/
def genColoringForMultipleFailureLevelNew (p : ParallelSolution) (placement failNodeIds : List Int)
    (scenario : Scenario) (draws : Nat → Nat) (method : Nat) :
    Option (Coloring × List (List Int)) :=
  let coloring := p.prepare placement d failNodeIds scenario draws
  let candidates := candidatesOf d p placement failNodeIds coloring
  let st := if method = 1 then GloballyMLPLevel d loadTable ord ord' coloring candidates
    else GloballyMLP_yh d loadTable ord ord' coloring
  st.map fun st => (st.coloring, (ord'.order .coloring st.coloring.keys).foldl
    (d.evalVertex (colorAt st.coloring) Stripe.counted Stripe.bump) loadTable)

/-- A vertex that is coloured with its group drops no transfer: no member keeps its colour and
is the only parent of that colour of a child on another node. -/
def Undropped (candidates : List Int) (st : StripeTables) (idx : Nat) : Prop :=
  let bestColor := levelColor d loadTable candidates st idx
  colorAt st.coloring idx = -1 → bestColor ≠ -1 →
    Lts.Meets (fun st it => st.changeColor d ord' it bestColor)
      (fun st it => ¬ st.Drops d it bestColor) st (d.siblings idx)

instance (candidates : List Int) (st : StripeTables) (idx : Nat) :
    Decidable (Undropped d loadTable ord' candidates st idx) :=
  inferInstanceAs (Decidable (_ → _ → Lts.Meets _ _ st (d.siblings idx)))

/-- The run of method 1 drops no transfer. -/
def DropsNone (p : ParallelSolution) (placement failNodeIds : List Int) (scenario : Scenario)
    (draws : Nat → Nat) : Prop :=
  let coloring := p.prepare placement d failNodeIds scenario draws
  let candidates := candidatesOf d p placement failNodeIds coloring
  Lts.Meets (levelStep d loadTable ord' candidates) (Undropped d loadTable ord' candidates)
    (blank d ord' coloring) (d.genTopoIdxs ord)

instance (p : ParallelSolution) (placement failNodeIds : List Int) (scenario : Scenario)
    (draws : Nat → Nat) :
    Decidable (DropsNone d loadTable ord ord' p placement failNodeIds scenario draws) :=
  inferInstanceAs (Decidable (Lts.Meets _ (Undropped d loadTable ord' _) _ (d.genTopoIdxs ord)))

end

/-! ## The order of the vertices -/

/-- **Children first**: the queue empties, each vertex that is no leaf and no concatenation is
listed once, and where a loop over the list reaches a vertex it has visited the children. -/
theorem children_visited {d : ECDAG} (hd : d.Consistent) (ord : HashOrder Walk) :
    Worklist.Rounds d.waiting (d.queueStart ord) (d.queueOrder ord) ∧
    (∀ v, (d.genTopoIdxs ord).count v =
      if v ∈ d.nodeIds ∧ v ∉ d.ecConcacts ∧ v ∉ d.ecLeaves then 1 else 0) ∧
    ∀ pre v post, d.genTopoIdxs ord = pre ++ v :: post →
      (∀ c ∈ d.childIndices v, c ∈ d.genTopoIdxs ord → c ∈ pre) ∧
      (∀ c ∈ d.childIndices v, c ∈ pre ∨ c ∈ d.ecLeaves ∨ c ∈ d.ecConcacts) ∧
      ∀ (loadTable : List (List Int)) (ord' : HashOrder EvalWalk) (coloring : Coloring)
        (candidates : List Int),
        GloballyMLP_yh d loadTable ord ord' coloring =
          (((Lts.run (yhStep d loadTable ord') (blank d ord' coloring) pre).bind fun st =>
            yhStep d loadTable ord' st v).bind fun st =>
              Lts.run (yhStep d loadTable ord') st post) ∧
        GloballyMLPLevel d loadTable ord ord' coloring candidates =
          ((Lts.run (levelStep d loadTable ord' candidates) (blank d ord' coloring) pre).bind fun st =>
            levelStep d loadTable ord' candidates st v).bind fun st =>
              Lts.run (levelStep d loadTable ord' candidates) st post := by
  obtain ⟨hnodup, hmem, hord⟩ := hd.genTopoIdxs_spec ord
  refine ⟨(hd.queueOrder_spec ord).2.2, fun v => ?_, fun pre v post hsplit => ?_⟩
  · split
    · next h => exact List.count_eq_one_of_mem hnodup ((hmem v).2 h)
    · next h => exact List.count_eq_zero.2 fun hm => h ((hmem v).1 hm)
  · rw [hsplit, LinearProgram.ordered_append] at hord
    have hbefore : ∀ c ∈ d.childIndices v, c ∈ pre ∨ c ∈ d.ecLeaves ∨ c ∈ d.ecConcacts := by
      intro c hc
      rcases hord.2.1 c hc with (hc | hc) | hc
      · exact Or.inr (Or.inr hc)
      · exact Or.inr (Or.inl hc)
      · rw [List.map_id] at hc
        exact Or.inl hc
    refine ⟨fun c hc hin => ?_, hbefore, fun loadTable ord' coloring candidates => ⟨?_, ?_⟩⟩
    · obtain ⟨-, hconcact, hleaf⟩ := (hmem c).1 hin
      exact (hbefore c hc).resolve_right fun h => h.elim hleaf hconcact
    · rw [GloballyMLP_yh, hsplit, Lts.run_append_cons]
    · rw [GloballyMLPLevel, hsplit, Lts.run_append_cons]

theorem children_visited_sharedChild :
    ECDAG.sharedChild.genTopoIdxs (HashOrder.insertion Walk) = [2, 3] ∧
    ∀ c ∈ ECDAG.sharedChild.childIndices 3, c ∈ [2] ∨ c ∈ ECDAG.sharedChild.ecLeaves ∨
      c ∈ ECDAG.sharedChild.ecConcacts := by
  have hlist : ECDAG.sharedChild.genTopoIdxs (HashOrder.insertion Walk) = [2, 3] := by decide
  have h := children_visited ECDAG.consistent_sharedChild (HashOrder.insertion Walk)
  exact ⟨hlist, (h.2.2 [2] 3 [] hlist).2.1⟩

/-! ## No assertion fails -/

theorem blank_covers (d : ECDAG) (ord' : HashOrder EvalWalk) (coloring : Coloring) :
    (blank d ord' coloring).Covers d ord' :=
  (StripeTables.evaluated_evaluateColoring d ord'
    ⟨.empty, (blank d ord' coloring).coloring, 0, 0⟩).covers

section
variable {d : ECDAG} (hd : d.Consistent) {loadTable : List (List Int)} {ord' : HashOrder EvalWalk}
include hd

theorem exists_yhStep {st : StripeTables} (hcov : st.Covers d ord') (ht : st.Total d) {idx : Nat}
    (hidx : idx ∈ d.nodeIds) (hold : colorAt st.coloring idx = -1) :
    ∃ st', yhStep d loadTable ord' st idx = some st' ∧ st'.Covers d ord' ∧ st'.Total d ∧
      ∀ u, u ≠ idx → colorAt st'.coloring u = colorAt st.coloring u := by
  unfold yhStep
  simp only [hold]
  generalize (if d.getChildColors st.coloring idx = [-1] then -1 else _) = best
  by_cases hbest : best = -1
  · rw [if_pos hbest]
    exact ⟨st, rfl, hcov, ht, fun u _ => rfl⟩
  · rw [if_neg hbest]
    -- the vertex has no colour, so nothing is dropped
    obtain ⟨st', hst', hcov', ht'⟩ := hcov.changeColor hd ht hidx hbest
      fun hdrop => hbest (hdrop.1.symm.trans hold)
    refine ⟨st', hst', hcov', ht', fun u hu => ?_⟩
    rw [(StripeTables.changeColor_some hst').1, StripeTables.colorAt_insert_of_ne _ hu]

/-- **Method 0 gets to its end.** -/
theorem yh_runs (ord : HashOrder Walk) {coloring : Coloring}
    (ht : (blank d ord' coloring).Total d)
    (htodo : ∀ v ∈ d.genTopoIdxs ord, colorAt (blank d ord' coloring).coloring v = -1) :
    ∃ st, GloballyMLP_yh d loadTable ord ord' coloring = some st := by
  obtain ⟨hnodup, hmem, -⟩ := hd.genTopoIdxs_spec ord
  have hstep : ∀ pre a post (st : StripeTables), d.genTopoIdxs ord = pre ++ a :: post →
      ((st.Covers d ord' ∧ st.Total d) ∧
        ∀ v ∈ d.genTopoIdxs ord, v ∉ pre → colorAt st.coloring v = -1) → True →
      ∃ st', yhStep d loadTable ord' st a = some st' ∧ (st'.Covers d ord' ∧ st'.Total d) ∧
        ∀ v ∈ d.genTopoIdxs ord, v ∉ pre ++ [a] → colorAt st'.coloring v = -1 := by
    rintro pre a post st hl ⟨⟨hcov, htot⟩, htodo⟩ -
    have ha : a ∈ d.genTopoIdxs ord := hl ▸ List.mem_append_right _ (List.mem_cons_self ..)
    have hpre := Lts.not_mem_prefix hnodup hl
    obtain ⟨st', hst', hcov', htot', hsame⟩ := @exists_yhStep d hd loadTable ord' st hcov htot a
      ((hmem a).1 ha).1 (htodo a ha hpre)
    refine ⟨st', hst', ⟨hcov', htot'⟩, fun v hv hno => ?_⟩
    rw [List.mem_append, List.mem_singleton, not_or] at hno
    rw [hsame v hno.2]
    exact htodo v hv hno.1
  obtain ⟨st, hst, -⟩ := Lts.exists_run_of_meets (fun pre (st : StripeTables) =>
    (st.Covers d ord' ∧ st.Total d) ∧
      ∀ v ∈ d.genTopoIdxs ord, v ∉ pre → colorAt st.coloring v = -1) hstep
    ⟨⟨blank_covers d ord' coloring, ht⟩, fun v hv _ => htodo v hv⟩ (Lts.meets_true _ _)
  exact ⟨st, hst⟩

theorem exists_recolorGroup {c : Int} (hc : c ≠ -1) {group : List Nat}
    (hgroup : ∀ v ∈ group, v ∈ d.nodeIds) {st : StripeTables} (hcov : st.Covers d ord')
    (ht : st.Total d) (hm : Lts.Meets (fun st it => st.changeColor d ord' it c)
      (fun st it => ¬ st.Drops d it c) st group) :
    ∃ st', recolorGroup d ord' group c st = some st' ∧ st'.Covers d ord' ∧ st'.Total d := by
  refine Lts.exists_run_of_meets (fun _ (st : StripeTables) => st.Covers d ord' ∧ st.Total d)
    (fun pre v post st hl h hdrop => ?_) ⟨hcov, ht⟩ hm
  have hv : v ∈ group := hl ▸ List.mem_append_right _ (List.mem_cons_self ..)
  exact h.1.changeColor hd h.2 (hgroup v hv) hc hdrop

/-- **Method 1 gets to its end** when no transfer is dropped. -/
theorem level_runs (ord : HashOrder Walk) {coloring : Coloring} {candidates : List Int}
    (ht : (blank d ord' coloring).Total d)
    (hm : Lts.Meets (levelStep d loadTable ord' candidates) (Undropped d loadTable ord' candidates)
      (blank d ord' coloring) (d.genTopoIdxs ord)) :
    ∃ st, GloballyMLPLevel d loadTable ord ord' coloring candidates = some st := by
  have hstep : ∀ pre a post (st : StripeTables), d.genTopoIdxs ord = pre ++ a :: post →
      (st.Covers d ord' ∧ st.Total d) → Undropped d loadTable ord' candidates st a →
      ∃ st', levelStep d loadTable ord' candidates st a = some st' ∧
        st'.Covers d ord' ∧ st'.Total d := by
    intro pre a post st _ h hC
    unfold levelStep
    by_cases hold : colorAt st.coloring a = -1
    swap
    · exact ⟨st, if_pos hold, h⟩
    simp only [hold, ne_eq, not_true_eq_false, if_false]
    by_cases hbest : levelColor d loadTable candidates st a = -1
    · exact ⟨st, if_pos hbest, h⟩
    · rw [if_neg hbest]
      refine exists_recolorGroup hd hbest (fun v hv => ?_) h.1 h.2 (hC hold hbest)
      exact ECDAG.mem_nodeIds_of_childIndices (hd.mem_parentIds.1 hv)
  obtain ⟨st, hst, -⟩ := Lts.exists_run_of_meets (fun _ (st : StripeTables) =>
    st.Covers d ord' ∧ st.Total d) hstep
    ⟨blank_covers d ord' coloring, ht⟩ hm
  exact ⟨st, hst⟩

end

/-- Distinct vertices without a colour drop nothing. -/
theorem meets_uncolored {d : ECDAG} {ord' : HashOrder EvalWalk} {c : Int} (hc : c ≠ -1)
    {group : List Nat} (hnodup : group.Nodup) {st : StripeTables}
    (hold : ∀ v ∈ group, colorAt st.coloring v = -1) :
    Lts.Meets (fun st it => st.changeColor d ord' it c) (fun st it => ¬ st.Drops d it c) st
      group := by
  refine Lts.meets_of_prefix_inv
    (fun pre (st : StripeTables) => ∀ v ∈ group, v ∉ pre → colorAt st.coloring v = -1)
    (fun pre a post s s' hl h hs v hv hno => ?_) (fun pre a post s hl h hdrop => ?_)
    fun v hv _ => hold v hv
  · rw [List.mem_append, List.mem_singleton, not_or] at hno
    rw [(StripeTables.changeColor_some hs).1, StripeTables.colorAt_insert_of_ne _ hno.2]
    exact h v hv hno.1
  · have hpre := Lts.not_mem_prefix hnodup hl
    have ha : a ∈ group := hl ▸ List.mem_append_right _ (List.mem_cons_self ..)
    exact hc (hdrop.1.symm.trans (h a ha hpre))

end ParallelSolution

end StripeRepair

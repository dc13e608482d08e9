import StripeRepair.Sol.Prepare
import StripeRepair.Lib.Run

/-!
# The nodes of a centralized repair

`CentSolution::genCentralizedColoringForMutipleFailure` draws one node for each failed block.
It draws a position in the list of candidates, and draws again when the position is in the list
of the nodes that were drawn.

* `usable_iff`: the repair nodes are distinct when the candidates are the nodes 0, 1, 2 and so
  on, so that positions are nodes.
* `distinctRepairNodes_iff`: the repair of a stripe.
-/

namespace StripeRepair

open PRSolution (colorAt)

namespace CentSolution

section
variable (p : ParallelSolution) (placement : List Int) (d : ECDAG) (failNodeIds : List Int)
  (numAgents : Nat)

/-- The nodes of the leaves that are of a block, and the failed nodes. -/
def avoidNodeIds : List Int :=
  (d.ecLeaves.filter fun v => v / p.ecw < p.ecn).map (p.leafNode placement) ++ failNodeIds

def candidates : List Int :=
  ((List.range numAgents).map fun i : Nat => (i : Int)).filter
    fun i => i ∉ avoidNodeIds p placement d failNodeIds

/-- One value of `rand`. The state is how many nodes are still to be drawn, and `ret`. -/
def chooseStep (candidates : List Int) : Nat × List Int → Nat → Option (Nat × List Int)
  | (0, _), _ => none
  | (n + 1, ret), rand =>
    let randIdx := rand % candidates.length
    if (randIdx : Int) ∈ ret then some (n + 1, ret)
    else some (n, ret ++ [candidates.getD randIdx 0])

/-- The values of `rand` are those that the loop takes. -/
def choose (candidates : List Int) (failnum : Nat) (rands : List Nat) : Option (List Int) :=
  match Lts.run (chooseStep candidates) (failnum, []) rands with
  | some (0, ret) => some ret
  | _ => none

/-- `exit` for standby, and the assertion that there are enough candidates. -/
def genCentralizedColoringForMutipleFailure (failnum : Nat) (scenario : Scenario)
    (rands : List Nat) : Option Coloring :=
  match scenario with
  | .standby => none
  | .scatter =>
    let candidates := candidates p placement d failNodeIds numAgents
    if failNodeIds.length ≤ candidates.length then do
      let res := d.ecLeaves.foldl
        (fun res dagidx => Coloring.insertNew res dagidx (p.leafNode placement dagidx)) ∅
      let ret ← choose candidates failnum rands
      let relayerNode ← ret.head?
      let res := d.nodeIds.foldl (fun res dagidx => Coloring.insertNew res dagidx relayerNode) res
      return (d.ecConcacts.zip ret).foldl (fun res e => res.insert e.1 e.2) res
    else none

/-! ## What is wanted -/

/-- The repair nodes are distinct, not failed and without a block that is read. -/
def RepairNodesUsable (failnum : Nat) : Prop :=
  ∀ scenario rands res, genCentralizedColoringForMutipleFailure p placement d failNodeIds numAgents
      failnum scenario rands = some res →
    (d.ecConcacts.map (colorAt res)).Nodup ∧
      ∀ v ∈ d.ecConcacts, colorAt res v ∉ failNodeIds ∧
        ∀ u ∈ d.ecLeaves, u / p.ecw < p.ecn → colorAt res v ≠ p.leafNode placement u

/-- Whatever was drawn, some value of `rand` ends the inner loop. -/
def GoesOn (candidates : List Int) (failnum : Nat) : Prop :=
  ∀ rands n ret, Lts.run (chooseStep candidates) (failnum, []) rands = some (n + 1, ret) →
    ∃ rand ret', chooseStep candidates (n + 1, ret) rand = some (n, ret')

end

/-! ## The draws -/

section
variable {C : List Int} {n : Nat} {ret : List Int}

theorem chooseStep_of_mem {rand : Nat} (h : ((rand % C.length : Nat) : Int) ∈ ret) :
    chooseStep C (n + 1, ret) rand = some (n + 1, ret) := if_pos h

theorem chooseStep_of_notMem {rand : Nat} (h : ((rand % C.length : Nat) : Int) ∉ ret) :
    chooseStep C (n + 1, ret) rand = some (n, ret ++ [C.getD (rand % C.length) 0]) := if_neg h

/-- What the loop keeps: the count, and candidates only. -/
structure Drawn (C : List Int) (failnum : Nat) (st : Nat × List Int) : Prop where
  count : st.1 + st.2.length = failnum
  mem : ∀ r ∈ st.2, r ∈ C

theorem Drawn.step (hC : C ≠ []) {failnum rand : Nat} {st st' : Nat × List Int}
    (h : Drawn C failnum st) (hstep : chooseStep C st rand = some st') : Drawn C failnum st' := by
  obtain ⟨n, ret⟩ := st
  cases n with
  | zero => cases hstep
  | succ n =>
    by_cases hmem : ((rand % C.length : Nat) : Int) ∈ ret
    · rw [chooseStep_of_mem hmem] at hstep
      cases hstep
      exact h
    · rw [chooseStep_of_notMem hmem] at hstep
      cases hstep
      have hcount : n + 1 + ret.length = failnum := h.count
      have hlt : rand % C.length < C.length := Nat.mod_lt _ (List.length_pos_iff.2 hC)
      refine ⟨?_, fun r hr => ?_⟩
      · show n + (ret ++ [_]).length = failnum
        rw [List.length_append, List.length_singleton]
        omega
      · rcases List.mem_append.1 hr with hr | hr
        · exact h.mem r hr
        · rw [List.mem_singleton.1 hr, List.getD_eq_getElem _ _ hlt]
          exact List.getElem_mem hlt

theorem drawn_run (hC : C ≠ []) {failnum : Nat} {rands : List Nat} {st : Nat × List Int}
    (h : Lts.run (chooseStep C) (failnum, []) rands = some st) : Drawn C failnum st :=
  Lts.run_inv (fun _ _ _ hst hstep => hst.step hC hstep)
    (⟨by simp, fun r hr => absurd hr List.not_mem_nil⟩ : Drawn C failnum (failnum, [])) h

/-- The same position again and again, of a node that has another number. -/
theorem run_replicate {b : Nat} (hb : b < C.length) (hne : C.getD b 0 ≠ b) (m k : Nat) :
    Lts.run (chooseStep C) (m, List.replicate k (C.getD b 0)) (List.replicate m b) =
      some (0, List.replicate (k + m) (C.getD b 0)) := by
  induction m generalizing k with
  | zero => rfl
  | succ m ih =>
    have hmem : ((b % C.length : Nat) : Int) ∉ List.replicate k (C.getD b 0) := by
      rw [Nat.mod_eq_of_lt hb]
      exact fun h => hne (List.eq_of_mem_replicate h).symm
    rw [List.replicate_succ, Lts.run, chooseStep_of_notMem hmem, Nat.mod_eq_of_lt hb,
      ← List.replicate_succ']
    show Lts.run (chooseStep C) (m, List.replicate (k + 1) _) (List.replicate m b) = _
    rw [ih (k + 1), Nat.add_right_comm, Nat.add_assoc]

/-- The candidates are the nodes 0, 1, 2 and so on. -/
def Initial (C : List Int) : Prop := C = (List.range C.length).map fun i : Nat => (i : Int)

instance (C : List Int) : Decidable (Initial C) := inferInstanceAs (Decidable (_ = _))

theorem Initial.getD (h : Initial C) {b : Nat} (hb : b < C.length) : C.getD b 0 = b := by
  rw [List.getD_eq_getElem _ _ hb]
  have := List.getElem_of_eq h hb
  rwa [List.getElem_map, List.getElem_range] at this

theorem exists_of_not_initial (h : ¬ Initial C) : ∃ b < C.length, C.getD b 0 ≠ b := by
  by_contra hall
  refine h (List.ext_getElem (by rw [List.length_map, List.length_range]) fun b hb _ => ?_)
  rw [List.getElem_map, List.getElem_range, ← List.getD_eq_getElem C 0 hb]
  by_contra hne
  exact hall ⟨b, hb, hne⟩

/-- Positions that are nodes are drawn once. -/
theorem nodup_run (hI : Initial C) (hC : C ≠ []) {failnum : Nat} {rands : List Nat}
    {st : Nat × List Int} (h : Lts.run (chooseStep C) (failnum, []) rands = some st) :
    st.2.Nodup := by
  refine Lts.run_inv (I := fun st => st.2.Nodup) (fun st rand st' hst hstep => ?_) List.nodup_nil h
  obtain ⟨n, ret⟩ := st
  cases n with
  | zero => cases hstep
  | succ n =>
    by_cases hmem : ((rand % C.length : Nat) : Int) ∈ ret
    · rw [chooseStep_of_mem hmem] at hstep
      cases hstep
      exact hst
    · have hlt : rand % C.length < C.length := Nat.mod_lt _ (List.length_pos_iff.2 hC)
      rw [chooseStep_of_notMem hmem, hI.getD hlt] at hstep
      cases hstep
      show (ret ++ [_]).Nodup
      rw [← List.concat_eq_append]
      exact hst.concat hmem

/-- All positions in turn. -/
theorem run_range (hI : Initial C) (k n : Nat) (hk : k ≤ C.length) :
    Lts.run (chooseStep C) (k + n, []) (List.range k) =
      some (n, (List.range k).map fun i : Nat => (i : Int)) := by
  induction k generalizing n with
  | zero =>
    rw [Nat.zero_add]
    rfl
  | succ k ih =>
    have hmem : ((k % C.length : Nat) : Int) ∉ (List.range k).map fun i : Nat => (i : Int) := by
      rw [Nat.mod_eq_of_lt hk]
      intro h
      obtain ⟨i, hi, heq⟩ := List.mem_map.1 h
      have := List.mem_range.1 hi
      omega
    rw [Nat.add_right_comm, Nat.add_assoc, List.range_succ, Lts.run_append, ih (n + 1) (by omega)]
    show Lts.run (chooseStep C) (n + 1, _) [k] = _
    rw [Lts.run, chooseStep_of_notMem hmem, Nat.mod_eq_of_lt hk, hI.getD hk, List.map_append]
    rfl

/-- **The draws go on** when fewer nodes are drawn than there are candidates. -/
theorem goesOn_of_le {failnum : Nat} (hC : C ≠ []) (hle : failnum ≤ C.length) :
    GoesOn C failnum := by
  intro rands n ret hrun
  have hcount : n + 1 + ret.length = failnum := (drawn_run hC hrun).count
  obtain ⟨b, hb, hmem⟩ : ∃ b < C.length, (b : Int) ∉ ret := by
    by_contra hall
    have hsub : (List.range C.length).map (fun i : Nat => (i : Int)) ⊆ ret := by
      intro x hx
      obtain ⟨b, hb, rfl⟩ := List.mem_map.1 hx
      by_contra hmem
      exact hall ⟨b, List.mem_range.1 hb, hmem⟩
    have hnd : ((List.range C.length).map fun i : Nat => (i : Int)).Nodup :=
      List.nodup_range.map fun _ _ h => Int.ofNat_inj.1 h
    have hlen := (hnd.subperm hsub).length_le
    rw [List.length_map, List.length_range] at hlen
    omega
  refine ⟨b, ret ++ [C.getD (b % C.length) 0], chooseStep_of_notMem ?_⟩
  rwa [Nat.mod_eq_of_lt hb]

end

/-! ## The colours of the concatenations -/

/-- Assignments, to distinct keys. -/
theorem map_colorAt_insert_zip (vs : List Nat) (cs : List Int) (res : Coloring)
    (hlen : vs.length = cs.length) (hnd : vs.Nodup) :
    (∀ u ∉ vs, colorAt ((vs.zip cs).foldl (fun r e => r.insert e.1 e.2) res) u = colorAt res u) ∧
      vs.map (colorAt ((vs.zip cs).foldl (fun r e => r.insert e.1 e.2) res)) = cs := by
  induction vs generalizing cs res with
  | nil =>
    cases cs with
    | nil => exact ⟨fun _ _ => rfl, rfl⟩
    | cons c cs => exact absurd hlen (by simp)
  | cons v vs ih =>
    cases cs with
    | nil => exact absurd hlen (by simp)
    | cons c cs =>
      rw [List.nodup_cons] at hnd
      obtain ⟨h1, h2⟩ := ih cs (res.insert v c) (Nat.succ.inj hlen) hnd.2
      rw [List.zip_cons_cons, List.foldl_cons]
      refine ⟨fun u hu => ?_, ?_⟩
      · rw [List.mem_cons, not_or] at hu
        rw [h1 u hu.2, PRSolution.colorAt_insert, if_neg hu.1]
      · rw [List.map_cons, h2, h1 v hnd.1, PRSolution.colorAt_insert, if_pos rfl]

section
variable {p : ParallelSolution} {placement : List Int} {d : ECDAG} {failNodeIds : List Int}
  {numAgents failnum : Nat} {rands : List Nat}

theorem choose_eq_some {C ret : List Int} : choose C failnum rands = some ret ↔
    Lts.run (chooseStep C) (failnum, []) rands = some (0, ret) := by
  unfold choose
  split
  next ret' h =>
    rw [h]
    simp
  next h =>
    refine iff_of_false (by simp) fun hrun => h ret hrun

variable (hnd : d.ecConcacts.Nodup) (hfail : d.ecConcacts.length = failnum)
include hnd hfail

/-- The concatenations get the nodes in the order of the draws. -/
theorem map_colorAt_gen {scenario : Scenario} {res : Coloring}
    (hC : candidates p placement d failNodeIds numAgents ≠ [])
    (h : genCentralizedColoringForMutipleFailure p placement d failNodeIds numAgents failnum
      scenario rands = some res) :
    choose (candidates p placement d failNodeIds numAgents) failnum rands =
      some (d.ecConcacts.map (colorAt res)) := by
  unfold genCentralizedColoringForMutipleFailure at h
  cases scenario with
  | standby => cases h
  | scatter =>
    dsimp only at h
    split at h
    next =>
      obtain ⟨ret, hret, h⟩ := Option.bind_eq_some_iff.1 h
      obtain ⟨relayerNode, -, h⟩ := Option.bind_eq_some_iff.1 h
      cases h
      have hcount : 0 + ret.length = failnum := (drawn_run hC (choose_eq_some.1 hret)).count
      rw [(map_colorAt_insert_zip d.ecConcacts ret _ (by omega) hnd).2]
      exact hret
    next => cases h

omit hnd hfail in
theorem exists_gen {ret : List Int} (hret : ret ≠ [])
    (hle : failNodeIds.length ≤ (candidates p placement d failNodeIds numAgents).length)
    (h : choose (candidates p placement d failNodeIds numAgents) failnum rands = some ret) :
    ∃ res, genCentralizedColoringForMutipleFailure p placement d failNodeIds numAgents failnum
      .scatter rands = some res := by
  unfold genCentralizedColoringForMutipleFailure
  cases ret with
  | nil => exact absurd rfl hret
  | cons r ret =>
    dsimp only
    rw [if_pos hle, h]
    exact ⟨_, rfl⟩

omit hnd hfail in
/-- The nodes are candidates, so they have not failed and no leaf is read on them. -/
theorem usable_of_mem {c : Int} (hc : c ∈ candidates p placement d failNodeIds numAgents) :
    c ∉ failNodeIds ∧ ∀ u ∈ d.ecLeaves, u / p.ecw < p.ecn → c ≠ p.leafNode placement u := by
  have hout := of_decide_eq_true (List.mem_filter.1 hc).2
  refine ⟨fun h => hout (List.mem_append_right _ h), fun u hu hreal h => hout ?_⟩
  refine List.mem_append_left _ (List.mem_map.2 ⟨u, ?_, h.symm⟩)
  exact List.mem_filter.2 ⟨hu, decide_eq_true hreal⟩

/-- The colours are distinct when the draws are. -/
theorem repairNodesUsable_of_nodup
    (hC : candidates p placement d failNodeIds numAgents ≠ [])
    (h : ∀ rands ret, choose (candidates p placement d failNodeIds numAgents) failnum rands =
      some ret → ret.Nodup) :
    RepairNodesUsable p placement d failNodeIds numAgents failnum := by
  intro scenario rands res hgen
  have hchoose := map_colorAt_gen hnd hfail hC hgen
  have hmem := (drawn_run hC (choose_eq_some.1 hchoose)).mem
  exact ⟨h rands _ hchoose, fun v hv => usable_of_mem (hmem _ (List.mem_map_of_mem hv))⟩

/-- **The nodes of a centralized repair**: with enough candidates, they are distinct and the
draws go on exactly when one block failed at most, or the candidates are the nodes 0, 1, 2 and
so on. -/
theorem usable_iff (hpos : 0 < failnum → failNodeIds ≠ [])
    (hle : failNodeIds.length ≤ (candidates p placement d failNodeIds numAgents).length) :
    RepairNodesUsable p placement d failNodeIds numAgents failnum ∧
        GoesOn (candidates p placement d failNodeIds numAgents) failnum ↔
      failnum ≤ 1 ∨ Initial (candidates p placement d failNodeIds numAgents) ∧
        failnum ≤ (candidates p placement d failNodeIds numAgents).length := by
  by_cases h0 : failnum = 0
  · subst h0
    have hnil : d.ecConcacts = [] := List.length_eq_zero_iff.1 hfail
    refine iff_of_true ⟨fun _ _ res _ => ?_, fun rands n ret hrun => ?_⟩ (.inl (Nat.zero_le 1))
    · rw [hnil]
      exact ⟨List.nodup_nil, fun v hv => absurd hv List.not_mem_nil⟩
    · cases rands with
      | nil => cases hrun
      | cons rand rands => cases hrun
  have hpos' : 0 < (candidates p placement d failNodeIds numAgents).length :=
    (List.length_pos_iff.2 (hpos (Nat.pos_of_ne_zero h0))).trans_le hle
  have hC := List.length_pos_iff.1 hpos'
  constructor
  · rintro ⟨husable, hgoes⟩
    by_contra hnot
    rw [not_or, not_and] at hnot
    by_cases hI : Initial (candidates p placement d failNodeIds numAgents)
    · -- all candidates are drawn, and every position is a node that was drawn
      have hlt := Nat.not_le.1 (hnot.2 hI)
      obtain ⟨n, hn⟩ := Nat.exists_eq_add_of_lt hlt
      have hrun := run_range hI _ (n + 1) (Nat.le_refl _)
      rw [show _ + (n + 1) = failnum by omega] at hrun
      obtain ⟨rand, ret', hstep⟩ := hgoes _ _ _ hrun
      rw [chooseStep_of_mem (List.mem_map_of_mem (List.mem_range.2 (Nat.mod_lt _ hpos')))] at hstep
      have hcount := congrArg Prod.fst (Option.some.inj hstep)
      exact absurd hcount (by simp)
    · obtain ⟨b, hb, hne⟩ := exists_of_not_initial hI
      have hrun := run_replicate hb hne failnum 0
      rw [Nat.zero_add] at hrun
      obtain ⟨res, hres⟩ := exists_gen (by rw [ne_eq, List.replicate_eq_nil_iff]; exact h0) hle
        (choose_eq_some.2 hrun)
      have hchoose := (map_colorAt_gen hnd hfail hC hres).symm.trans (choose_eq_some.2 hrun)
      have hdistinct := (husable _ _ _ hres).1
      rw [Option.some.inj hchoose, List.nodup_replicate] at hdistinct
      exact hnot.1 hdistinct
  · rintro (hone | ⟨hI, hcount⟩)
    · refine ⟨repairNodesUsable_of_nodup hnd hfail hC fun rands ret hret => ?_,
        goesOn_of_le hC (by omega)⟩
      have hcount : 0 + ret.length = failnum := (drawn_run hC (choose_eq_some.1 hret)).count
      match ret with
      | [] => exact List.nodup_nil
      | [r] => exact List.nodup_singleton r
      | r :: r' :: ret => simp only [List.length_cons] at hcount; omega
    · refine ⟨repairNodesUsable_of_nodup hnd hfail hC fun rands ret hret => ?_,
        goesOn_of_le hC hcount⟩
      exact nodup_run hI hC (choose_eq_some.1 hret)

end

/-! ## Stripes -/

section
variable (p : ParallelSolution) (placement failNodeIds : List Int) (numAgents : Nat)

/-- **The repair of a stripe**, for every code. The repair DAG has a concatenation for each
failed block, and as many nodes are drawn. -/
theorem distinctRepairNodes_iff (hR : p.ecn ≤ REQUESTOR) (hw : 0 < p.ecw)
    (decode : List Nat → List Nat → ECDAG) (js : List Join)
    (hdec : decode (packets p.ecw (survivors p.ecn (p.failBlocks placement failNodeIds)))
      (packets p.ecw (losses p.ecn (p.failBlocks placement failNodeIds))) = .build js)
    (d : ECDAG) (hdag : d = genRepairECDAG decode p.ecn p.ecw (p.failBlocks placement failNodeIds))
    (hle : failNodeIds.length ≤ (candidates p placement d failNodeIds numAgents).length) :
    RepairNodesUsable p placement d failNodeIds numAgents
          (p.failBlocks placement failNodeIds).card ∧
        GoesOn (candidates p placement d failNodeIds numAgents)
          (p.failBlocks placement failNodeIds).card ↔
      (p.failBlocks placement failNodeIds).card ≤ 1 ∨
        Initial (candidates p placement d failNodeIds numAgents) ∧
          (p.failBlocks placement failNodeIds).card ≤
            (candidates p placement d failNodeIds numAgents).length := by
  have hconcacts : d.ecConcacts =
      (losses p.ecn (p.failBlocks placement failNodeIds)).map fun i => REQUESTOR - i := by
    rw [hdag, ecConcacts_genRepairECDAG hw hdec]
  have hfail : d.ecConcacts.length = (p.failBlocks placement failNodeIds).card := by
    have hsub : p.failBlocks placement failNodeIds ⊆ Finset.range p.ecn :=
      Finset.filter_subset _ _
    rw [hconcacts, List.length_map, length_losses hsub]
  refine usable_iff (hconcacts ▸ nodup_concacts hR _) hfail (fun hpos => ?_) hle
  obtain ⟨i, hi⟩ := Finset.card_pos.1 hpos
  exact List.ne_nil_of_mem (Finset.mem_filter.1 hi).2

end

/-- Two parities. The blocks 2 and 3 of a (4, 2) stripe on the nodes 2, 3, 4 and 5 fail, and
the nodes 0 and 1 are left. -/
theorem distinctRepairNodes_iff_two :
    RepairNodesUsable ⟨4, 1, 0, 6⟩ [2, 3, 4, 5]
        (genRepairECDAG (fun _ _ => .build [⟨2, [0, 1], [1, 1]⟩, ⟨3, [0, 1], [1, 2]⟩]) 4 1
          (ParallelSolution.failBlocks ⟨4, 1, 0, 6⟩ [2, 3, 4, 5] [4, 5])) [4, 5] 6
        (ParallelSolution.failBlocks ⟨4, 1, 0, 6⟩ [2, 3, 4, 5] [4, 5]).card ∧
      GoesOn (candidates ⟨4, 1, 0, 6⟩ [2, 3, 4, 5]
          (genRepairECDAG (fun _ _ => .build [⟨2, [0, 1], [1, 1]⟩, ⟨3, [0, 1], [1, 2]⟩]) 4 1
            (ParallelSolution.failBlocks ⟨4, 1, 0, 6⟩ [2, 3, 4, 5] [4, 5])) [4, 5] 6)
        (ParallelSolution.failBlocks ⟨4, 1, 0, 6⟩ [2, 3, 4, 5] [4, 5]).card :=
  (distinctRepairNodes_iff ⟨4, 1, 0, 6⟩ [2, 3, 4, 5] [4, 5] 6 (by decide) (by decide)
    (fun _ _ => .build [⟨2, [0, 1], [1, 1]⟩, ⟨3, [0, 1], [1, 2]⟩]) _ rfl _ rfl (by decide)).2
    (by decide)

/-- The same stripe on the nodes 0 to 3 of six. The nodes 4 and 5 are left, and position 0 is
drawn twice. -/
theorem repairNode_twice :
    ¬ RepairNodesUsable ⟨4, 1, 0, 6⟩ [0, 1, 2, 3]
      (genRepairECDAG (fun _ _ => .build [⟨2, [0, 1], [1, 1]⟩, ⟨3, [0, 1], [1, 2]⟩]) 4 1
        (ParallelSolution.failBlocks ⟨4, 1, 0, 6⟩ [0, 1, 2, 3] [2, 3])) [2, 3] 6
      (ParallelSolution.failBlocks ⟨4, 1, 0, 6⟩ [0, 1, 2, 3] [2, 3]).card := by
  intro h
  have hnodup := (h .scatter [0, 0] _ rfl).1
  exact absurd hnodup (by decide)

end CentSolution

end StripeRepair

import StripeRepair.Common.SendRecv
import StripeRepair.Common.Traffic

/-!
# `PRSolution::evaluate`, and planned against executed traffic

The search over colourings evaluates a candidate with a traversal of its own, which does
not ask whether a parent is coloured -1.

* `traffic_eq`: the evaluations and the compiled tasks count the same transfers when the
  colouring tells the zero packets.
* `traffic_zero_leaf`: otherwise they do not.
-/

namespace StripeRepair

/-- An assignment of colours to the intermediate vertices, with what its evaluation found. -/
structure PRSolution where
  solution : List Int
  bdwt : Nat
  load : Nat
  deriving DecidableEq, Repr

namespace PRSolution

/-- The fields after the constructor. -/
def fresh (solution : List Int) : PRSolution := ⟨solution, 0, 0⟩

/-- `get full coloring`: a copy of `sid2color`, with `_solution` at the places `itm_idx`. -/
def fullColoring (sol : PRSolution) (sid2color : AList fun _ : Nat => Int)
    (itmIdx : List Nat) : AList fun _ : Nat => Int :=
  (itmIdx.zip sol.solution).foldl (fun m e => m.insert e.1 e.2) sid2color

/-- `coloring[idx]` -/
def colorAt (coloring : AList fun _ : Nat => Int) (idx : Nat) : Int :=
  (coloring.lookup idx).getD 0

theorem colorAt_insert (coloring : AList fun _ : Nat => Int) (v : Nat) (c : Int) (u : Nat) :
    colorAt (coloring.insert v c) u = if u = v then c else colorAt coloring u := by
  unfold colorAt
  split
  · next h =>
    rw [h, AList.lookup_insert]
    rfl
  · next h => rw [AList.lookup_insert_ne h]

/-- Every parent of another colour counts, also one coloured -1. -/
def counted (mycolor parentcolor : Int) : Bool := mycolor ≠ parentcolor

def traffic (ecdag : ECDAG) (coloring : AList fun _ : Nat => Int) (ord : HashOrder EvalWalk) :
    Traffic :=
  ((ord.order .coloring coloring.entries).map Sigma.fst).foldl
    (ecdag.evalVertex (colorAt coloring) counted Traffic.move) .empty

def evaluate (sol : PRSolution) (ecdag : ECDAG) (sid2color : AList fun _ : Nat => Int)
    (itmIdx : List Nat) (ord : HashOrder EvalWalk) : PRSolution :=
  let stat := (traffic ecdag (sol.fullColoring sid2color itmIdx) ord).stat ord (sol.bdwt, sol.load)
  { sol with bdwt := stat.1, load := stat.2 }

/-- The full colouring is the colouring of the stripe. -/
def ColorsAs (coloring : AList fun _ : Nat => Int) (s : Stripe) : Prop :=
  ∀ v c, coloring.lookup v = some c ↔ v ∈ s.ecdag.nodeIds ∧ c = s.coloring v

section
variable {coloring : AList fun _ : Nat => Int} {s : Stripe} (h : ColorsAs coloring s)
include h

theorem ColorsAs.colorAt_eq {v : Nat} (hv : v ∈ s.ecdag.nodeIds) :
    colorAt coloring v = s.coloring v := by
  rw [colorAt, (h v _).2 ⟨hv, rfl⟩]
  rfl

theorem ColorsAs.keys_perm (hd : s.ecdag.WellFormed) (ord : HashOrder EvalWalk) :
    ((ord.order .coloring coloring.entries).map Sigma.fst).Perm s.ecdag.nodeIds := by
  refine ((ord.perm _ _).map _).trans ?_
  refine (List.perm_ext_iff_of_nodup coloring.keys_nodup hd.nodup).2 fun v => ?_
  show v ∈ coloring.keys ↔ _
  rw [← AList.mem_keys, ← AList.lookup_isSome, Option.isSome_iff_exists]
  constructor
  · rintro ⟨c, hc⟩
    exact ((h v c).1 hc).1
  · exact fun hv => ⟨_, (h v _).2 ⟨hv, rfl⟩⟩

/-- With leaves alone coloured -1, no parent is, and the two tests agree. -/
theorem ColorsAs.movesOf_eq (hd : s.ecdag.WellFormed)
    (hleaf : ∀ v ∈ s.ecdag.nodeIds, s.coloring v = -1 → s.ecdag.childIndices v = []) {v : Nat}
    (hv : v ∈ s.ecdag.nodeIds) : s.ecdag.movesOf (colorAt coloring) counted v =
      s.ecdag.movesOf s.coloring Stripe.counted v := by
  have hparent : ∀ p ∈ s.ecdag.parentIds v, p ∈ s.ecdag.nodeIds ∧ s.coloring p ≠ -1 := by
    intro p hp
    have hch := hd.mem_parentIds.1 hp
    have hpn := (hd.childIndices_nodeIds hch).2
    exact ⟨hpn, fun hc => List.ne_nil_of_mem hch (hleaf p hpn hc)⟩
  have hcolors : s.ecdag.parentColors (colorAt coloring) v =
      s.ecdag.parentColors s.coloring v := by
    unfold ECDAG.parentColors
    refine List.foldl_ext _ _ _ fun l p hp => ?_
    rw [h.colorAt_eq (hparent p hp).1]
  rw [ECDAG.movesOf, ECDAG.movesOf, h.colorAt_eq hv, hcolors]
  split
  · rfl
  · congr 1
    refine List.filter_congr fun c hc => ?_
    obtain ⟨p, hp, rfl⟩ := s.mem_nodeidlist.1 hc
    simp [counted, Stripe.counted, (hparent p hp).2]

theorem ColorsAs.traffic_perm (hd : s.ecdag.WellFormed)
    (hleaf : ∀ v ∈ s.ecdag.nodeIds, s.coloring v = -1 → s.ecdag.childIndices v = [])
    (ord : HashOrder EvalWalk) : ∃ es : List (Nat × Int), es.Perm s.moves ∧
      traffic s.ecdag coloring ord = (es.map (ends s.coloring)).foldl Traffic.move .empty := by
  have hkeys := h.keys_perm hd ord
  have hmem : ∀ v ∈ (ord.order .coloring coloring.entries).map Sigma.fst, v ∈ s.ecdag.nodeIds :=
    fun v hv => hkeys.mem_iff.1 hv
  refine ⟨_, hkeys.flatMap_right _, ?_⟩
  rw [traffic, ECDAG.foldl_evalVertex]
  have hmoves := List.flatMap_congr fun v hv => h.movesOf_eq hd hleaf (hmem v hv)
  rw [hmoves]
  congr 1
  refine List.map_congr_left fun m hm => ?_
  obtain ⟨v, hv, hm⟩ := List.mem_flatMap.1 hm
  have hm1 : m.1 = v := by
    unfold ECDAG.movesOf at hm
    split at hm
    · cases hm
    · obtain ⟨c, -, rfl⟩ := List.mem_map.1 hm
      rfl
  rw [ends, ends, hm1, h.colorAt_eq (hmem v hv)]

end

end PRSolution

/-! ## Planned against executed -/

/-- Two orders of the same transfers give the same tables, sum and maximum. -/
theorem Traffic.stat_eq_of_perm {es es' : List (Int × Int)} (hp : es.Perm es')
    (ord ord' : HashOrder EvalWalk) :
    (es.foldl move empty).stat ord (0, 0) = (es'.foldl move empty).stat ord' (0, 0) := by
  obtain ⟨hb, hl⟩ := stat_spec (es.foldl move empty) ord
  obtain ⟨hb', hl'⟩ := stat_spec (es'.foldl move empty) ord'
  have hin : (es.foldl move empty).inMap.get = (es'.foldl move empty).inMap.get := by
    ext c
    rw [(get_foldl_move es c).1, (get_foldl_move es' c).1, hp.countP_eq]
  have hout : (es.foldl move empty).outMap.get = (es'.foldl move empty).outMap.get := by
    ext c
    rw [(get_foldl_move es c).2, (get_foldl_move es' c).2, hp.countP_eq]
  rw [hin, hout] at hl
  refine Prod.ext ?_ (hl.unique hl')
  rw [hb, hb', (sum_foldl_move es).1, (sum_foldl_move es').1, hp.length_eq]

namespace Stripe

/-- What `evaluateColoring` leaves in `_in`, `_out`, `_bdwt` and `_load`, against the tasks
and the other two evaluations. -/
structure TrafficAgrees (s : Stripe) (ecn ecw : Nat) (ord : HashOrder Walk)
    (eord : HashOrder EvalWalk) : Prop where
  inMap : ∀ c, (s.evaluateColoring eord).inMap.get c =
    ((s.tasksOf ord ecn ecw (fun _ => none) c).flatMap Task.recvEntries).length
  outMap : ∀ c, (s.evaluateColoring eord).outMap.get c =
    ((s.tasksOf ord ecn ecw (fun _ => none) c).flatMap Task.sendEntries).length
  table : ∀ L eord', s.OverCluster L →
    s.evalColoringGlobal eord' L = plus L (s.evaluateColoring eord)
  search : ∀ solution sid2color itmIdx eord',
    (∀ v ∈ s.ecdag.nodeIds, s.coloring v = -1 → s.ecdag.childIndices v = []) →
    PRSolution.ColorsAs ((PRSolution.fresh solution).fullColoring sid2color itmIdx) s →
    (PRSolution.fresh solution).evaluate s.ecdag sid2color itmIdx eord' =
      ⟨solution, ((s.evaluateColoring eord).stat eord (0, 0)).1,
        ((s.evaluateColoring eord).stat eord (0, 0)).2⟩
  bdwt : ((s.evaluateColoring eord).stat eord (0, 0)).1 =
      (s.evaluateColoring eord).inMap.counts.sum ∧
    ((s.evaluateColoring eord).stat eord (0, 0)).1 = (s.evaluateColoring eord).outMap.counts.sum
  load : CountMap.IsPeak (s.evaluateColoring eord).inMap.get (s.evaluateColoring eord).outMap.get
    ((s.evaluateColoring eord).stat eord (0, 0)).2

/-- **Planned traffic is executed traffic**, for every DAG and every colouring that tells the
zero packets. -/
theorem traffic_eq (s : Stripe) (hd : s.ecdag.Built) (ecn ecw : Nat) (ord : HashOrder Walk)
    (eord : HashOrder EvalWalk) (hz : s.ZeroColored ecn ecw) : s.TrafficAgrees ecn ecw ord eord := by
  have hw := hd.wellFormed
  have htasks : ∀ c, s.tasksOf ord ecn ecw (fun _ => none) c = s.nodeTasks ecn ecw ord c :=
    fun c => tasksOf_eq_nodeTasks hw ecn ecw ord c fun _ => none
  obtain ⟨es, hperm, he⟩ := s.evaluateColoring_eq eord
  obtain ⟨hbdwt, hload⟩ := Traffic.stat_spec (s.evaluateColoring eord) eord
  obtain ⟨hin, hout⟩ := Traffic.sum_foldl_move (es.map (ends s.coloring))
  constructor
  · intro c
    rw [htasks, hz.counts_recvs hw ord c, he, (Traffic.get_foldl_move _ c).1, List.countP_map,
      ← hperm.countP_eq]
    rfl
  · intro c
    rw [htasks, hz.counts_sends hw ord c, he, (Traffic.get_foldl_move _ c).2, List.countP_map,
      ← hperm.countP_eq]
    rfl
  · exact fun L eord' hL => evalColoringGlobal_eq hw eord' eord hL
  · intro solution sid2color itmIdx eord' hleaf hcolors
    obtain ⟨es', hperm', he'⟩ := hcolors.traffic_perm hw hleaf eord'
    have hstat := Traffic.stat_eq_of_perm ((hperm'.trans hperm.symm).map (ends s.coloring))
      eord' eord
    rw [← he, ← he'] at hstat
    rw [PRSolution.evaluate, ← hstat]
    rfl
  · refine ⟨hbdwt, ?_⟩
    rw [hbdwt, he, hin, hout]
  · exact hload

/-- The sum stripe with another colour for a leaf. -/
def recolored (leaf : Nat) (color : Int) : Stripe :=
  { sumStripe with coloring := fun v => if v = leaf then color else sumStripe.coloring v }

/-- A zero packet that has a colour is counted but not sent; a real packet coloured -1 is
sent but not counted. -/
theorem traffic_zero_leaf :
    (∀ v ∈ (recolored 3 3).ecdag.nodeIds, (recolored 3 3).coloring v ≠ -1) ∧
    ((recolored 3 3).evaluateColoring (HashOrder.insertion _)).outMap.get 3 = 1 ∧
    ((recolored 3 3).tasksOf (HashOrder.insertion _) 3 1 (fun _ => none) 3).flatMap
      Task.sendEntries = [] ∧
    (∀ v ∈ (recolored 0 (-1)).ecdag.nodeIds, (recolored 0 (-1)).coloring v = -1 →
      (recolored 0 (-1)).ecdag.childIndices v = []) ∧
    ((recolored 0 (-1)).evaluateColoring (HashOrder.insertion _)).inMap.get 5 = 1 ∧
    ((recolored 0 (-1)).tasksOf (HashOrder.insertion _) 3 1 (fun _ => none) 5).flatMap
      Task.recvEntries = [0, 1] := by
  decide +kernel

theorem traffic_eq_sumStripe : sumStripe.ZeroColored 3 1 ∧
    sumStripe.TrafficAgrees 3 1 (HashOrder.insertion _) (HashOrder.insertion _) := by
  have hz : sumStripe.ZeroColored 3 1 := ⟨by decide, by decide⟩
  exact ⟨hz, traffic_eq sumStripe (.concact _ _ _ (ECDAG.built_build _)) 3 1 _ _ hz⟩

end Stripe

end StripeRepair

import StripeRepair.Lib.IntMap
import StripeRepair.Sol.GroupPreview
import StripeRepair.Sol.LoadTable

/-!
# The local search for a colouring

After the greedy colouring, `fastLocalSearch` takes vertices from the machines with the largest
load and tries to move them, with a table of the loads that `tryMoveNode` keeps up to date.

* `get_loadDiff`: what a move changes at a machine.
* `fastLocalSearch_eq`: the search hands the vertex's own machine to `tryMoveNode` and moves nothing.
* `progresses_iff`: it does what it is for only when no vertex that it picks can be improved.
-/

namespace StripeRepair

open PRSolution (colorAt)
open StripeTables (twoParities)

namespace LocalSearch

/-- The unordered maps that are walked through. -/
inductive LoadWalk
  | coloring
  | loadDiff

/-- `coloring.count(v) && coloring[v] != -1` -/
def Located (coloring : Coloring) (v : Nat) : Prop := v ∈ coloring ∧ colorAt coloring v ≠ -1

instance (coloring : Coloring) (v : Nat) : Decidable (Located coloring v) :=
  inferInstanceAs (Decidable (_ ∧ _))

section
variable (d : ECDAG) (ord : HashOrder LoadWalk)

/-! ## Loads -/

/-- `loads[mach] += x` -/
def addLoad (loads : List Int) (mach x : Int) : List Int := loads.modify mach.toNat (· + x)

/-- `loads[mach]` -/
def loadAt (loads : List Int) (mach : Int) : Int := loads.getD mach.toNat 0

/-- The loop of `recalcGlobalLoad` over the children of a vertex. -/
def recalcVertex (coloring : Coloring) (loads : List Int) (u : Nat) (uLoc : Int) : List Int :=
  (d.childIndices u).foldl (fun loads v =>
    if Located coloring v then
      if uLoc ≠ colorAt coloring v then addLoad (addLoad loads uLoc 1) (colorAt coloring v) 1
      else loads
    else loads) loads

def recalcGlobalLoad (clusterSize : Nat) (coloring : Coloring) : List Int :=
  (ord.order .coloring coloring.entries).foldl (fun loads item =>
    if item.2 = -1 then loads else recalcVertex d coloring loads item.1 item.2)
    (List.replicate clusterSize 0)

def getMax (nums : List Int) : Int := nums.foldl max 0

/-! ## A move -/

def updateLink (nodeLoc neighborLoc val : Int) (loadDiff : IntMap Int) : IntMap Int :=
  if nodeLoc ≠ neighborLoc then (loadDiff.bump nodeLoc val).bump neighborLoc val else loadDiff

/-- One of the four loops of `tryMoveNode` over neighbors. -/
def updateLinks (coloring : Coloring) (loc val : Int) (neighbors : List Nat)
    (loadDiff : IntMap Int) : IntMap Int :=
  neighbors.foldl (fun m v =>
    if Located coloring v then updateLink loc (colorAt coloring v) val m else m) loadDiff

/-- `load_diff` after the vertex was removed and added. -/
def loadDiff (coloring : Coloring) (u : Nat) (oldMachine newMachine : Int) : IntMap Int :=
  let m := updateLinks coloring oldMachine (-1) (d.childIndices u) ∅
  let m := updateLinks coloring oldMachine (-1) (d.parentIds u) m
  let m := updateLinks coloring newMachine 1 (d.childIndices u) m
  updateLinks coloring newMachine 1 (d.parentIds u) m

/-- The machines that are affected: `creates_new_bottleneck`. -/
def createsNewBottleneck (machineLoads : List Int) (oldMachine globalMaxLoad : Int)
    (m : IntMap Int) : Bool :=
  (ord.order .loadDiff m.entries).foldl (fun creates item =>
    let mach := item.1
    let predictedLoad := loadAt machineLoads mach + item.2
    if predictedLoad ≥ globalMaxLoad then
      if mach = oldMachine ∧ predictedLoad < globalMaxLoad then creates
      else if predictedLoad > globalMaxLoad then true
      else if predictedLoad = globalMaxLoad ∧ mach ≠ oldMachine then true
      else creates
    else creates) false

def tryMoveNode (coloring : Coloring) (machineLoads : List Int) (u : Nat)
    (newMachine globalMaxLoad : Int) : Bool × Coloring × List Int :=
  let oldMachine := colorAt coloring u
  let m := loadDiff d coloring u oldMachine newMachine
  let predictedOldLoad := loadAt machineLoads oldMachine + m.get oldMachine
  if ¬ createsNewBottleneck ord machineLoads oldMachine globalMaxLoad m ∧
      predictedOldLoad < loadAt machineLoads oldMachine then
    (true, coloring.insert u newMachine,
      (ord.order .loadDiff (m.bump oldMachine 0).entries).foldl
        (fun loads item => addLoad loads item.1 item.2) machineLoads)
  else (false, coloring, machineLoads)

/-! ## The search -/

/-- What the random generator gives in an iteration. -/
structure Draw (candidates : List Int) where
  bottleneck : Nat
  node : Nat
  shuffledCandidates : List Int
  perm : shuffledCandidates.Perm candidates

structure SearchState where
  coloring : Coloring
  machineLoads : List Int
  currentMaxLoad : Int
  noImproveCnt : Nat

def start (clusterSize : Nat) (coloring : Coloring) : SearchState :=
  let machineLoads := recalcGlobalLoad d ord clusterSize coloring
  ⟨coloring, machineLoads, getMax machineLoads, 0⟩

/-- `coloring[u]` adds an entry when there is none. -/
def touch (coloring : Coloring) (u : Nat) : Coloring :=
  if u ∈ coloring then coloring else coloring.insert u 0

def bottlenecks (clusterSize : Nat) (s : SearchState) : List Nat :=
  (List.range clusterSize).filter fun i : Nat => loadAt s.machineLoads i = s.currentMaxLoad

def nodesOnMachine (itmIdx : List Nat) (coloring : Coloring) (machine : Int) : List Nat :=
  itmIdx.filter fun u => colorAt coloring u = machine

/-- The machine and the vertex of an iteration. -/
def pick {candidates : List Int} (clusterSize : Nat) (itmIdx : List Nat) (r : Draw candidates)
    (s : SearchState) : Option (Int × Nat) :=
  let bs := bottlenecks clusterSize s
  if bs = [] then none
  else
    let targetMachine : Int := bs.getD (r.bottleneck % bs.length) 0
    let nodes := nodesOnMachine itmIdx s.coloring targetMachine
    if nodes = [] then none
    else some (targetMachine, nodes.getD (r.node % nodes.length) 0)

/-- The loop over the candidates: the machine that is tried is `target_machine`. -/
def tryCandidates (targetMachine : Int) (nodeToMove : Nat) :
    List Int → SearchState → Bool × SearchState
  | [], s => (false, s)
  | newMachine :: ms, s =>
    if newMachine = targetMachine then tryCandidates targetMachine nodeToMove ms s
    else
      let r := tryMoveNode d ord s.coloring s.machineLoads nodeToMove targetMachine s.currentMaxLoad
      let s : SearchState := { s with coloring := r.2.1, machineLoads := r.2.2 }
      if r.1 then (true, s) else tryCandidates targetMachine nodeToMove ms s

/-- The body of the loop of `fastLocalSearch`. -/
def iteration {candidates : List Int} (clusterSize : Nat) (itmIdx : List Nat)
    (r : Draw candidates) (s : SearchState) : ForInStep SearchState :=
  if bottlenecks clusterSize s = [] then .done s
  else
    let s : SearchState := { s with coloring := itmIdx.foldl touch s.coloring }
    match pick clusterSize itmIdx r s with
    | none => .done s
    | some (targetMachine, nodeToMove) =>
      let t := tryCandidates d ord targetMachine nodeToMove r.shuffledCandidates s
      if t.1 then
        .yield { t.2 with currentMaxLoad := getMax t.2.machineLoads, noImproveCnt := 0 }
      else
        let s : SearchState := { t.2 with noImproveCnt := t.2.noImproveCnt + 1 }
        if s.noImproveCnt ≥ 200 then .done s else .yield s

/-- The iterations that are left. -/
def searchLoop {candidates : List Int} (clusterSize : Nat) (itmIdx : List Nat)
    (rnd : Nat → Draw candidates) : Nat → Nat → SearchState → SearchState
  | 0, _, s => s
  | left + 1, iter, s =>
    match iteration d ord clusterSize itmIdx (rnd iter) s with
    | .done s => s
    | .yield s => searchLoop clusterSize itmIdx rnd left (iter + 1) s

/-- `fastLocalSearch`: the colouring it leaves. -/
def fastLocalSearch {candidates : List Int} (coloring : Coloring) (itmIdx : List Nat)
    (clusterSize : Nat) (rnd : Nat → Draw candidates) : Coloring :=
  (searchLoop d ord clusterSize itmIdx rnd 2000 0 (start d ord clusterSize coloring)).coloring

end

/-! ## The difference of a move -/

/-- The links of a vertex on `loc` at the machine `x`. -/
def linkAt (coloring : Coloring) (loc x : Int) (v : Nat) : Int :=
  if Located coloring v ∧ loc ≠ colorAt coloring v then
    (if x = loc then 1 else 0) + if x = colorAt coloring v then 1 else 0
  else 0

theorem get_updateLink {nodeLoc neighborLoc : Int} (h : nodeLoc ≠ neighborLoc) (val x : Int)
    (m : IntMap Int) : (updateLink nodeLoc neighborLoc val m).get x =
      m.get x + val * ((if x = nodeLoc then 1 else 0) + if x = neighborLoc then 1 else 0) := by
  unfold updateLink
  rw [if_pos h, IntMap.get_bump, IntMap.get_bump, Function.update_apply, Function.update_apply,
    Function.update_apply]
  by_cases hx : x = neighborLoc
  · subst hx
    rw [if_pos rfl, if_neg h.symm, if_neg h.symm, if_pos rfl]
    omega
  · rw [if_neg hx]
    by_cases hx' : x = nodeLoc
    · subst hx'
      rw [if_pos rfl, if_pos rfl, if_neg hx]
      omega
    · rw [if_neg hx', if_neg hx', if_neg hx]
      omega

theorem get_updateLinks (coloring : Coloring) (loc val : Int) (neighbors : List Nat)
    (m : IntMap Int) (x : Int) : (updateLinks coloring loc val neighbors m).get x =
      m.get x + val * (neighbors.map (linkAt coloring loc x)).sum := by
  unfold updateLinks
  induction neighbors generalizing m with
  | nil => simp
  | cons v vs ih =>
    rw [List.foldl_cons, ih, List.map_cons, List.sum_cons, mul_add, ← add_assoc]
    congr 1
    unfold linkAt
    by_cases hv : Located coloring v
    · rw [if_pos hv]
      by_cases hloc : loc = colorAt coloring v
      · rw [if_neg fun h => h.2 hloc, mul_zero, add_zero]
        unfold updateLink
        rw [if_neg (not_not_intro hloc)]
      · rw [if_pos ⟨hv, hloc⟩, get_updateLink hloc]
    · rw [if_neg hv, if_neg fun h => hv h.1, mul_zero, add_zero]

/-- **What a move changes**: the links at the new machine instead of those at the old one. -/
theorem get_loadDiff (d : ECDAG) (coloring : Coloring) (u : Nat) (oldMachine newMachine x : Int) :
    (loadDiff d coloring u oldMachine newMachine).get x =
      ((d.childIndices u ++ d.parentIds u).map (linkAt coloring newMachine x)).sum -
        ((d.childIndices u ++ d.parentIds u).map (linkAt coloring oldMachine x)).sum := by
  unfold loadDiff
  rw [get_updateLinks, get_updateLinks, get_updateLinks, get_updateLinks, IntMap.get_empty,
    List.map_append, List.map_append, List.sum_append, List.sum_append]
  omega

section
variable (d : ECDAG) (ord : HashOrder LoadWalk)

/-- A move to the machine where the vertex is. -/
theorem tryMoveNode_self (coloring : Coloring) (machineLoads : List Int) (u : Nat)
    (globalMaxLoad : Int) :
    tryMoveNode d ord coloring machineLoads u (colorAt coloring u) globalMaxLoad =
      (false, coloring, machineLoads) := by
  unfold tryMoveNode
  refine if_neg fun h => ?_
  have hlt := h.2
  rw [get_loadDiff] at hlt
  omega

theorem tryCandidates_eq (u : Nat) (ms : List Int) (s : SearchState) :
    tryCandidates d ord (colorAt s.coloring u) u ms s = (false, s) := by
  induction ms with
  | nil => rfl
  | cons newMachine ms ih =>
    rw [tryCandidates]
    split
    · exact ih
    · rw [tryMoveNode_self]
      exact ih

end

/-! ## The vertex that is picked -/

section
variable {candidates : List Int} {clusterSize : Nat} {itmIdx : List Nat} {r : Draw candidates}
  {s : SearchState}

theorem getD_mod_mem {α : Type} {l : List α} (h : l ≠ []) (n : Nat) (a : α) :
    l.getD (n % l.length) a ∈ l := by
  rw [List.getD_eq_getElem _ _ (Nat.mod_lt _ (List.length_pos_iff.2 h))]
  exact List.getElem_mem _

theorem pick_spec {target : Int} {u : Nat} (h : pick clusterSize itmIdx r s = some (target, u)) :
    u ∈ itmIdx ∧ colorAt s.coloring u = target := by
  unfold pick at h
  dsimp only at h
  split at h
  · cases h
  · split at h
    · cases h
    · next hnodes =>
      cases h
      obtain ⟨hmem, hcolor⟩ := List.mem_filter.1 (getD_mod_mem hnodes r.node 0)
      exact ⟨hmem, of_decide_eq_true hcolor⟩

theorem foldl_touch {coloring : Coloring} (h : ∀ u ∈ itmIdx, u ∈ coloring) :
    itmIdx.foldl touch coloring = coloring := by
  induction itmIdx with
  | nil => rfl
  | cons u us ih =>
    have hu : touch coloring u = coloring := if_pos (h u (List.mem_cons_self ..))
    rw [List.foldl_cons, hu]
    exact ih fun v hv => h v (List.mem_cons_of_mem _ hv)

variable (d : ECDAG) (ord : HashOrder LoadWalk) (hitm : ∀ u ∈ itmIdx, u ∈ s.coloring)
include hitm

/-- **One iteration** counts itself. -/
theorem iteration_eq : iteration d ord clusterSize itmIdx r s =
    if (pick clusterSize itmIdx r s).isSome then
      if s.noImproveCnt + 1 ≥ 200 then .done { s with noImproveCnt := s.noImproveCnt + 1 }
      else .yield { s with noImproveCnt := s.noImproveCnt + 1 }
    else .done s := by
  have htouch : { s with coloring := itmIdx.foldl touch s.coloring } = s := by
    rw [foldl_touch hitm]
  unfold iteration
  dsimp only
  rw [htouch]
  by_cases hbs : bottlenecks clusterSize s = []
  · have hnone : pick clusterSize itmIdx r s = none := if_pos hbs
    rw [if_pos hbs, hnone]
    rfl
  · rw [if_neg hbs]
    cases hpick : pick clusterSize itmIdx r s with
    | none => rfl
    | some p =>
      obtain ⟨target, u⟩ := p
      have hcolor := (pick_spec hpick).2
      subst hcolor
      dsimp only
      rw [tryCandidates_eq]
      rfl

end

/-! ## Exactness and progress -/

section
variable (d : ECDAG) (ord : HashOrder LoadWalk)

/-- Another machine for the vertex lowers the load of its machine, and raises none to the largest
load. -/
structure Improves (clusterSize : Nat) (coloring : Coloring) (target : Int) (u : Nat) (m : Int) :
    Prop where
  other : m ≠ target
  lower : loadAt (recalcGlobalLoad d ord clusterSize (coloring.insert u m)) target <
    loadAt (recalcGlobalLoad d ord clusterSize coloring) target
  others : ∀ x < clusterSize, (x : Int) ≠ target →
    getMax (recalcGlobalLoad d ord clusterSize coloring) ≤
      loadAt (recalcGlobalLoad d ord clusterSize (coloring.insert u m)) x →
    loadAt (recalcGlobalLoad d ord clusterSize (coloring.insert u m)) x ≤
      loadAt (recalcGlobalLoad d ord clusterSize coloring) x

instance (clusterSize : Nat) (coloring : Coloring) (target : Int) (u : Nat) (m : Int) :
    Decidable (Improves d ord clusterSize coloring target u m) :=
  decidable_of_iff (_ ∧ _ ∧ _) ⟨fun h => ⟨h.1, h.2.1, h.2.2⟩, fun h => ⟨h.1, h.2, h.3⟩⟩

variable {candidates : List Int} (clusterSize : Nat) (itmIdx : List Nat)
  (rnd : Nat → Draw candidates)

/-- An iteration starts in a state. -/
inductive Starts (s₀ : SearchState) : Nat → SearchState → Prop
  | start : Starts s₀ 0 s₀
  | next {k : Nat} {s s' : SearchState} : Starts s₀ k s → k + 1 < 2000 →
      iteration d ord clusterSize itmIdx (rnd k) s = .yield s' → Starts s₀ (k + 1) s'

/-- What the search is for, at one iteration. -/
structure Progresses (r : Draw candidates) (s : SearchState) : Prop where
  exact : s.machineLoads = recalcGlobalLoad d ord clusterSize s.coloring
  max : getMax (iteration d ord clusterSize itmIdx r s).run.machineLoads ≤ getMax s.machineLoads
  moved : ∀ target u, pick clusterSize itmIdx r s = some (target, u) →
    (∃ m ∈ candidates, Improves d ord clusterSize s.coloring target u m) →
    ∃ m ∈ candidates, Improves d ord clusterSize s.coloring target u m ∧
      ∀ v, colorAt (iteration d ord clusterSize itmIdx r s).run.coloring v =
        if v = u then m else colorAt s.coloring v

variable {d ord clusterSize itmIdx rnd} {s₀ : SearchState} (hitm : ∀ u ∈ itmIdx, u ∈ s₀.coloring)
include hitm

theorem iteration_count (r : Draw candidates) (n : Nat) :
    iteration d ord clusterSize itmIdx r { s₀ with noImproveCnt := n } =
      if (pick clusterSize itmIdx r s₀).isSome then
        if n + 1 ≥ 200 then .done { s₀ with noImproveCnt := n + 1 }
        else .yield { s₀ with noImproveCnt := n + 1 }
      else .done { s₀ with noImproveCnt := n } :=
  have h : ∀ u ∈ itmIdx, u ∈ SearchState.coloring { s₀ with noImproveCnt := n } := hitm
  iteration_eq d ord h

variable (d ord clusterSize) in
/-- An iteration leaves the colouring and the loads. -/
theorem run_iteration (r : Draw candidates) (n : Nat) :
    ∃ n', (iteration d ord clusterSize itmIdx r { s₀ with noImproveCnt := n }).run =
      { s₀ with noImproveCnt := n' } := by
  rw [iteration_count hitm]
  split
  · split
    · exact ⟨n + 1, rfl⟩
    · exact ⟨n + 1, rfl⟩
  · exact ⟨n, rfl⟩

/-- **The iterations**: only the counter changes. -/
theorem starts_iff (hcnt : s₀.noImproveCnt = 0) {k : Nat} {s : SearchState} :
    Starts d ord clusterSize itmIdx rnd s₀ k s ↔
      k < 200 ∧ (∀ j < k, (pick clusterSize itmIdx (rnd j) s₀).isSome) ∧
        s = { s₀ with noImproveCnt := k } := by
  constructor
  · intro h
    induction h with
    | start => exact ⟨by omega, nofun, by rw [← hcnt]⟩
    | @next k s s' _ _ hit ih =>
      obtain ⟨hk, hpicks, rfl⟩ := ih
      rw [iteration_count hitm] at hit
      split at hit
      · next hpick =>
        split at hit
        · cases hit
        · next hlt =>
          cases hit
          refine ⟨not_le.1 hlt, fun j hj => ?_, rfl⟩
          rcases Nat.lt_succ_iff_lt_or_eq.1 hj with hj | rfl
          · exact hpicks j hj
          · exact hpick
      · cases hit
  · rintro ⟨hk, hpicks, rfl⟩
    induction k with
    | zero =>
      have hzero : { s₀ with noImproveCnt := 0 } = s₀ := by rw [← hcnt]
      rw [hzero]
      exact .start
    | succ k ih =>
      refine .next (ih (by omega) fun j hj => hpicks j (by omega)) (by omega) ?_
      rw [iteration_count hitm, if_pos (hpicks k (by omega)), if_neg (by omega)]

end

/-- **The search** moves no vertex. -/
theorem fastLocalSearch_eq (d : ECDAG) (ord : HashOrder LoadWalk) {coloring : Coloring}
    {candidates : List Int} {itmIdx : List Nat} (clusterSize : Nat)
    (rnd : Nat → Draw candidates) (hitm : ∀ u ∈ itmIdx, u ∈ coloring) :
    fastLocalSearch d ord coloring itmIdx clusterSize rnd = coloring := by
  have hloop : ∀ left iter n, ∃ n', searchLoop d ord clusterSize itmIdx rnd left iter
      { start d ord clusterSize coloring with noImproveCnt := n } =
      { start d ord clusterSize coloring with noImproveCnt := n' } := by
    intro left
    induction left with
    | zero => exact fun _ n => ⟨n, rfl⟩
    | succ left ih =>
      intro iter n
      have hitm' : ∀ u ∈ itmIdx, u ∈ (start d ord clusterSize coloring).coloring := hitm
      rw [searchLoop, iteration_count hitm']
      split
      · next heq =>
        split at heq
        · split at heq
          · cases heq
            exact ⟨n + 1, rfl⟩
          · cases heq
        · cases heq
          exact ⟨n, rfl⟩
      · next heq =>
        split at heq
        · split at heq
          · cases heq
          · cases heq
            exact ih _ _
        · cases heq
  obtain ⟨n', heq⟩ := hloop 2000 0 0
  have hstart : { start d ord clusterSize coloring with noImproveCnt := 0 } =
      start d ord clusterSize coloring := rfl
  rw [hstart] at heq
  unfold fastLocalSearch
  rw [heq]
  rfl

/-- **The search is exact and makes progress** only when none of the vertices that it picks can be
improved: it moves none of them. -/
theorem progresses_iff (d : ECDAG) (ord : HashOrder LoadWalk) (coloring : Coloring)
    (candidates : List Int) (itmIdx : List Nat) (clusterSize : Nat)
    (rnd : Nat → Draw candidates) (hitm : ∀ u ∈ itmIdx, u ∈ coloring) :
    (∀ k s, Starts d ord clusterSize itmIdx rnd (start d ord clusterSize coloring) k s →
      Progresses d ord clusterSize itmIdx (rnd k) s) ↔
    ∀ k < 200,
      (∀ j < k, (pick clusterSize itmIdx (rnd j) (start d ord clusterSize coloring)).isSome) →
      ∀ target u,
        pick clusterSize itmIdx (rnd k) (start d ord clusterSize coloring) = some (target, u) →
        ∀ m ∈ candidates, ¬ Improves d ord clusterSize coloring target u m := by
  have hitm' : ∀ u ∈ itmIdx, u ∈ (start d ord clusterSize coloring).coloring := hitm
  constructor
  · intro h k hk hpicks target u hpick m hm himp
    have hP := h k _ ((starts_iff hitm' rfl).2 ⟨hk, hpicks, rfl⟩)
    obtain ⟨m', _, himp', hcolor⟩ := hP.moved target u hpick ⟨m, hm, himp⟩
    obtain ⟨n', hrun⟩ := run_iteration d ord clusterSize hitm' (rnd k) k
    have hu := hcolor u
    rw [hrun, if_pos rfl] at hu
    exact himp'.other (hu.symm.trans (pick_spec hpick).2)
  · intro h k s hstart
    obtain ⟨hk, hpicks, rfl⟩ := (starts_iff hitm' rfl).1 hstart
    obtain ⟨n', hrun⟩ := run_iteration d ord clusterSize hitm' (rnd k) k
    refine ⟨rfl, ?_, fun target u hpick hex => ?_⟩
    · rw [hrun]
    · obtain ⟨m, hm, himp⟩ := hex
      exact absurd himp (h k hk hpicks target u hpick m hm)

/-- Each parity with one of its packets, the first on node 1: no node moves more than two packets,
and every other place for the first parity makes some node do so. -/
def spreadParities : Coloring :=
  [⟨0, 0⟩, ⟨1, 1⟩, ⟨3, 1⟩, ⟨2, 2⟩, ⟨4, 2⟩, ⟨REQUESTOR - 3, 5⟩, ⟨REQUESTOR - 4, 6⟩].toAList

/-- The first parity is picked, and no candidate is better for it. -/
theorem progresses_iff_parities :
    pick 8 twoParities.genItmIdxs (⟨1, 0, [0, 1, 2, 5, 6], List.Perm.refl _⟩ : Draw [0, 1, 2, 5, 6])
      (start twoParities (.insertion _) 8 spreadParities) = some (1, 3) ∧
    ∀ k s, Starts twoParities (.insertion _) 8 twoParities.genItmIdxs
      (fun _ => ⟨1, 0, [0, 1, 2, 5, 6], List.Perm.refl [0, 1, 2, 5, 6]⟩)
      (start twoParities (.insertion _) 8 spreadParities) k s →
      Progresses twoParities (.insertion _) 8 twoParities.genItmIdxs
        ⟨1, 0, [0, 1, 2, 5, 6], List.Perm.refl [0, 1, 2, 5, 6]⟩ s := by
  have hfirst : pick 8 twoParities.genItmIdxs
      (⟨1, 0, [0, 1, 2, 5, 6], List.Perm.refl _⟩ : Draw [0, 1, 2, 5, 6])
      (start twoParities (.insertion _) 8 spreadParities) = some (1, 3) := by decide +kernel
  refine ⟨hfirst, (progresses_iff twoParities (.insertion _) spreadParities [0, 1, 2, 5, 6]
    twoParities.genItmIdxs 8 (fun _ => ⟨1, 0, [0, 1, 2, 5, 6], List.Perm.refl _⟩)
    (by decide +kernel)).2 fun k _ _ target u hpick => ?_⟩
  rw [hfirst] at hpick
  cases hpick
  decide +kernel

/-- The greedy colouring: the first parity on node 0, which then moves three packets. -/
def greedyParities : Coloring :=
  [⟨0, 0⟩, ⟨1, 1⟩, ⟨3, 0⟩, ⟨2, 2⟩, ⟨4, 2⟩, ⟨REQUESTOR - 3, 5⟩, ⟨REQUESTOR - 4, 6⟩].toAList

/-- Node 0 is the bottleneck. On node 1 the first parity needs a packet less of it, and no node
moves three; it stays. -/
theorem parity_stays :
    ¬ ∀ k s, Starts twoParities (.insertion _) 8 twoParities.genItmIdxs
      (fun _ => ⟨0, 0, [0, 1, 2, 5, 6], List.Perm.refl [0, 1, 2, 5, 6]⟩)
      (start twoParities (.insertion _) 8 greedyParities) k s →
      Progresses twoParities (.insertion _) 8 twoParities.genItmIdxs
        ⟨0, 0, [0, 1, 2, 5, 6], List.Perm.refl [0, 1, 2, 5, 6]⟩ s := by
  intro h
  obtain ⟨m, -, himp, hcolor⟩ := (h 0 _ .start).moved 0 3 (by decide +kernel)
    ⟨1, by decide, by decide, by decide +kernel, by decide +kernel⟩
  refine himp.other ((hcolor 3).symm.trans ?_)
  decide +kernel

end LocalSearch

end StripeRepair

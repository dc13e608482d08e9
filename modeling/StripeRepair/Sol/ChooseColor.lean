import StripeRepair.Dist.PRSolution

/-!
# Trying a colour

To colour a vertex the planner tries each colour it may have, predicts the load of the
cluster from the counters `_in` and `_out` of the stripe and the load table, and keeps the
first of the best.

* `chooseColor_mem`: a colour that was tried is chosen when the loads are below `INT_MAX`.
* `Cells.LeBy`: how much a change of a colour raises a counter.
-/

namespace StripeRepair

open PRSolution (colorAt)

abbrev Coloring := AList fun _ : Nat => Int

/-- The counters `_out` and `_in` of a stripe. -/
structure Cells where
  out : Int → Int
  inn : Int → Int

namespace Cells

def zero : Cells := ⟨fun _ => 0, fun _ => 0⟩

/-- `x` more packets from the first node to the second. -/
def move (t : Cells) (src dst x : Int) : Cells :=
  ⟨Function.update t.out src (t.out src + x), Function.update t.inn dst (t.inn dst + x)⟩

/-- As a table: a row for each node, `OUT` before `IN`. -/
def table (t : Cells) (clusterSize : Nat) : List (List Int) :=
  (List.range clusterSize).map fun i : Nat => [t.out i, t.inn i]

end Cells

structure State where
  load : Int
  bdwt : Int
  deriving DecidableEq, Repr

def INT_MAX : Int := 2147483647

namespace ECDAG

/-! ## The counters -/

/-- `Stripe::evaluateColoring` -/
def evaluateCells (d : ECDAG) (ord : HashOrder EvalWalk) (coloring : Coloring) : Cells :=
  (ord.order .coloring coloring.keys).foldl
    (d.evalVertex (colorAt coloring) Stripe.counted fun t e => t.move e.1 e.2 1) .zero

/-- What the vertex sends to its parents of one colour. -/
def parentMove (old new : Int) (t : Cells) (parentColor : Int) : Cells :=
  if parentColor = -1 then t
  else
    let t := if parentColor ≠ old ∧ old ≠ -1 then t.move old parentColor (-1) else t
    if parentColor ≠ new ∧ new ≠ -1 then t.move new parentColor 1 else t

/-- How many parents of `child` have the colour `c`. -/
def countColor (d : ECDAG) (coloring : Coloring) (child : Nat) (c : Int) : Nat :=
  (d.parentIds child).countP fun p => colorAt coloring p = c

/-- What the vertex gets from one child. `move` is how an entry is counted when the vertex had
a colour before. -/
def childMove (d : ECDAG) (move : Cells → Int → Int → Int → Cells) (coloring : Coloring)
    (old new : Int) (t : Cells) (child : Nat) : Cells :=
  let childColor := colorAt coloring child
  if childColor = -1 then t
  else if old = -1 then
    if d.countColor coloring child new = 0 ∧ new ≠ childColor then t.move childColor new 1 else t
  else
    let t := if d.countColor coloring child old = 1 ∧ old ≠ childColor then
      move t childColor old (-1) else t
    if d.countColor coloring child new = 0 ∧ new ≠ childColor then move t childColor new 1 else t

/-- The counters after the vertex `idx` gets the colour `new`: `Stripe::changeColor` keeps them
and `Stripe::evaluateChange` makes a table of them. -/
def changeCells (d : ECDAG) (coloring : Coloring) (cells : Cells) (idx : Nat) (new : Int) :
    Cells :=
  let old := colorAt coloring idx
  (d.childIndices idx).foldl (d.childMove Cells.move coloring old new)
    ((d.parentColors (colorAt coloring) idx).foldl (parentMove old new) cells)

def evaluateChange (d : ECDAG) (coloring : Coloring) (cells : Cells) (clusterSize idx : Nat)
    (new : Int) : List (List Int) := (d.changeCells coloring cells idx new).table clusterSize

/-- The counters after the vertices `group`, siblings, get the colour `new`. When the first of
them had a colour, sender and receiver of what comes from a child change places. -/
def changeGroup (d : ECDAG) (coloring : Coloring) (cells : Cells) (group : List Nat) (new : Int) :
    Cells :=
  let first := group.getD 0 0
  (d.childIndices first).foldl
    (d.childMove (fun t src dst x => t.move dst src x) coloring (colorAt coloring first) new)
    (group.foldl (fun t idx => (d.parentColors (colorAt coloring) idx).foldl
      (parentMove (colorAt coloring idx) new) t) cells)

def evaluateChange2 (d : ECDAG) (coloring : Coloring) (cells : Cells) (agentNum : Nat)
    (group : List Nat) (new : Int) : List (List Int) :=
  (d.changeGroup coloring cells group new).table agentNum

/-- The colours of the children that are not -1, each once. -/
def getChildColors (d : ECDAG) (coloring : Coloring) (idx : Nat) : List Int :=
  (d.childIndices idx).foldl (fun ret child =>
    if colorAt coloring child ≠ -1 ∧ colorAt coloring child ∉ ret then
      ret ++ [colorAt coloring child] else ret) []

end ECDAG

namespace ParallelSolution

/-! ## The choice -/

def evalTable1 (table : List (List Int)) : State :=
  table.foldl (fun st item =>
    ⟨max (max st.load (item.getD 0 0)) (item.getD 1 0), st.bdwt + item.getD 1 0⟩) ⟨0, 0⟩

def isBetter2 (st1 st2 : State) : Bool :=
  st1.load < st2.load ∨ (st1.load = st2.load ∧ st1.bdwt < st2.bdwt)

/-- `currTable` -/
def addTables (loadTable stripeTable : List (List Int)) : List (List Int) :=
  List.zipWith (fun row row' => [row.getD 0 0 + row'.getD 0 0, row.getD 1 0 + row'.getD 1 0])
    loadTable stripeTable

/-- The loop over the colours: the first of those whose state is best. -/
def chooseColor (evaluate : Int → State) (colors : List Int) : Int :=
  (colors.foldl (fun best newColor =>
    if isBetter2 (evaluate newColor) best.1 then (evaluate newColor, newColor) else best)
    ((⟨INT_MAX, INT_MAX⟩ : State), (-1 : Int))).2

def chooseColor_fullnode (d : ECDAG) (coloring : Coloring) (cells : Cells)
    (childColors : List Int) (loadTable : List (List Int)) (idx : Nat) : Int :=
  chooseColor (fun newColor => evalTable1 (addTables loadTable
    (d.evaluateChange coloring cells loadTable.length idx newColor))) childColors

def chooseColor2New (d : ECDAG) (coloring : Coloring) (cells : Cells) (colors : List Int)
    (loadTable : List (List Int)) (group : List Nat) : Int :=
  chooseColor (fun newColor => evalTable1 (addTables loadTable
    (d.evaluateChange2 coloring cells loadTable.length group newColor))) colors

/-- A colour is chosen, or -1 when no state is below `State(INT_MAX, INT_MAX)`. -/
theorem chooseColor_mem_or (evaluate : Int → State) (colors : List Int) :
    chooseColor evaluate colors ∈ colors ∨ chooseColor evaluate colors = -1 := by
  unfold chooseColor
  refine List.foldlRecOn (motive := fun best : State × Int => best.2 ∈ colors ∨ best.2 = -1)
    colors _ (Or.inr rfl) fun best hb c hc => ?_
  split
  · exact Or.inl hc
  · exact hb

/-- **A colour that was tried is chosen**, when the loads are below `INT_MAX`. -/
theorem chooseColor_mem {evaluate : Int → State} {colors : List Int} (hne : colors ≠ [])
    (h : ∀ c ∈ colors, (evaluate c).load < INT_MAX) : chooseColor evaluate colors ∈ colors := by
  have hstep : ∀ (l : List Int) (best : State × Int), (∀ c ∈ l, c ∈ colors) → best.2 ∈ colors →
      (l.foldl (fun best newColor =>
        if isBetter2 (evaluate newColor) best.1 then (evaluate newColor, newColor) else best)
        best).2 ∈ colors := by
    intro l
    induction l with
    | nil => exact fun best _ hb => hb
    | cons c l ih =>
      intro best hl hb
      refine ih _ (fun a ha => hl a (List.mem_cons_of_mem _ ha)) ?_
      show (if isBetter2 (evaluate c) best.1 then (evaluate c, c) else best).2 ∈ colors
      split
      · exact hl c (List.mem_cons_self ..)
      · exact hb
  obtain ⟨c, l, rfl⟩ := List.exists_cons_of_ne_nil hne
  have hc : isBetter2 (evaluate c) ⟨INT_MAX, INT_MAX⟩ = true := by
    have := h c (List.mem_cons_self ..)
    simp [isBetter2, this]
  unfold chooseColor
  rw [List.foldl_cons, if_pos hc]
  exact hstep l _ (fun a ha => List.mem_cons_of_mem _ ha) (List.mem_cons_self ..)

end ParallelSolution

theorem ECDAG.mem_getChildColors {d : ECDAG} {coloring : Coloring} {idx : Nat} {c : Int} :
    c ∈ d.getChildColors coloring idx ↔
      c ≠ -1 ∧ ∃ child ∈ d.childIndices idx, colorAt coloring child = c := by
  have hfold : ∀ (l : List Nat) (ret : List Int), c ∈ l.foldl (fun ret child =>
      if colorAt coloring child ≠ -1 ∧ colorAt coloring child ∉ ret then
        ret ++ [colorAt coloring child] else ret) ret ↔
      c ∈ ret ∨ (c ≠ -1 ∧ ∃ child ∈ l, colorAt coloring child = c) := by
    intro l
    induction l with
    | nil => simp
    | cons child l ih =>
      intro ret
      rw [List.foldl_cons, ih]
      by_cases hc : colorAt coloring child = c
      · by_cases h1 : c = -1 <;> by_cases hm : c ∈ ret <;> simp [hc, h1, hm]
      · have hmem : c ∈ (if colorAt coloring child ≠ -1 ∧ colorAt coloring child ∉ ret then
            ret ++ [colorAt coloring child] else ret) ↔ c ∈ ret := by
          split
          · simp [Ne.symm hc]
          · exact Iff.rfl
        rw [hmem]
        simp [hc]
  rw [ECDAG.getChildColors, hfold]
  simp

/-! ## How far the counters are raised -/

/-- No counter is above `B`. -/
def Cells.LeBy (t : Cells) (B : Nat) : Prop := ∀ c, t.out c ≤ B ∧ t.inn c ≤ B

theorem Cells.leBy_zero : Cells.zero.LeBy 0 := fun _ => ⟨le_refl _, le_refl _⟩

theorem Cells.LeBy.mono {t : Cells} {B B' : Nat} (h : t.LeBy B) (hB : B ≤ B') : t.LeBy B' := by
  intro c
  have := h c
  omega

theorem Cells.LeBy.move {t : Cells} {B : Nat} (h : t.LeBy B) (src dst : Int) :
    (t.move src dst 1).LeBy (B + 1) := by
  intro c
  have := h c
  have hs := h src
  have hd := h dst
  simp only [Cells.move, Function.update_apply]
  split <;> split <;> omega

theorem Cells.LeBy.move_neg {t : Cells} {B : Nat} (h : t.LeBy B) (src dst : Int) :
    (t.move src dst (-1)).LeBy B := by
  intro c
  have := h c
  have hs := h src
  have hd := h dst
  simp only [Cells.move, Function.update_apply]
  split <;> split <;> omega

theorem Cells.LeBy.foldl {α : Type} {f : Cells → α → Cells}
    (hf : ∀ t B a, Cells.LeBy t B → (f t a).LeBy (B + 1)) (l : List α) {t : Cells} {B : Nat}
    (h : t.LeBy B) : (l.foldl f t).LeBy (B + l.length) := by
  induction l generalizing t B with
  | nil => exact h
  | cons a l ih =>
    refine (ih (hf t B a h)).mono ?_
    rw [List.length_cons]
    omega

namespace ECDAG

theorem parentMove_leBy (old new : Int) (t : Cells) (B : Nat) (c : Int) (h : t.LeBy B) :
    (parentMove old new t c).LeBy (B + 1) := by
  unfold parentMove
  split
  · exact h.mono (Nat.le_succ B)
  · have hdel : (if c ≠ old ∧ old ≠ -1 then t.move old c (-1) else t).LeBy B := by
      split
      · exact h.move_neg _ _
      · exact h
    dsimp only
    split
    · exact hdel.move _ _
    · exact hdel.mono (Nat.le_succ B)

section
variable (d : ECDAG) (coloring : Coloring)

theorem childMove_leBy {move : Cells → Int → Int → Int → Cells}
    (hadd : ∀ t B src dst, Cells.LeBy t B → (move t src dst 1).LeBy (B + 1))
    (hdel : ∀ t B src dst, Cells.LeBy t B → (move t src dst (-1)).LeBy B)
    (old new : Int) (t : Cells) (B : Nat) (child : Nat) (h : t.LeBy B) :
    (d.childMove move coloring old new t child).LeBy (B + 1) := by
  unfold childMove
  dsimp only
  split
  · exact h.mono (Nat.le_succ B)
  · split
    · split
      · exact h.move _ _
      · exact h.mono (Nat.le_succ B)
    · generalize colorAt coloring child = c
      have hold : (if d.countColor coloring child old = 1 ∧ old ≠ c then
          move t c old (-1) else t).LeBy B := by
        split
        · exact hdel _ _ _ _ h
        · exact h
      split
      · exact hadd _ _ _ _ hold
      · exact hold.mono (Nat.le_succ B)

theorem length_parentColors_le (color : Nat → Int) (v : Nat) :
    (d.parentColors color v).length ≤ (d.parentIds v).length := by
  have hfold : ∀ (ps : List Nat) (l : List Int), (ps.foldl (fun l p =>
      if color p ∈ l then l else l ++ [color p]) l).length ≤ l.length + ps.length := by
    intro ps
    induction ps with
    | nil => exact fun l => le_refl _
    | cons p ps ih =>
      intro l
      refine (ih _).trans ?_
      show (if color p ∈ l then l else l ++ [color p]).length + ps.length ≤ _
      rw [List.length_cons]
      split
      · omega
      · rw [List.length_append, List.length_singleton]
        omega
  exact (hfold (d.parentIds v) []).trans (Nat.zero_add _).le

/-- How many edges there are. -/
def numEdges : Nat := (d.ecNodeMap.flatMap ECNode.childNodes).length

variable {d}

theorem length_childIndices_le (v : Nat) : (d.childIndices v).length ≤ d.numEdges := by
  unfold childIndices
  cases hnd : d.node? v with
  | none => exact Nat.zero_le _
  | some nd =>
    have hmem : nd ∈ d.ecNodeMap := List.mem_of_find?_eq_some hnd
    rw [numEdges, List.length_flatMap]
    exact List.single_le_sum (by simp) _ (List.mem_map_of_mem hmem)

variable (hd : d.WellFormed)
include hd

theorem WellFormed.length_parentIds_le (v : Nat) : (d.parentIds v).length ≤ d.numEdges := by
  have hparents : ∀ l : List ECNode,
      (parentsIn l v).length = (l.flatMap ECNode.childNodes).count v := by
    intro l
    simp [parentsIn, List.length_flatMap, List.count_flatMap, Function.comp_def]
  unfold parentIds node?
  cases hnd : d.ecNodeMap.find? fun nd => nd.nodeId = v with
  | none => exact Nat.zero_le _
  | some nd =>
    have hid : nd.nodeId = v := by simpa using List.find?_some hnd
    show nd.parentNodes.length ≤ _
    rw [hd.parents nd (List.mem_of_find?_eq_some hnd), hid, hparents]
    exact List.count_le_length

theorem WellFormed.length_parentColors_le (color : Nat → Int) (v : Nat) :
    (d.parentColors color v).length ≤ d.numEdges :=
  (d.length_parentColors_le color v).trans (hd.length_parentIds_le v)

/-- A change of one colour. -/
theorem WellFormed.changeCells_leBy {cells : Cells} {B : Nat} (h : cells.LeBy B) (idx : Nat)
    (new : Int) : (d.changeCells coloring cells idx new).LeBy (B + 2 * d.numEdges) := by
  have h1 := Cells.LeBy.foldl (parentMove_leBy (colorAt coloring idx) new)
    (d.parentColors (colorAt coloring) idx) h
  have h2 := Cells.LeBy.foldl (d.childMove_leBy coloring (fun _ _ s t ht => ht.move s t)
    (fun _ _ s t ht => ht.move_neg s t) (colorAt coloring idx) new) (d.childIndices idx) h1
  have hp := hd.length_parentColors_le (colorAt coloring) idx
  have hc := length_childIndices_le (d := d) idx
  exact h2.mono (by omega)

/-- A change of the colour of a group, as it is predicted. -/
theorem WellFormed.changeGroup_leBy {cells : Cells} {B : Nat} (h : cells.LeBy B)
    (group : List Nat) (new : Int) : (d.changeGroup coloring cells group new).LeBy
      (B + group.length * d.numEdges + d.numEdges) := by
  have hgroup : ∀ (l : List Nat) (t : Cells) (B : Nat), t.LeBy B →
      (l.foldl (fun t idx => (d.parentColors (colorAt coloring) idx).foldl
        (parentMove (colorAt coloring idx) new) t) t).LeBy (B + l.length * d.numEdges) := by
    intro l
    induction l with
    | nil => exact fun t B ht => ht.mono (by simp)
    | cons idx l ih =>
      intro t B ht
      have h1 := Cells.LeBy.foldl (parentMove_leBy (colorAt coloring idx) new)
        (d.parentColors (colorAt coloring) idx) ht
      have hp := hd.length_parentColors_le (colorAt coloring) idx
      refine (ih _ _ h1).mono ?_
      rw [List.length_cons, Nat.succ_mul]
      omega
  have h2 := Cells.LeBy.foldl (d.childMove_leBy coloring (fun _ _ s t ht => ht.move t s)
    (fun _ _ s t ht => ht.move_neg t s) (colorAt coloring (group.getD 0 0)) new)
    (d.childIndices (group.getD 0 0)) (hgroup group cells B h)
  have hc := length_childIndices_le (d := d) (group.getD 0 0)
  exact h2.mono (by omega)

/-- The counters from the start. -/
theorem WellFormed.evaluateCells_leBy (ord : HashOrder EvalWalk) :
    (d.evaluateCells ord coloring).LeBy (coloring.keys.length * d.numEdges) := by
  have hstep : ∀ (t : Cells) (B v : Nat), t.LeBy B →
      (d.evalVertex (colorAt coloring) Stripe.counted (fun t e => t.move e.1 e.2 1) t v).LeBy
        (B + d.numEdges) := by
    intro t B v ht
    unfold evalVertex
    split
    · exact ht.mono (by omega)
    · have h1 := Cells.LeBy.foldl (f := fun t c =>
          if Stripe.counted (colorAt coloring v) c then t.move (colorAt coloring v) c 1 else t)
          (fun t B c ht => by
            split
            · exact ht.move _ _
            · exact ht.mono (Nat.le_succ B)) (d.parentColors (colorAt coloring) v) ht
      have hp := hd.length_parentColors_le (colorAt coloring) v
      exact h1.mono (by omega)
  have hfold : ∀ (l : List Nat) (t : Cells) (B : Nat), t.LeBy B →
      (l.foldl (d.evalVertex (colorAt coloring) Stripe.counted fun t e => t.move e.1 e.2 1)
        t).LeBy (B + l.length * d.numEdges) := by
    intro l
    induction l with
    | nil => exact fun t B ht => ht.mono (by simp)
    | cons v l ih =>
      intro t B ht
      refine (ih _ _ (hstep t B v ht)).mono ?_
      rw [List.length_cons, Nat.succ_mul]
      omega
  refine (hfold (ord.order .coloring coloring.keys) _ _ Cells.leBy_zero).mono ?_
  rw [(ord.perm _ _).length_eq, Nat.zero_add]

end

end ECDAG

/-- **The load stays below `INT_MAX`** when the load table leaves room for the counters. -/
theorem ParallelSolution.evalTable1_lt {loadTable : List (List Int)} {t : Cells} {B : Nat}
    (ht : t.LeBy B)
    (h : ∀ row ∈ loadTable, row.getD 0 0 + B < INT_MAX ∧ row.getD 1 0 + B < INT_MAX) :
    (evalTable1 (addTables loadTable (t.table loadTable.length))).load < INT_MAX := by
  have hrows : ∀ item ∈ addTables loadTable (t.table loadTable.length),
      item.getD 0 0 < INT_MAX ∧ item.getD 1 0 < INT_MAX := by
    intro item hitem
    obtain ⟨j, hj, rfl⟩ := List.getElem_of_mem hitem
    simp only [addTables, Cells.table, List.getElem_zipWith, List.getElem_map, List.getElem_range]
    rw [addTables, List.length_zipWith] at hj
    have hrow := h _ (List.getElem_mem (l := loadTable) (n := j) (by omega))
    have hcell := ht (j : Int)
    simp only [List.getD_cons_zero, List.getD_cons_succ]
    omega
  unfold evalTable1
  refine List.foldlRecOn (motive := fun st : State => st.load < INT_MAX) _ _ (by decide)
    fun st hst item hitem => ?_
  have := hrows item hitem
  exact max_lt (max_lt hst this.1) this.2

end StripeRepair

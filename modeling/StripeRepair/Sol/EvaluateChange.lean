import StripeRepair.Lib.Reads
import StripeRepair.Sol.ChangeColor

/-!
# The preview of a change

`evaluateChange` copies the tables of a stripe into a table of the cluster and writes there
what `changeColor` would do to them. It reads the colours through `operator[]`, which puts a
vertex without a colour into the colouring.

* `reads_evaluateChange`: on a total colouring it changes nothing, and computes the counters
  of `changeCells`.
* `evaluateChange_eq_changeColor`: the preview is what `changeColor` leaves.
-/

namespace StripeRepair

open PRSolution (colorAt)

namespace StripeTables

def IN : Nat := 1

def OUT : Nat := 0

/-- `_coloring[v]` -/
def colorOf (v : Nat) : StateM StripeTables Int := do
  let s ← get
  match s.coloring.lookup v with
  | some c => return c
  | none =>
    set { s with coloring := s.coloring.insert v 0 }
    return 0

/-- `loadTable[i][col] += x` -/
def addAt (loadTable : List (List Int)) (i : Int) (col : Nat) (x : Int) : List (List Int) :=
  loadTable.modify i.toNat fun row => row.modify col (· + x)

/-- The copy of `_in` and `_out`. -/
def copyTables (ord : HashOrder EvalWalk) (clusterSize : Nat) (s : StripeTables) :
    List (List Int) :=
  (ord.order .outMap s.outMap.entries).foldl
    (fun t it => t.modify it.1.toNat fun row => row.set OUT it.2)
    ((ord.order .inMap s.inMap.entries).foldl
      (fun t it => t.modify it.1.toNat fun row => row.set IN it.2)
      (List.replicate clusterSize [0, 0]))

/-- `set<int>::insert`: the set is walked through in order. -/
def insertColor (colors : List Int) (c : Int) : List Int :=
  if c ∈ colors then colors else colors.orderedInsert (· ≤ ·) c

/-- For old color delete: old out --, parent in --; for new color add: new out ++, parent in ++. -/
def previewParent (oldColor newColor : Int) (t : List (List Int)) (parentColor : Int) :
    List (List Int) :=
  if parentColor = -1 then t
  else
    let t := if parentColor ≠ oldColor ∧ oldColor ≠ -1 then
      addAt (addAt t oldColor OUT (-1)) parentColor IN (-1) else t
    if parentColor ≠ newColor ∧ newColor ≠ -1 then
      addAt (addAt t newColor OUT 1) parentColor IN 1 else t

section
variable (d : ECDAG)

/-- The loop over the parents' colors of one vertex. -/
def previewParents (idx : Nat) (oldColor newColor : Int) (t : List (List Int)) :
    StateM StripeTables (List (List Int)) := do
  let parentColors ← (d.parentIds idx).foldlM (fun colors parent => do
    return insertColor colors (← colorOf parent)) []
  return parentColors.foldl (previewParent oldColor newColor) t

/-- `count_new_color` -/
def countNew (child : Nat) (newColor : Int) : StateM StripeTables Nat :=
  (d.parentIds child).foldlM (fun n parent => do
    return if (← colorOf parent) = newColor then n + 1 else n) 0

/-- `count_old_color` and `count_new_color` in one loop. -/
def countBoth (child : Nat) (oldColor newColor : Int) : StateM StripeTables (Nat × Nat) :=
  (d.parentIds child).foldlM (fun n parent => do
    let countOld := if (← colorOf parent) = oldColor then n.1 + 1 else n.1
    let countNew := if (← colorOf parent) = newColor then n.2 + 1 else n.2
    return (countOld, countNew)) (0, 0)

def previewAdd (newColor : Int) (t : List (List Int)) (child : Nat) :
    StateM StripeTables (List (List Int)) := do
  let childColor ← colorOf child
  if childColor = -1 then return t
  else
    let count ← countNew d child newColor
    if count = 0 ∧ newColor ≠ childColor then
      return addAt (addAt t childColor OUT 1) newColor IN 1
    else return t

def previewChild (oldColor newColor : Int) (t : List (List Int)) (child : Nat) :
    StateM StripeTables (List (List Int)) := do
  let childColor ← colorOf child
  if childColor = -1 then return t
  else
    let count ← countBoth d child oldColor newColor
    let t := if count.1 = 1 ∧ oldColor ≠ childColor then
      addAt (addAt t oldColor IN (-1)) childColor OUT (-1) else t
    if count.2 = 0 ∧ newColor ≠ childColor then
      return addAt (addAt t newColor IN 1) childColor OUT 1
    else return t

def evaluateChange (ord : HashOrder EvalWalk) (clusterSize idx : Nat) (newColor : Int) :
    StateM StripeTables (List (List Int)) := do
  let s ← get
  let loadTable := copyTables ord clusterSize s
  let oldColor ← colorOf idx
  let loadTable ← previewParents d idx oldColor newColor loadTable
  if oldColor = -1 then (d.childIndices idx).foldlM (previewAdd d newColor) loadTable
  else (d.childIndices idx).foldlM (previewChild d oldColor newColor) loadTable

/-- As `previewChild`, but `OUT` and `IN` are the other way round. -/
def previewChild2 (oldColor newColor : Int) (t : List (List Int)) (child : Nat) :
    StateM StripeTables (List (List Int)) := do
  let childColor ← colorOf child
  if childColor = -1 then return t
  else
    let count ← countBoth d child oldColor newColor
    let t := if count.1 = 1 ∧ oldColor ≠ childColor then
      addAt (addAt t oldColor 0 (-1)) childColor 1 (-1) else t
    if count.2 = 0 ∧ newColor ≠ childColor then
      return addAt (addAt t newColor 0 1) childColor 1 1
    else return t

/-- The parents of each of the vertices `itmIdx`, but the children of the first only. -/
def evaluateChange2 (ord : HashOrder EvalWalk) (agentNum : Nat) (itmIdx : List Nat)
    (newColor : Int) : StateM StripeTables (List (List Int)) := do
  let s ← get
  let loadTable := copyTables ord agentNum s
  let loadTable ← itmIdx.foldlM (fun t idx => do
    let oldColor ← colorOf idx
    previewParents d idx oldColor newColor t) loadTable
  let first := itmIdx.getD 0 0
  let oldColor ← colorOf first
  if oldColor = -1 then (d.childIndices first).foldlM (previewAdd d newColor) loadTable
  else (d.childIndices first).foldlM (previewChild2 d oldColor newColor) loadTable

end

/-! ## What is read -/

section
variable {d : ECDAG} {s : StripeTables}

theorem reads_colorOf {v : Nat} (hv : v ∈ s.coloring) :
    Reads s (colorOf v) (colorAt s.coloring v) := by
  obtain ⟨c, hc⟩ := Option.isSome_iff_exists.1 (AList.lookup_isSome.2 hv)
  have hcolor : colorAt s.coloring v = c := by rw [colorAt, hc]; rfl
  unfold colorOf
  refine Reads.get.bind ?_
  rw [hcolor]
  simp only [hc]
  exact Reads.pure c

/-- Every vertex has a colour. -/
theorem Total.mem_parent (ht : s.Total d) (hd : d.Consistent) {v p : Nat}
    (hp : p ∈ d.parentIds v) : p ∈ s.coloring :=
  (ht p).2 (ECDAG.mem_nodeIds_of_childIndices (hd.mem_parentIds.1 hp))

variable (ht : s.Total d) (hd : d.Consistent)
include ht hd

theorem reads_countNew (child : Nat) (new : Int) :
    Reads s (countNew d child new) (d.countColor s.coloring child new) := by
  have hfold : ∀ (l : List Nat) (n : Nat), l.foldl (fun n parent =>
      if colorAt s.coloring parent = new then n + 1 else n) n =
      n + l.countP fun p => colorAt s.coloring p = new := by
    intro l
    induction l with
    | nil => exact fun n => rfl
    | cons p l ih =>
      intro n
      rw [List.foldl_cons, ih, List.countP_cons]
      simp only [decide_eq_true_eq]
      split <;> omega
  have hread := Reads.foldlM (s := s) (f := fun n parent => do
    return if (← colorOf parent) = new then n + 1 else n)
    (g := fun n parent => if colorAt s.coloring parent = new then n + 1 else n)
    (l := d.parentIds child) (fun p hp n => (reads_colorOf (ht.mem_parent hd hp)).bind (.pure _)) 0
  rw [hfold, Nat.zero_add] at hread
  exact hread

theorem reads_countBoth (child : Nat) (old new : Int) : Reads s (countBoth d child old new)
    (d.countColor s.coloring child old, d.countColor s.coloring child new) := by
  have hfold : ∀ (l : List Nat) (n : Nat × Nat), l.foldl (fun n parent =>
      ((if colorAt s.coloring parent = old then n.1 + 1 else n.1),
        if colorAt s.coloring parent = new then n.2 + 1 else n.2)) n =
      (n.1 + l.countP (fun p => colorAt s.coloring p = old),
        n.2 + l.countP fun p => colorAt s.coloring p = new) := by
    intro l
    induction l with
    | nil => exact fun n => rfl
    | cons p l ih =>
      intro n
      rw [List.foldl_cons, ih, List.countP_cons, List.countP_cons]
      simp only [decide_eq_true_eq]
      apply Prod.ext
      · dsimp only
        split <;> omega
      · dsimp only
        split <;> omega
  have hread := Reads.foldlM (s := s) (f := fun n parent => do
    let countOld := if (← colorOf parent) = old then n.1 + 1 else n.1
    let countNew := if (← colorOf parent) = new then n.2 + 1 else n.2
    return (countOld, countNew))
    (g := fun n parent => ((if colorAt s.coloring parent = old then n.1 + 1 else n.1),
      if colorAt s.coloring parent = new then n.2 + 1 else n.2))
    (l := d.parentIds child) (fun p hp n => (reads_colorOf (ht.mem_parent hd hp)).bind
      ((reads_colorOf (ht.mem_parent hd hp)).bind (.pure _))) (0, 0)
  rw [hfold, Nat.zero_add, Nat.zero_add] at hread
  exact hread

end

/-! ## The table -/

section
variable {N : Nat} (t : Cells)

theorem addAt_out {i : Int} (hi : 0 ≤ i) (x : Int) : addAt (t.table N) i OUT x =
    Cells.table ⟨Function.update t.out i (t.out i + x), t.inn⟩ N := by
  unfold addAt Cells.table
  apply List.ext_getElem
  · simp
  · intro j h1 h2
    have hj : i.toNat = j ↔ (j : Int) = i := by omega
    rw [List.getElem_modify]
    by_cases h : (j : Int) = i
    · subst h
      simp [OUT]
    · simp [hj, h]

theorem addAt_in {i : Int} (hi : 0 ≤ i) (x : Int) : addAt (t.table N) i IN x =
    Cells.table ⟨t.out, Function.update t.inn i (t.inn i + x)⟩ N := by
  unfold addAt Cells.table
  apply List.ext_getElem
  · simp
  · intro j h1 h2
    have hj : i.toNat = j ↔ (j : Int) = i := by omega
    rw [List.getElem_modify]
    by_cases h : (j : Int) = i
    · subst h
      simp [IN]
    · simp [hj, h]

/-- The two orders in which the code writes the entries of a transfer. -/
theorem addAt_move {src dst : Int} (hs : 0 ≤ src) (hd : 0 ≤ dst) (x : Int) :
    addAt (addAt (t.table N) src OUT x) dst IN x = (t.move src dst x).table N ∧
      addAt (addAt (t.table N) dst IN x) src OUT x = (t.move src dst x).table N := by
  constructor
  · rw [addAt_out t hs, addAt_in _ hd]
    rfl
  · rw [addAt_in t hd, addAt_out _ hs]
    rfl

/-- Colours are nodes or -1. -/
def NodeColor (c : Int) : Prop := c = -1 ∨ 0 ≤ c

theorem NodeColor.nonneg {c : Int} (h : NodeColor c) (hc : c ≠ -1) : 0 ≤ c := h.resolve_left hc

theorem previewParent_table {old new c : Int} (hold : NodeColor old) (hnew : NodeColor new)
    (hc : NodeColor c) :
    previewParent old new (t.table N) c = (ECDAG.parentMove old new t c).table N := by
  unfold previewParent ECDAG.parentMove
  by_cases h : c = -1
  · rw [if_pos h, if_pos h]
  · rw [if_neg h, if_neg h]
    have hstep : ∀ (p : Prop) [Decidable p] (t : Cells) (a x : Int), (p → 0 ≤ a) →
        (if p then addAt (addAt (t.table N) a OUT x) c IN x else t.table N) =
          (if p then t.move a c x else t).table N := by
      intro p _ t a x ha
      split
      · next hp => exact (addAt_move t (ha hp) (hc.nonneg h) x).1
      · rfl
    dsimp only
    rw [hstep _ t old (-1) fun hp => hold.nonneg hp.2, hstep _ _ new 1 fun hp => hnew.nonneg hp.2]

variable {d : ECDAG} {s : StripeTables} (ht : s.Total d) (hd : d.Consistent)
include ht hd

theorem reads_previewAdd {child : Nat} (hch : child ∈ s.coloring)
    (hcol : NodeColor (colorAt s.coloring child)) {new : Int} (hnew : 0 ≤ new) :
    Reads s (previewAdd d new (t.table N) child)
      ((d.childMove Cells.move s.coloring (-1) new t child).table N) := by
  unfold previewAdd ECDAG.childMove
  refine (reads_colorOf hch).bind ?_
  dsimp only
  by_cases h : colorAt s.coloring child = -1
  · rw [if_pos h, if_pos h]
    exact .pure _
  · rw [if_neg h, if_neg h, if_pos rfl]
    refine (reads_countNew ht hd child new).bind ?_
    split
    · rw [← (addAt_move t (hcol.nonneg h) hnew 1).1]
      exact .pure _
    · exact .pure _

theorem reads_previewChild {child : Nat} (hch : child ∈ s.coloring)
    (hcol : NodeColor (colorAt s.coloring child)) {old new : Int} (hold : 0 ≤ old)
    (hnew : 0 ≤ new) : Reads s (previewChild d old new (t.table N) child)
      ((d.childMove Cells.move s.coloring old new t child).table N) := by
  unfold previewChild ECDAG.childMove
  refine (reads_colorOf hch).bind ?_
  dsimp only
  by_cases h : colorAt s.coloring child = -1
  · rw [if_pos h, if_pos h]
    exact .pure _
  · have hold' : old ≠ -1 := by omega
    rw [if_neg h, if_neg h, if_neg hold']
    refine (reads_countBoth ht hd child old new).bind ?_
    have hfirst : (if d.countColor s.coloring child old = 1 ∧ old ≠ colorAt s.coloring child then
        addAt (addAt (t.table N) old IN (-1)) (colorAt s.coloring child) OUT (-1) else t.table N) =
        (if d.countColor s.coloring child old = 1 ∧ old ≠ colorAt s.coloring child then
          t.move (colorAt s.coloring child) old (-1) else t).table N := by
      split
      · exact (addAt_move t (hcol.nonneg h) hold (-1)).2
      · rfl
    dsimp only
    rw [hfirst]
    split
    · rw [← (addAt_move _ (hcol.nonneg h) hnew 1).2]
      exact .pure _
    · exact .pure _

/-- The set of the parents' colours, in order. -/
theorem reads_parentColors (idx : Nat) : ∃ colors, colors.Perm (d.parentColors (colorAt s.coloring) idx) ∧
    Reads s ((d.parentIds idx).foldlM (fun colors parent => do
      return insertColor colors (← colorOf parent)) []) colors := by
  have hread := Reads.foldlM (s := s) (f := fun colors parent => do
      return insertColor colors (← colorOf parent))
    (g := fun colors parent => insertColor colors (colorAt s.coloring parent))
    (l := d.parentIds idx) (fun p hp l => (reads_colorOf (ht.mem_parent hd hp)).bind (.pure _)) []
  refine ⟨_, ?_, hread⟩
  have hfold : ∀ (ps : List Nat) (l : List Int), l.Nodup →
      (ps.foldl (fun colors p => insertColor colors (colorAt s.coloring p)) l).Nodup ∧
        ∀ c, c ∈ ps.foldl (fun colors p => insertColor colors (colorAt s.coloring p)) l ↔
          c ∈ l ∨ ∃ p ∈ ps, colorAt s.coloring p = c := by
    intro ps
    induction ps with
    | nil => exact fun l hl => ⟨hl, by simp⟩
    | cons p ps ih =>
      intro l hl
      have hins : (insertColor l (colorAt s.coloring p)).Nodup ∧
          ∀ c, c ∈ insertColor l (colorAt s.coloring p) ↔ c ∈ l ∨ colorAt s.coloring p = c := by
        unfold insertColor
        split
        · next h =>
          refine ⟨hl, fun c => ⟨Or.inl, ?_⟩⟩
          rintro (hc | rfl)
          · exact hc
          · exact h
        · next h =>
          refine ⟨(List.perm_orderedInsert _ _ _).nodup_iff.2 (List.nodup_cons.2 ⟨h, hl⟩), fun c => ?_⟩
          rw [List.mem_orderedInsert, or_comm, eq_comm]
      obtain ⟨h1, h2⟩ := ih _ hins.1
      refine ⟨h1, fun c => ?_⟩
      rw [List.foldl_cons, h2, hins.2, or_assoc, List.exists_mem_cons_iff]
  obtain ⟨h1, h2⟩ := hfold (d.parentIds idx) [] List.nodup_nil
  refine (List.perm_ext_iff_of_nodup h1 (d.nodup_parentColors _ idx)).2 fun c => ?_
  rw [h2, d.mem_parentColors]
  simp

/-- The loop over the parents' colours. -/
theorem reads_previewParents {idx : Nat} (hcol : ∀ v ∈ d.nodeIds, NodeColor (colorAt s.coloring v))
    {old new : Int} (hold : NodeColor old) (hnew : NodeColor new) :
    Reads s (previewParents d idx old new (t.table N))
      (((d.parentColors (colorAt s.coloring) idx).foldl (ECDAG.parentMove old new) t).table N) := by
  obtain ⟨colors, hperm, hread⟩ := reads_parentColors ht hd idx
  have hfold : ∀ (l : List Int) (t : Cells), (∀ c ∈ l, NodeColor c) →
      l.foldl (previewParent old new) (t.table N) =
        (l.foldl (ECDAG.parentMove old new) t).table N := by
    intro l
    induction l with
    | nil => exact fun t _ => rfl
    | cons c l ih =>
      intro t hl
      rw [List.foldl_cons, previewParent_table t hold hnew (hl c (List.mem_cons_self ..)),
        ih _ fun c hc => hl c (List.mem_cons_of_mem _ hc), List.foldl_cons]
  have hcolors : ∀ c ∈ colors, NodeColor c := by
    intro c hc
    obtain ⟨p, hp, rfl⟩ := d.mem_parentColors.1 (hperm.mem_iff.1 hc)
    exact hcol p ((ht p).1 (ht.mem_parent hd hp))
  refine hread.bind ?_
  rw [hfold colors t hcolors, Cells.foldl_perm (ECDAG.tracks_parentMove old new) hperm]
  exact .pure _

end

/-! ## The copy -/

section

theorem foldl_set (col : Nat) (es : List (Σ _ : Int, Int)) (hes : es.NodupKeys)
    (h : ∀ e ∈ es, 0 ≤ e.1) (L : List (List Int)) :
    es.foldl (fun t it => t.modify it.1.toNat fun row => row.set col it.2) L =
      L.mapIdx fun i row => ((es.dlookup (i : Int)).map fun x => row.set col x).getD row := by
  induction es generalizing L with
  | nil =>
    apply List.ext_getElem?
    intro i
    show L[i]? = _
    rw [List.getElem?_mapIdx]
    cases L[i]? <;> rfl
  | cons e es ih =>
    obtain ⟨k, x⟩ := e
    obtain ⟨hnot, htail⟩ := List.nodupKeys_cons.1 hes
    have h0 : 0 ≤ k := h ⟨k, x⟩ (List.mem_cons_self ..)
    rw [List.foldl_cons, ih htail fun e he => h e (List.mem_cons_of_mem _ he)]
    apply List.ext_getElem?
    intro i
    rw [List.getElem?_mapIdx, List.getElem?_mapIdx, List.getElem?_modify]
    cases L[i]? with
    | none => rfl
    | some row =>
      by_cases hk : k = i
      · subst hk
        have hnone : List.dlookup ((i : Nat) : Int) es = none := List.dlookup_eq_none.2 hnot
        simp [hnone]
      · have hi : ¬ k.toNat = i := by omega
        have hne : (i : Int) ≠ (⟨k, x⟩ : Σ _ : Int, Int).1 := Ne.symm hk
        rw [List.dlookup_cons_ne _ _ hne]
        simp [hi]

theorem copyTables_eq (ord : HashOrder EvalWalk) {s : StripeTables} {N : Nat}
    (h : s.Within N) : copyTables ord N s = s.cells.table N := by
  have hnodup : ∀ (w : EvalWalk) (m : IntMap Int), (ord.order w m.entries).NodupKeys := fun w m =>
    (List.perm_nodupKeys (ord.perm w m.entries)).2 m.nodupKeys
  have hlookup : ∀ (w : EvalWalk) (m : IntMap Int) (c : Int),
      (ord.order w m.entries).dlookup c = m.lookup c := fun w m c =>
    List.perm_dlookup c (hnodup w m) (ord.perm w m.entries)
  have hkey : ∀ (w : EvalWalk) (m : IntMap Int), (∀ c ∈ m, 0 ≤ c) →
      ∀ e ∈ ord.order w m.entries, 0 ≤ e.1 := by
    intro w m hm e he
    rw [HashOrder.mem_order] at he
    exact hm _ (List.mem_map_of_mem he)
  unfold copyTables
  rw [foldl_set IN _ (hnodup _ _) (hkey _ _ fun c hc => (h c (Or.inl hc)).1),
    foldl_set OUT _ (hnodup _ _) (hkey _ _ fun c hc => (h c (Or.inr hc)).1)]
  simp only [hlookup]
  apply List.ext_getElem
  · simp [Cells.table]
  · intro i h1 h2
    simp only [List.getElem_mapIdx, List.getElem_replicate, Cells.table, List.getElem_map,
      List.getElem_range]
    show _ = [(s.outMap.lookup (i : Int)).getD 0, (s.inMap.lookup (i : Int)).getD 0]
    cases s.outMap.lookup (i : Int) <;> cases s.inMap.lookup (i : Int) <;> rfl

end

/-! ## The preview -/

/-- A loop that writes to the table of some counters. -/
theorem reads_loop {N : Nat} {s : StripeTables}
    {f : List (List Int) → Nat → StateM StripeTables (List (List Int))} {g : Cells → Nat → Cells}
    {l : List Nat} (h : ∀ v ∈ l, ∀ t : Cells, Reads s (f (t.table N) v) ((g t v).table N))
    (t : Cells) : Reads s (l.foldlM f (t.table N)) ((l.foldl g t).table N) := by
  induction l generalizing t with
  | nil => exact .pure _
  | cons v l ih =>
    rw [List.foldlM_cons, List.foldl_cons]
    exact (h v (List.mem_cons_self ..) t).bind
      (ih (fun c hc => h c (List.mem_cons_of_mem _ hc)) _)

section
variable {d : ECDAG} (hd : d.Consistent) {ord : HashOrder EvalWalk} {s : StripeTables}
  (ht : s.Total d) {N : Nat} (hN : s.Within N)
  (hcol : ∀ v ∈ d.nodeIds, NodeColor (colorAt s.coloring v)) {idx : Nat} (hidx : idx ∈ d.nodeIds)
include hd ht hN hcol hidx

/-- **The preview**: nothing is changed, and the table is that of `changeCells`. -/
theorem reads_evaluateChange {new : Int} (hnew : 0 ≤ new) :
    Reads s (evaluateChange d ord N idx new) (d.evaluateChange s.coloring s.cells N idx new) := by
  have hmem : ∀ child ∈ d.childIndices idx, child ∈ s.coloring := fun child hc =>
    (ht child).2 (hd.closed idx child hc)
  have hchild : ∀ child ∈ d.childIndices idx, NodeColor (colorAt s.coloring child) :=
    fun child hc => hcol child (hd.closed idx child hc)
  unfold evaluateChange ECDAG.evaluateChange ECDAG.changeCells
  refine Reads.get.bind ((reads_colorOf ((ht idx).2 hidx)).bind ?_)
  rw [copyTables_eq ord hN]
  refine (reads_previewParents s.cells ht hd hcol (hcol idx hidx) (.inr hnew)).bind ?_
  split
  · next h =>
    rw [h]
    exact reads_loop (fun child hc t => reads_previewAdd t ht hd (hmem child hc)
      (hchild child hc) hnew) _
  · next h =>
    exact reads_loop (fun child hc t => reads_previewChild t ht hd (hmem child hc)
      (hchild child hc) ((hcol idx hidx).nonneg h) hnew) _

end

/-! ## What `changeColor` leaves -/

/-- The colour is a node of the cluster or -1. -/
def InCluster (clusterSize : Nat) (c : Int) : Prop := c = -1 ∨ 0 ≤ c ∧ c < clusterSize

theorem InCluster.nodeColor {N : Nat} {c : Int} (h : InCluster N c) : NodeColor c :=
  h.imp_right And.left

theorem within_step {N : Nat} {m : Counters} (hm : m.Within N) (p : Prop) [Decidable p]
    {src dst : Int} (h : p → (0 ≤ src ∧ src < N) ∧ 0 ≤ dst ∧ dst < N) (x : Int) :
    (if p then ⟨m.inMap.bump dst x, m.outMap.bump src x⟩ else m : Counters).Within N := by
  split
  · next hp =>
    rintro c (hc | hc)
    · rcases IntMap.mem_bump.1 hc with rfl | hc
      · exact (h hp).2
      · exact hm c (.inl hc)
    · rcases IntMap.mem_bump.1 hc with rfl | hc
      · exact (h hp).1
      · exact hm c (.inr hc)
  · exact hm

section
variable {d : ECDAG} (hd : d.Consistent) {s : StripeTables} {N : Nat} (hN : s.Within N)
  (hcol : ∀ v ∈ d.nodeIds, InCluster N (colorAt s.coloring v)) {idx : Nat}
  (hidx : idx ∈ d.nodeIds) {new : Int} (hnew : 0 ≤ new ∧ new < N)
include hd hN hcol hidx hnew

/-- The entries stay within the cluster. -/
theorem within_changeCounters : (s.changeCounters d idx new).Within N := by
  have hfold : ∀ {α : Type} (f : Counters → α → Counters) (l : List α),
      (∀ a ∈ l, ∀ m : Counters, m.Within N → (f m a).Within N) →
      ∀ m : Counters, m.Within N → (l.foldl f m).Within N := by
    intro α f l h m hm
    exact List.foldlRecOn (motive := fun m : Counters => m.Within N) l f hm fun m hm a ha =>
      h a ha m hm
  have hold := hcol idx hidx
  have hparents : ∀ c ∈ d.parentColors (colorAt s.coloring) idx, InCluster N c := by
    intro c hc
    obtain ⟨p, hp, rfl⟩ := d.mem_parentColors.1 hc
    exact hcol p (ECDAG.mem_nodeIds_of_childIndices (hd.mem_parentIds.1 hp))
  have hchild : ∀ c ∈ d.childIndices idx, InCluster N (colorAt s.coloring c) := fun c hc =>
    hcol c (hd.closed idx c hc)
  have h1 : ((d.parentColors (colorAt s.coloring) idx).foldl
      (Counters.changeParent (colorAt s.coloring idx) new) s.toCounters).Within N := by
    refine hfold _ _ (fun c hc m hm => ?_) _ hN
    unfold Counters.changeParent
    by_cases h : c = -1
    · rw [if_pos h]
      exact hm
    · rw [if_neg h]
      have hcN := (hparents c hc).resolve_left h
      exact within_step (within_step hm _ (fun hp => ⟨hold.resolve_left hp.2, hcN⟩) _) _
        (fun _ => ⟨hnew, hcN⟩) _
  unfold changeCounters
  dsimp only
  split
  · refine hfold _ _ (fun c hc m hm => ?_) _ h1
    unfold Counters.addChild
    by_cases h : colorAt s.coloring c = -1
    · simp only [h, if_true]
      exact hm
    · simp only [h, if_false]
      exact within_step hm _ (fun _ => ⟨(hchild c hc).resolve_left h, hnew⟩) _
  · next hne =>
    refine hfold _ _ (fun c hc m hm => ?_) _ h1
    unfold Counters.changeChild
    by_cases h : colorAt s.coloring c = -1
    · simp only [h, if_true]
      exact hm
    · simp only [h, if_false]
      have hcN := (hchild c hc).resolve_left h
      exact within_step (within_step hm _ (fun _ => ⟨hcN, hold.resolve_left hne⟩) _) _
        (fun _ => ⟨hcN, hnew⟩) _

end

/-- **Preview equals commit**: the table is what `changeColor` leaves in `_out` and `_in`, and
the stripe is as it was. -/
theorem evaluateChange_eq_changeColor {d : ECDAG} (hd : d.Consistent) {ord : HashOrder EvalWalk}
    {s : StripeTables} (ht : s.Total d) (hs : s.Evaluated d ord) {N : Nat} (hN : s.Within N)
    (hcol : ∀ v ∈ d.nodeIds, InCluster N (colorAt s.coloring v)) {idx : Nat}
    (hidx : idx ∈ d.nodeIds) {new : Int} (hnew : 0 ≤ new ∧ new < N) :
    ∃ s', s.changeColor d ord idx new = some s' ∧ s'.Within N ∧
      (evaluateChange d ord N idx new).run s =
        ((List.range N).map fun i : Nat => [s'.outMap.get i, s'.inMap.get i], s) := by
  refine ⟨_, changeColor_eq hd ht hidx hs new,
    within_changeCounters hd hN hcol hidx hnew, ?_⟩
  have hread : Reads s (evaluateChange d ord N idx new) _ :=
    reads_evaluateChange hd ht hN (fun v hv => (hcol v hv).nodeColor) hidx hnew.1
  unfold ECDAG.evaluateChange at hread
  rw [← cells_changeCounters] at hread
  exact hread

theorem evaluateChange_fourNodes : ∃ s', fourNodes.changeColor .sharedChild (.insertion _) 2 3 =
      some s' ∧ s'.Within 4 ∧
    (evaluateChange .sharedChild (.insertion _) 4 2 3).run fourNodes =
      ((List.range 4).map fun i : Nat => [s'.outMap.get i, s'.inMap.get i], fourNodes) := by
  have hkeys : ∀ c, c ∈ fourNodes.inMap ∨ c ∈ fourNodes.outMap →
      c ∈ fourNodes.inMap.keys ++ fourNodes.outMap.keys := fun c hc =>
    List.mem_append.2 (hc.imp id id)
  have hall : ∀ c ∈ fourNodes.inMap.keys ++ fourNodes.outMap.keys, 0 ≤ c ∧ c < (4 : Nat) := by
    decide
  have hcol : ∀ v ∈ ECDAG.sharedChild.nodeIds,
      0 ≤ colorAt fourNodes.coloring v ∧ colorAt fourNodes.coloring v < (4 : Nat) := by
    decide
  exact evaluateChange_eq_changeColor ECDAG.consistent_sharedChild total_fourNodes
    (evaluated_evaluateColoring _ _ _) (fun c hc => hall c (hkeys c hc))
    (fun v hv => .inr (hcol v hv)) (by decide) (by decide)

end StripeTables

end StripeRepair

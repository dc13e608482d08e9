import StripeRepair.Sol.Hungary

/-!
# `if_insert`: putting a stripe into a repair group

A stripe may be repaired together with those of a group when it needs none of their nodes.
`if_insert` finds that out by looking for a node for each of the stripe's helpers, and takes
everything back when one is not found.

* `Group`: every stripe of the group has all of its helpers and no stripe has others.
* `ifInsert_spec`: a stripe with helpers that are all free gets them, another one changes nothing.
* `ifInsert_reached`: the same in every state that `if_insert` itself builds.
-/

namespace StripeRepair

open Function (update update_of_ne update_self)

namespace GroupArrays

/-- The nodes of a stripe that do not fail soon. -/
def helpers (placement soonToFail : List Int) : List Int :=
  placement.filter fun nodeId => nodeId ∉ soonToFail

section
variable (g : GroupSizes) (rg : Int)

/-- `_bipartite_matrix[..][row][node_id] = v` for nodes of a stripe. -/
def setRow (row : Int) (nodes : List Int) (v : Int) (w : GroupArrays) : GroupArrays :=
  { w with
    bipartiteMatrix := nodes.foldl (fun m i => update m (g.cell rg row i) v) w.bipartiteMatrix }

/-- `_node_belong[rg_id * _num_agents + k] = bak_node_belong[k]` for every `k`. -/
def resetBelong (bak : Int → Int) (w : GroupArrays) : GroupArrays :=
  { w with
    nodeBelong := (List.range g.numAgents).foldl
      (fun b (k : Nat) => update b (g.slot rg k) (bak k)) w.nodeBelong }

/-- `memset(_mark, 0, sizeof(int) * _num_agents)` -/
def clearMark (w : GroupArrays) : GroupArrays :=
  { w with mark := fun i => if 0 ≤ i ∧ i < g.numAgents then 0 else w.mark i }

/-- The calls of `hungary`: how many nodes were found. A call marks a node before the next one,
which bounds their depth. -/
def insertLoop (cur : Int) : Nat → Nat → GroupArrays → Option (Nat × GroupArrays)
  | 0, chunkId, w => some (chunkId, w)
  | left + 1, chunkId, w => do
    let (ret, w) ← hungary g rg (g.numAgents + 1) cur (w.clearMark g)
    if ret then insertLoop cur left (chunkId + 1) w else some (chunkId, w)

/-- `if_insert` -/
def ifInsert (cur : Int) (placement soonToFail : List Int) (w : GroupArrays) :
    Option (Int × GroupArrays) := do
  let helper := helpers placement soonToFail
  let bak : Int → Int := fun k => w.nodeBelong (g.slot rg k)
  let w := w.setRow g rg cur helper 1
  let (chunkId, w) ← insertLoop g rg cur helper.length 0 w
  -- `helper.size() - 1` is the largest `size_t` when there is no helper
  if helper.length = 0 ∨ chunkId ≤ helper.length - 1 then
    let w := w.setRow g rg cur ((List.range g.numAgents).map fun k : Nat => (k : Int)) 0
    some (0, w.resetBelong g rg bak)
  else some (1, w)

end

/-! ## Rows and nodes of a group -/

theorem foldl_update {α : Type} (f : α → Int) (v : Int → Int) (l : List α) (m : Int → Int)
    (a : Int) :
    l.foldl (fun m x => update m (f x) (v (f x))) m a = if a ∈ l.map f then v a else m a := by
  induction l generalizing m with
  | nil => rfl
  | cons x l ih =>
    rw [List.foldl_cons, ih, List.map_cons]
    by_cases ha : a ∈ l.map f
    · rw [if_pos ha, if_pos (List.mem_cons_of_mem _ ha)]
    · rw [if_neg ha]
      by_cases hx : a = f x
      · rw [hx, update_self, if_pos (List.mem_cons_self ..)]
      · rw [update_of_ne hx, if_neg]
        rintro (_ | ⟨_, h⟩)
        · exact hx rfl
        · exact ha h

section
variable {g : GroupSizes} {rg : Int} {rows : Int → List Int} {cur : Int} {w w' : GroupArrays}

theorem setRow_matrix (row : Int) (nodes : List Int) (v a : Int) :
    (w.setRow g rg row nodes v).bipartiteMatrix a =
      if a ∈ nodes.map (g.cell rg row) then v else w.bipartiteMatrix a :=
  foldl_update (g.cell rg row) (fun _ => v) nodes w.bipartiteMatrix a

theorem resetBelong_nodeBelong (b : Int → Int) (a : Int) :
    (w.resetBelong g rg fun k => b (g.slot rg k)).nodeBelong a =
      if a ∈ (List.range g.numAgents).map (fun k : Nat => g.slot rg k) then b a
      else w.nodeBelong a :=
  foldl_update (fun k : Nat => g.slot rg k) b (List.range g.numAgents) w.nodeBelong a

/-- The rows of the matrix. -/
def RowsAre (g : GroupSizes) (rg : Int) (rows : Int → List Int) (w : GroupArrays) : Prop :=
  ∀ r, g.IsRow r → ∀ i, g.IsNode i →
    w.bipartiteMatrix (g.cell rg r i) = if i ∈ rows r then 1 else 0

/-- Every stripe of the group has all of its helpers, and no stripe has others. -/
structure Group (g : GroupSizes) (rg : Int) (rows : Int → List Int) (w : GroupArrays) : Prop where
  nodes : ∀ r, g.IsRow r → ∀ i ∈ rows r, g.IsNode i
  matrix : RowsAre g rg rows w
  belong : ∀ i, g.IsNode i → w.nodeBelong (g.slot rg i) ≠ -1 →
    g.IsRow (w.nodeBelong (g.slot rg i)) ∧ i ∈ rows (w.nodeBelong (g.slot rg i))
  full : ∀ r, g.IsRow r → ∀ i ∈ rows r, w.nodeBelong (g.slot rg i) = r

/-- No node belongs to two stripes. -/
theorem Group.disjoint (h : Group g rg rows w) {r r' : Int} (hr : g.IsRow r) (hr' : g.IsRow r')
    {i : Int} (hi : i ∈ rows r) (hi' : i ∈ rows r') : r = r' :=
  (h.full r hr i hi).symm.trans (h.full r' hr' i hi')

/-- A node belongs to no stripe when none of the group needs it. -/
theorem Group.free_iff (h : Group g rg rows w) {i : Int} (hi : g.IsNode i) :
    w.nodeBelong (g.slot rg i) = -1 ↔ ∀ r, g.IsRow r → i ∉ rows r := by
  constructor
  · intro hfree r hr hmem
    have hb := h.full r hr i hmem
    have := hr.1
    omega
  · intro hnone
    by_contra hne
    obtain ⟨hrow, hmem⟩ := h.belong i hi hne
    exact hnone _ hrow hmem

/-- The row of the stripe that is inserted. -/
theorem RowsAre.setRow (h : RowsAre g rg rows w) (hempty : rows cur = []) (hcur : g.IsRow cur)
    {nodes : List Int} (hnodes : ∀ i ∈ nodes, g.IsNode i) :
    RowsAre g rg (update rows cur nodes) (w.setRow g rg cur nodes 1) := by
  intro r hr i hi
  rw [setRow_matrix]
  by_cases hrc : r = cur
  · subst hrc
    rw [update_self]
    by_cases hmem : i ∈ nodes
    · rw [if_pos hmem, if_pos (List.mem_map_of_mem hmem)]
    · have hcell : g.cell rg r i ∉ nodes.map (g.cell rg r) := by
        intro hc
        obtain ⟨j, hj, he⟩ := List.mem_map.1 hc
        exact hmem ((GroupSizes.cell_inj hr hr (hnodes j hj) hi he).2.2 ▸ hj)
      rw [if_neg hcell, if_neg hmem, h r hr i hi, hempty]
      rfl
  · have hcell : g.cell rg r i ∉ nodes.map (g.cell rg cur) := by
      intro hc
      obtain ⟨j, hj, he⟩ := List.mem_map.1 hc
      exact hrc (GroupSizes.cell_inj hcur hr (hnodes j hj) hi he).2.1.symm
    rw [if_neg hcell, update_of_ne hrc, h r hr i hi]

theorem Group.searching (h : Group g rg rows w) (hempty : rows cur = []) (hcur : g.IsRow cur)
    {nodes : List Int} (hnodes : ∀ i ∈ nodes, g.IsNode i) :
    Searching g rg (update rows cur nodes) cur (w.setRow g rg cur nodes 1) := by
  refine ⟨fun r hr i hi => ?_, fun i hi hne => ?_, fun r hr hne i hi => ?_⟩
  · rw [h.matrix.setRow hempty hcur hnodes r hr i hi]
    split <;> simp_all
  · obtain ⟨hrow, hmem⟩ := h.belong i hi hne
    refine ⟨hrow, ?_⟩
    have hne' : w.nodeBelong (g.slot rg i) ≠ cur := by
      intro he
      rw [he, hempty] at hmem
      exact List.not_mem_nil hmem
    show i ∈ update rows cur nodes (w.nodeBelong (g.slot rg i))
    rwa [update_of_ne hne']
  · rw [update_of_ne hne] at hi
    exact ⟨h.nodes r hr i hi, h.full r hr i hi⟩

end

/-! ## The calls of `hungary` -/

/-- Free nodes of the stripe `cur` were given to it, and nothing else changed. -/
structure Given (g : GroupSizes) (rg : Int) (rows : Int → List Int) (cur : Int)
    (w w' : GroupArrays) : Prop where
  matrix : w'.bipartiteMatrix = w.bipartiteMatrix
  belong : ∀ a, w'.nodeBelong a = w.nodeBelong a ∨
    ∃ i ∈ rows cur, g.IsNode i ∧ a = g.slot rg i ∧ w.nodeBelong a = -1 ∧ w'.nodeBelong a = cur

/-- How many nodes of the stripe are free. -/
def freeNodes (g : GroupSizes) (rg : Int) (rows : Int → List Int) (cur : Int)
    (w : GroupArrays) : Nat :=
  (rows cur).countP fun i => w.nodeBelong (g.slot rg i) = -1

section
variable {g : GroupSizes} {rg : Int} {rows : Int → List Int} {cur : Int} {w w' w₂ : GroupArrays}

theorem Given.refl (hm : w'.bipartiteMatrix = w.bipartiteMatrix)
    (hb : w'.nodeBelong = w.nodeBelong) : Given g rg rows cur w w' :=
  ⟨hm, fun _ => Or.inl (by rw [hb])⟩

theorem Given.trans (h : Given g rg rows cur w w') (h' : Given g rg rows cur w' w₂) :
    Given g rg rows cur w w₂ := by
  refine ⟨h'.matrix.trans h.matrix, fun a => ?_⟩
  rcases h.belong a with he | ⟨i, hi, hn, ha, hfree, he⟩
  · rcases h'.belong a with he' | ⟨i, hi, hn, ha, hfree, he'⟩
    · exact Or.inl (he'.trans he)
    · exact Or.inr ⟨i, hi, hn, ha, he ▸ hfree, he'⟩
  · rcases h'.belong a with he' | ⟨j, hj, hn', ha', -, he'⟩
    · exact Or.inr ⟨i, hi, hn, ha, hfree, he'.trans he⟩
    · exact Or.inr ⟨i, hi, hn, ha, hfree, he'⟩

theorem Given.searching (h : Given g rg rows cur w w') (hcur : g.IsRow cur)
    (hw : Searching g rg rows cur w) : Searching g rg rows cur w' := by
  refine ⟨?_, fun i hi hne => ?_, fun r hr hne i hi => ?_⟩
  · rw [h.matrix]
    exact hw.matrix
  · rcases h.belong (g.slot rg i) with he | ⟨j, hj, hn, ha, -, he⟩
    · rw [he] at hne ⊢
      exact hw.belong i hi hne
    · rw [he, (GroupSizes.slot_inj hi hn ha).2]
      exact ⟨hcur, hj⟩
  · obtain ⟨hn, hb⟩ := hw.full r hr hne i hi
    refine ⟨hn, ?_⟩
    rcases h.belong (g.slot rg i) with he | ⟨j, hj, -, -, hfree, -⟩
    · exact he.trans hb
    · have := hr.1
      omega

theorem freeNodes_congr (hb : w'.nodeBelong = w.nodeBelong) :
    freeNodes g rg rows cur w' = freeNodes g rg rows cur w := by
  unfold freeNodes
  rw [hb]

/-- Taking a free node. -/
theorem freeNodes_take (hnodup : (rows cur).Nodup) (hnodes : ∀ i ∈ rows cur, g.IsNode i)
    (hcur : g.IsRow cur) {j : Int} (hj : j ∈ rows cur) (hfree : w.nodeBelong (g.slot rg j) = -1)
    (hb : w'.nodeBelong = update w.nodeBelong (g.slot rg j) cur) :
    freeNodes g rg rows cur w = freeNodes g rg rows cur w' + 1 := by
  unfold freeNodes
  rw [List.countP_eq_length_filter, List.countP_eq_length_filter]
  have herase : (rows cur).filter (fun i => w'.nodeBelong (g.slot rg i) = -1) =
      ((rows cur).filter fun i => w.nodeBelong (g.slot rg i) = -1).erase j := by
    rw [(hnodup.filter _).erase_eq_filter, List.filter_filter]
    refine List.filter_congr fun i hi => ?_
    rw [hb]
    by_cases hij : i = j
    · have := hcur.1
      simp only [hij, update_self, bne_self_eq_false, Bool.false_and, decide_eq_false_iff_not]
      omega
    · have hne : g.slot rg i ≠ g.slot rg j := fun h =>
        hij (GroupSizes.slot_inj (hnodes i hi) (hnodes j hj) h).2
      simp [update_of_ne hne, hij]
  rw [herase, List.length_erase_of_mem (List.mem_filter.2 ⟨hj, decide_eq_true hfree⟩)]
  have : 0 < ((rows cur).filter fun i => w.nodeBelong (g.slot rg i) = -1).length :=
    List.length_pos_of_mem (List.mem_filter.2 ⟨hj, decide_eq_true hfree⟩)
  omega

/-- A search gives the stripe one free node, or the stripe has none. -/
theorem Searched.given {ret : Bool} (hnodup : (rows cur).Nodup)
    (hnodes : ∀ i ∈ rows cur, g.IsNode i) (hcur : g.IsRow cur)
    (h : Searched g rg rows cur (List.range g.numAgents) (w.clearMark g) ret w') :
    Given g rg rows cur w w' ∧
      freeNodes g rg rows cur w = freeNodes g rg rows cur w' + if ret then 1 else 0 := by
  cases ret with
  | true =>
    obtain ⟨j, hj, hjn, hfree, hb⟩ := h.taken rfl
    refine ⟨⟨h.matrix, fun a => ?_⟩, freeNodes_take hnodup hnodes hcur hj hfree hb⟩
    by_cases ha : a = g.slot rg j
    · refine Or.inr ⟨j, hj, hjn, ha, ha ▸ hfree, ?_⟩
      rw [hb, ha, update_self]
    · refine Or.inl ?_
      rw [hb, update_of_ne ha]
      rfl
  | false => exact ⟨Given.refl h.matrix (h.same rfl), (freeNodes_congr (h.same rfl)).symm⟩

/-- The stripe has no free node once a search for one fails. -/
theorem Searched.noneFree (hnodes : ∀ i ∈ rows cur, g.IsNode i)
    (h : Searched g rg rows cur (List.range g.numAgents) (w.clearMark g) false w') :
    freeNodes g rg rows cur w = 0 := by
  refine List.countP_eq_zero.2 fun i hi hfree => ?_
  obtain ⟨h0, hlt⟩ := hnodes i hi
  have hmem : i.toNat ∈ List.range g.numAgents := List.mem_range.2 (by omega)
  have hcast : ((i.toNat : Nat) : Int) = i := Int.toNat_of_nonneg h0
  have hmark := h.none rfl _ hmem (hcast.symm ▸ hi) (by rw [hcast]; exact of_decide_eq_true hfree)
  refine hmark ?_
  unfold clearMark
  rw [hcast]
  exact if_pos ⟨h0, hlt⟩

theorem unmarked_le_numAgents (g : GroupSizes) (w : GroupArrays) :
    unmarked g w ≤ g.numAgents := by
  have := List.countP_le_length (p := fun i : Nat => decide (w.mark i = 0))
    (l := List.range g.numAgents)
  rwa [List.length_range] at this

/-- **The calls** find a free node each for as long as there is one. -/
theorem insertLoop_spec (hnodup : (rows cur).Nodup) (hnodes : ∀ i ∈ rows cur, g.IsNode i)
    (hcur : g.IsRow cur) (left chunkId : Nat) (hw : Searching g rg rows cur w) :
    ∃ w', insertLoop g rg cur left chunkId w =
        some (chunkId + min left (freeNodes g rg rows cur w), w') ∧
      Given g rg rows cur w w' ∧
      freeNodes g rg rows cur w' = freeNodes g rg rows cur w - left := by
  induction left generalizing chunkId w with
  | zero => exact ⟨w, by simp [insertLoop], Given.refl rfl rfl, rfl⟩
  | succ left ih =>
    have hclear : Searching g rg rows cur (w.clearMark g) := hw.congr rfl rfl
    obtain ⟨ret, w₁, hcall, hS⟩ := hungary_spec hcur hclear
      (Nat.lt_succ_of_le (unmarked_le_numAgents g _))
    obtain ⟨hgiven, hcount⟩ := hS.given hnodup hnodes hcur
    cases ret with
    | true =>
      obtain ⟨w₂, heq, hgiven₂, hcount₂⟩ := ih (chunkId + 1) (hgiven.searching hcur hw)
      simp only [if_true] at hcount
      refine ⟨w₂, ?_, hgiven.trans hgiven₂, by omega⟩
      rw [insertLoop, hcall]
      show insertLoop g rg cur left (chunkId + 1) w₁ = _
      rw [heq]
      congr 2
      omega
    | false =>
      have hzero := hS.noneFree hnodes
      refine ⟨w₁, ?_, hgiven, by simp at hcount; omega⟩
      rw [insertLoop, hcall, hzero]
      rfl

end

/-! ## The insertion -/

/-- A stripe has helpers, and the group needs none of them. -/
def Insertable (g : GroupSizes) (rows : Int → List Int) (helper : List Int) : Prop :=
  helper ≠ [] ∧ ∀ i ∈ helper, ∀ r, g.IsRow r → i ∉ rows r

section
variable {g : GroupSizes} {rg : Int} {rows : Int → List Int} {cur : Int} {w : GroupArrays}
  {placement soonToFail : List Int}

theorem helpers_nodup (h : placement.Nodup) : (helpers placement soonToFail).Nodup := h.filter _

theorem helpers_nodes (h : ∀ i ∈ placement, g.IsNode i) :
    ∀ i ∈ helpers placement soonToFail, g.IsNode i :=
  fun i hi => h i (List.mem_of_mem_filter hi)

theorem mem_nodes {i : Int} :
    i ∈ (List.range g.numAgents).map (fun k : Nat => (k : Int)) ↔ g.IsNode i := by
  rw [List.mem_map]
  constructor
  · rintro ⟨k, hk, rfl⟩
    exact ⟨by omega, by exact_mod_cast List.mem_range.1 hk⟩
  · rintro ⟨h0, hlt⟩
    exact ⟨i.toNat, List.mem_range.2 (by omega), Int.toNat_of_nonneg h0⟩

/-- What is left to do after the calls. -/
theorem ifInsert_eq {chunkId : Nat} {w' : GroupArrays}
    (hloop : insertLoop g rg cur (helpers placement soonToFail).length 0
      (w.setRow g rg cur (helpers placement soonToFail) 1) = some (chunkId, w')) :
    ifInsert g rg cur placement soonToFail w =
      if (helpers placement soonToFail).length = 0 ∨
          chunkId ≤ (helpers placement soonToFail).length - 1 then
        some (0, (w'.setRow g rg cur ((List.range g.numAgents).map fun k : Nat => (k : Int))
          0).resetBelong g rg fun k => w.nodeBelong (g.slot rg k))
      else some (1, w') := by
  unfold ifInsert
  simp only [hloop]
  rfl

section
variable (h : Group g rg rows w) (hcur : g.IsRow cur) (hempty : rows cur = [])
  (hnodup : placement.Nodup) (hnodes : ∀ i ∈ placement, g.IsNode i)
include h hcur hempty hnodup hnodes

variable (soonToFail) in
/-- The calls of `if_insert`: all of the helpers are found when no stripe of the group needs one. -/
theorem insertLoop_helpers :
    ∃ chunkId w', insertLoop g rg cur (helpers placement soonToFail).length 0
        (w.setRow g rg cur (helpers placement soonToFail) 1) = some (chunkId, w') ∧
      Given g rg (update rows cur (helpers placement soonToFail)) cur
        (w.setRow g rg cur (helpers placement soonToFail) 1) w' ∧
      ((∀ i ∈ helpers placement soonToFail, ∀ r, g.IsRow r → i ∉ rows r) →
        chunkId = (helpers placement soonToFail).length ∧
          freeNodes g rg (update rows cur (helpers placement soonToFail)) cur w' = 0) ∧
      ((¬ ∀ i ∈ helpers placement soonToFail, ∀ r, g.IsRow r → i ∉ rows r) →
        chunkId < (helpers placement soonToFail).length) := by
  have hhs : ∀ i ∈ helpers placement soonToFail, g.IsNode i := helpers_nodes hnodes
  have hS := h.searching hempty hcur hhs
  have hself := update_self (β := fun _ => List Int) cur (helpers placement soonToFail) rows
  obtain ⟨w', heq, hgiven, hfree⟩ := insertLoop_spec (by rw [hself]; exact helpers_nodup hnodup)
    (by rw [hself]; exact hhs) hcur (helpers placement soonToFail).length 0 hS
  refine ⟨_, w', heq, hgiven, fun hnone => ?_, fun hsome => ?_⟩
  · have hall : freeNodes g rg (update rows cur (helpers placement soonToFail)) cur
        (w.setRow g rg cur (helpers placement soonToFail) 1) =
        (helpers placement soonToFail).length := by
      unfold freeNodes
      rw [hself]
      exact List.countP_eq_length.2 fun i hi =>
        decide_eq_true ((h.free_iff (hhs i hi)).2 (hnone i hi))
    omega
  · have hlt : freeNodes g rg (update rows cur (helpers placement soonToFail)) cur
        (w.setRow g rg cur (helpers placement soonToFail) 1) <
        (helpers placement soonToFail).length := by
      unfold freeNodes
      rw [hself]
      refine lt_of_le_of_ne List.countP_le_length fun hall => hsome fun i hi => ?_
      exact (h.free_iff (hhs i hi)).1 (of_decide_eq_true (List.countP_eq_length.1 hall i hi))
    omega

/-- **A stripe whose helpers are free** gets them, and nothing else changes. -/
theorem ifInsert_insertable
    (hins : Insertable g rows (helpers placement soonToFail)) :
    ∃ w', ifInsert g rg cur placement soonToFail w = some (1, w') ∧
      w'.bipartiteMatrix =
        (w.setRow g rg cur (helpers placement soonToFail) 1).bipartiteMatrix ∧
      (∀ a, w'.nodeBelong a =
        if a ∈ (helpers placement soonToFail).map (g.slot rg) then cur else w.nodeBelong a) ∧
      Group g rg (update rows cur (helpers placement soonToFail)) w' := by
  have hhs : ∀ i ∈ helpers placement soonToFail, g.IsNode i := helpers_nodes hnodes
  obtain ⟨chunkId, w', hloop, hgiven, hnone, -⟩ :=
    insertLoop_helpers soonToFail h hcur hempty hnodup hnodes
  obtain ⟨hchunk, hfree⟩ := hnone hins.2
  have hself := update_self (β := fun _ => List Int) cur (helpers placement soonToFail) rows
  unfold freeNodes at hfree
  rw [hself] at hfree
  have hbelong : ∀ a, w'.nodeBelong a =
      if a ∈ (helpers placement soonToFail).map (g.slot rg) then cur else w.nodeBelong a := by
    intro a
    rcases hgiven.belong a with he | ⟨i, hi, -, ha, -, he⟩
    · split
      · next hmem =>
        obtain ⟨i, hi, rfl⟩ := List.mem_map.1 hmem
        have hw : w.nodeBelong (g.slot rg i) = -1 := (h.free_iff (hhs i hi)).2 (hins.2 i hi)
        exact absurd (decide_eq_true (he.trans hw)) (List.countP_eq_zero.1 hfree i hi)
      · exact he
    · rw [hself] at hi
      rw [ha, if_pos (List.mem_map_of_mem hi), ← ha, he]
  have hsearch := hgiven.searching hcur (h.searching hempty hcur hhs)
  refine ⟨w', ?_, hgiven.matrix, hbelong, ?_, ?_, hsearch.belong, ?_⟩
  · have hlen : ¬ ((helpers placement soonToFail).length = 0 ∨
        chunkId ≤ (helpers placement soonToFail).length - 1) := by
      have := List.length_pos_iff.2 hins.1
      omega
    rw [ifInsert_eq hloop, if_neg hlen]
  · intro r hr i hi
    by_cases hrc : r = cur
    · rw [hrc, update_self] at hi
      exact hhs i hi
    · rw [update_of_ne hrc] at hi
      exact h.nodes r hr i hi
  · intro r hr i hi
    rw [hgiven.matrix]
    exact h.matrix.setRow hempty hcur hhs r hr i hi
  · intro r hr i hi
    by_cases hrc : r = cur
    · rw [hrc, update_self] at hi
      rw [hbelong, if_pos (List.mem_map_of_mem hi), hrc]
    · exact (hsearch.full r hr hrc i hi).2

/-- **Another stripe** changes nothing. -/
theorem ifInsert_not_insertable
    (hins : ¬ Insertable g rows (helpers placement soonToFail)) :
    ∃ w', ifInsert g rg cur placement soonToFail w = some (0, w') ∧
      w'.bipartiteMatrix = w.bipartiteMatrix ∧ w'.nodeBelong = w.nodeBelong := by
  have hhs : ∀ i ∈ helpers placement soonToFail, g.IsNode i := helpers_nodes hnodes
  obtain ⟨chunkId, w', hloop, hgiven, -, hsome⟩ :=
    insertLoop_helpers soonToFail h hcur hempty hnodup hnodes
  have hlen : (helpers placement soonToFail).length = 0 ∨
      chunkId ≤ (helpers placement soonToFail).length - 1 := by
    by_cases hnil : helpers placement soonToFail = []
    · exact Or.inl (by rw [hnil]; rfl)
    · have := hsome fun hall => hins ⟨hnil, hall⟩
      omega
  refine ⟨_, (ifInsert_eq hloop).trans (if_pos hlen), ?_, ?_⟩
  · funext a
    show ((w'.setRow g rg cur ((List.range g.numAgents).map fun k : Nat => (k : Int))
      0).bipartiteMatrix a) = w.bipartiteMatrix a
    rw [setRow_matrix, hgiven.matrix, setRow_matrix]
    split
    · next hmem =>
      obtain ⟨i, hi, rfl⟩ := List.mem_map.1 hmem
      rw [h.matrix cur hcur i (mem_nodes.1 hi), hempty]
      rfl
    · next hmem =>
      refine if_neg fun hmem' => hmem ?_
      obtain ⟨i, hi, rfl⟩ := List.mem_map.1 hmem'
      exact List.mem_map_of_mem (mem_nodes.2 (hhs i hi))
  · funext a
    refine (resetBelong_nodeBelong w.nodeBelong a).trans ?_
    split
    · rfl
    · next hmem =>
      rcases hgiven.belong a with he | ⟨i, -, hn, ha, -, -⟩
      · exact he
      · refine absurd ?_ hmem
        obtain ⟨k, hk, rfl⟩ := List.mem_map.1 (mem_nodes.2 hn)
        exact List.mem_map.2 ⟨k, hk, ha.symm⟩

end

end

/-! ## The other groups -/

/-- The places of the other groups are as they were. -/
structure Elsewhere (g : GroupSizes) (rg : Int) (w w' : GroupArrays) : Prop where
  matrix : ∀ rg', rg' ≠ rg → ∀ r, g.IsRow r → ∀ i, g.IsNode i →
    w'.bipartiteMatrix (g.cell rg' r i) = w.bipartiteMatrix (g.cell rg' r i)
  belong : ∀ rg', rg' ≠ rg → ∀ i, g.IsNode i →
    w'.nodeBelong (g.slot rg' i) = w.nodeBelong (g.slot rg' i)

section
variable {g : GroupSizes} {rg : Int} {w w' w₂ : GroupArrays}

theorem Elsewhere.of_eq (hm : w'.bipartiteMatrix = w.bipartiteMatrix)
    (hb : w'.nodeBelong = w.nodeBelong) : Elsewhere g rg w w' :=
  ⟨fun _ _ _ _ _ _ => by rw [hm], fun _ _ _ _ => by rw [hb]⟩

theorem Elsewhere.trans (h : Elsewhere g rg w w') (h' : Elsewhere g rg w' w₂) :
    Elsewhere g rg w w₂ :=
  ⟨fun rg' hrg r hr i hi => (h'.matrix rg' hrg r hr i hi).trans (h.matrix rg' hrg r hr i hi),
    fun rg' hrg i hi => (h'.belong rg' hrg i hi).trans (h.belong rg' hrg i hi)⟩

/-- The other groups keep their stripes. -/
theorem Elsewhere.group (h : Elsewhere g rg w w') {rg' : Int} (hrg : rg' ≠ rg)
    {rows : Int → List Int} (hg : Group g rg' rows w) : Group g rg' rows w' := by
  refine ⟨hg.nodes, fun r hr i hi => ?_, fun i hi => ?_, fun r hr i hi => ?_⟩
  · rw [h.matrix rg' hrg r hr i hi]
    exact hg.matrix r hr i hi
  · rw [h.belong rg' hrg i hi]
    exact hg.belong i hi
  · rw [h.belong rg' hrg i (hg.nodes r hr i hi)]
    exact hg.full r hr i hi

theorem Group.congr {rows : Int → List Int} (hg : Group g rg rows w)
    (hm : w'.bipartiteMatrix = w.bipartiteMatrix) (hb : w'.nodeBelong = w.nodeBelong) :
    Group g rg rows w' := by
  refine ⟨hg.nodes, fun r hr i hi => ?_, ?_, ?_⟩
  · rw [hm]
    exact hg.matrix r hr i hi
  · rw [hb]
    exact hg.belong
  · rw [hb]
    exact hg.full

theorem elsewhere_setRow {cur : Int} (hcur : g.IsRow cur) {nodes : List Int}
    (hnodes : ∀ i ∈ nodes, g.IsNode i) (v : Int) :
    Elsewhere g rg w (w.setRow g rg cur nodes v) := by
  refine ⟨fun rg' hrg r hr i hi => ?_, fun _ _ _ _ => rfl⟩
  rw [setRow_matrix, if_neg]
  intro hmem
  obtain ⟨j, hj, he⟩ := List.mem_map.1 hmem
  exact hrg (GroupSizes.cell_inj hcur hr (hnodes j hj) hi he).1.symm

/-- Changes of the slots of one group. -/
theorem elsewhere_slots (hm : w'.bipartiteMatrix = w.bipartiteMatrix)
    (hb : ∀ a, w'.nodeBelong a = w.nodeBelong a ∨ ∃ i, g.IsNode i ∧ a = g.slot rg i) :
    Elsewhere g rg w w' := by
  refine ⟨fun _ _ _ _ _ _ => by rw [hm], fun rg' hrg i hi => ?_⟩
  rcases hb (g.slot rg' i) with he | ⟨j, hj, ha⟩
  · exact he
  · exact absurd (GroupSizes.slot_inj hi hj ha).1 hrg

theorem ifInsert_elsewhere {rows : Int → List Int} {cur : Int} {placement soonToFail : List Int}
    (h : Group g rg rows w) (hcur : g.IsRow cur) (hempty : rows cur = [])
    (hnodup : placement.Nodup) (hnodes : ∀ i ∈ placement, g.IsNode i) {ret : Int}
    (hcall : ifInsert g rg cur placement soonToFail w = some (ret, w')) :
    Elsewhere g rg w w' := by
  have hhs : ∀ i ∈ helpers placement soonToFail, g.IsNode i := helpers_nodes hnodes
  by_cases hins : Insertable g rows (helpers placement soonToFail)
  · obtain ⟨w₁, heq, hmatrix, hbelong, -⟩ := ifInsert_insertable h hcur hempty hnodup hnodes hins
    rw [heq, Option.some.injEq, Prod.mk.injEq] at hcall
    obtain ⟨rfl, rfl⟩ := hcall
    have hrow : Elsewhere g rg w (w.setRow g rg cur (helpers placement soonToFail) 1) :=
      elsewhere_setRow hcur hhs 1
    refine hrow.trans (elsewhere_slots hmatrix fun a => ?_)
    rw [hbelong]
    split
    · next hmem =>
      obtain ⟨i, hi, rfl⟩ := List.mem_map.1 hmem
      exact Or.inr ⟨i, hhs i hi, rfl⟩
    · exact Or.inl rfl
  · obtain ⟨w₁, heq, hmatrix, hbelong⟩ :=
      ifInsert_not_insertable h hcur hempty hnodup hnodes hins
    rw [heq, Option.some.injEq, Prod.mk.injEq] at hcall
    obtain ⟨rfl, rfl⟩ := hcall
    exact Elsewhere.of_eq hmatrix hbelong

end

/-! ## Groups that `if_insert` builds -/

/-- The states that calls of `if_insert` reach, each for the next stripe of some group. `groups` are
the helpers of the stripes that were inserted. The bound on the next row is the size of the
group's table. -/
inductive Reached (g : GroupSizes) : (Int → List (List Int)) → GroupArrays → Prop
  | init (mark : Int → Int) : Reached g (fun _ => []) ⟨fun _ => 0, fun _ => -1, mark⟩
  | insert {groups : Int → List (List Int)} {w w' : GroupArrays} {rg ret : Int}
      {placement soonToFail : List Int} : Reached g groups w →
      (groups rg).length < g.numStripesPerGroup → placement.Nodup →
      (∀ i ∈ placement, g.IsNode i) →
      ifInsert g rg (groups rg).length placement soonToFail w = some (ret, w') →
      Reached g
        (if ret = 1 then update groups rg (groups rg ++ [helpers placement soonToFail]) else groups)
        w'

/-- The row of a stripe. -/
def rowsOf (group : List (List Int)) (r : Int) : List Int :=
  if 0 ≤ r then group.getD r.toNat [] else []

theorem rowsOf_length (group : List (List Int)) : rowsOf group group.length = [] := by
  unfold rowsOf
  rw [if_pos (by omega), Int.toNat_natCast, List.getD_eq_default _ _ le_rfl]

theorem rowsOf_append (group : List (List Int)) (helper : List Int) :
    rowsOf (group ++ [helper]) = update (rowsOf group) group.length helper := by
  funext r
  by_cases hr : r = group.length
  · rw [hr, update_self]
    unfold rowsOf
    rw [if_pos (by omega), Int.toNat_natCast, List.getD_append_right _ _ _ _ le_rfl]
    simp
  · rw [update_of_ne hr]
    unfold rowsOf
    split
    · by_cases hlt : r.toNat < group.length
      · rw [List.getD_append _ _ _ _ hlt]
      · have hlen : (group ++ [helper]).length ≤ r.toNat := by
          rw [List.length_append, List.length_singleton]
          omega
        rw [List.getD_eq_default _ _ hlen, List.getD_eq_default _ _ (by omega)]
    · rfl

section
variable {g : GroupSizes}

/-- A stripe of the group, by its row. -/
theorem mem_rowsOf {group : List (List Int)} (hlen : group.length ≤ g.numStripesPerGroup) {i : Int} :
    (∀ r, g.IsRow r → i ∉ rowsOf group r) ↔ ∀ stripe ∈ group, i ∉ stripe := by
  constructor
  · intro h stripe hs
    obtain ⟨n, hn, rfl⟩ := List.getElem_of_mem hs
    have hr := h n ⟨by omega, by exact_mod_cast lt_of_lt_of_le hn hlen⟩
    unfold rowsOf at hr
    rwa [if_pos (by omega), Int.toNat_natCast, List.getD_eq_getElem _ _ hn] at hr
  · intro h r _ hmem
    unfold rowsOf at hmem
    split at hmem
    · by_cases hlt : r.toNat < group.length
      · rw [List.getD_eq_getElem _ _ hlt] at hmem
        exact h _ (List.getElem_mem hlt) hmem
      · rw [List.getD_eq_default _ _ (by omega)] at hmem
        exact List.not_mem_nil hmem
    · exact List.not_mem_nil hmem

theorem insertable_rowsOf {group : List (List Int)} (hlen : group.length ≤ g.numStripesPerGroup)
    {helper : List Int} : Insertable g (rowsOf group) helper ↔
      helper ≠ [] ∧ ∀ i ∈ helper, ∀ stripe ∈ group, i ∉ stripe :=
  and_congr_right' (forall₂_congr fun _ _ => mem_rowsOf hlen)

/-- What one insertion does to every group. -/
theorem Group.insert {groups : Int → List (List Int)} {w : GroupArrays}
    (h : ∀ rg, Group g rg (rowsOf (groups rg)) w) {rg : Int}
    (hlen : (groups rg).length < g.numStripesPerGroup) {placement soonToFail : List Int}
    (hnodup : placement.Nodup) (hnodes : ∀ i ∈ placement, g.IsNode i) {ret : Int}
    {w' : GroupArrays}
    (hcall : ifInsert g rg (groups rg).length placement soonToFail w = some (ret, w')) :
    ∀ rg', Group g rg' (rowsOf ((if ret = 1 then
      update groups rg (groups rg ++ [helpers placement soonToFail]) else groups) rg')) w' := by
  have hcur : g.IsRow (groups rg).length := ⟨by omega, by exact_mod_cast hlen⟩
  have helse := ifInsert_elsewhere (h rg) hcur (rowsOf_length _) hnodup hnodes hcall
  intro rg'
  by_cases hins : Insertable g (rowsOf (groups rg)) (helpers placement soonToFail)
  · obtain ⟨w₁, heq, -, -, hgroup⟩ :=
      ifInsert_insertable (h rg) hcur (rowsOf_length _) hnodup hnodes hins
    rw [heq, Option.some.injEq, Prod.mk.injEq] at hcall
    obtain ⟨rfl, rfl⟩ := hcall
    rw [if_pos rfl]
    by_cases hrg : rg' = rg
    · rw [hrg, update_self, rowsOf_append]
      exact hgroup
    · rw [update_of_ne hrg]
      exact helse.group hrg (h rg')
  · obtain ⟨w₁, heq, hmatrix, hbelong⟩ :=
      ifInsert_not_insertable (h rg) hcur (rowsOf_length _) hnodup hnodes hins
    rw [heq, Option.some.injEq, Prod.mk.injEq] at hcall
    obtain ⟨rfl, rfl⟩ := hcall
    rw [if_neg (by decide)]
    exact (h rg').congr hmatrix hbelong

theorem Reached.group {groups : Int → List (List Int)} {w : GroupArrays} (h : Reached g groups w) :
    ∀ rg, Group g rg (rowsOf (groups rg)) w := by
  induction h with
  | init mark =>
    intro rg
    have hnil : ∀ r, rowsOf [] r = [] := fun r => by simp [rowsOf]
    exact ⟨fun r _ i hi => absurd (hnil r ▸ hi) List.not_mem_nil,
      fun r _ i _ => (if_neg (hnil r ▸ List.not_mem_nil)).symm, fun _ _ hne => absurd rfl hne,
      fun r _ i hi => absurd (hnil r ▸ hi) List.not_mem_nil⟩
  | insert _ hlen hnodup hnodes hcall ih => exact Group.insert ih hlen hnodup hnodes hcall

/-- **Insertion into a group** takes place exactly when the stripe has helpers and shares none with
the stripes of the group. It gives the stripe its helpers and nothing else, and changes nothing
when it does not take place. -/
theorem ifInsert_reached {groups : Int → List (List Int)} {w : GroupArrays}
    (h : Reached g groups w) (rg : Int) (hlen : (groups rg).length < g.numStripesPerGroup)
    (placement soonToFail : List Int) (hnodup : placement.Nodup)
    (hnodes : ∀ i ∈ placement, g.IsNode i) :
    ∃ ret w', ifInsert g rg (groups rg).length placement soonToFail w = some (ret, w') ∧
      (ret = 0 ∨ ret = 1) ∧
      (ret = 1 ↔ helpers placement soonToFail ≠ [] ∧
        ∀ i ∈ helpers placement soonToFail, ∀ stripe ∈ groups rg, i ∉ stripe) ∧
      (ret = 1 → ∀ a, w'.nodeBelong a =
        if a ∈ (helpers placement soonToFail).map (g.slot rg) then ((groups rg).length : Int)
        else w.nodeBelong a) ∧
      (ret = 0 → w'.bipartiteMatrix = w.bipartiteMatrix ∧ w'.nodeBelong = w.nodeBelong) := by
  have hcur : g.IsRow (groups rg).length := ⟨by omega, by exact_mod_cast hlen⟩
  have hiff : Insertable g (rowsOf (groups rg)) (helpers placement soonToFail) ↔
      helpers placement soonToFail ≠ [] ∧
        ∀ i ∈ helpers placement soonToFail, ∀ stripe ∈ groups rg, i ∉ stripe :=
    insertable_rowsOf hlen.le
  by_cases hins : Insertable g (rowsOf (groups rg)) (helpers placement soonToFail)
  · obtain ⟨w', heq, -, hbelong, -⟩ :=
      ifInsert_insertable (h.group rg) hcur (rowsOf_length _) hnodup hnodes hins
    exact ⟨1, w', heq, Or.inr rfl, iff_of_true rfl (hiff.1 hins), fun _ => hbelong, nofun⟩
  · obtain ⟨w', heq, hmatrix, hbelong⟩ :=
      ifInsert_not_insertable (h.group rg) hcur (rowsOf_length _) hnodup hnodes hins
    exact ⟨0, w', heq, Or.inl rfl, iff_of_false (by decide) fun hn => hins (hiff.2 hn), nofun,
      fun _ => ⟨hmatrix, hbelong⟩⟩

/-- Two stripes that share a node: the second one is not inserted after the first. -/
theorem ifInsert_reached_second :
    ∃ w w', Reached ⟨4, 2⟩ (update (fun _ => []) 0 [[0, 1]]) w ∧
      ifInsert ⟨4, 2⟩ 0 1 [1, 2] [3] w = some (0, w') ∧ w'.nodeBelong = w.nodeBelong := by
  have hinit := Reached.init (g := ⟨4, 2⟩) fun _ => 0
  obtain ⟨ret, w, heq, -, hret, -, -⟩ := ifInsert_reached hinit 0 (by decide) [0, 1, 3] [3]
    (by decide) (by simp [GroupSizes.IsNode])
  have hone : ret = 1 := hret.2 ⟨by decide, nofun⟩
  have hw := Reached.insert hinit (by decide) (by decide) (by simp [GroupSizes.IsNode]) heq
  rw [if_pos hone] at hw
  obtain ⟨ret', w', heq', h01, hret', -, hsame⟩ := ifInsert_reached hw 0 (by decide) [1, 2] [3]
    (by decide) (by simp [GroupSizes.IsNode])
  have hzero : ret' = 0 := h01.resolve_right fun h =>
    (hret'.1 h).2 1 (by decide) [0, 1] (by decide) (by decide)
  rw [hzero] at heq'
  exact ⟨w, w', hw, heq', (hsame hzero).2⟩

end

end GroupArrays

end StripeRepair

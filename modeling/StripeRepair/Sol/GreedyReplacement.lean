import StripeRepair.Sol.IfInsert

/-!
# `greedy_replacement`: exchanging stripes of a repair group

A group that is filled may hold more stripes once one of them is exchanged for another. `replace`
takes a stripe out and looks which of the stripes that are left go in, first on trial and then for
good; `greedy_replacement` looks for an exchange that pays.

* `Numbered.testReplace`: a trial leaves the group as it was, and what it records can be inserted.
* `Filling.greedyReplacement`: an exchange keeps the groups in order and makes the group larger.
-/

namespace StripeRepair

open Function (update update_of_ne update_self)

open GroupArrays

/-- What `findRepairBatchs` works on: the placements of the stripes of `_stripe_list`, positions in
that list, and the numbers of nodes of the cluster and of a stripe. -/
structure BatchInput where
  stripeList : List (List Int)
  stripesToRepair : List Nat
  soonToFail : List Int
  numAgents : Nat
  n : Nat

/-- `_RepairGroup`, a list for each group whose length is `_cur_matching_stripe`, and `_ifselect`,
with the arrays that `if_insert` uses. -/
structure GroupTables where
  arrays : GroupArrays
  repairGroup : Nat → List Nat
  ifselect : Nat → Bool

/-- A stripe is put into a group. -/
def GroupTables.push (s : GroupTables) (rg i : Nat) (w : GroupArrays) : GroupTables where
  arrays := w
  repairGroup := update s.repairGroup rg (s.repairGroup rg ++ [i])
  ifselect := update s.ifselect i true

namespace GroupArrays

/-- `_node_belong` of the nodes of a stripe: -1. -/
def freeRow (g : GroupSizes) (rg index : Int) (w : GroupArrays) : GroupArrays :=
  { w with
    nodeBelong := (List.range g.numAgents).foldl (fun b (i : Nat) =>
      if b (g.slot rg i) = index then update b (g.slot rg i) (-1) else b) w.nodeBelong }

/-- The loop that resets `_bipartite_matrix` of a group. -/
def clearMatrix (g : GroupSizes) (rg : Int) (w : GroupArrays) : GroupArrays :=
  { w with
    bipartiteMatrix := fun a =>
      if rg * g.numStripesPerGroup * g.numAgents ≤ a ∧
        a < (rg + 1) * g.numStripesPerGroup * g.numAgents then 0 else w.bipartiteMatrix a }

end GroupArrays

namespace BatchInput

variable (p : BatchInput)

def numRelatedStripes : Nat := p.stripesToRepair.length

/-- The soon to fail nodes are nodes of the cluster. -/
def sizes : GroupSizes := ⟨p.numAgents, (p.numAgents - p.soonToFail.length) / p.n⟩

/-- `_stripe_list[_stripes_to_repair[i]]`; `none` outside of the lists. -/
def stripeOf (i : Nat) : Option (List Int) := do
  let pos ← p.stripesToRepair[i]?
  p.stripeList[pos]?

/-- `update_bipartite_for_replace`: `des_id` is looked up in `_stripe_list` itself. -/
def updateBipartiteForReplace (desId : Nat) (rg index biValue : Int) (w : GroupArrays) :
    Option GroupArrays := do
  let nodelist ← p.stripeList[desId]?
  some (w.setRow p.sizes rg index (helpers nodelist p.soonToFail) biValue)

/-- What `replace` begins with: the stripe at `index` is taken out and `src_id` put in. -/
def exchange (srcId desId : Nat) (rg : Nat) (index : Int) (w : GroupArrays) :
    Option (Int × GroupArrays) := do
  let w ← p.updateBipartiteForReplace desId rg index 0 w
  let w := w.freeRow p.sizes rg index
  let nodelist ← p.stripeOf srcId
  ifInsert p.sizes rg index nodelist p.soonToFail w

/-- The loop that tries the other stripes: `addi_id`, whose length is `benefit_cnt`. -/
def tryOthers (s : GroupTables) (srcId rg : Nat) : List Nat → Nat → List Nat → GroupArrays →
    Option (List Nat × GroupArrays)
  | [], _, addiId, w => some (addiId, w)
  | i :: is, curStripeNum, addiId, w =>
    if s.ifselect i ∨ i = srcId then tryOthers s srcId rg is curStripeNum addiId w
    else do
      let nodelist ← p.stripeOf i
      let (ret, w) ← ifInsert p.sizes rg curStripeNum nodelist p.soonToFail w
      let (curStripeNum, addiId) :=
        if ret = 1 then (curStripeNum + 1, addiId ++ [i]) else (curStripeNum, addiId)
      if curStripeNum = p.sizes.numStripesPerGroup then some (addiId, w)
      else tryOthers s srcId rg is curStripeNum addiId w

/-- The loop that sets `_bipartite_matrix` of a group again. -/
def addRows (rg : Nat) : Nat → List Nat → GroupArrays → Option GroupArrays
  | _, [], w => some w
  | i, id :: ids, w => do
    let w ← p.updateBipartiteForReplace id rg i 1 w
    addRows rg (i + 1) ids w

/-- `replace` with `test_replace`: the stripes that go in besides `src_id`. -/
def testReplace (srcId desId rg : Nat) (s : GroupTables) : Option (List Nat × GroupTables) := do
  let index := (s.repairGroup rg).idxOf desId
  let bakp : Int → Int := fun k => s.arrays.nodeBelong (p.sizes.slot rg k)
  let (ret, w) ← p.exchange srcId desId rg index s.arrays
  if ret = 0 then do
    let w ← p.updateBipartiteForReplace desId rg index 1 w
    some ([], { s with arrays := w.resetBelong p.sizes rg bakp })
  else do
    let (addiId, w) ← p.tryOthers s srcId rg
      (List.range' srcId (p.numRelatedStripes - srcId)) (s.repairGroup rg).length [] w
    let w ← p.addRows rg 0 (s.repairGroup rg) (w.clearMatrix p.sizes rg)
    some (addiId, { s with arrays := w.resetBelong p.sizes rg bakp })

/-- The loop of `perform_replace` over `_record_stripe_id`; `none` where the program exits. -/
def insertRecorded (rg : Nat) : List Nat → GroupTables → Option GroupTables
  | [], s => some s
  | id :: ids, s => do
    let nodelist ← p.stripeList[id]?
    let (ret, w) ← ifInsert p.sizes rg (s.repairGroup rg).length nodelist p.soonToFail s.arrays
    if ret = 0 then none else insertRecorded rg ids (s.push rg id w)

/-- `replace` with `perform_replace` -/
def performReplace (srcId desId rg : Nat) (recordStripeId : List Nat) (s : GroupTables) :
    Option GroupTables := do
  let index := (s.repairGroup rg).idxOf desId
  let (_, w) ← p.exchange srcId desId rg index s.arrays
  p.insertRecorded rg recordStripeId
    { arrays := w
      repairGroup := update s.repairGroup rg ((s.repairGroup rg).set index srcId)
      ifselect := update (update s.ifselect srcId true) desId false }

/-- The stripes of the group, for one `src_id`: the first exchange that lets others in. -/
def tryGroup (srcId rg : Nat) : List Nat → GroupTables → Option (Option (Nat × List Nat) × GroupTables)
  | [], s => some (none, s)
  | desId :: ids, s => do
    let (addiId, s) ← p.testReplace srcId desId rg s
    if addiId = [] then tryGroup srcId rg ids s else some (some (desId, addiId), s)

/-- The loop over `src_id`: the last exchange that was found, unless one fills the group. -/
def tryStripes (rg : Nat) : List Nat → Option (Nat × Nat × List Nat) → GroupTables →
    Option (Option (Nat × Nat × List Nat) × GroupTables)
  | [], best, s => some (best, s)
  | srcId :: ids, best, s =>
    if s.ifselect srcId then tryStripes rg ids best s
    else do
      let (found, s) ← p.tryGroup srcId rg (s.repairGroup rg) s
      let best := match found with
        | some (desId, addiId) => some (srcId, desId, addiId)
        | none => best
      match best with
      | some (_, _, recorded) =>
        if recorded.length = p.sizes.numStripesPerGroup - (s.repairGroup rg).length then
          some (best, s)
        else tryStripes rg ids best s
      | none => tryStripes rg ids best s

/-- `greedy_replacement` -/
def greedyReplacement (rg : Nat) (s : GroupTables) : Option (Bool × GroupTables) :=
  if (s.repairGroup rg).length = p.sizes.numStripesPerGroup then some (false, s)
  else do
    let (best, s) ← p.tryStripes rg (List.range p.numRelatedStripes) none s
    match best with
    | none => some (false, s)
    | some (srcId, desId, recordStripeId) => do
      let s ← p.performReplace srcId desId rg recordStripeId s
      some (true, s)

end BatchInput

/-! ## Taking a row out of a group -/

namespace GroupArrays

theorem foldl_free {α : Type} (f : α → Int) (v : Int) (l : List α) (m : Int → Int) (a : Int) :
    l.foldl (fun b x => if b (f x) = v then update b (f x) (-1) else b) m a =
      if a ∈ l.map f ∧ m a = v then -1 else m a := by
  induction l generalizing m with
  | nil => exact (if_neg fun h => List.not_mem_nil h.1).symm
  | cons x l ih =>
    rw [List.foldl_cons, ih, List.map_cons]
    by_cases hx : a = f x
    · subst hx
      by_cases hv : m (f x) = v
      · have hpos : f x ∈ f x :: l.map f ∧ m (f x) = v := ⟨List.mem_cons_self .., hv⟩
        rw [if_pos hpos, if_pos hv, update_self, ite_self]
      · rw [if_neg hv, if_neg fun h => hv h.2, if_neg fun h => hv h.2]
    · have hsame : (if m (f x) = v then update m (f x) (-1) else m) a = m a := by
        split
        · exact update_of_ne hx _ _
        · rfl
      rw [hsame]
      refine if_congr (and_congr_left fun _ => ?_) rfl rfl
      exact ⟨List.mem_cons_of_mem _, fun h => (List.mem_cons.1 h).resolve_left hx⟩

section
variable {g : GroupSizes} {rg cur : Int} {rows : Int → List Int} {w : GroupArrays}

theorem freeRow_nodeBelong (index a : Int) : (w.freeRow g rg index).nodeBelong a =
    if a ∈ (List.range g.numAgents).map (fun k : Nat => g.slot rg k) ∧ w.nodeBelong a = index
    then -1 else w.nodeBelong a :=
  foldl_free (fun k : Nat => g.slot rg k) index (List.range g.numAgents) w.nodeBelong a

theorem mem_slots {i : Int} (hi : g.IsNode i) :
    g.slot rg i ∈ (List.range g.numAgents).map (fun k : Nat => g.slot rg k) := by
  obtain ⟨k, hk, rfl⟩ := List.mem_map.1 (mem_nodes.2 hi)
  exact List.mem_map_of_mem hk

theorem RowsAre.clearRow (h : RowsAre g rg rows w) (hcur : g.IsRow cur)
    (hnodes : ∀ i ∈ rows cur, g.IsNode i) :
    RowsAre g rg (update rows cur []) (w.setRow g rg cur (rows cur) 0) := by
  intro r hr i hi
  rw [setRow_matrix]
  by_cases hrc : r = cur
  · subst hrc
    rw [update_self]
    by_cases hmem : i ∈ rows r
    · rw [if_pos (List.mem_map_of_mem hmem)]
      rfl
    · rw [h r hr i hi, if_neg hmem, ite_self]
      rfl
  · have hcell : g.cell rg r i ∉ (rows cur).map (g.cell rg cur) := by
      intro hc
      obtain ⟨j, hj, he⟩ := List.mem_map.1 hc
      exact hrc (GroupSizes.cell_inj hcur hr (hnodes j hj) hi he).2.1.symm
    rw [if_neg hcell, update_of_ne hrc, h r hr i hi]

/-- **Taking a stripe out**: the others keep their nodes. -/
theorem Group.remove (h : Group g rg rows w) (hcur : g.IsRow cur) :
    Group g rg (update rows cur []) ((w.setRow g rg cur (rows cur) 0).freeRow g rg cur) := by
  have hrow : ∀ {r i}, i ∈ update rows cur [] r → r ≠ cur ∧ i ∈ rows r := by
    intro r i hi
    by_cases hrc : r = cur
    · rw [hrc, update_self] at hi
      exact absurd hi List.not_mem_nil
    · rw [update_of_ne hrc] at hi
      exact ⟨hrc, hi⟩
  refine ⟨fun r hr i hi => h.nodes r hr i (hrow hi).2,
    h.matrix.clearRow hcur (h.nodes cur hcur), fun i hi hne => ?_, fun r hr i hi => ?_⟩
  · rw [freeRow_nodeBelong] at hne ⊢
    have hkeep : ¬ (g.slot rg i ∈ (List.range g.numAgents).map (fun k : Nat => g.slot rg k) ∧
        (w.setRow g rg cur (rows cur) 0).nodeBelong (g.slot rg i) = cur) := by
      intro hc
      rw [if_pos hc] at hne
      exact hne rfl
    rw [if_neg hkeep] at hne ⊢
    obtain ⟨hrow', hmem⟩ := h.belong i hi hne
    refine ⟨hrow', ?_⟩
    have hnc : w.nodeBelong (g.slot rg i) ≠ cur := fun hc => hkeep ⟨mem_slots hi, hc⟩
    show i ∈ update rows cur [] (w.nodeBelong (g.slot rg i))
    rwa [update_of_ne hnc]
  · obtain ⟨hrc, hmem⟩ := hrow hi
    have hb := h.full r hr i hmem
    rw [freeRow_nodeBelong, if_neg]
    · exact hb
    · rintro ⟨-, hc⟩
      exact hrc (hb.symm.trans hc)

theorem elsewhere_freeRow (index : Int) : Elsewhere g rg w (w.freeRow g rg index) := by
  refine elsewhere_slots rfl fun a => ?_
  rw [freeRow_nodeBelong]
  split
  · next h =>
    obtain ⟨k, hk, rfl⟩ := List.mem_map.1 h.1
    exact Or.inr ⟨k, mem_nodes.1 (List.mem_map_of_mem hk), rfl⟩
  · exact Or.inl rfl

theorem elsewhere_resetBelong (b : Int → Int) :
    Elsewhere g rg w (w.resetBelong g rg fun k => b (g.slot rg k)) := by
  refine elsewhere_slots rfl fun a => ?_
  rw [resetBelong_nodeBelong]
  split
  · next h =>
    obtain ⟨k, hk, rfl⟩ := List.mem_map.1 h
    exact Or.inr ⟨k, mem_nodes.1 (List.mem_map_of_mem hk), rfl⟩
  · exact Or.inl rfl

/-- The nodes of a group from a copy. -/
theorem Group.restore (h : Group g rg rows w) {w' : GroupArrays} (hm : RowsAre g rg rows w') :
    Group g rg rows (w'.resetBelong g rg fun k => w.nodeBelong (g.slot rg k)) := by
  have hb : ∀ i, g.IsNode i →
      (w'.resetBelong g rg fun k => w.nodeBelong (g.slot rg k)).nodeBelong (g.slot rg i) =
        w.nodeBelong (g.slot rg i) := fun i hi =>
    (resetBelong_nodeBelong w.nodeBelong _).trans (if_pos (mem_slots hi))
  refine ⟨h.nodes, hm, fun i hi hne => ?_, fun r hr i hi => ?_⟩
  · rw [hb i hi] at hne ⊢
    exact h.belong i hi hne
  · rw [hb i (h.nodes r hr i hi)]
    exact h.full r hr i hi

variable (rg) in
/-- The cells of a group stand together. -/
theorem cell_bounds {r i : Int} (hr : g.IsRow r) (hi : g.IsNode i) :
    rg * g.numStripesPerGroup * g.numAgents ≤ g.cell rg r i ∧
      g.cell rg r i < (rg + 1) * g.numStripesPerGroup * g.numAgents := by
  have hlow : 0 ≤ r * g.numAgents := Int.mul_nonneg hr.1 (by omega)
  have hhigh : (r + 1) * g.numAgents ≤ g.numStripesPerGroup * g.numAgents :=
    Int.mul_le_mul_of_nonneg_right hr.2 (by omega)
  obtain ⟨h0, h1⟩ := hi
  unfold GroupSizes.cell
  rw [Int.add_mul, Int.one_mul] at hhigh
  rw [Int.add_mul, Int.add_mul, Int.one_mul]
  omega

theorem clearMatrix_rowsAre : RowsAre g rg (rowsOf []) (w.clearMatrix g rg) := by
  intro r hr i hi
  have hnil : rowsOf [] r = [] := by simp [rowsOf]
  rw [hnil]
  exact if_pos (cell_bounds rg hr hi)

theorem elsewhere_clearMatrix : Elsewhere g rg w (w.clearMatrix g rg) := by
  refine ⟨fun rg' hrg r hr i hi => if_neg ?_, fun _ _ _ _ => rfl⟩
  rintro ⟨hle, hlt⟩
  obtain ⟨hle', hlt'⟩ := cell_bounds rg' hr hi
  have hmono : ∀ {a b : Int}, a ≤ b →
      a * g.numStripesPerGroup * g.numAgents ≤ b * g.numStripesPerGroup * g.numAgents := fun hab =>
    Int.mul_le_mul_of_nonneg_right (Int.mul_le_mul_of_nonneg_right hab (by omega)) (by omega)
  rcases lt_or_gt_of_ne hrg with h | h
  · have := hmono (show rg' + 1 ≤ rg from h)
    omega
  · have := hmono (show rg + 1 ≤ rg' from h)
    omega

theorem rowsOf_middle (pre post : List (List Int)) (x y : List Int) :
    rowsOf (pre ++ y :: post) = update (rowsOf (pre ++ x :: post)) pre.length y := by
  funext r
  by_cases hr : r = pre.length
  · rw [hr, update_self]
    unfold rowsOf
    rw [if_pos (by omega), Int.toNat_natCast, List.getD_append_right _ _ _ _ le_rfl]
    simp
  · rw [update_of_ne hr]
    unfold rowsOf
    split
    · by_cases hlt : r.toNat < pre.length
      · rw [List.getD_append _ _ _ _ hlt, List.getD_append _ _ _ _ hlt]
      · rw [List.getD_append_right _ _ _ _ (by omega), List.getD_append_right _ _ _ _ (by omega)]
        obtain ⟨n, hn⟩ : ∃ n, r.toNat - pre.length = n + 1 :=
          ⟨r.toNat - pre.length - 1, by omega⟩
        rw [hn, List.getD_cons_succ, List.getD_cons_succ]
    · rfl

end

end GroupArrays

namespace BatchInput

variable (p : BatchInput)

/-! ## Groups of stripes -/

section
variable (s : GroupTables) (rg i : Nat) (w : GroupArrays)

theorem push_group : (s.push rg i w).repairGroup rg = s.repairGroup rg ++ [i] := update_self ..

theorem push_of_ne {rg' : Nat} (hne : rg' ≠ rg) :
    (s.push rg i w).repairGroup rg' = s.repairGroup rg' := update_of_ne hne ..

theorem push_ne_nil : (s.push rg i w).repairGroup rg ≠ [] := by
  rw [push_group]
  exact List.append_ne_nil_of_right_ne_nil _ (List.cons_ne_nil _ _)

theorem push_ifselect (j : Nat) :
    (s.push rg i w).ifselect j = true ↔ s.ifselect j = true ∨ j = i := by
  show update s.ifselect i true j = true ↔ s.ifselect j = true ∨ j = i
  rw [Function.update_apply]
  by_cases hj : j = i
  · simp [hj]
  · simp [hj]

end

/-- The helpers of a stripe. -/
def helpersOf (i : Nat) : List Int := helpers (p.stripeList.getD i []) p.soonToFail

/-- The stripes have nodes of the cluster, each once, and the stripes to repair are the first ones
of the list, in its order. -/
structure Numbered : Prop where
  nodup : ∀ placement ∈ p.stripeList, placement.Nodup
  nodes : ∀ placement ∈ p.stripeList, ∀ i ∈ placement, p.sizes.IsNode i
  within : p.numRelatedStripes ≤ p.stripeList.length
  identity : ∀ i < p.numRelatedStripes, p.stripesToRepair[i]? = some i

/-- A stripe has helpers, and shares none with the others. -/
def FitsIn (ids : List Nat) (i : Nat) : Prop :=
  p.helpersOf i ≠ [] ∧ ∀ j ∈ ids, (p.helpersOf i).Disjoint (p.helpersOf j)

/-- Stripes with helpers that share none. -/
structure Packed (ids : List Nat) : Prop where
  helper : ∀ i ∈ ids, p.helpersOf i ≠ []
  disjoint : ids.Pairwise fun i j => (p.helpersOf i).Disjoint (p.helpersOf j)

/-- The arrays of a group that holds the stripes `ids`. -/
def Holds (rg : Int) (ids : List Nat) (w : GroupArrays) : Prop :=
  Group p.sizes rg (rowsOf (ids.map p.helpersOf)) w

/-- The group without a stripe that stood after `pre`. -/
def hole (pre post : List Nat) : List (List Int) :=
  pre.map p.helpersOf ++ [] :: post.map p.helpersOf

section
variable {p}

theorem packed_nil : p.Packed [] := ⟨nofun, List.Pairwise.nil⟩

theorem packed_concat {ids : List Nat} {i : Nat} :
    p.Packed (ids ++ [i]) ↔ p.Packed ids ∧ p.FitsIn ids i := by
  constructor
  · rintro ⟨hh, hd⟩
    obtain ⟨h1, -, h3⟩ := List.pairwise_append.1 hd
    exact ⟨⟨fun j hj => hh j (List.mem_append_left _ hj), h1⟩,
      hh i (List.mem_append_right _ (List.mem_singleton_self i)),
      fun j hj => (h3 j hj i (List.mem_singleton_self i)).symm⟩
  · rintro ⟨⟨hh, hd⟩, hne, hfit⟩
    refine ⟨fun j hj => ?_, List.pairwise_append.2 ⟨hd, List.pairwise_singleton _ _, ?_⟩⟩
    · rcases List.mem_append.1 hj with hj | hj
      · exact hh j hj
      · exact List.mem_singleton.1 hj ▸ hne
    · intro j hj k hk
      obtain rfl := List.mem_singleton.1 hk
      exact (hfit j hj).symm

theorem Packed.left {ids ids' : List Nat} (h : p.Packed (ids ++ ids')) : p.Packed ids :=
  ⟨fun i hi => h.helper i (List.mem_append_left _ hi), (List.pairwise_append.1 h.disjoint).1⟩

theorem Packed.perm {ids ids' : List Nat} (h : p.Packed ids) (hp : ids.Perm ids') :
    p.Packed ids' :=
  ⟨fun i hi => h.helper i (hp.mem_iff.2 hi), h.disjoint.perm hp fun hd => hd.symm⟩

theorem perm_concat_middle {α : Type} (pre post : List α) (a : α) :
    (pre ++ a :: post).Perm ((pre ++ post) ++ [a]) :=
  List.perm_middle.trans (List.perm_append_singleton a _).symm

/-- The stripe `src` in the place of `des`. -/
theorem Packed.exchange {pre post : List Nat} {des src : Nat} (h : p.Packed (pre ++ des :: post))
    (hfit : p.FitsIn (pre ++ post) src) : p.Packed (pre ++ src :: post) := by
  have hrest : p.Packed (pre ++ post) := (h.perm (perm_concat_middle pre post des)).left
  exact (packed_concat.2 ⟨hrest, hfit⟩).perm (perm_concat_middle pre post src).symm

/-! ## One insertion -/

theorem isRow_length {ids : List Nat} (hlen : ids.length < p.sizes.numStripesPerGroup) :
    p.sizes.IsRow ids.length := ⟨by omega, by exact_mod_cast hlen⟩

theorem isRow_middle {pre post : List Nat} {i : Nat}
    (hlen : (pre ++ i :: post).length ≤ p.sizes.numStripesPerGroup) :
    p.sizes.IsRow pre.length := by
  rw [List.length_append, List.length_cons] at hlen
  exact ⟨by omega, by omega⟩

/-- The row after the last stripe. -/
theorem rows_end (ids : List Nat) : rowsOf (ids.map p.helpersOf) ids.length = [] := by
  have := rowsOf_length (ids.map p.helpersOf)
  rwa [List.length_map] at this

variable (hp : p.Numbered)
include hp

theorem Numbered.stripeList {i : Nat} (hi : i < p.numRelatedStripes) :
    p.stripeList[i]? = some (p.stripeList.getD i []) := by
  have hlt : i < p.stripeList.length := lt_of_lt_of_le hi hp.within
  rw [List.getElem?_eq_getElem hlt, List.getD_eq_getElem _ _ hlt]

theorem Numbered.stripeOf {i : Nat} (hi : i < p.numRelatedStripes) :
    p.stripeOf i = some (p.stripeList.getD i []) := by
  unfold BatchInput.stripeOf
  rw [hp.identity i hi]
  exact hp.stripeList hi

theorem Numbered.placement {i : Nat} (hi : i < p.numRelatedStripes) :
    (p.stripeList.getD i []).Nodup ∧ ∀ x ∈ p.stripeList.getD i [], p.sizes.IsNode x := by
  have hlt : i < p.stripeList.length := lt_of_lt_of_le hi hp.within
  rw [List.getD_eq_getElem _ _ hlt]
  exact ⟨hp.nodup _ (List.getElem_mem hlt), hp.nodes _ (List.getElem_mem hlt)⟩

theorem Numbered.helpersOf_nodes {i : Nat} (hi : i < p.numRelatedStripes) :
    ∀ x ∈ p.helpersOf i, p.sizes.IsNode x := helpers_nodes (hp.placement hi).2

omit hp in
/-- Which stripes `if_insert` inserts. -/
theorem insertable_iff_fitsIn {ids : List Nat} (hlen : ids.length ≤ p.sizes.numStripesPerGroup)
    (i : Nat) : Insertable p.sizes (rowsOf (ids.map p.helpersOf)) (p.helpersOf i) ↔
      p.FitsIn ids i := by
  rw [insertable_rowsOf (by rwa [List.length_map])]
  refine and_congr_right' ⟨fun h j hj x hx hx' => ?_, fun h x hx stripe hs hx' => ?_⟩
  · exact h x hx _ (List.mem_map_of_mem hj) hx'
  · obtain ⟨j, hj, rfl⟩ := List.mem_map.1 hs
    exact h j hj hx hx'

section
variable {rg : Int} {ids : List Nat} {w : GroupArrays} (h : p.Holds rg ids w)
  (hlen : ids.length < p.sizes.numStripesPerGroup) {i : Nat} (hi : i < p.numRelatedStripes)
include h hlen hi

/-- **A stripe that fits** goes in. -/
theorem Holds.insert (hfit : p.FitsIn ids i) :
    ∃ w', ifInsert p.sizes rg ids.length (p.stripeList.getD i []) p.soonToFail w = some (1, w') ∧
      p.Holds rg (ids ++ [i]) w' ∧ Elsewhere p.sizes rg w w' := by
  have hcur := isRow_length hlen
  obtain ⟨hnodup, hnodes⟩ := hp.placement hi
  obtain ⟨w', heq, -, -, hgroup⟩ := ifInsert_insertable h hcur (rows_end ids) hnodup hnodes
    ((insertable_iff_fitsIn hlen.le i).2 hfit)
  refine ⟨w', heq, ?_, ifInsert_elsewhere h hcur (rows_end ids) hnodup hnodes heq⟩
  unfold Holds
  rw [List.map_append, List.map_singleton, rowsOf_append, List.length_map]
  exact hgroup

/-- Another stripe stays out. -/
theorem Holds.insert_not (hfit : ¬ p.FitsIn ids i) :
    ∃ w', ifInsert p.sizes rg ids.length (p.stripeList.getD i []) p.soonToFail w = some (0, w') ∧
      p.Holds rg ids w' ∧ Elsewhere p.sizes rg w w' := by
  have hcur := isRow_length hlen
  obtain ⟨hnodup, hnodes⟩ := hp.placement hi
  obtain ⟨w', heq, hm, hb⟩ := ifInsert_not_insertable h hcur (rows_end ids) hnodup hnodes
    fun hins => hfit ((insertable_iff_fitsIn hlen.le i).1 hins)
  exact ⟨w', heq, h.congr hm hb, Elsewhere.of_eq hm hb⟩

end

/-! ## An exchange -/

omit hp in
/-- The rows of a group, one of them apart. -/
theorem rows_middle (pre post : List Nat) (i : Nat) :
    rowsOf ((pre ++ i :: post).map p.helpersOf) =
      update (rowsOf (hole p pre post)) pre.length (p.helpersOf i) := by
  have := rowsOf_middle (pre.map p.helpersOf) (post.map p.helpersOf) [] (p.helpersOf i)
  rwa [List.length_map, ← List.map_cons, ← List.map_append] at this

omit hp in
theorem rows_hole (pre post : List Nat) : rowsOf (hole p pre post) pre.length = [] := by
  unfold hole
  rw [rowsOf_middle (pre.map p.helpersOf) (post.map p.helpersOf) [] [], List.length_map,
    update_self]

section
variable {rg : Nat} {pre post : List Nat} {des src : Nat} {w : GroupArrays}
  (h : p.Holds rg (pre ++ des :: post) w)
  (hlen : (pre ++ des :: post).length ≤ p.sizes.numStripesPerGroup)

omit hp in
include h hlen in
/-- The stripe is taken out. -/
theorem Holds.remove :
    Group p.sizes rg (rowsOf (hole p pre post))
      ((w.setRow p.sizes rg pre.length (p.helpersOf des) 0).freeRow p.sizes rg pre.length) ∧
    Elsewhere p.sizes rg w
      ((w.setRow p.sizes rg pre.length (p.helpersOf des) 0).freeRow p.sizes rg pre.length) := by
  have hcur := isRow_middle hlen
  have hrow : rowsOf ((pre ++ des :: post).map p.helpersOf) pre.length = p.helpersOf des := by
    rw [rows_middle, update_self]
  have hremove := Group.remove h hcur
  rw [hrow] at hremove
  constructor
  · have hhole : update (rowsOf ((pre ++ des :: post).map p.helpersOf)) pre.length [] =
        rowsOf (hole p pre post) := by
      rw [rows_middle, Function.update_idem, ← rows_hole, Function.update_eq_self]
    rwa [hhole] at hremove
  · refine (elsewhere_setRow hcur (fun i hi => ?_) 0).trans (elsewhere_freeRow _)
    exact h.nodes _ hcur i (hrow.symm ▸ hi)

omit hp in
theorem insertable_hole (hlen : (pre ++ des :: post).length ≤ p.sizes.numStripesPerGroup) :
    Insertable p.sizes (rowsOf (hole p pre post)) (p.helpersOf src) ↔
      p.FitsIn (pre ++ post) src := by
  have hlen' : (hole p pre post).length ≤ p.sizes.numStripesPerGroup := by
    simpa [hole] using hlen
  rw [insertable_rowsOf hlen']
  refine and_congr_right' ⟨fun h j hj x hx hx' => ?_, fun h x hx stripe hs hx' => ?_⟩
  · refine h x hx _ ?_ hx'
    rcases List.mem_append.1 hj with hj | hj
    · exact List.mem_append_left _ (List.mem_map_of_mem hj)
    · exact List.mem_append_right _ (List.mem_cons_of_mem _ (List.mem_map_of_mem hj))
  · rcases List.mem_append.1 hs with hs | hs
    · obtain ⟨j, hj, rfl⟩ := List.mem_map.1 hs
      exact h j (List.mem_append_left _ hj) hx hx'
    · rcases List.mem_cons.1 hs with rfl | hs
      · exact List.not_mem_nil hx'
      · obtain ⟨j, hj, rfl⟩ := List.mem_map.1 hs
        exact h j (List.mem_append_right _ hj) hx hx'

variable (hdes : des < p.numRelatedStripes) (hsrc : src < p.numRelatedStripes)

include hdes hsrc in
theorem Numbered.exchange_eq : p.exchange src des rg pre.length w =
    ifInsert p.sizes rg pre.length (p.stripeList.getD src []) p.soonToFail
      ((w.setRow p.sizes rg pre.length (p.helpersOf des) 0).freeRow p.sizes rg pre.length) := by
  unfold exchange updateBipartiteForReplace
  rw [hp.stripeList hdes, hp.stripeOf hsrc]
  rfl

include h hlen hdes hsrc

/-- **The exchange** of a stripe for one that fits. -/
theorem Holds.exchange (hfit : p.FitsIn (pre ++ post) src) :
    ∃ w', p.exchange src des rg pre.length w = some (1, w') ∧
      p.Holds rg (pre ++ src :: post) w' ∧ Elsewhere p.sizes rg w w' := by
  have hcur := isRow_middle hlen
  obtain ⟨hgroup, helse⟩ := h.remove hlen
  obtain ⟨hnodup, hnodes⟩ := hp.placement hsrc
  obtain ⟨w', heq, -, -, hg⟩ := ifInsert_insertable hgroup hcur (rows_hole pre post) hnodup
    hnodes ((insertable_hole hlen).2 hfit)
  refine ⟨w', (hp.exchange_eq hdes hsrc).trans heq, ?_, helse.trans
    (ifInsert_elsewhere hgroup hcur (rows_hole pre post) hnodup hnodes heq)⟩
  unfold Holds
  rw [rows_middle]
  exact hg

/-- Another stripe does not go in, and the one that was taken out is missing. -/
theorem Holds.exchange_not (hfit : ¬ p.FitsIn (pre ++ post) src) :
    ∃ w', p.exchange src des rg pre.length w = some (0, w') ∧
      RowsAre p.sizes rg (rowsOf (hole p pre post)) w' ∧ Elsewhere p.sizes rg w w' := by
  have hcur := isRow_middle hlen
  obtain ⟨hgroup, helse⟩ := h.remove hlen
  obtain ⟨hnodup, hnodes⟩ := hp.placement hsrc
  obtain ⟨w', heq, hm, hb⟩ := ifInsert_not_insertable hgroup hcur (rows_hole pre post) hnodup
    hnodes fun hins => hfit ((insertable_hole hlen).1 hins)
  exact ⟨w', (hp.exchange_eq hdes hsrc).trans heq, (hgroup.congr hm hb).matrix,
    helse.trans (Elsewhere.of_eq hm hb)⟩

end

/-! ## A trial -/

/-- The rows of a group are set again. -/
theorem Numbered.addRows {rg : Nat} (pre ids : List Nat) {w : GroupArrays}
    (h : RowsAre p.sizes rg (rowsOf (pre.map p.helpersOf)) w)
    (hlen : (pre ++ ids).length ≤ p.sizes.numStripesPerGroup)
    (hids : ∀ i ∈ ids, i < p.numRelatedStripes) :
    ∃ w', p.addRows rg pre.length ids w = some w' ∧
      RowsAre p.sizes rg (rowsOf ((pre ++ ids).map p.helpersOf)) w' ∧
      Elsewhere p.sizes rg w w' := by
  induction ids generalizing pre w with
  | nil => exact ⟨w, rfl, by rwa [List.append_nil], Elsewhere.of_eq rfl rfl⟩
  | cons id ids ih =>
    have hid := hids id (List.mem_cons_self ..)
    have hcur := isRow_middle hlen
    have hset := h.setRow (rows_end pre) hcur (hp.helpersOf_nodes hid)
    have hrows : update (rowsOf (pre.map p.helpersOf)) pre.length (p.helpersOf id) =
        rowsOf ((pre ++ [id]).map p.helpersOf) := by
      rw [List.map_append, List.map_singleton, rowsOf_append, List.length_map]
    rw [hrows] at hset
    obtain ⟨w', heq, hrows', helse⟩ := ih (pre ++ [id]) hset (by simpa using hlen)
      fun i hi => hids i (List.mem_cons_of_mem _ hi)
    refine ⟨w', ?_, by simpa using hrows',
      (elsewhere_setRow hcur (hp.helpersOf_nodes hid) 1).trans helse⟩
    rw [List.length_append, List.length_singleton] at heq
    rw [BatchInput.addRows, updateBipartiteForReplace, hp.stripeList hid]
    exact heq

/-- Stripes that may join a group after `srcId` did. -/
structure Extra (p : BatchInput) (s : GroupTables) (srcId : Nat) (base addiId : List Nat) :
    Prop where
  packed : p.Packed (base ++ addiId)
  nodup : addiId.Nodup
  fresh : ∀ i ∈ addiId, s.ifselect i = false ∧ i ≠ srcId ∧ i < p.numRelatedStripes
  bound : (base ++ addiId).length ≤ p.sizes.numStripesPerGroup

omit hp in
theorem tryOthers_in {s : GroupTables} {src rg i cur : Nat} {is addi : List Nat}
    {w w' : GroupArrays} {nodelist : List Int} (hskip : ¬ (s.ifselect i ∨ i = src))
    (hstripe : p.stripeOf i = some nodelist)
    (hcall : ifInsert p.sizes rg cur nodelist p.soonToFail w = some (1, w')) :
    p.tryOthers s src rg (i :: is) cur addi w =
      if cur + 1 = p.sizes.numStripesPerGroup then some (addi ++ [i], w')
      else p.tryOthers s src rg is (cur + 1) (addi ++ [i]) w' := by
  rw [BatchInput.tryOthers, if_neg hskip, hstripe]
  simp only [Option.bind_eq_bind, Option.bind_some, hcall]
  rfl

omit hp in
theorem tryOthers_out {s : GroupTables} {src rg i cur : Nat} {is addi : List Nat}
    {w w' : GroupArrays} {nodelist : List Int} (hskip : ¬ (s.ifselect i ∨ i = src))
    (hstripe : p.stripeOf i = some nodelist)
    (hcall : ifInsert p.sizes rg cur nodelist p.soonToFail w = some (0, w')) :
    p.tryOthers s src rg (i :: is) cur addi w =
      if cur = p.sizes.numStripesPerGroup then some (addi, w')
      else p.tryOthers s src rg is cur addi w' := by
  rw [BatchInput.tryOthers, if_neg hskip, hstripe]
  simp only [Option.bind_eq_bind, Option.bind_some, hcall]
  rfl

/-- **The other stripes** are tried one after the other. -/
theorem Numbered.tryOthers {s : GroupTables} {src rg : Nat} {base : List Nat} (is : List Nat)
    (his : ∀ i ∈ is, i < p.numRelatedStripes) {addi : List Nat} {w : GroupArrays}
    (h : p.Holds rg (base ++ addi) w) (hE : p.Extra s src base addi)
    (hlen : (base ++ addi).length < p.sizes.numStripesPerGroup) (hnd : (addi ++ is).Nodup) :
    ∃ addi' w', p.tryOthers s src rg is (base ++ addi).length addi w = some (addi', w') ∧
      p.Extra s src base addi' ∧ Elsewhere p.sizes rg w w' := by
  induction is generalizing addi w with
  | nil => exact ⟨addi, w, rfl, hE, Elsewhere.of_eq rfl rfl⟩
  | cons i is ih =>
    have hi := his i (List.mem_cons_self ..)
    have ih' := fun {addi w} => @ih (fun j hj => his j (List.mem_cons_of_mem _ hj)) addi w
    have hnd' : (addi ++ is).Nodup := hnd.sublist
      ((List.Sublist.refl addi).append (List.sublist_cons_self i is))
    by_cases hskip : s.ifselect i ∨ i = src
    · rw [BatchInput.tryOthers, if_pos hskip]
      exact ih' h hE hlen hnd'
    by_cases hfit : p.FitsIn (base ++ addi) i
    · obtain ⟨w₁, heq, hholds, helse⟩ := h.insert hp hlen hi hfit
      rw [tryOthers_in hskip (hp.stripeOf hi) heq]
      rw [not_or, Bool.not_eq_true] at hskip
      rw [List.append_assoc] at hholds
      have hlen' : (base ++ (addi ++ [i])).length = (base ++ addi).length + 1 := by
        rw [← List.append_assoc, List.length_append, List.length_singleton]
      have hE' : p.Extra s src base (addi ++ [i]) := by
        refine ⟨?_, ?_, fun j hj => ?_, by omega⟩
        · rw [← List.append_assoc]
          exact packed_concat.2 ⟨hE.packed, hfit⟩
        · refine hnd.sublist ((List.Sublist.refl addi).append ?_)
          exact List.singleton_sublist.2 (List.mem_cons_self ..)
        · rcases List.mem_append.1 hj with hj | hj
          · exact hE.fresh j hj
          · exact List.mem_singleton.1 hj ▸ ⟨hskip.1, hskip.2, hi⟩
      split
      · exact ⟨_, w₁, rfl, hE', helse⟩
      · obtain ⟨addi', w', heq', hext, helse'⟩ := ih' hholds hE' (by omega) (by simpa using hnd)
        rw [hlen'] at heq'
        exact ⟨addi', w', heq', hext, helse.trans helse'⟩
    · obtain ⟨w₁, heq, hholds, helse⟩ := h.insert_not hp hlen hi hfit
      rw [tryOthers_out hskip (hp.stripeOf hi) heq, if_neg (by omega)]
      obtain ⟨addi', w', heq', hext, helse'⟩ := ih' hholds hE hlen hnd'
      exact ⟨addi', w', heq', hext, helse.trans helse'⟩

/-- **A trial** leaves the group as it was. -/
theorem Numbered.testReplace {s : GroupTables} {src des rg : Nat} {pre post : List Nat}
    (hG : s.repairGroup rg = pre ++ des :: post) (hnot : des ∉ pre)
    (h : p.Holds rg (s.repairGroup rg) s.arrays) (hpacked : p.Packed (s.repairGroup rg))
    (hlen : (s.repairGroup rg).length < p.sizes.numStripesPerGroup)
    (hrel : ∀ i ∈ s.repairGroup rg, i < p.numRelatedStripes) (hsrc : src < p.numRelatedStripes) :
    ∃ addi w', p.testReplace src des rg s = some (addi, { s with arrays := w' }) ∧
      p.Holds rg (s.repairGroup rg) w' ∧ Elsewhere p.sizes rg s.arrays w' ∧
      (addi ≠ [] → p.FitsIn (pre ++ post) src ∧ p.Extra s src (pre ++ src :: post) addi) := by
  have hdes : des < p.numRelatedStripes := hrel des (by rw [hG]; simp)
  have hidx : (s.repairGroup rg).idxOf des = pre.length := by
    rw [hG, List.idxOf_append_of_notMem hnot, List.idxOf_cons_self, Nat.add_zero]
  have hheld := h
  rw [hG] at hheld
  have hlen' : (pre ++ des :: post).length ≤ p.sizes.numStripesPerGroup := by
    rw [← hG]
    exact hlen.le
  have hcur := isRow_middle hlen'
  unfold BatchInput.testReplace
  simp only [hidx]
  by_cases hfit : p.FitsIn (pre ++ post) src
  · obtain ⟨w₁, heq, hholds, helse⟩ := hheld.exchange hp hlen' hdes hsrc hfit
    have hbase : (pre ++ src :: post).length = (s.repairGroup rg).length := by simp [hG]
    have hE : p.Extra s src (pre ++ src :: post) [] := by
      refine ⟨?_, List.nodup_nil, nofun, ?_⟩
      · rw [List.append_nil]
        exact Packed.exchange (hG ▸ hpacked) hfit
      · rw [List.append_nil, hbase]
        exact hlen.le
    obtain ⟨addi, w₂, heq₂, hext, helse₂⟩ := hp.tryOthers
      (List.range' src (p.numRelatedStripes - src))
      (fun i hi => by have := (List.mem_range'_1.1 hi).2; omega)
      (by rwa [List.append_nil]) hE (by rwa [List.append_nil, hbase])
      (by rw [List.nil_append]; exact List.nodup_range' ..)
    rw [List.append_nil, hbase] at heq₂
    obtain ⟨w₃, heq₃, hrows, helse₃⟩ := hp.addRows [] (s.repairGroup rg)
      (clearMatrix_rowsAre (w := w₂)) hlen.le hrel
    refine ⟨addi, _, ?_, h.restore hrows, helse.trans (helse₂.trans (elsewhere_clearMatrix.trans
      (helse₃.trans (elsewhere_resetBelong s.arrays.nodeBelong)))), fun _ => ⟨hfit, hext⟩⟩
    rw [List.length_nil] at heq₃
    rw [heq]
    simp only [Option.bind_eq_bind, Option.bind_some, one_ne_zero, if_false, heq₂, heq₃]
  · obtain ⟨w₁, heq, hrows, helse⟩ := hheld.exchange_not hp hlen' hdes hsrc hfit
    have hset := hrows.setRow (rows_hole pre post) hcur (hp.helpersOf_nodes hdes)
    rw [← rows_middle, ← hG] at hset
    refine ⟨[], _, ?_, h.restore hset, helse.trans ((elsewhere_setRow hcur
      (hp.helpersOf_nodes hdes) 1).trans (elsewhere_resetBelong s.arrays.nodeBelong)), nofun⟩
    rw [heq]
    simp only [Option.bind_eq_bind, Option.bind_some, if_true, updateBipartiteForReplace,
      hp.stripeList hdes]
    rfl

/-! ## An exchange for good -/

/-- The stripes that a trial recorded go in. -/
theorem Numbered.insertRecorded {rg : Nat} (rec : List Nat) {s : GroupTables} {ids : List Nat}
    (hG : s.repairGroup rg = ids) (h : p.Holds rg ids s.arrays) (hpacked : p.Packed (ids ++ rec))
    (hlen : (ids ++ rec).length ≤ p.sizes.numStripesPerGroup)
    (hrel : ∀ i ∈ rec, i < p.numRelatedStripes) :
    ∃ s', p.insertRecorded rg rec s = some s' ∧
      s'.repairGroup = update s.repairGroup rg (ids ++ rec) ∧
      (∀ i, s'.ifselect i = true ↔ s.ifselect i = true ∨ i ∈ rec) ∧
      p.Holds rg (ids ++ rec) s'.arrays ∧ Elsewhere p.sizes rg s.arrays s'.arrays := by
  induction rec generalizing s ids with
  | nil =>
    rw [List.append_nil] at *
    exact ⟨s, rfl, by rw [← hG, Function.update_eq_self], fun i => by simp, h,
      Elsewhere.of_eq rfl rfl⟩
  | cons id rec ih =>
    subst hG
    have hid := hrel id (List.mem_cons_self ..)
    have hassoc : s.repairGroup rg ++ id :: rec = (s.repairGroup rg ++ [id]) ++ rec := by simp
    rw [hassoc] at hpacked hlen ⊢
    have hlt : (s.repairGroup rg).length < p.sizes.numStripesPerGroup := by
      simp only [List.length_append, List.length_singleton] at hlen
      omega
    obtain ⟨w₁, heq, hholds, helse⟩ := h.insert hp hlt hid (packed_concat.1 hpacked.left).2
    obtain ⟨s', heq', hgroup, hsel, hholds', helse'⟩ := ih (push_group s rg id w₁) hholds hpacked
      hlen fun i hi => hrel i (List.mem_cons_of_mem _ hi)
    refine ⟨s', ?_, hgroup.trans (Function.update_idem ..), fun i => ?_, hholds',
      helse.trans helse'⟩
    · rw [BatchInput.insertRecorded, hp.stripeList hid]
      simp only [Option.bind_eq_bind, Option.bind_some, heq, one_ne_zero, if_false]
      exact heq'
    · rw [hsel, push_ifselect, List.mem_cons, or_assoc]

/-- An exchange that lets other stripes in. -/
structure Pays (p : BatchInput) (s : GroupTables) (rg src des : Nat) (rec pre post : List Nat) :
    Prop where
  group : s.repairGroup rg = pre ++ des :: post
  first : des ∉ pre
  source : s.ifselect src = false
  related : src < p.numRelatedStripes
  gain : rec ≠ []
  fits : p.FitsIn (pre ++ post) src
  extra : p.Extra s src (pre ++ src :: post) rec

/-- **An exchange that pays** is made. -/
theorem Pays.performReplace {s : GroupTables} {rg src des : Nat} {rec pre post : List Nat}
    (hpay : p.Pays s rg src des rec pre post) (h : p.Holds rg (s.repairGroup rg) s.arrays)
    (hlen : (s.repairGroup rg).length ≤ p.sizes.numStripesPerGroup)
    (hrel : ∀ i ∈ s.repairGroup rg, i < p.numRelatedStripes) :
    ∃ s', p.performReplace src des rg rec s = some s' ∧
      s'.repairGroup = update s.repairGroup rg (pre ++ src :: post ++ rec) ∧
      (∀ i, s'.ifselect i = true ↔
        (i ≠ des ∧ (s.ifselect i = true ∨ i = src)) ∨ i ∈ rec) ∧
      p.Holds rg (pre ++ src :: post ++ rec) s'.arrays ∧
      Elsewhere p.sizes rg s.arrays s'.arrays := by
  have hdes : des < p.numRelatedStripes := hrel des (by rw [hpay.group]; simp)
  have hidx : (s.repairGroup rg).idxOf des = pre.length := by
    rw [hpay.group, List.idxOf_append_of_notMem hpay.first, List.idxOf_cons_self, Nat.add_zero]
  have hset : (s.repairGroup rg).set pre.length src = pre ++ src :: post := by
    rw [hpay.group, List.set_append_right _ _ le_rfl, Nat.sub_self, List.set_cons_zero]
  have hheld := h
  rw [hpay.group] at hheld hlen
  obtain ⟨w₁, heq, hholds, helse⟩ := hheld.exchange hp hlen hdes hpay.related hpay.fits
  obtain ⟨s', heq', hgroup, hsel, hholds', helse'⟩ := hp.insertRecorded rec
    (s := { arrays := w₁
            repairGroup := update s.repairGroup rg (pre ++ src :: post)
            ifselect := update (update s.ifselect src true) des false })
    (update_self ..) hholds hpay.extra.packed hpay.extra.bound
    fun i hi => (hpay.extra.fresh i hi).2.2
  dsimp only at hgroup hsel
  refine ⟨s', ?_, ?_, fun i => ?_, hholds', helse.trans helse'⟩
  · unfold BatchInput.performReplace
    simp only [hidx, Option.bind_eq_bind, heq, Option.bind_some, hset]
    exact heq'
  · rw [hgroup, Function.update_idem]
  · rw [hsel, Function.update_apply, Function.update_apply]
    by_cases hi : i = des
    · simp [hi]
    · by_cases hi' : i = src
      · simp [hi']
      · simp [hi, hi']

/-! ## The search for an exchange -/

/-- A group in order, with room for another stripe. -/
structure Open (p : BatchInput) (s : GroupTables) (rg : Nat) : Prop where
  nodup : (s.repairGroup rg).Nodup
  packed : p.Packed (s.repairGroup rg)
  room : (s.repairGroup rg).length < p.sizes.numStripesPerGroup
  related : ∀ i ∈ s.repairGroup rg, i < p.numRelatedStripes

section
variable {s : GroupTables} {rg : Nat} (ho : p.Open s rg)
include ho

/-- The stripes of the group, one after the other. -/
theorem Numbered.tryGroup {src : Nat} (hsrc : src < p.numRelatedStripes)
    (hsel : s.ifselect src = false) (ids : List Nat) (hids : ∀ i ∈ ids, i ∈ s.repairGroup rg)
    {w : GroupArrays} (h : p.Holds rg (s.repairGroup rg) w) :
    ∃ found w', p.tryGroup src rg ids { s with arrays := w } =
        some (found, { s with arrays := w' }) ∧
      p.Holds rg (s.repairGroup rg) w' ∧ Elsewhere p.sizes rg w w' ∧
      ∀ des rec, found = some (des, rec) → ∃ pre post, p.Pays s rg src des rec pre post := by
  induction ids generalizing w with
  | nil => exact ⟨none, w, rfl, h, Elsewhere.of_eq rfl rfl, nofun⟩
  | cons des ids ih =>
    obtain ⟨pre, post, hG⟩ := List.append_of_mem (hids des (List.mem_cons_self ..))
    have hnot : des ∉ pre := by
      have hnd := ho.nodup
      rw [hG] at hnd
      exact fun hmem => (List.nodup_append.1 hnd).2.2 des hmem des (List.mem_cons_self ..) rfl
    obtain ⟨addi, w₁, heq, hholds, helse, hgain⟩ := hp.testReplace
      (s := { s with arrays := w }) hG hnot h ho.packed ho.room ho.related hsrc
    rw [BatchInput.tryGroup]
    simp only [heq, Option.bind_eq_bind, Option.bind_some]
    by_cases haddi : addi = []
    · rw [if_pos haddi]
      obtain ⟨found, w', heq', hholds', helse', hfound⟩ :=
        ih (fun i hi => hids i (List.mem_cons_of_mem _ hi)) hholds
      exact ⟨found, w', heq', hholds', helse.trans helse', hfound⟩
    · rw [if_neg haddi]
      refine ⟨_, w₁, rfl, hholds, helse, ?_⟩
      rintro des' rec ⟨⟩
      obtain ⟨hfit, hextra⟩ := hgain haddi
      exact ⟨pre, post, hG, hnot, hsel, hsrc, haddi, hfit, hextra.packed, hextra.nodup,
        hextra.fresh, hextra.bound⟩

/-- The stripes that are left, one after the other. -/
theorem Numbered.tryStripes (ids : List Nat) (hids : ∀ i ∈ ids, i < p.numRelatedStripes)
    {best : Option (Nat × Nat × List Nat)}
    (hbest : ∀ src des rec, best = some (src, des, rec) →
      ∃ pre post, p.Pays s rg src des rec pre post)
    {w : GroupArrays} (h : p.Holds rg (s.repairGroup rg) w) :
    ∃ best' w', p.tryStripes rg ids best { s with arrays := w } =
        some (best', { s with arrays := w' }) ∧
      p.Holds rg (s.repairGroup rg) w' ∧ Elsewhere p.sizes rg w w' ∧
      ∀ src des rec, best' = some (src, des, rec) →
        ∃ pre post, p.Pays s rg src des rec pre post := by
  induction ids generalizing best w with
  | nil => exact ⟨best, w, rfl, h, Elsewhere.of_eq rfl rfl, hbest⟩
  | cons src ids ih =>
    have ih' := @ih fun i hi => hids i (List.mem_cons_of_mem _ hi)
    rw [BatchInput.tryStripes]
    by_cases hsel : s.ifselect src
    · rw [if_pos hsel]
      exact ih' hbest h
    rw [if_neg hsel]
    obtain ⟨found, w₁, heq, hholds, helse, hfound⟩ := hp.tryGroup ho
      (hids src (List.mem_cons_self ..)) (Bool.not_eq_true _ ▸ hsel) (s.repairGroup rg)
      (fun _ hi => hi) h
    simp only [heq, Option.bind_eq_bind, Option.bind_some]
    have hgo : ∀ best₁ : Option (Nat × Nat × List Nat),
        (∀ src des rec, best₁ = some (src, des, rec) →
          ∃ pre post, p.Pays s rg src des rec pre post) →
        ∃ best' w', p.tryStripes rg ids best₁ { s with arrays := w₁ } =
            some (best', { s with arrays := w' }) ∧
          p.Holds rg (s.repairGroup rg) w' ∧ Elsewhere p.sizes rg w w' ∧
          ∀ src des rec, best' = some (src, des, rec) →
            ∃ pre post, p.Pays s rg src des rec pre post := by
      intro best₁ hbest₁
      obtain ⟨best', w', heq', hholds', helse', hpay⟩ := ih' hbest₁ hholds
      exact ⟨best', w', heq', hholds', helse.trans helse', hpay⟩
    cases found with
    | none =>
      cases best with
      | none => exact hgo none hbest
      | some b =>
        dsimp only
        split
        · exact ⟨some b, w₁, rfl, hholds, helse, hbest⟩
        · exact hgo (some b) hbest
    | some f =>
      have hbest' : ∀ src' des rec, some (src, f.1, f.2) = some (src', des, rec) →
          ∃ pre post, p.Pays s rg src' des rec pre post := by
        rintro _ _ _ ⟨⟩
        exact hfound _ _ rfl
      dsimp only
      split
      · exact ⟨_, w₁, rfl, hholds, helse, hbest'⟩
      · exact hgo _ hbest'

end

/-! ## The invariant of a round -/

/-- The stripes of the groups before `rg`. -/
def placed (s : GroupTables) (rg : Nat) : List Nat := (List.range rg).flatMap s.repairGroup

/-- The state while group `rg` is filled. -/
structure Filling (p : BatchInput) (rg : Nat) (s : GroupTables) : Prop where
  holds : p.Holds rg (s.repairGroup rg) s.arrays
  later : ∀ rg', rg < rg' → s.repairGroup rg' = [] ∧ p.Holds rg' [] s.arrays
  packed : ∀ rg', p.Packed (s.repairGroup rg')
  bound : (s.repairGroup rg).length ≤ p.sizes.numStripesPerGroup
  nodup : (placed s rg ++ s.repairGroup rg).Nodup
  selected : ∀ i, s.ifselect i = true ↔ i ∈ placed s rg ++ s.repairGroup rg
  related : ∀ i ∈ placed s rg ++ s.repairGroup rg, i < p.numRelatedStripes

omit hp in
theorem placed_congr {s s' : GroupTables} {rg : Nat}
    (h : ∀ rg', rg' < rg → s'.repairGroup rg' = s.repairGroup rg') : placed s' rg = placed s rg :=
  List.flatMap_congr fun rg' hrg => h rg' (List.mem_range.1 hrg)

section
variable {s : GroupTables} {rg : Nat} (hf : p.Filling rg s)
include hf

omit hp in
theorem Filling.open (hroom : (s.repairGroup rg).length ≠ p.sizes.numStripesPerGroup) :
    p.Open s rg :=
  ⟨(List.nodup_append.1 hf.nodup).2.1, hf.packed rg, lt_of_le_of_ne hf.bound hroom,
    fun i hi => hf.related i (List.mem_append_right _ hi)⟩

omit hp in
/-- Arrays that other stripes were tried on. -/
theorem Filling.withArrays {w : GroupArrays} (h : p.Holds rg (s.repairGroup rg) w)
    (helse : Elsewhere p.sizes rg s.arrays w) : p.Filling rg { s with arrays := w } :=
  ⟨h, fun rg' hlt => ⟨(hf.later rg' hlt).1, helse.group (by omega) (hf.later rg' hlt).2⟩,
    hf.packed, hf.bound, hf.nodup, hf.selected, hf.related⟩

omit hp in
/-- **The exchange** keeps the groups apart. -/
theorem Filling.exchange {src des : Nat} {rec pre post : List Nat}
    (hpay : p.Pays s rg src des rec pre post) {s' : GroupTables}
    (hgroup : s'.repairGroup = update s.repairGroup rg (pre ++ src :: post ++ rec))
    (hsel : ∀ i, s'.ifselect i = true ↔ (i ≠ des ∧ (s.ifselect i = true ∨ i = src)) ∨ i ∈ rec)
    (hholds : p.Holds rg (pre ++ src :: post ++ rec) s'.arrays)
    (helse : Elsewhere p.sizes rg s.arrays s'.arrays) : p.Filling rg s' := by
  have hself : s'.repairGroup rg = pre ++ src :: post ++ rec := by rw [hgroup, update_self]
  have hother : ∀ rg', rg' ≠ rg → s'.repairGroup rg' = s.repairGroup rg' := fun rg' hne => by
    rw [hgroup, update_of_ne hne]
  have hplaced : placed s' rg = placed s rg := placed_congr fun rg' hlt => hother rg' (by omega)
  have hnd := hf.nodup
  have hin := hf.selected
  rw [hpay.group] at hnd hin
  -- what stays, and the stripes that are new
  have hold : (placed s rg ++ (pre ++ des :: post)).Perm (des :: (placed s rg ++ (pre ++ post))) :=
    (List.Perm.append_left _ List.perm_middle).trans List.perm_middle
  have hnew : (placed s rg ++ (pre ++ src :: post ++ rec)).Perm
      ((src :: rec) ++ (placed s rg ++ (pre ++ post))) := by
    refine List.perm_iff_count.2 fun a => ?_
    simp only [List.count_append, List.count_cons]
    omega
  obtain ⟨hdes, hrest⟩ := List.nodup_cons.1 (hold.nodup_iff.1 hnd)
  have hfresh : ∀ i ∈ src :: rec, s.ifselect i = false := by
    intro i hi
    rcases List.mem_cons.1 hi with rfl | hi
    · exact hpay.source
    · exact (hpay.extra.fresh i hi).1
  have hmem : ∀ i, s.ifselect i = true ↔ i = des ∨ i ∈ placed s rg ++ (pre ++ post) := fun i => by
    rw [hin, hold.mem_iff, List.mem_cons]
  refine ⟨hself.symm ▸ hholds, fun rg' hlt => ?_, fun rg' => ?_, hself.symm ▸ hpay.extra.bound, ?_,
    fun i => ?_, fun i hi => ?_⟩
  · rw [hother rg' (by omega)]
    exact ⟨(hf.later rg' hlt).1, helse.group (by omega) (hf.later rg' hlt).2⟩
  · by_cases hrg : rg' = rg
    · rw [hrg, hself]
      exact hpay.extra.packed
    · rw [hother rg' hrg]
      exact hf.packed rg'
  · rw [hplaced, hself, hnew.nodup_iff]
    refine List.nodup_append.2 ⟨List.nodup_cons.2 ⟨fun h => ?_, hpay.extra.nodup⟩, hrest, ?_⟩
    · exact (hpay.extra.fresh src h).2.1 rfl
    · rintro i hi j hj rfl
      have := (hmem i).2 (Or.inr hj)
      rw [hfresh i hi] at this
      cases this
  · have hne : src ≠ des := by
      rintro rfl
      have := (hmem src).2 (Or.inl rfl)
      rw [hpay.source] at this
      cases this
    have hsplit : i ∈ (src :: rec) ++ (placed s rg ++ (pre ++ post)) ↔
        (i = src ∨ i ∈ rec) ∨ i ∈ placed s rg ++ (pre ++ post) :=
      List.mem_append.trans (or_congr_left List.mem_cons)
    rw [hsel, hplaced, hself, hnew.mem_iff, hmem, hsplit]
    constructor
    · rintro (⟨hi, (hi' | hi') | hi'⟩ | hi)
      · exact absurd hi' hi
      · exact Or.inr hi'
      · exact Or.inl (Or.inl hi')
      · exact Or.inl (Or.inr hi)
    · rintro ((rfl | hi) | hi)
      · exact Or.inl ⟨hne, Or.inr rfl⟩
      · exact Or.inr hi
      · exact Or.inl ⟨fun h => hdes (h ▸ hi), Or.inl (Or.inr hi)⟩
  · rw [hplaced, hself, hnew.mem_iff] at hi
    rcases List.mem_append.1 hi with hi | hi
    · rcases List.mem_cons.1 hi with rfl | hi
      · exact hpay.related
      · exact (hpay.extra.fresh i hi).2.2
    · refine hf.related i ?_
      rw [hpay.group, hold.mem_iff]
      exact List.mem_cons_of_mem _ hi

/-- **A replacement** is found and made, or the group stays as it is. -/
theorem Filling.greedyReplacement :
    ∃ b s', p.greedyReplacement rg s = some (b, s') ∧ p.Filling rg s' ∧
      placed s' rg = placed s rg ∧
      (s.repairGroup rg).length + (if b then 1 else 0) ≤ (s'.repairGroup rg).length := by
  unfold BatchInput.greedyReplacement
  by_cases hfull : (s.repairGroup rg).length = p.sizes.numStripesPerGroup
  · exact ⟨false, s, if_pos hfull, hf, rfl, le_rfl⟩
  rw [if_neg hfull]
  have hnone : ∀ src des rec, (none : Option (Nat × Nat × List Nat)) = some (src, des, rec) →
      ∃ pre post, p.Pays s rg src des rec pre post := nofun
  obtain ⟨best, w₁, heq, hholds, helse, hpays⟩ := hp.tryStripes (hf.open hfull)
    (List.range p.numRelatedStripes) (fun i hi => List.mem_range.1 hi) hnone hf.holds
  have heq' : p.tryStripes rg (List.range p.numRelatedStripes) none s =
      some (best, { s with arrays := w₁ }) := heq
  have hf₁ := hf.withArrays hholds helse
  rw [heq']
  simp only [Option.bind_eq_bind, Option.bind_some]
  cases best with
  | none => exact ⟨false, _, rfl, hf₁, rfl, le_rfl⟩
  | some b =>
    obtain ⟨src, des, rec⟩ := b
    obtain ⟨pre, post, hpay⟩ := hpays src des rec rfl
    have hpay₁ : p.Pays { s with arrays := w₁ } rg src des rec pre post :=
      ⟨hpay.group, hpay.first, hpay.source, hpay.related, hpay.gain, hpay.fits,
        ⟨hpay.extra.packed, hpay.extra.nodup, hpay.extra.fresh, hpay.extra.bound⟩⟩
    obtain ⟨s', heq₂, hgroup, hsel, hholds', helse'⟩ := hpay₁.performReplace hp hholds hf.bound
      fun i hi => hf.related i (List.mem_append_right _ hi)
    refine ⟨true, s', ?_, hf₁.exchange hpay₁ hgroup hsel hholds' helse', ?_, ?_⟩
    · dsimp only
      rw [heq₂]
      rfl
    · refine placed_congr fun rg' hlt => ?_
      rw [hgroup, update_of_ne (by omega)]
    · have hgain := List.length_pos_iff.2 hpay.gain
      rw [hgroup, update_self, hpay.group]
      simp only [List.length_append, List.length_cons, if_true]
      omega

end

end

end BatchInput

end StripeRepair

import Mathlib

/-!
# `hungary`: looking for a node of a stripe

A repair group has a row of the matrix for each of its stripes, with the nodes that help to repair
it, and says of each node to which stripe it belongs. `hungary` looks for a node of a stripe that
belongs to none, and on the way for another node for the stripes that have the others.

* `Searching`: every stripe but the one that is inserted has all of its nodes.
* `hungary_spec`: the search then takes a free node of its own stripe or changes nothing.
-/

namespace StripeRepair

open Function (update update_of_ne update_self)

/-- The arrays of `ParallelSolution`. -/
structure GroupArrays where
  bipartiteMatrix : Int → Int
  nodeBelong : Int → Int
  mark : Int → Int

/-- `_num_agents` and `_num_stripes_per_group` -/
structure GroupSizes where
  numAgents : Nat
  numStripesPerGroup : Nat

namespace GroupSizes

variable (g : GroupSizes)

/-- The place of a node in the row of a stripe of a group. -/
def cell (rg row i : Int) : Int :=
  rg * g.numStripesPerGroup * g.numAgents + row * g.numAgents + i

/-- The place of a node of a group. -/
def slot (rg i : Int) : Int := rg * g.numAgents + i

/-- A node, and the row of a stripe. -/
def IsNode (i : Int) : Prop := 0 ≤ i ∧ i < g.numAgents

def IsRow (r : Int) : Prop := 0 ≤ r ∧ r < g.numStripesPerGroup

theorem mul_add_inj {q q' i i' a : Int} (hi : 0 ≤ i ∧ i < a) (hi' : 0 ≤ i' ∧ i' < a)
    (h : q * a + i = q' * a + i') : q = q' ∧ i = i' := by
  have hq : q = q' := by
    rcases lt_trichotomy q q' with hlt | heq | hgt
    · have : (q + 1) * a ≤ q' * a := Int.mul_le_mul_of_nonneg_right hlt (by omega)
      rw [Int.add_mul] at this
      omega
    · exact heq
    · have : (q' + 1) * a ≤ q * a := Int.mul_le_mul_of_nonneg_right hgt (by omega)
      rw [Int.add_mul] at this
      omega
  subst hq
  exact ⟨rfl, by omega⟩

variable {g}

theorem slot_inj {rg rg' i i' : Int} (hi : g.IsNode i) (hi' : g.IsNode i')
    (h : g.slot rg i = g.slot rg' i') : rg = rg' ∧ i = i' := mul_add_inj hi hi' h

theorem cell_inj {rg rg' r r' i i' : Int} (hr : g.IsRow r) (hr' : g.IsRow r') (hi : g.IsNode i)
    (hi' : g.IsNode i') (h : g.cell rg r i = g.cell rg' r' i') : rg = rg' ∧ r = r' ∧ i = i' := by
  unfold cell at h
  rw [← Int.add_mul, ← Int.add_mul] at h
  obtain ⟨hq, rfl⟩ := mul_add_inj hi hi' h
  obtain ⟨rfl, rfl⟩ := mul_add_inj hr hr' hq
  exact ⟨rfl, rfl, rfl⟩

end GroupSizes

namespace GroupArrays

section
variable (g : GroupSizes) (rg : Int)

/-- `_mark[i] = 1` -/
def setMark (w : GroupArrays) (i : Int) : GroupArrays := { w with mark := update w.mark i 1 }

/-- `node_selection[..] = cur_match_stripe` -/
def assign (w : GroupArrays) (i cur : Int) : GroupArrays :=
  { w with nodeBelong := update w.nodeBelong (g.slot rg i) cur }

/-- The loop of `hungary` over the nodes; `rec` is the call for another stripe. -/
def scan (rec : Int → GroupArrays → Option (Bool × GroupArrays)) (cur : Int) :
    List Nat → GroupArrays → Option (Bool × GroupArrays)
  | [], w => some (false, w)
  | i :: is, w =>
    if w.bipartiteMatrix (g.cell rg cur i) = 1 ∧ w.mark i = 0 then
      let w := w.setMark i
      if w.nodeBelong (g.slot rg i) = -1 then some (true, w.assign g rg i cur)
      else do
        let (ret, w) ← rec (w.nodeBelong (g.slot rg i)) w
        if ret then some (true, w.assign g rg i cur) else scan rec cur is w
    else scan rec cur is w

/-- `hungary` -/
def hungary : Nat → Int → GroupArrays → Option (Bool × GroupArrays)
  | 0, _, _ => none
  | fuel + 1, cur, w => scan g rg (hungary fuel) cur (List.range g.numAgents) w

end

@[simp] theorem setMark_nodeBelong (w : GroupArrays) (i : Int) :
    (w.setMark i).nodeBelong = w.nodeBelong := rfl

section
variable {g : GroupSizes} {rg : Int} {rec : Int → GroupArrays → Option (Bool × GroupArrays)}
  {cur : Int} {i : Nat} {is : List Nat} {w : GroupArrays}

theorem scan_skip (h : ¬ (w.bipartiteMatrix (g.cell rg cur i) = 1 ∧ w.mark i = 0)) :
    scan g rg rec cur (i :: is) w = scan g rg rec cur is w := by
  rw [scan, if_neg h]

variable (h : w.bipartiteMatrix (g.cell rg cur i) = 1 ∧ w.mark i = 0)
include h

theorem scan_free (hfree : w.nodeBelong (g.slot rg i) = -1) :
    scan g rg rec cur (i :: is) w = some (true, (w.setMark i).assign g rg i cur) := by
  rw [scan, if_pos h]
  exact if_pos hfree

/-- The node belongs to a stripe, for which another one is looked for. -/
theorem scan_call (hfree : w.nodeBelong (g.slot rg i) ≠ -1) {ret : Bool} {w₂ : GroupArrays}
    (hcall : rec (w.nodeBelong (g.slot rg i)) (w.setMark i) = some (ret, w₂)) :
    scan g rg rec cur (i :: is) w =
      if ret then some (true, w₂.assign g rg i cur) else scan g rg rec cur is w₂ := by
  rw [scan, if_pos h]
  have hb : (w.setMark i).nodeBelong (g.slot rg i) ≠ -1 := hfree
  refine (if_neg hb).trans ?_
  rw [setMark_nodeBelong, hcall]
  rfl

end

/-- The stripes of a group and their nodes: every stripe but `cur` has all of its nodes, and no
stripe has others. -/
structure Searching (g : GroupSizes) (rg : Int) (rows : Int → List Int) (cur : Int)
    (w : GroupArrays) : Prop where
  matrix : ∀ r, g.IsRow r → ∀ i, g.IsNode i →
    (w.bipartiteMatrix (g.cell rg r i) = 1 ↔ i ∈ rows r)
  belong : ∀ i, g.IsNode i → w.nodeBelong (g.slot rg i) ≠ -1 →
    g.IsRow (w.nodeBelong (g.slot rg i)) ∧ i ∈ rows (w.nodeBelong (g.slot rg i))
  full : ∀ r, g.IsRow r → r ≠ cur → ∀ i ∈ rows r, g.IsNode i ∧ w.nodeBelong (g.slot rg i) = r

/-- How many nodes are not marked. -/
def unmarked (g : GroupSizes) (w : GroupArrays) : Nat :=
  (List.range g.numAgents).countP fun i : Nat => w.mark i = 0

/-- What a search for a node of the stripe `r` among the nodes `is` does. -/
structure Searched (g : GroupSizes) (rg : Int) (rows : Int → List Int) (r : Int) (is : List Nat)
    (w : GroupArrays) (ret : Bool) (w' : GroupArrays) : Prop where
  matrix : w'.bipartiteMatrix = w.bipartiteMatrix
  marks : ∀ i, w.mark i ≠ 0 → w'.mark i ≠ 0
  taken : ret = true → ∃ j ∈ rows r, g.IsNode j ∧ w.nodeBelong (g.slot rg j) = -1 ∧
    w'.nodeBelong = update w.nodeBelong (g.slot rg j) r
  same : ret = false → w'.nodeBelong = w.nodeBelong
  marked : ret = false → ∀ i, g.IsNode i → w'.mark i ≠ 0 →
    w.mark i ≠ 0 ∨ w.nodeBelong (g.slot rg i) ≠ -1
  none : ret = false → ∀ i ∈ is, (i : Int) ∈ rows r → w.nodeBelong (g.slot rg i) = -1 →
    w.mark i ≠ 0

section
variable {g : GroupSizes} {rg : Int} {rows : Int → List Int} {cur : Int}

theorem Searching.congr {w w' : GroupArrays} (h : Searching g rg rows cur w)
    (hm : w'.bipartiteMatrix = w.bipartiteMatrix) (hb : w'.nodeBelong = w.nodeBelong) :
    Searching g rg rows cur w' := by
  refine ⟨?_, ?_, ?_⟩
  · rw [hm]
    exact h.matrix
  · rw [hb]
    exact h.belong
  · rw [hb]
    exact h.full

theorem unmarked_le {w w' : GroupArrays} (h : ∀ i, w.mark i ≠ 0 → w'.mark i ≠ 0) :
    unmarked g w' ≤ unmarked g w := by
  refine List.countP_mono_left fun i _ hi => ?_
  rw [decide_eq_true_eq] at hi ⊢
  by_contra hne
  exact h i hne hi

/-- Marking a node. -/
theorem unmarked_setMark {w : GroupArrays} {i : Nat} (hi : i < g.numAgents) (hw : w.mark i = 0) :
    unmarked g (w.setMark i) < unmarked g w := by
  unfold unmarked
  rw [List.countP_eq_length_filter, List.countP_eq_length_filter]
  have hsub : (List.range g.numAgents).filter (fun j : Nat => (w.setMark i).mark j = 0) =
      ((List.range g.numAgents).filter fun j : Nat => w.mark j = 0).filter (· ≠ i) := by
    rw [List.filter_filter]
    refine List.filter_congr fun j _ => ?_
    by_cases hj : j = i
    · simp [hj, setMark]
    · simp [hj, setMark]
  rw [hsub]
  refine List.length_filter_lt_length_iff_exists.2 ⟨i, ?_, by simp⟩
  exact List.mem_filter.2 ⟨List.mem_range.2 hi, decide_eq_true hw⟩

/-- The nodes that are left, once the search among the first ones changed nothing. -/
theorem Searched.trans {r : Int} {i : Nat} {is : List Nat} {w w₁ w₂ : GroupArrays} {ret : Bool}
    (h : Searched g rg rows r is w₁ ret w₂) (hm : w₁.bipartiteMatrix = w.bipartiteMatrix)
    (hb : w₁.nodeBelong = w.nodeBelong) (hmarks : ∀ i, w.mark i ≠ 0 → w₁.mark i ≠ 0)
    (hnew : ∀ i, g.IsNode i → w₁.mark i ≠ 0 →
      w.mark i ≠ 0 ∨ w.nodeBelong (g.slot rg i) ≠ -1)
    (hi : g.IsNode i) (his : ∀ j ∈ is, g.IsNode j)
    (hfree : (i : Int) ∈ rows r → w.nodeBelong (g.slot rg i) = -1 → w.mark i ≠ 0) :
    Searched g rg rows r (i :: is) w ret w₂ := by
  refine ⟨h.matrix.trans hm, fun j hj => h.marks j (hmarks j hj), fun hret => ?_,
    fun hret => (h.same hret).trans hb, fun hret j hj hw => ?_, fun hret j hj hmem hfr => ?_⟩
  · obtain ⟨j, hj, hn, hfr, he⟩ := h.taken hret
    rw [hb] at hfr he
    exact ⟨j, hj, hn, hfr, he⟩
  · have := h.marked hret j hj hw
    rw [hb] at this
    rcases this with h1 | h1
    · exact hnew j hj h1
    · exact Or.inr h1
  · rcases List.mem_cons.1 hj with rfl | hj
    · exact hfree hmem hfr
    · have hmk := h.none hret j hj hmem (by rw [hb]; exact hfr)
      exact (hnew j (his j hj) hmk).resolve_right fun hne => hne hfr

/-- **The loop over the nodes**, with calls that keep to the specification. -/
theorem scan_spec {rec : Int → GroupArrays → Option (Bool × GroupArrays)} {fuel : Nat}
    (hrec : ∀ r, g.IsRow r → ∀ w, Searching g rg rows cur w → unmarked g w < fuel →
      ∃ ret w', rec r w = some (ret, w') ∧
        Searched g rg rows r (List.range g.numAgents) w ret w')
    {r : Int} (hr : g.IsRow r) {is : List Nat} (his : ∀ i ∈ is, i < g.numAgents)
    {w : GroupArrays} (hw : Searching g rg rows cur w) (hfuel : unmarked g w < fuel + 1) :
    ∃ ret w', scan g rg rec r is w = some (ret, w') ∧ Searched g rg rows r is w ret w' := by
  induction is generalizing w with
  | nil =>
    exact ⟨false, w, rfl, rfl, fun _ h => h, nofun, fun _ => rfl, fun _ i _ h => Or.inl h,
      fun _ i hi => absurd hi List.not_mem_nil⟩
  | cons i is ih =>
    have hin : g.IsNode i := ⟨by omega, by exact_mod_cast his i (List.mem_cons_self ..)⟩
    have hins : ∀ j ∈ is, g.IsNode j := fun j hj =>
      ⟨by omega, by exact_mod_cast his j (List.mem_cons_of_mem _ hj)⟩
    have ih' := fun {w} => @ih (fun j hj => his j (List.mem_cons_of_mem _ hj)) w
    by_cases hcond : w.bipartiteMatrix (g.cell rg r i) = 1 ∧ w.mark i = 0
    · have hmem : (i : Int) ∈ rows r := (hw.matrix r hr i hin).1 hcond.1
      have hmarks : ∀ j, w.mark j ≠ 0 → (w.setMark i).mark j ≠ 0 := by
        intro j hj
        unfold setMark
        by_cases hji : j = i
        · simp [hji]
        · simpa [update_of_ne hji] using hj
      by_cases hfree : w.nodeBelong (g.slot rg i) = -1
      · exact ⟨true, _, scan_free hcond hfree, rfl, hmarks,
          fun _ => ⟨i, hmem, hin, hfree, rfl⟩, nofun, nofun, nofun⟩
      obtain ⟨hrow, -⟩ := hw.belong i hin hfree
      obtain ⟨ret, w₂, hcall, hS⟩ := hrec _ hrow (w.setMark i) (hw.congr rfl rfl) (by
        have := unmarked_setMark (his i (List.mem_cons_self ..)) hcond.2
        omega)
      rw [scan_call hcond hfree hcall]
      cases ret with
      | true =>
        obtain ⟨j, hj, hjn, hjfree, hbelong⟩ := hS.taken rfl
        rw [setMark_nodeBelong] at hjfree hbelong
        -- only the stripe that is inserted has a free node
        have hcur : w.nodeBelong (g.slot rg i) = cur := by
          by_contra hne
          rw [((hw.full _ hrow hne) j hj).2] at hjfree
          exact hfree hjfree
        have hrcur : r = cur := by
          by_contra hne
          exact hne (((hw.full r hr hne) i hmem).2.symm.trans hcur)
        refine ⟨true, w₂.assign g rg i r, rfl, hS.matrix, fun k hk => hS.marks k (hmarks k hk),
          fun _ => ⟨j, ?_, hjn, hjfree, ?_⟩, nofun, nofun, nofun⟩
        · rwa [hcur, ← hrcur] at hj
        · show update w₂.nodeBelong (g.slot rg i) r = _
          rw [hbelong, hcur, ← hrcur]
          have hself : update w.nodeBelong (g.slot rg j) r (g.slot rg i) = r := by
            by_cases hij : g.slot rg i = g.slot rg j
            · rw [hij, update_self]
            · rw [update_of_ne hij, hcur, hrcur]
          exact (congrArg _ hself.symm).trans (Function.update_eq_self _ _)
      | false =>
        have hmarks₂ : ∀ k, w.mark k ≠ 0 → w₂.mark k ≠ 0 := fun k hk => hS.marks k (hmarks k hk)
        obtain ⟨ret', w', heq, hS'⟩ := ih' (hw.congr hS.matrix (hS.same rfl))
          ((unmarked_le hmarks₂).trans_lt hfuel)
        refine ⟨ret', w', heq, hS'.trans hS.matrix (hS.same rfl) hmarks₂ (fun k hk hkm => ?_) hin
          hins fun _ hfr => absurd hfr hfree⟩
        rcases hS.marked rfl k hk hkm with h | h
        · by_cases hki : k = i
          · exact Or.inr (hki ▸ hfree)
          · exact Or.inl (by simpa [setMark, update_of_ne hki] using h)
        · exact Or.inr h
    · obtain ⟨ret, w', heq, hS⟩ := ih' hw hfuel
      rw [scan_skip hcond]
      refine ⟨ret, w', heq, hS.trans rfl rfl (fun _ h => h) (fun _ _ h => Or.inl h) hin hins ?_⟩
      intro hmem _ h0
      exact hcond ⟨(hw.matrix r hr i hin).2 hmem, h0⟩

/-- **The search** for a node of the stripe that is inserted takes a free one, and says that
there is none only when none is free. -/
theorem hungary_spec {fuel : Nat} {r : Int} (hr : g.IsRow r) {w : GroupArrays}
    (hw : Searching g rg rows cur w) (hfuel : unmarked g w < fuel) :
    ∃ ret w', hungary g rg fuel r w = some (ret, w') ∧
      Searched g rg rows r (List.range g.numAgents) w ret w' := by
  induction fuel generalizing r w with
  | zero => exact absurd hfuel (Nat.not_lt_zero _)
  | succ fuel ih =>
    exact scan_spec (fun r hr w hw hf => ih hr hw hf) hr (fun i hi => List.mem_range.1 hi) hw hfuel

end

end GroupArrays

end StripeRepair

import StripeRepair.Dist.ParetoMerge
import StripeRepair.Lib.PushMap
import Mathlib

/-!
# The rounds of `genPareto`

In each round a solution of the pool is searched: all colourings with another colour for one
vertex become new solutions, which are merged into the curve, and what is dominated is deleted.

* `Merged.step`, `Merged.steps`: what merging preserves.
* `Inv.round`, `Inv.rounds`: what the rounds preserve, and why they end.
-/

namespace StripeRepair

open Linked Pareto
open Function (update update_of_ne update_self)

/-- The walks through `unordered_map`s. -/
inductive PoolWalk
  | neighbors
  | unsearched

/-- The variables of `genPareto`; of `solMap` and `unsearched` there are the keys. -/
structure ParetoSearch where
  obj : Pool
  solId : Nat
  paretoCurve : Int → Option Int
  prevCurve : Int → Option Int
  solMap : List Int
  unsearched : List Int

namespace ParetoSearch

section
variable (v m : Nat) (eval : List Nat → Nat × Nat) (ord : HashOrder PoolWalk)

/-- A solution after `evaluate`; `eval` gives `_bdwt` and `_load`. -/
def fresh (solution : List Nat) : ParetoSolution :=
  ⟨solution, (eval solution).1, (eval solution).2, false⟩

/-- `new PRSolution(SOL_ID++, ..)` and `evaluate` -/
def create (σ : ParetoSearch) (solution : List Nat) : ParetoSearch :=
  { σ with
    obj := update σ.obj σ.solId (some (fresh eval solution))
    solId := σ.solId + 1 }

/-- The variables before the first round. -/
def start (init : List Nat) : ParetoSearch where
  obj := update (fun _ => none) 0 (some (fresh eval init))
  solId := 1
  paretoCurve := update (update (fun _ => none) (-1) (some 0)) 0 (some (-2))
  prevCurve := update (update (fun _ => none) (-2) (some 0)) 0 (some (-1))
  solMap := [0]
  unsearched := [0]

/-- `sol_map[i]` -/
def find (σ : ParetoSearch) (i : Int) : Option ParetoSolution :=
  if i ∈ σ.solMap then σ.obj i else none

/-- The first solution of the curve behind `sol_id` that is not searched. -/
def findUnsearched (σ : ParetoSearch) : Nat → Int → Option (Option Int)
  | 0, _ => none
  | fuel + 1, sol_id => do
    let next ← σ.paretoCurve sol_id
    if next = -2 then some none
    else do
      let sol ← σ.find next
      if sol.searched then findUnsearched σ fuel next else some (some next)

/-- 2.1: `sol_id` -/
def pick (σ : ParetoSearch) : Option Int := do
  match ← σ.findUnsearched (σ.solId + 1) (-1) with
  | some id => some id
  | none => (ord.order .unsearched σ.unsearched).head?

/-- 2.5: what is done for one of `dropped`. -/
def drop (p : List Int × ParetoSearch) (i : Int) : List Int × ParetoSearch :=
  (p.1.filter (· ≠ i), { p.2 with
    obj := if i ∈ p.1 ∨ i ∈ p.2.solMap then update p.2.obj i none else p.2.obj
    solMap := p.2.solMap.filter (· ≠ i)
    unsearched := p.2.unsearched.filter (· ≠ i) })

/-- 2.6: what is done for one of `neighbors`. -/
def add (σ : ParetoSearch) (i : Int) : ParetoSearch :=
  { σ with unsearched := addKey σ.unsearched i, solMap := addKey σ.solMap i }

/-- 2.3: `setSearched`, and no longer in the pool. -/
def search (σ : ParetoSearch) (id : Int) (sol : ParetoSolution) : ParetoSearch :=
  { σ with
    obj := update σ.obj id (some { sol with searched := true })
    unsearched := σ.unsearched.filter (· ≠ id) }

/-- The ids of `n` new solutions. -/
def newIds (σ : ParetoSearch) (n : Nat) : List Int :=
  (List.range n).map fun k => ((σ.solId + k : Nat) : Int)

/-- 2.4: all neighbours are compared with the curve. -/
def mergeAll (σ : ParetoSearch) (ids : List Int) : Option Merge :=
  (ord.order .neighbors ids).foldlM (Merge.merge σ.obj (σ.solId + 1))
    ⟨σ.paretoCurve, σ.prevCurve, σ.solMap, []⟩

/-- 2.5 and 2.6 -/
def finish (σ : ParetoSearch) (ids : List Int) (w : Merge) : ParetoSearch :=
  let p := w.dropped.foldl drop (ids, { σ with
    paretoCurve := w.paretoCurve
    prevCurve := w.prevCurve
    solMap := w.solMap })
  p.1.foldl add p.2

/-- The body of the loop. -/
def round (σ : ParetoSearch) : Option ParetoSearch := do
  let id ← σ.pick ord
  let head ← σ.paretoCurve (-1)
  -- the loads of both are printed
  let _ ← σ.find head
  let sol ← σ.obj id
  if id ∈ σ.unsearched then
    let cs := neighbors v m sol.solution
    let ids := σ.newIds cs.length
    let σ := (cs.foldl (create eval) σ).search id sol
    (σ.mergeAll ord ids).map (σ.finish ids)
  else none

/-- `while(unsearched.size() > 0)` -/
def rounds : Nat → ParetoSearch → Option ParetoSearch
  | 0, _ => none
  | fuel + 1, σ =>
    if σ.unsearched = [] then some σ
    else do
      let σ ← round v m eval ord σ
      rounds fuel σ

/-- `load < target_load || (load == target_load && bdwt <= target_bdwt)` -/
def onTarget (sol : ParetoSolution) : Bool := sol.load < 29 || (sol.load = 29 && sol.bdwt ≤ 184)

/-- The walk along the curve at the end. -/
def findBetter (σ : ParetoSearch) : Nat → Int → Bool → Option Bool
  | 0, _, _ => none
  | fuel + 1, sol_id, found => do
    let next ← σ.paretoCurve sol_id
    if next = -2 then some found
    else do
      let sol ← σ.find next
      findBetter σ fuel next (found || onTarget sol)

end

/-! ## Merging the neighbours -/

/-- The solutions under some ids below `n` are there. -/
def Holds (obj : Pool) (n : Nat) (l : List Int) : Prop :=
  ∀ i ∈ l, 0 ≤ i ∧ i < n ∧ ∃ a, obj i = some a

/-- There are no more ids than that. -/
theorem Holds.length_le {obj : Pool} {n : Nat} {l : List Int} (h : Holds obj n l) (hd : l.Nodup) :
    l.length ≤ n := by
  have hinj : (l.map Int.toNat).Nodup := by
    refine hd.map_on fun i hi j hj hij => ?_
    have := (h i hi).1
    have := (h j hj).1
    omega
  have hsub : l.map Int.toNat ⊆ List.range n := by
    intro k hk
    obtain ⟨i, hi, rfl⟩ := List.mem_map.1 hk
    obtain ⟨h0, hlt, -⟩ := h i hi
    exact List.mem_range.2 (by omega)
  have := (List.subperm_of_subset hinj hsub).length_le
  rwa [List.length_map, List.length_range] at this

/-- The maps after the neighbours `A` were merged, with the curve `l₀` before and `l` now. -/
structure Merged (obj : Pool) (l₀ A : List Int) (w : Merge) (l : List Int) : Prop where
  chain : Chain (-1) (-2) w.paretoCurve w.prevCurve l
  nonempty : l ≠ []
  front : Front obj.point l
  sub : ∀ i ∈ l, i ∈ l₀ ++ A
  dropped : ∀ i, i ∈ w.dropped ↔ i ∈ l₀ ++ A ∧ i ∉ l
  found : ∀ i ∈ l, i ∈ w.solMap
  keys : ∀ i ∈ w.solMap, i ∈ l₀ ++ A
  covered : ∀ y, Covered obj.point l₀ y → Covered obj.point l y
  added : ∀ i ∈ A, Covered obj.point l (obj.point i)
  grows : l = l₀ ∨ ∃ i ∈ A, ¬ Covered obj.point l₀ (obj.point i)

section
variable {obj : Pool} {l₀ A l : List Int} {w : Merge} {n : Nat}

theorem Merged.live (hM : Merged obj l₀ A w l) (hH : Holds obj n (l₀ ++ A)) :
    Merge.Live obj w l := by
  intro i hi
  obtain ⟨h0, -, b, hb⟩ := hH i (hM.sub i hi)
  exact ⟨by omega, b, (if_pos (hM.found i hi)).trans hb⟩

/-- **One neighbour is merged.** -/
theorem Merged.step (hM : Merged obj l₀ A w l) {alpha : Int} (hnew : alpha ∉ l₀ ++ A)
    (hH : Holds obj n (l₀ ++ (A ++ [alpha]))) :
    ∃ w' l', Merge.merge obj (n + 1) w alpha = some w' ∧
      Merged obj l₀ (A ++ [alpha]) w' l' := by
  have hmem : ∀ i, i ∈ l₀ ++ (A ++ [alpha]) ↔ i ∈ l₀ ++ A ∨ i = alpha := by
    intro i
    simp only [List.mem_append, List.mem_singleton, or_assoc]
  have hHA : Holds obj n (l₀ ++ A) := fun i hi => hH i ((hmem i).2 (Or.inl hi))
  obtain ⟨h0, -, a, ha⟩ := hH alpha ((hmem _).2 (Or.inr rfl))
  have hpoint := Pool.point_eq ha
  have hlive := hM.live hHA
  have hd : l.Nodup := (List.nodup_append.1 (List.nodup_cons.1 hM.chain.nodup).2).1
  have hfuel : l.length < n + 1 :=
    Nat.lt_succ_of_le (Holds.length_le (fun i hi => hHA i (hM.sub i hi)) hd)
  have halpha : alpha ∉ l := fun h => hnew (hM.sub alpha h)
  by_cases hc : Covered obj.point l a.point
  · refine ⟨_, l, Merge.merge_covered ha _ hM.chain hlive hM.front hc hfuel, hM.chain, hM.nonempty,
      hM.front, fun i hi => (hmem i).2 (Or.inl (hM.sub i hi)), fun i => ?_, hM.found,
      fun i hi => (hmem i).2 (Or.inl (hM.keys i hi)), hM.covered, ?_, ?_⟩
    · show i ∈ w.dropped ++ [alpha] ↔ _
      rw [List.mem_append, List.mem_singleton, hM.dropped i, hmem]
      constructor
      · rintro (⟨hi, hil⟩ | rfl)
        · exact ⟨Or.inl hi, hil⟩
        · exact ⟨Or.inr rfl, halpha⟩
      · rintro ⟨hi | rfl, hil⟩
        · exact Or.inl ⟨hi, hil⟩
        · exact Or.inr rfl
    · intro i hi
      rcases List.mem_append.1 hi with hi | hi
      · exact hM.added i hi
      · rw [List.mem_singleton.1 hi, hpoint]
        exact hc
    · rcases hM.grows with h | ⟨i, hi, h⟩
      · exact Or.inl h
      · exact Or.inr ⟨i, List.mem_append_left _ hi, h⟩
  · have hends : alpha ∉ -1 :: (l ++ [-2]) := by
      simp only [List.mem_cons, List.mem_append, List.not_mem_nil, or_false, not_or]
      exact ⟨by omega, halpha, by omega⟩
    obtain ⟨pre, mid, post, w', rfl, hleft, hunder, hright, hw', hC', hsol, hdrop⟩ :=
      Merge.merge_enters ha _ hM.chain hlive hM.front hc hM.nonempty hends hfuel
    rw [← hpoint] at hleft hunder hright hc
    have hstay : ∀ i, i ∈ pre ++ alpha :: post ↔ i = alpha ∨ i ∈ pre ++ mid ++ post ∧ i ∉ mid := by
      intro i
      simp only [List.nodup_append, List.mem_append, List.mem_cons] at hd halpha ⊢
      grind
    have hcov : ∀ y, Covered obj.point (pre ++ mid ++ post) y →
        Covered obj.point (pre ++ alpha :: post) y := fun y hy =>
      hy.replace fun i hi => (hunder i hi).le
    refine ⟨w', pre ++ alpha :: post, hw', hC', by simp, hM.front.replace hleft hright, ?_, ?_, ?_,
      ?_, fun y hy => hcov y (hM.covered y hy), ?_, Or.inr ⟨alpha, by simp, fun h =>
        hc (hM.covered _ h)⟩⟩
    · intro i hi
      rcases (hstay i).1 hi with rfl | ⟨hi, -⟩
      · exact (hmem _).2 (Or.inr rfl)
      · exact (hmem i).2 (Or.inl (hM.sub i hi))
    · intro i
      rw [hdrop, List.mem_append, hM.dropped i, hstay, hmem]
      have hsub := hM.sub i
      have hnotin := hM.sub alpha
      constructor
      · rintro (⟨hi, hil⟩ | hi)
        · refine ⟨Or.inl hi, ?_⟩
          rintro (rfl | ⟨h, -⟩)
          · exact hnew hi
          · exact hil h
        · have hil : i ∈ pre ++ mid ++ post := by simp [hi]
          refine ⟨Or.inl (hsub hil), ?_⟩
          rintro (rfl | ⟨-, h⟩)
          · exact halpha hil
          · exact h hi
      · rintro ⟨hi | rfl, h⟩
        · by_cases him : i ∈ mid
          · exact Or.inr him
          · exact Or.inl ⟨hi, fun hil => h (Or.inr ⟨hil, him⟩)⟩
        · exact absurd (Or.inl rfl) h
    · intro i hi
      rw [hsol, mem_addKey]
      rcases (hstay i).1 hi with rfl | ⟨hi, -⟩
      · exact Or.inl rfl
      · exact Or.inr (hM.found i hi)
    · intro i hi
      rw [hsol, mem_addKey] at hi
      rw [hmem]
      rcases hi with rfl | hi
      · exact Or.inr rfl
      · exact Or.inl (hM.keys i hi)
    · intro i hi
      rcases List.mem_append.1 hi with hi | hi
      · exact hcov _ (hM.added i hi)
      · rw [List.mem_singleton.1 hi]
        exact covered_self pre post alpha

/-- **All neighbours are merged.** -/
theorem Merged.steps (hM : Merged obj l₀ A w l) {as : List Int} (hd : (l₀ ++ (A ++ as)).Nodup)
    (hH : Holds obj n (l₀ ++ (A ++ as))) :
    ∃ w' l', as.foldlM (Merge.merge obj (n + 1)) w = some w' ∧ Merged obj l₀ (A ++ as) w' l' := by
  induction as generalizing A w l with
  | nil =>
    rw [List.append_nil]
    exact ⟨w, l, rfl, hM⟩
  | cons alpha as ih =>
    have hsplit : l₀ ++ (A ++ alpha :: as) = l₀ ++ (A ++ [alpha] ++ as) := by simp
    rw [hsplit] at hd hH
    have hnew : alpha ∉ l₀ ++ A := by
      simp only [List.nodup_append, List.mem_append] at hd ⊢
      grind
    obtain ⟨w₁, l₁, hw₁, hM₁⟩ := hM.step hnew fun i hi => hH i (by
      simp only [List.mem_append] at hi ⊢
      tauto)
    obtain ⟨w', l', hw', hM'⟩ := ih hM₁ hd hH
    refine ⟨w', l', ?_, by simpa using hM'⟩
    rw [List.foldlM_cons, hw₁]
    exact hw'

end

/-! ## What a round does to the solutions -/

section
variable (eval : List Nat → Nat × Nat)

theorem mem_newIds {σ : ParetoSearch} {n : Nat} {i : Int} :
    i ∈ σ.newIds n ↔ ∃ k < n, i = ((σ.solId + k : Nat) : Int) := by
  unfold newIds
  rw [List.mem_map]
  refine exists_congr fun k => ?_
  rw [List.mem_range, eq_comm]

theorem nodup_newIds (σ : ParetoSearch) (n : Nat) : (σ.newIds n).Nodup := by
  refine List.nodup_range.map fun a b h => ?_
  have h : ((σ.solId + a : Nat) : Int) = ((σ.solId + b : Nat) : Int) := h
  omega

/-- The neighbours that are created. -/
theorem foldl_create (cs : List (List Nat)) (σ : ParetoSearch) :
    (∀ i : Int, i < σ.solId → (cs.foldl (create eval) σ).obj i = σ.obj i) ∧
      (∀ (k : Nat) (h : k < cs.length), (cs.foldl (create eval) σ).obj ((σ.solId + k : Nat) : Int) =
        some (fresh eval (cs.get ⟨k, h⟩))) ∧
      cs.foldl (create eval) σ =
        { σ with
          obj := (cs.foldl (create eval) σ).obj
          solId := σ.solId + cs.length } := by
  induction cs generalizing σ with
  | nil => exact ⟨fun i _ => rfl, fun k h => absurd h (Nat.not_lt_zero k), rfl⟩
  | cons c cs ih =>
    obtain ⟨hold, hnew, heq⟩ := ih (create eval σ c)
    have hid : (create eval σ c).solId = σ.solId + 1 := rfl
    rw [hid] at hold hnew
    refine ⟨fun i hi => ?_, fun k hk => ?_, ?_⟩
    · rw [List.foldl_cons, hold i (by omega)]
      exact update_of_ne (by omega) _ _
    · cases k with
      | zero =>
        rw [List.foldl_cons, hold _ (by omega)]
        exact update_self ..
      | succ k =>
        have := hnew k (Nat.lt_of_succ_lt_succ hk)
        rw [Nat.add_right_comm] at this
        exact this
    · rw [List.foldl_cons, heq, List.length_cons]
      simp only [create, Nat.add_right_comm σ.solId 1 cs.length, Nat.add_assoc]

/-- The solutions that are dropped. -/
theorem foldl_drop (dropped ids : List Int) (σ : ParetoSearch) :
    dropped.foldl drop (ids, σ) = (ids.filter (· ∉ dropped), { σ with
      obj := (dropped.foldl drop (ids, σ)).2.obj
      solMap := σ.solMap.filter (· ∉ dropped)
      unsearched := σ.unsearched.filter (· ∉ dropped) }) ∧
    ∀ i ∉ dropped, (dropped.foldl drop (ids, σ)).2.obj i = σ.obj i := by
  induction dropped generalizing ids σ with
  | nil => simp
  | cons d dropped ih =>
    obtain ⟨heq, hobj⟩ := ih (ids.filter (· ≠ d)) (drop (ids, σ) d).2
    have hfilter : ∀ l : List Int, (l.filter (· ≠ d)).filter (· ∉ dropped) =
        l.filter (· ∉ d :: dropped) := by
      intro l
      rw [List.filter_filter]
      refine List.filter_congr fun i _ => ?_
      simp [Bool.and_comm]
    refine ⟨?_, fun i hi => ?_⟩
    · rw [List.foldl_cons]
      refine heq.trans ?_
      rw [← hfilter, ← hfilter, ← hfilter]
      rfl
    · obtain ⟨hid, hi⟩ := List.ne_and_not_mem_of_not_mem_cons hi
      rw [List.foldl_cons]
      refine (hobj i hi).trans ?_
      show (if d ∈ ids ∨ d ∈ σ.solMap then update σ.obj d none else σ.obj) i = σ.obj i
      split
      · exact update_of_ne hid _ _
      · rfl

/-- The neighbours that are left. -/
theorem foldl_add (ids : List Int) (σ : ParetoSearch) :
    ids.foldl add σ = { σ with
      solMap := (ids.foldl add σ).solMap
      unsearched := (ids.foldl add σ).unsearched } ∧
    (∀ i, i ∈ (ids.foldl add σ).solMap ↔ i ∈ σ.solMap ∨ i ∈ ids) ∧
    ∀ i, i ∈ (ids.foldl add σ).unsearched ↔ i ∈ σ.unsearched ∨ i ∈ ids := by
  induction ids generalizing σ with
  | nil => simp
  | cons d ids ih =>
    obtain ⟨heq, hsol, hun⟩ := ih (add σ d)
    have hmem : ∀ (keys : List Int) (i : Int), i ∈ addKey keys d ∨ i ∈ ids ↔
        i ∈ keys ∨ i ∈ d :: ids := by
      intro keys i
      rw [mem_addKey, List.mem_cons]
      tauto
    exact ⟨heq, fun i => (hsol i).trans (hmem _ _), fun i => (hun i).trans (hmem _ _)⟩

/-- The variables at the end of a round. -/
theorem finish_spec (σ : ParetoSearch) (ids : List Int) (w : Merge) :
    (σ.finish ids w).paretoCurve = w.paretoCurve ∧ (σ.finish ids w).prevCurve = w.prevCurve ∧
      (σ.finish ids w).solId = σ.solId ∧
      (∀ i ∉ w.dropped, (σ.finish ids w).obj i = σ.obj i) ∧
      (∀ i, i ∈ (σ.finish ids w).solMap ↔ i ∉ w.dropped ∧ (i ∈ w.solMap ∨ i ∈ ids)) ∧
      (∀ i, i ∈ (σ.finish ids w).unsearched ↔ i ∉ w.dropped ∧ (i ∈ σ.unsearched ∨ i ∈ ids)) ∧
      ((∀ i ∈ ids, i ∈ w.dropped) →
        (σ.finish ids w).unsearched.length ≤ σ.unsearched.length) := by
  obtain ⟨hdrop, hkeep⟩ := foldl_drop w.dropped ids
    ⟨σ.obj, σ.solId, w.paretoCurve, w.prevCurve, w.solMap, σ.unsearched⟩
  unfold finish
  simp only
  generalize w.dropped.foldl drop (ids,
    ⟨σ.obj, σ.solId, w.paretoCurve, w.prevCurve, w.solMap, σ.unsearched⟩) = p at hdrop hkeep ⊢
  obtain ⟨ids', τ⟩ := p
  obtain ⟨rfl, hτ⟩ := Prod.mk.inj hdrop
  obtain ⟨hadd, hsolMap, hpool⟩ := foldl_add (ids.filter (· ∉ w.dropped)) τ
  refine ⟨?_, ?_, ?_, fun i hi => ?_, fun i => ?_, fun i => ?_, fun hall => ?_⟩
  · rw [hadd, hτ]
  · rw [hadd, hτ]
  · rw [hadd, hτ]
  · rw [hadd]
    exact hkeep i hi
  · rw [hsolMap, hτ]
    simp only [List.mem_filter, decide_eq_true_eq]
    tauto
  · rw [hpool, hτ]
    simp only [List.mem_filter, decide_eq_true_eq]
    tauto
  · have hnil : ids.filter (· ∉ w.dropped) = [] := by
      refine List.filter_eq_nil_iff.2 fun i hi => ?_
      simpa using hall i hi
    rw [hnil, List.foldl_nil, hτ]
    exact List.length_filter_le ..

end

/-! ## The rounds -/

section
variable (v m : Nat) (eval : List Nat → Nat × Nat)

/-- The point of a colouring. -/
def pointOf (c : List Nat) : Nat × Nat := (fresh eval c).point

/-- What holds after each round, with the ids of the curve. -/
structure Inv (σ : ParetoSearch) (l : List Int) : Prop where
  chain : Chain (-1) (-2) σ.paretoCurve σ.prevCurve l
  nonempty : l ≠ []
  front : Front σ.obj.point l
  solMap : ∀ i, i ∈ σ.solMap ↔ i ∈ l
  listed : ∀ i ∈ l, 0 ≤ i ∧ i < σ.solId ∧ ∃ s, σ.obj i = some s ∧ Colors v m s.solution ∧
    s.point = pointOf eval s.solution
  unsearched : ∀ i, i ∈ σ.unsearched ↔ i ∈ l ∧ ∃ s, σ.obj i = some s ∧ s.searched = false
  searched : ∀ i ∈ l, ∀ s, σ.obj i = some s → s.searched = true →
    ∀ c ∈ neighbors v m s.solution, Covered σ.obj.point l (pointOf eval c)

variable {v m eval} {σ : ParetoSearch} {l : List Int}

theorem Inv.find (hI : Inv v m eval σ l) {i : Int} (hi : i ∈ l) : σ.find i = σ.obj i :=
  if_pos ((hI.solMap i).2 hi)

theorem Inv.holds (hI : Inv v m eval σ l) : Holds σ.obj σ.solId l := by
  intro i hi
  obtain ⟨h0, hlt, s, hs, -⟩ := hI.listed i hi
  exact ⟨h0, hlt, s, hs⟩

theorem Inv.nodup (hI : Inv v m eval σ l) : l.Nodup :=
  (List.nodup_append.1 (List.nodup_cons.1 hI.chain.nodup).2).1

/-- The walk along the rest of the curve. -/
theorem Inv.findUnsearched (hI : Inv v m eval σ l) {x : Int} {rest : List Int}
    (hpath : Path σ.paretoCurve x (rest ++ [-2])) (hrest : ∀ i ∈ rest, i ∈ l) {fuel : Nat}
    (hfuel : rest.length < fuel) :
    (∃ i ∈ rest, ∃ s, σ.obj i = some s ∧ s.searched = false ∧
      σ.findUnsearched fuel x = some (some i)) ∨
    (σ.findUnsearched fuel x = some none ∧
      ∀ i ∈ rest, ∃ s, σ.obj i = some s ∧ s.searched = true) := by
  induction rest generalizing x fuel with
  | nil =>
    obtain ⟨f, rfl⟩ : ∃ f, fuel = f + 1 := ⟨fuel - 1, by omega⟩
    have hx : σ.paretoCurve x = some (-2) := hpath.1
    refine Or.inr ⟨?_, fun i hi => absurd hi List.not_mem_nil⟩
    simp [ParetoSearch.findUnsearched, hx]
  | cons b rest ih =>
    obtain ⟨f, rfl⟩ : ∃ f, fuel = f + 1 := ⟨fuel - 1, by omega⟩
    obtain ⟨hx, hpath⟩ := hpath
    have hb := hrest b (List.mem_cons_self ..)
    obtain ⟨h0, -, s, hs, -⟩ := hI.listed b hb
    unfold ParetoSearch.findUnsearched
    rw [hx]
    simp only [Option.bind_eq_bind, Option.bind_some]
    rw [if_neg (by omega), hI.find hb, hs]
    simp only [Option.bind_some]
    by_cases hsearched : s.searched = true
    · rw [if_pos hsearched]
      rcases ih hpath (fun i hi => hrest i (List.mem_cons_of_mem _ hi))
        (Nat.lt_of_succ_lt_succ hfuel) with ⟨i, hi, t, ht, hun, hf⟩ | ⟨hf, hall⟩
      · exact Or.inl ⟨i, List.mem_cons_of_mem _ hi, t, ht, hun, hf⟩
      · refine Or.inr ⟨hf, fun i hi => ?_⟩
        rcases List.mem_cons.1 hi with rfl | hi
        · exact ⟨s, hs, hsearched⟩
        · exact hall i hi
    · rw [if_neg hsearched]
      exact Or.inl ⟨b, List.mem_cons_self .., s, hs, by simpa using hsearched, rfl⟩

/-- **The solution that is searched** is on the curve. -/
theorem Inv.pick (hI : Inv v m eval σ l) (ord : HashOrder PoolWalk) (hne : σ.unsearched ≠ []) :
    ∃ i ∈ l, ∃ s, σ.obj i = some s ∧ s.searched = false ∧ σ.pick ord = some i := by
  unfold ParetoSearch.pick
  rcases hI.findUnsearched hI.chain.links.path (fun i hi => hi)
    (Nat.lt_succ_of_le (hI.holds.length_le hI.nodup)) with ⟨i, hi, s, hs, hun, hf⟩ | ⟨hf, hall⟩
  · refine ⟨i, hi, s, hs, hun, ?_⟩
    rw [hf]
    rfl
  · obtain ⟨i, hi⟩ := List.exists_mem_of_ne_nil _ hne
    obtain ⟨hil, s, hs, hun⟩ := (hI.unsearched i).1 hi
    obtain ⟨t, ht, hsearched⟩ := hall i hil
    obtain rfl := Option.some.inj (hs.symm.trans ht)
    rw [hun] at hsearched
    cases hsearched

/-- The solutions before the neighbours are merged. -/
structure Created (m : Nat) (eval : List Nat → Nat × Nat) (σ : ParetoSearch) (id : Int)
    (sol : ParetoSolution) (cs : List (List Nat)) (l : List Int) (obj : Pool) : Prop where
  old : ∀ i ∈ l, i ≠ id → obj i = σ.obj i
  picked : obj id = some { sol with searched := true }
  new : ∀ i ∈ σ.newIds cs.length, ∃ c ∈ cs, obj i = some (fresh eval c)
  all : ∀ c ∈ cs, ∃ i ∈ σ.newIds cs.length, obj i = some (fresh eval c)

theorem Inv.created (hI : Inv v m eval σ l) {id : Int} (hid : id ∈ l) (sol : ParetoSolution)
    (cs : List (List Nat)) :
    Created m eval σ id sol cs l ((cs.foldl (create eval) σ).search id sol).obj := by
  obtain ⟨hold, hnew, -⟩ := foldl_create eval cs σ
  have hlt := (hI.listed id hid).2.1
  have hget : ∀ k (h : k < cs.length),
      ((cs.foldl (create eval) σ).search id sol).obj ((σ.solId + k : Nat) : Int) =
        some (fresh eval (cs.get ⟨k, h⟩)) := fun k h =>
    (update_of_ne (by omega) _ _).trans (hnew k h)
  refine ⟨fun i hi hne => ?_, update_self .., fun i hi => ?_, fun c hc => ?_⟩
  · exact (update_of_ne hne _ _).trans (hold i (hI.listed i hi).2.1)
  · obtain ⟨k, hk, rfl⟩ := mem_newIds.1 hi
    exact ⟨_, List.get_mem cs ⟨k, hk⟩, hget k hk⟩
  · obtain ⟨k, rfl⟩ := List.get_of_mem hc
    exact ⟨_, mem_newIds.2 ⟨k, k.2, rfl⟩, hget k k.2⟩

/-- A round as its parts. -/
theorem Inv.round_eq (hI : Inv v m eval σ l) (ord : HashOrder PoolWalk) {id : Int}
    {sol : ParetoSolution} (hid : id ∈ l) (hs : σ.obj id = some sol) (hun : sol.searched = false)
    (hpick : σ.pick ord = some id) : round v m eval ord σ =
      ((((neighbors v m sol.solution).foldl (create eval) σ).search id sol).mergeAll ord
        (σ.newIds (neighbors v m sol.solution).length)).map
          ((((neighbors v m sol.solution).foldl (create eval) σ).search id sol).finish
            (σ.newIds (neighbors v m sol.solution).length)) := by
  obtain ⟨b, rest, hl⟩ := List.exists_cons_of_ne_nil hI.nonempty
  have hlinks := hI.chain.links
  rw [hl] at hlinks
  have hb : b ∈ l := hl ▸ List.mem_cons_self ..
  obtain ⟨-, -, t, ht, -⟩ := hI.listed b hb
  have hmem : id ∈ σ.unsearched := (hI.unsearched id).2 ⟨hid, sol, hs, hun⟩
  have hfind : σ.find b = some t := (hI.find hb).trans ht
  rw [ParetoSearch.round, hpick]
  simp only [Option.bind_eq_bind, Option.bind_some, hlinks.1, hfind, hs, if_pos hmem]

/-- The points of the curve before the neighbours are merged. -/
theorem Created.point_eq {id : Int} {sol : ParetoSolution} {cs : List (List Nat)} {obj : Pool}
    (hC : Created m eval σ id sol cs l obj) (hs : σ.obj id = some sol) {i : Int} (hi : i ∈ l) :
    obj.point i = σ.obj.point i := by
  by_cases hne : i = id
  · subst hne
    rw [Pool.point_eq hC.picked, Pool.point_eq hs]
    rfl
  · unfold Pool.point
    rw [hC.old i hi hne]

/-- **All neighbours are merged** in a round. -/
theorem Inv.mergeAll (hI : Inv v m eval σ l) (ord : HashOrder PoolWalk) {id : Int}
    {sol : ParetoSolution} (hs : σ.obj id = some sol) {cs : List (List Nat)} {τ : ParetoSearch}
    (hτ : τ = (cs.foldl (create eval) σ).search id sol)
    (hC : Created m eval σ id sol cs l τ.obj) :
    ∃ w l', τ.mergeAll ord (σ.newIds cs.length) = some w ∧
      Merged τ.obj l (ord.order .neighbors (σ.newIds cs.length)) w l' := by
  obtain ⟨-, -, heq⟩ := foldl_create eval cs σ
  have hperm := ord.perm .neighbors (σ.newIds cs.length)
  have hsolId : τ.solId = σ.solId + cs.length := by
    rw [hτ, heq]
    rfl
  have hpoint : ∀ i ∈ l, τ.obj.point i = σ.obj.point i := fun i hi => hC.point_eq hs hi
  have hM : Merged τ.obj l [] ⟨σ.paretoCurve, σ.prevCurve, σ.solMap, []⟩ l := by
    refine ⟨hI.chain, hI.nonempty, (front_congr hpoint).2 hI.front, fun i hi => by simpa using hi,
      fun i => ?_, fun i hi => (hI.solMap i).2 hi,
      fun i hi => List.mem_append_left _ ((hI.solMap i).1 hi), fun y hy => hy,
      fun i hi => absurd hi List.not_mem_nil, Or.inl rfl⟩
    simp
  have hd : (l ++ ([] ++ ord.order .neighbors (σ.newIds cs.length))).Nodup := by
    refine List.nodup_append.2 ⟨hI.nodup, hperm.nodup_iff.2 (nodup_newIds σ _), ?_⟩
    rintro i hi j hj rfl
    obtain ⟨k, -, rfl⟩ := mem_newIds.1 (hperm.mem_iff.1 hj)
    have := (hI.listed _ hi).2.1
    omega
  have hH : Holds τ.obj (σ.solId + cs.length)
      (l ++ ([] ++ ord.order .neighbors (σ.newIds cs.length))) := by
    intro i hi
    rcases List.mem_append.1 hi with hi | hi
    · obtain ⟨h0, hlt, s, hs, -⟩ := hI.listed i hi
      refine ⟨h0, by omega, ?_⟩
      by_cases hne : i = id
      · exact ⟨_, hne ▸ hC.picked⟩
      · exact ⟨s, (hC.old i hi hne).trans hs⟩
    · have hi := hperm.mem_iff.1 hi
      obtain ⟨c, -, hc⟩ := hC.new i hi
      obtain ⟨k, hk, rfl⟩ := mem_newIds.1 hi
      exact ⟨by omega, by omega, _, hc⟩
  obtain ⟨w, l', hw, hM'⟩ := hM.steps hd hH
  refine ⟨w, l', ?_, hM'⟩
  rw [ParetoSearch.mergeAll, hsolId, ← hw, hτ, heq]
  rfl

/-- The solutions of the curve after a round. -/
theorem Created.cases {id : Int} {sol : ParetoSolution} {cs : List (List Nat)} {obj : Pool}
    (hC : Created m eval σ id sol cs l obj) {i : Int}
    (hi : i ∈ l ∨ i ∈ σ.newIds cs.length) :
    (i ∈ l ∧ i ≠ id ∧ obj i = σ.obj i) ∨ (i = id ∧ obj i = some { sol with searched := true }) ∨
      (i ∈ σ.newIds cs.length ∧ ∃ c ∈ cs, obj i = some (fresh eval c)) := by
  rcases hi with hi | hi
  · by_cases hne : i = id
    · exact Or.inr (Or.inl ⟨hne, hne ▸ hC.picked⟩)
    · exact Or.inl ⟨hi, hne, hC.old i hi hne⟩
  · exact Or.inr (Or.inr ⟨hi, hC.new i hi⟩)

/-- The solutions of the curve `l'` after a round. -/
structure After (m : Nat) (eval : List Nat → Nat × Nat) (σ σ' : ParetoSearch) (id : Int)
    (sol : ParetoSolution) (cs : List (List Nat)) (l l' : List Int) : Prop where
  cases : ∀ i ∈ l', (i ∈ l ∧ i ≠ id ∧ σ'.obj i = σ.obj i) ∨
    (i = id ∧ σ'.obj i = some { sol with searched := true }) ∨
    (i ∈ σ.newIds cs.length ∧ ∃ c ∈ cs, σ'.obj i = some (fresh eval c))
  front : Front σ'.obj.point l'
  covered : ∀ y, Covered σ.obj.point l y → Covered σ'.obj.point l' y
  new : ∀ c ∈ cs, Covered σ'.obj.point l' (pointOf eval c)
  grows : l' = l ∨ ∃ c ∈ cs, ¬ Covered σ.obj.point l (pointOf eval c)

section
variable {σ' : ParetoSearch} {id : Int} {sol : ParetoSolution} {cs : List (List Nat)} {w : Merge}
  {l' as : List Int} {obj : Pool} (hI : Inv v m eval σ l) (hid : id ∈ l)
  (has : ∀ i, i ∈ as ↔ i ∈ σ.newIds cs.length) (hM : Merged obj l as w l')

include has hM in
theorem Created.after (hC : Created m eval σ id sol cs l obj) (hs : σ.obj id = some sol)
    (hobj : ∀ i ∉ w.dropped, σ'.obj i = obj i) : After m eval σ σ' id sol cs l l' := by
  have hsame : ∀ i ∈ l', σ'.obj i = obj i := fun i hi =>
    hobj i fun hd => ((hM.dropped i).1 hd).2 hi
  have hpoint : ∀ i ∈ l', σ'.obj.point i = obj.point i := by
    intro i hi
    unfold Pool.point
    rw [hsame i hi]
  refine ⟨fun i hi => ?_, (front_congr hpoint).2 hM.front, fun y hy => ?_, fun c hc => ?_, ?_⟩
  · rw [hsame i hi]
    have := hM.sub i hi
    rw [List.mem_append, has] at this
    exact hC.cases this
  · rw [covered_congr hpoint]
    refine hM.covered y ?_
    rwa [covered_congr fun i hi => hC.point_eq hs hi]
  · obtain ⟨i, hi, hci⟩ := hC.all c hc
    rw [covered_congr hpoint, pointOf, ← Pool.point_eq hci]
    exact hM.added i ((has i).2 hi)
  · rcases hM.grows with h | ⟨i, hi, hnot⟩
    · exact Or.inl h
    · obtain ⟨c, hc, he⟩ := hC.new i ((has i).1 hi)
      rw [Pool.point_eq he, covered_congr fun i hi => hC.point_eq hs hi] at hnot
      exact Or.inr ⟨c, hc, hnot⟩

include has hM in
/-- What is left of the keys and the neighbours are the ids of the curve. -/
theorem Merged.mem_solMap (i : Int) :
    i ∉ w.dropped ∧ (i ∈ w.solMap ∨ i ∈ σ.newIds cs.length) ↔ i ∈ l' := by
  constructor
  · rintro ⟨hd, hi⟩
    by_contra hil
    refine hd ((hM.dropped i).2 ⟨?_, hil⟩)
    rcases hi with hi | hi
    · exact hM.keys i hi
    · exact List.mem_append_right _ ((has i).2 hi)
  · exact fun hi => ⟨fun hd => ((hM.dropped i).1 hd).2 hi, Or.inl (hM.found i hi)⟩

include hI in
/-- A new id is not in use. -/
theorem Inv.not_mem_newIds {i : Int} (hi : i ∈ l) : i ∉ σ.newIds cs.length := by
  intro h
  obtain ⟨k, -, rfl⟩ := mem_newIds.1 h
  have := (hI.listed _ hi).2.1
  omega

include hI hid has hM in
/-- What is left of the pool and the neighbours are the unsearched solutions of the curve. -/
theorem After.mem_unsearched (hA : After m eval σ σ' id sol cs l l') (i : Int) :
    i ∉ w.dropped ∧ (i ∈ σ.unsearched ∧ i ≠ id ∨ i ∈ σ.newIds cs.length) ↔
      i ∈ l' ∧ ∃ s, σ'.obj i = some s ∧ s.searched = false := by
  constructor
  · rintro ⟨hd, hi⟩
    have hil : i ∈ l' := by
      by_contra hil
      refine hd ((hM.dropped i).2 ⟨?_, hil⟩)
      rcases hi with ⟨hi, -⟩ | hi
      · exact List.mem_append_left _ ((hI.unsearched i).1 hi).1
      · exact List.mem_append_right _ ((has i).2 hi)
    refine ⟨hil, ?_⟩
    rcases hA.cases i hil with ⟨hi', hne, he⟩ | ⟨rfl, he⟩ | ⟨-, c, hc, he⟩
    · rw [he]
      rcases hi with ⟨hi, -⟩ | hi
      · exact ((hI.unsearched i).1 hi).2
      · exact absurd hi (hI.not_mem_newIds hi')
    · rcases hi with ⟨-, hi⟩ | hi
      · exact absurd rfl hi
      · exact absurd hi (hI.not_mem_newIds hid)
    · exact ⟨_, he, rfl⟩
  · rintro ⟨hil, s, hsi, hfalse⟩
    refine ⟨fun hd => ((hM.dropped i).1 hd).2 hil, ?_⟩
    rcases hA.cases i hil with ⟨hi', hne, he⟩ | ⟨rfl, he⟩ | ⟨hin, -, -, -⟩
    · exact Or.inl ⟨(hI.unsearched i).2 ⟨hi', s, he.symm.trans hsi, hfalse⟩, hne⟩
    · obtain rfl := Option.some.inj (he.symm.trans hsi)
      cases hfalse
    · exact Or.inr hin

end

/-- **One round** keeps the invariant. What was dominated stays dominated, and either there is
more of it or the pool is smaller. -/
theorem Inv.round (hI : Inv v m eval σ l) (ord : HashOrder PoolWalk) (hne : σ.unsearched ≠ []) :
    ∃ σ' l', round v m eval ord σ = some σ' ∧ Inv v m eval σ' l' ∧
      (∀ y, Covered σ.obj.point l y → Covered σ'.obj.point l' y) ∧
      (σ'.unsearched.length < σ.unsearched.length ∨
        ∃ c, Colors v m c ∧ ¬ Covered σ.obj.point l (pointOf eval c) ∧
          Covered σ'.obj.point l' (pointOf eval c)) := by
  obtain ⟨id, hid, sol, hs, hun, hpick⟩ := hI.pick ord hne
  obtain ⟨h0, hlt, t, ht, hcolors, hsolpoint⟩ := hI.listed id hid
  obtain rfl := Option.some.inj (hs.symm.trans ht)
  have hround := hI.round_eq ord hid hs hun hpick
  have hC := hI.created hid sol (neighbors v m sol.solution)
  have hcs : ∀ c ∈ neighbors v m sol.solution, Colors v m c := fun c hc => hcolors.neighbor hc
  obtain ⟨-, -, heq⟩ := foldl_create eval (neighbors v m sol.solution) σ
  generalize hcsdef : neighbors v m sol.solution = cs at *
  generalize hτ : (cs.foldl (create eval) σ).search id sol = τ at *
  have hτpool : τ.unsearched = σ.unsearched.filter (· ≠ id) := by
    rw [← hτ, heq]
    rfl
  have hτid : τ.solId = σ.solId + cs.length := by
    rw [← hτ, heq]
    rfl
  obtain ⟨w, l', hw, hM⟩ := hI.mergeAll ord hs hτ.symm hC
  have has : ∀ i, i ∈ ord.order .neighbors (σ.newIds cs.length) ↔ i ∈ σ.newIds cs.length :=
    fun i => HashOrder.mem_order ..
  rw [hw, Option.map_some] at hround
  obtain ⟨hnext, hprev, hsolId, hobj, hsolMap, hpool, hshorter⟩ :=
    finish_spec τ (σ.newIds cs.length) w
  generalize τ.finish (σ.newIds cs.length) w = σ' at *
  have hA := hC.after has hM hs hobj
  refine ⟨σ', l', hround, ⟨?_, hM.nonempty, hA.front,
    fun i => (hsolMap i).trans (hM.mem_solMap has i), fun i hi => ?_, fun i => ?_,
    fun i hi s hsi hsearched c hc => ?_⟩, hA.covered, ?_⟩
  · rw [hnext, hprev]
    exact hM.chain
  · rw [hsolId, hτid]
    rcases hA.cases i hi with ⟨hil, -, he⟩ | ⟨rfl, he⟩ | ⟨hin, c, hc, he⟩
    · obtain ⟨h0, hlt, s, hs, hcol, hpt⟩ := hI.listed i hil
      exact ⟨h0, by omega, s, he.trans hs, hcol, hpt⟩
    · exact ⟨h0, by omega, _, he, hcolors, hsolpoint⟩
    · obtain ⟨k, hk, rfl⟩ := mem_newIds.1 hin
      exact ⟨by omega, by omega, _, he, hcs c hc, rfl⟩
  · rw [← hA.mem_unsearched hI hid has hM i, hpool i, hτpool, List.mem_filter, decide_eq_true_eq]
  · rcases hA.cases i hi with ⟨hil, -, he⟩ | ⟨rfl, he⟩ | ⟨-, c', -, he⟩
    · exact hA.covered _ (hI.searched i hil s (he.symm.trans hsi) hsearched c hc)
    · obtain rfl := Option.some.inj (he.symm.trans hsi)
      exact hA.new c (hcsdef ▸ hc)
    · obtain rfl := Option.some.inj (he.symm.trans hsi)
      cases hsearched
  · rcases hA.grows with rfl | ⟨c, hc, hnot⟩
    · -- no neighbour entered the curve, so nothing replaces the solution that was searched
      refine Or.inl ((hshorter fun i hi => ?_).trans_lt ?_)
      · exact (hM.dropped i).2
          ⟨List.mem_append_right _ ((has i).2 hi), fun hil => hI.not_mem_newIds hil hi⟩
      · rw [hτpool]
        exact List.length_filter_lt_length_iff_exists.2
          ⟨id, (hI.unsearched id).2 ⟨hid, sol, hs, hun⟩, by simp⟩
    · exact Or.inr ⟨c, hcs c hc, hnot, hA.new c hc⟩

/-- The walk at the end finds out whether some solution of the curve is on the target. -/
theorem Inv.findBetter (hI : Inv v m eval σ l) {x : Int} {rest : List Int}
    (hpath : Path σ.paretoCurve x (rest ++ [-2])) (hrest : ∀ i ∈ rest, i ∈ l) {fuel : Nat}
    (hfuel : rest.length < fuel) (found : Bool) : σ.findBetter fuel x found =
      some (found || rest.any fun i => (σ.obj i).any onTarget) := by
  induction rest generalizing x fuel found with
  | nil =>
    obtain ⟨f, rfl⟩ : ∃ f, fuel = f + 1 := ⟨fuel - 1, by omega⟩
    have hx : σ.paretoCurve x = some (-2) := hpath.1
    simp [ParetoSearch.findBetter, hx]
  | cons b rest ih =>
    obtain ⟨f, rfl⟩ : ∃ f, fuel = f + 1 := ⟨fuel - 1, by omega⟩
    obtain ⟨hx, hpath⟩ := hpath
    have hb := hrest b (List.mem_cons_self ..)
    obtain ⟨h0, -, s, hs, -⟩ := hI.listed b hb
    unfold ParetoSearch.findBetter
    rw [hx]
    simp only [Option.bind_eq_bind, Option.bind_some]
    rw [if_neg (by omega), hI.find hb, hs]
    simp only [Option.bind_some]
    rw [ih hpath (fun i hi => hrest i (List.mem_cons_of_mem _ hi)) (Nat.lt_of_succ_lt_succ hfuel),
      List.any_cons, hs, Option.any_some, Bool.or_assoc]

open Classical in
/-- The colourings that no solution of the curve weakly dominates. -/
noncomputable def uncovered (v m : Nat) (eval : List Nat → Nat × Nat) (σ : ParetoSearch)
    (l : List Int) : Finset (Fin v → Fin m) :=
  Finset.univ.filter fun f =>
    ¬ Covered σ.obj.point l (pointOf eval (List.ofFn fun i => (f i : Nat)))

/-- **The rounds end**: more colourings become dominated, or the pool gets smaller. -/
theorem Inv.rounds (hI : Inv v m eval σ l) (ord : HashOrder PoolWalk) :
    ∃ fuel σ', rounds v m eval ord fuel σ = some σ' := by
  induction hn : (uncovered v m eval σ l).card using Nat.strong_induction_on generalizing σ l with
  | _ n ihn =>
    induction hk : σ.unsearched.length using Nat.strong_induction_on generalizing σ l with
    | _ k ihk =>
      by_cases hne : σ.unsearched = []
      · refine ⟨1, σ, ?_⟩
        rw [ParetoSearch.rounds, if_pos hne]
      · obtain ⟨σ₁, l₁, hround, hI₁, hmono, hless⟩ := hI.round ord hne
        have hsub : uncovered v m eval σ₁ l₁ ⊆ uncovered v m eval σ l := by
          intro f hf
          simp only [uncovered, Finset.mem_filter, Finset.mem_univ, true_and] at hf ⊢
          exact fun h => hf (hmono _ h)
        obtain ⟨fuel, σ', hrun⟩ : ∃ fuel σ', ParetoSearch.rounds v m eval ord fuel σ₁ = some σ' := by
          rcases (Finset.card_le_card hsub).lt_or_eq with hlt | heq
          · exact ihn _ (hn ▸ hlt) hI₁ rfl
          · rcases hless with hlt | ⟨c, hc, hnot, hcov⟩
            · exact ihk _ (hk ▸ hlt) hI₁ (heq.trans hn) rfl
            · obtain ⟨f, rfl⟩ := colors_iff.1 hc
              have hmem : f ∈ uncovered v m eval σ₁ l₁ := by
                rw [Finset.eq_of_subset_of_card_le hsub heq.ge]
                simpa [uncovered] using hnot
              simp only [uncovered, Finset.mem_filter, Finset.mem_univ, true_and] at hmem
              exact absurd hcov hmem
        refine ⟨fuel + 1, σ', ?_⟩
        rw [ParetoSearch.rounds, if_neg hne, hround]
        exact hrun

/-- **At the end** the neighbours of all solutions of the curve are dominated. -/
theorem Inv.rounds_end (hI : Inv v m eval σ l) (ord : HashOrder PoolWalk) {fuel : Nat}
    {σ' : ParetoSearch} (h : ParetoSearch.rounds v m eval ord fuel σ = some σ') :
    ∃ l', Inv v m eval σ' l' ∧ ∀ i ∈ l', ∃ s, σ'.obj i = some s ∧
      ∀ c ∈ neighbors v m s.solution, Covered σ'.obj.point l' (pointOf eval c) := by
  induction fuel generalizing σ l with
  | zero => cases h
  | succ fuel ih =>
    rw [ParetoSearch.rounds] at h
    by_cases hne : σ.unsearched = []
    · rw [if_pos hne] at h
      obtain rfl := Option.some.inj h
      refine ⟨l, hI, fun i hi => ?_⟩
      obtain ⟨-, -, s, hs, -⟩ := hI.listed i hi
      refine ⟨s, hs, hI.searched i hi s hs ?_⟩
      by_contra hun
      have hmem := (hI.unsearched i).2 ⟨hi, s, hs, by simpa using hun⟩
      rw [hne] at hmem
      exact List.not_mem_nil hmem
    · obtain ⟨σ₁, l₁, hround, hI₁, -⟩ := hI.round ord hne
      rw [if_neg hne, hround] at h
      exact ih hI₁ h

end

/-! ## The run -/

section
variable (v m : Nat) (eval : List Nat → Nat × Nat) (ord : HashOrder PoolWalk) (init : List Nat)

/-- The states before and after the rounds. -/
inductive Between : ParetoSearch → Prop
  | start : Between (start eval init)
  | round {σ σ' : ParetoSearch} (h : Between σ) (hne : σ.unsearched ≠ [])
      (hr : round v m eval ord σ = some σ') : Between σ'

variable {v m init} (hinit : Colors v m init)
include hinit

theorem inv_start : Inv v m eval (start eval init) [0] := by
  have hobj : (start eval init).obj 0 = some (fresh eval init) := rfl
  have hchain : Chain (-1) (-2) (start eval init).paretoCurve (start eval init).prevCurve [0] := by
    refine ⟨⟨rfl, rfl, rfl, rfl, trivial⟩, by decide, fun k hk => ?_, fun k hk => ?_⟩
    · simp only [List.mem_cons, List.not_mem_nil, or_false, not_or] at hk
      exact (update_of_ne hk.2 _ _).trans (update_of_ne hk.1 _ _)
    · simp only [List.mem_append, List.mem_cons, List.not_mem_nil, or_false, not_or] at hk
      exact (update_of_ne hk.1 _ _).trans (update_of_ne hk.2 _ _)
  refine ⟨hchain, List.cons_ne_nil _ _, List.pairwise_singleton _ _, fun i => Iff.rfl,
    fun i hi => ?_, fun i => ⟨fun hi => ⟨hi, ?_⟩, fun hi => hi.1⟩, fun i hi s hs hsearched => ?_⟩
  · obtain rfl := List.mem_singleton.1 hi
    exact ⟨le_rfl, Int.one_pos, _, hobj, hinit, rfl⟩
  · obtain rfl := List.mem_singleton.1 hi
    exact ⟨_, hobj, rfl⟩
  · obtain rfl := List.mem_singleton.1 hi
    obtain rfl := Option.some.inj (hobj.symm.trans hs)
    cases hsearched

/-- **Between the rounds** the invariant holds. -/
theorem Between.inv {σ : ParetoSearch} (h : Between v m eval ord init σ) :
    ∃ l, Inv v m eval σ l := by
  induction h with
  | start => exact ⟨[0], inv_start eval hinit⟩
  | round h hne hr ih =>
    obtain ⟨l, hI⟩ := ih
    obtain ⟨σ₁, l₁, hround, hI₁, -⟩ := hI.round ord hne
    obtain rfl := Option.some.inj (hr.symm.trans hround)
    exact ⟨l₁, hI₁⟩

end

end ParetoSearch

end StripeRepair

import Mathlib.Order.Bounds.Basic
import Mathlib.Order.MinMax
import Mathlib.Data.List.Basic

/-!
# The best solution so far

A search moves from solution to solution, also to worse ones, and keeps the best it has
held together with the two costs.

* `Tracks`: the costs are right and no solution that was held is better than the best.
* `Tracks.improve`, `Tracks.move`, `Tracks.stay`: what a search may do.
* `foldl_max`: a walk that keeps the largest value.
* `foldl_pick_iff`: when a walk that compares each candidate with the best keeps a least one.
-/

namespace BestSoFar

section
variable {σ κ : Type*} [LinearOrder κ] (cost : σ → κ)

/-- `held` are the solutions so far, the last of them is the current one. -/
structure Tracks (held : List σ) (current best : σ) (currentCost bestCost : κ) : Prop where
  current_mem : current ∈ held
  best_mem : best ∈ held
  currentCost_eq : currentCost = cost current
  bestCost_eq : bestCost = cost best
  le : ∀ x ∈ held, bestCost ≤ cost x

variable {cost} {held : List σ} {current best : σ} {currentCost bestCost : κ}

theorem Tracks.start (x : σ) : Tracks cost [x] x x (cost x) (cost x) where
  current_mem := List.mem_singleton_self x
  best_mem := List.mem_singleton_self x
  currentCost_eq := rfl
  bestCost_eq := rfl
  le y hy := by rw [List.mem_singleton.1 hy]

theorem Tracks.bestCost_le (h : Tracks cost held current best currentCost bestCost) :
    bestCost ≤ currentCost := by
  rw [h.currentCost_eq]
  exact h.le _ h.current_mem

/-- The next solution is better than all before. -/
theorem Tracks.improve (h : Tracks cost held current best currentCost bestCost) {x : σ}
    (hx : cost x < bestCost) : Tracks cost (held ++ [x]) x x (cost x) (cost x) := by
  have hmem : x ∈ held ++ [x] := List.mem_append_right _ (List.mem_singleton_self x)
  refine ⟨hmem, hmem, rfl, rfl, fun y hy => ?_⟩
  rcases List.mem_append.1 hy with hy | hy
  · exact hx.le.trans (h.le y hy)
  · rw [List.mem_singleton.1 hy]

/-- The next solution is not better than the best. -/
theorem Tracks.move (h : Tracks cost held current best currentCost bestCost) {x : σ}
    (hx : bestCost ≤ cost x) : Tracks cost (held ++ [x]) x best (cost x) bestCost := by
  refine ⟨List.mem_append_right _ (List.mem_singleton_self x), List.mem_append_left _ h.best_mem,
    rfl, h.bestCost_eq, fun y hy => ?_⟩
  rcases List.mem_append.1 hy with hy | hy
  · exact h.le y hy
  · rw [List.mem_singleton.1 hy]
    exact hx

/-- The solution stays. -/
theorem Tracks.stay (h : Tracks cost held current best currentCost bestCost) :
    Tracks cost (held ++ [current]) current best currentCost bestCost := by
  have hmove := h.move (h.le current h.current_mem)
  rwa [← h.currentCost_eq] at hmove

/-- **The cost that is kept** is the least of all solutions that were held. -/
theorem Tracks.isLeast (h : Tracks cost held current best currentCost bestCost) :
    IsLeast {e | ∃ x ∈ held, e = cost x} bestCost := by
  refine ⟨⟨best, h.best_mem, h.bestCost_eq⟩, ?_⟩
  rintro e ⟨x, hx, rfl⟩
  exact h.le x hx

end

/-! ## The largest so far -/

section
variable {κ : Type*} [LinearOrder κ]

theorem ite_gt_eq_max (a b : κ) : (if b > a then b else a) = max a b := by
  split
  · next h => exact (max_eq_right h.le).symm
  · next h => exact (max_eq_left (not_lt.1 h)).symm

theorem foldl_max (l : List κ) (m : κ) :
    m ≤ l.foldl max m ∧ (∀ x ∈ l, x ≤ l.foldl max m) ∧ (l.foldl max m = m ∨ l.foldl max m ∈ l) := by
  induction l generalizing m with
  | nil => exact ⟨le_refl _, by simp, Or.inl rfl⟩
  | cons a l ih =>
    obtain ⟨h1, h2, h3⟩ := ih (max m a)
    rw [List.foldl_cons]
    refine ⟨(le_max_left m a).trans h1, ?_, ?_⟩
    · intro x hx
      rcases List.mem_cons.1 hx with rfl | hx
      · exact (le_max_right m x).trans h1
      · exact h2 x hx
    · rcases h3 with h3 | h3
      · rw [h3]
        rcases max_choice m a with h | h
        · exact Or.inl h
        · rw [h]
          exact Or.inr (List.mem_cons_self ..)
      · exact Or.inr (List.mem_cons_of_mem _ h3)

theorem foldl_min (l : List κ) (m : κ) :
    l.foldl min m ≤ m ∧ (∀ x ∈ l, l.foldl min m ≤ x) ∧ (l.foldl min m = m ∨ l.foldl min m ∈ l) :=
  @foldl_max (OrderDual κ) _ l m

end

/-! ## The best candidate

Each candidate is compared with the best so far by a test that may be undefined. -/

section
variable {ι α κ : Type*} [LinearOrder κ] {better : α → α → Option Bool}

def pick (better : α → α → Option Bool) (best : Option α) (c : α) : Option α :=
  best.bind fun b => (better c b).map fun yes => if yes then c else b

/-- Each candidate is taken first, and the test is right on candidates. -/
structure Exact (better : α → α → Option Bool) (cost : ι → κ) (f : ι → α) (start : α)
    (S : Set ι) : Prop where
  first : ∀ c ∈ S, better (f c) start = some true
  next : ∀ a ∈ S, ∀ b ∈ S, ∃ yes, better (f b) (f a) = some yes ∧
    if yes then cost b ≤ cost a else cost a ≤ cost b

variable {cost : ι → κ} {f : ι → α} {start : α} {S : Set ι}

theorem Exact.foldl (h : Exact better cost f start S) {l : List ι} (hl : ∀ c ∈ l, c ∈ S) {a : ι}
    (ha : a ∈ S) : ∃ best ∈ a :: l,
      l.foldl (fun b c => pick better b (f c)) (some (f a)) = some (f best) ∧
      ∀ c ∈ a :: l, cost best ≤ cost c := by
  induction l generalizing a with
  | nil =>
    refine ⟨a, List.mem_cons_self, rfl, fun c hc => ?_⟩
    rw [List.mem_singleton.1 hc]
  | cons b l ih =>
    have hb := hl b List.mem_cons_self
    obtain ⟨yes, hyes, hcost⟩ := h.next a ha b hb
    have hstep : pick better (some (f a)) (f b) = some (f (if yes then b else a)) := by
      rw [pick, Option.bind_some, hyes, Option.map_some]
      cases yes <;> rfl
    have hnext : (if yes then b else a) ∈ S ∧ cost (if yes then b else a) ≤ cost a ∧
        cost (if yes then b else a) ≤ cost b := by
      cases yes with
      | true => exact ⟨hb, hcost, le_rfl⟩
      | false => exact ⟨ha, le_rfl, hcost⟩
    obtain ⟨best, hmem, heq, hle⟩ := ih (fun c hc => hl c (List.mem_cons_of_mem _ hc)) hnext.1
    have hfirst := hle _ List.mem_cons_self
    refine ⟨best, ?_, by rw [List.foldl_cons, hstep, heq], fun c hc => ?_⟩
    · rcases List.mem_cons.1 hmem with rfl | hmem
      · cases yes with
        | true => exact List.mem_cons_of_mem _ List.mem_cons_self
        | false => exact List.mem_cons_self
      · exact List.mem_cons_of_mem _ (List.mem_cons_of_mem _ hmem)
    · rcases List.mem_cons.1 hc with rfl | hc
      · exact hfirst.trans hnext.2.1
      · rcases List.mem_cons.1 hc with rfl | hc
        · exact hfirst.trans hnext.2.2
        · exact hle c (List.mem_cons_of_mem _ hc)

/-- **The walk keeps a least candidate** of each list if and only if the test is right; `g` tells
the candidate. -/
theorem foldl_pick_iff {g : α → ι} (hg : ∀ c ∈ S, g (f c) = c) (hstart : g start ∉ S) :
    (∀ l : List ι, l ≠ [] → (∀ c ∈ l, c ∈ S) → ∃ best ∈ l,
      (l.foldl (fun b c => pick better b (f c)) (some start)).map g = some best ∧
      ∀ c ∈ l, cost best ≤ cost c) ↔ Exact better cost f start S := by
  constructor
  · intro h
    have hfirst : ∀ c ∈ S, better (f c) start = some true := by
      intro c hc
      obtain ⟨best, hmem, heq, -⟩ := h [c] (List.cons_ne_nil _ _) fun b hb => by
        rwa [List.mem_singleton.1 hb]
      obtain rfl := List.mem_singleton.1 hmem
      rw [List.foldl_cons, List.foldl_nil, pick, Option.bind_some] at heq
      cases hb : better (f best) start with
      | none =>
        rw [hb] at heq
        cases heq
      | some yes =>
        cases yes with
        | true => rfl
        | false =>
          rw [hb] at heq
          exact absurd (Option.some.inj heq ▸ hc) hstart
    refine ⟨hfirst, fun a ha b hb => ?_⟩
    obtain ⟨best, hmem, heq, hle⟩ := h [a, b] (List.cons_ne_nil _ _) fun c hc => by
      rcases List.mem_pair.1 hc with rfl | rfl
      · exact ha
      · exact hb
    have hone : pick better (some start) (f a) = some (f a) := by
      rw [pick, Option.bind_some, hfirst a ha]
      rfl
    rw [List.foldl_cons, List.foldl_cons, List.foldl_nil, hone, pick, Option.bind_some] at heq
    cases hyes : better (f b) (f a) with
    | none =>
      rw [hyes] at heq
      cases heq
    | some yes =>
      rw [hyes] at heq
      refine ⟨yes, rfl, ?_⟩
      have heq : g (if yes then f b else f a) = best := Option.some.inj heq
      cases yes with
      | true =>
        have hbest : best = b := heq.symm.trans (hg b hb)
        exact hbest ▸ hle a List.mem_cons_self
      | false =>
        have hbest : best = a := heq.symm.trans (hg a ha)
        exact hbest ▸ hle b (List.mem_cons_of_mem _ List.mem_cons_self)
  · intro h l hne hl
    obtain ⟨a, l, rfl⟩ := List.exists_cons_of_ne_nil hne
    have ha := hl a List.mem_cons_self
    have hone : pick better (some start) (f a) = some (f a) := by
      rw [pick, Option.bind_some, h.first a ha]
      rfl
    obtain ⟨best, hmem, heq, hle⟩ := h.foldl (fun c hc => hl c (List.mem_cons_of_mem _ hc)) ha
    refine ⟨best, hmem, ?_, hle⟩
    rw [List.foldl_cons, hone, heq, Option.map_some, hg best (hl best hmem)]

end

end BestSoFar

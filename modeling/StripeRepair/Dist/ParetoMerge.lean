import StripeRepair.Dist.Solution
import StripeRepair.Lib.Links
import StripeRepair.Lib.Pareto
import Mathlib

/-!
# Merging a neighbour into the curve of `genPareto`

`genPareto` keeps the ids of its curve in two maps, from the head -1 to the tail -2 and back. A
new solution is compared with those of the curve one after another, and the maps are edited
while the comparison goes on.

* `loop_left`, `loop_right`: the rounds that change nothing.
* `loop_under`: the rounds that take out dominated solutions.
* `merge_covered`, `merge_enters`: what the comparison with the whole curve does.
-/

namespace StripeRepair

open Linked Pareto
open Function (update update_of_ne update_self)

/-- A solution of the pool. -/
structure ParetoSolution where
  solution : List Nat
  bdwt : Nat
  load : Nat
  searched : Bool
  deriving DecidableEq, Repr

namespace ParetoSolution

def point (a : ParetoSolution) : Nat × Nat := (a.load, a.bdwt)

/-- `dominate` -/
def dominate (a b : ParetoSolution) : Bool :=
  if a.load < b.load then
    if a.bdwt ≤ b.bdwt then true else false
  else if a.load > b.load then false
  else if a.bdwt < b.bdwt then true else false

/-- The order of the points. -/
theorem dominate_iff (a b : ParetoSolution) : dominate a b = true ↔ a.point < b.point := by
  unfold dominate point
  rw [Prod.mk_lt_mk]
  split
  · split <;> simp <;> omega
  · split
    · simp; omega
    · split <;> simp <;> omega

end ParetoSolution

/-- The solutions that are there, under their ids. -/
abbrev Pool := Int → Option ParetoSolution

namespace Pool

/-- The point of a solution that is there. -/
def point (obj : Pool) (i : Int) : Nat × Nat := ((obj i).map ParetoSolution.point).getD (0, 0)

theorem point_eq {obj : Pool} {i : Int} {s : ParetoSolution} (h : obj i = some s) :
    obj.point i = s.point := by
  rw [point, h]
  rfl

end Pool

/-- A key that may be there already. -/
def addKey (keys : List Int) (k : Int) : List Int := if k ∈ keys then keys else keys ++ [k]

theorem mem_addKey {keys : List Int} {k i : Int} : i ∈ addKey keys k ↔ i = k ∨ i ∈ keys := by
  unfold addKey
  split
  · next h =>
    refine ⟨Or.inr, ?_⟩
    rintro (rfl | hi)
    · exact h
    · exact hi
  · rw [List.mem_append, List.mem_singleton]
    exact or_comm

/-- The maps while neighbours are merged. A key that is read is expected in `paretoCurve` and
`prevCurve`; of `solMap` there are the keys, each stands for the solution with this id. -/
structure Merge where
  paretoCurve : Int → Option Int
  prevCurve : Int → Option Int
  solMap : List Int
  dropped : List Int

namespace Merge

section
variable (obj : Pool) (alpha beta prev next : Int) (a b : ParetoSolution) (w : Merge)

/-- `sol_map[i]` -/
def find (i : Int) : Option ParetoSolution := if i ∈ w.solMap then obj i else none

/-- `alpha` between `x` and `y`. -/
def link (x y : Int) : Merge :=
  { w with
    paretoCurve := update (update w.paretoCurve x (some alpha)) alpha (some y)
    prevCurve := update (update w.prevCurve alpha (some x)) y (some alpha)
    solMap := addKey w.solMap alpha }

/-- Case 2, the first time: the links before `alpha`. -/
def linkPrev : Merge :=
  if w.prevCurve alpha = none then
    { w with
      paretoCurve := update w.paretoCurve prev (some alpha)
      prevCurve := update w.prevCurve alpha (some prev)
      solMap := addKey w.solMap alpha }
  else w

/-- Case 2, each time: the links behind `alpha`, and none for `beta`. -/
def linkNext : Merge :=
  { w with
    paretoCurve := update (update w.paretoCurve alpha (some next)) beta none
    prevCurve := update (update w.prevCurve next (some alpha)) beta none
    dropped := w.dropped ++ [beta] }

/-- The comparison with `beta`; `false` is `break`. -/
def compare : Bool × Merge :=
  if b.dominate a then (false, { w with dropped := w.dropped ++ [alpha] })
  else if a.dominate b then (true, (w.linkPrev alpha prev).linkNext alpha beta next)
  else if a.load < b.load then
    (true, if w.prevCurve alpha = none then w.link alpha prev beta else w)
  else if a.load > b.load then
    (true, if next = -2 then w.link alpha beta (-2) else w)
  else (false, { w with dropped := w.dropped ++ [alpha] })

end

/-- `while (next_id != -2)` -/
def loop (obj : Pool) (alpha : Int) : Nat → Int → Merge → Option Merge
  | 0, _, _ => none
  | fuel + 1, beta, w =>
    if beta = -2 then some w
    else do
      let next ← w.paretoCurve beta
      let prev ← w.prevCurve beta
      let b ← w.find obj beta
      let a ← obj alpha
      let (go, w) := compare alpha beta prev next a b w
      if go then loop obj alpha fuel next w else some w

/-- The comparison of `alpha` with the curve. -/
def merge (obj : Pool) (fuel : Nat) (w : Merge) (alpha : Int) : Option Merge := do
  let next ← w.paretoCurve (-1)
  loop obj alpha fuel next w

/-! ## One comparison -/

section
variable (alpha beta prev next : Int) (w : Merge) {a b : ParetoSolution}

theorem compare_covered (h : b.point ≤ a.point) :
    compare alpha beta prev next a b w = (false, { w with dropped := w.dropped ++ [alpha] }) := by
  unfold compare
  rcases h.lt_or_eq with h | h
  · rw [if_pos ((ParetoSolution.dominate_iff _ _).2 h)]
  · have hload : b.load = a.load := congrArg Prod.fst h
    rw [if_neg, if_neg, if_neg (by omega), if_neg (by omega)]
    · rw [ParetoSolution.dominate_iff, h]
      exact lt_irrefl _
    · rw [ParetoSolution.dominate_iff, h]
      exact lt_irrefl _

theorem compare_dominates (h : a.point < b.point) : compare alpha beta prev next a b w =
    (true, (w.linkPrev alpha prev).linkNext alpha beta next) := by
  unfold compare
  rw [if_neg fun hd => absurd ((ParetoSolution.dominate_iff _ _).1 hd) h.asymm,
    if_pos ((ParetoSolution.dominate_iff _ _).2 h)]

/-- `beta` on the left of `alpha`. -/
theorem compare_left (h1 : b.load < a.load) (h2 : a.bdwt < b.bdwt) :
    compare alpha beta prev next a b w =
      (true, if next = -2 then w.link alpha beta (-2) else w) := by
  unfold compare
  rw [if_neg, if_neg, if_neg (by omega), if_pos h1]
  · rw [ParetoSolution.dominate_iff]
    exact fun hd => absurd hd.le.1 (not_le.2 h1)
  · rw [ParetoSolution.dominate_iff]
    exact fun hd => absurd hd.le.2 (not_le.2 h2)

/-- `beta` on the right of `alpha`. -/
theorem compare_right (h1 : a.load < b.load) (h2 : b.bdwt < a.bdwt) :
    compare alpha beta prev next a b w =
      (true, if w.prevCurve alpha = none then w.link alpha prev beta else w) := by
  unfold compare
  rw [if_neg, if_neg, if_pos h1]
  · rw [ParetoSolution.dominate_iff]
    exact fun hd => absurd hd.le.2 (not_le.2 h2)
  · rw [ParetoSolution.dominate_iff]
    exact fun hd => absurd hd.le.1 (not_le.2 h1)

end

section
variable {obj : Pool} {alpha beta prev next : Int} {a b : ParetoSolution} {w : Merge} {fuel : Nat}

theorem find_eq {i : Int} (h : w.find obj i = some b) : obj i = some b := by
  unfold find at h
  split at h
  · exact h
  · cases h

theorem find_link {i : Int} (h : w.find obj i = some b) (x y : Int) :
    (w.link alpha x y).find obj i = some b := by
  unfold find at h ⊢
  split at h
  · next hmem => exact (if_pos (mem_addKey.2 (Or.inr hmem))).trans h
  · cases h

variable (hbeta : beta ≠ -2) (hnext : w.paretoCurve beta = some next)
  (hprev : w.prevCurve beta = some prev) (hb : w.find obj beta = some b) (ha : obj alpha = some a)
include hbeta hnext hprev hb ha

theorem loop_succ {w' : Merge} (h : compare alpha beta prev next a b w = (true, w')) :
    loop obj alpha (fuel + 1) beta w = loop obj alpha fuel next w' := by
  rw [loop, if_neg hbeta, hnext]
  simp only [hprev, hb, ha, Option.bind_eq_bind, Option.bind_some, h, if_true]

theorem loop_break {w' : Merge} (h : compare alpha beta prev next a b w = (false, w')) :
    loop obj alpha (fuel + 1) beta w = some w' := by
  rw [loop, if_neg hbeta, hnext]
  simp only [hprev, hb, ha, Option.bind_eq_bind, Option.bind_some, h, Bool.false_eq_true, if_false]

end

/-! ## The comparisons along the curve -/

/-- Solutions of the curve, which can be found. -/
def Live (obj : Pool) (w : Merge) (l : List Int) : Prop :=
  ∀ i ∈ l, i ≠ -2 ∧ ∃ b, w.find obj i = some b

section
variable {obj : Pool} {alpha : Int} {a : ParetoSolution} (ha : obj alpha = some a) (fuel : Nat)
include ha

/-- **On the left** of `alpha` nothing changes, unless the tail follows. -/
theorem loop_left {pre : List Int} {x q next : Int} {rest Q : List Int} {w : Merge}
    (hlinks : Links w.paretoCurve w.prevCurve (x :: (pre ++ q :: rest))) (hq : q ≠ -2)
    (hlive : Live obj w pre) (hleft : Left obj.point pre a.point)
    (hnext : pre ++ q :: rest = next :: Q) :
    loop obj alpha (fuel + pre.length) next w = loop obj alpha fuel q w := by
  induction pre generalizing x next Q with
  | nil =>
    obtain rfl := (List.cons.inj hnext).1
    rfl
  | cons b pre ih =>
    obtain rfl := (List.cons.inj hnext).1
    obtain ⟨hb, s, hs⟩ := hlive b (List.mem_cons_self ..)
    obtain ⟨h1, h2⟩ := hleft b (List.mem_cons_self ..)
    rw [Pool.point_eq (find_eq hs)] at h1 h2
    obtain ⟨y, Z, hy⟩ : ∃ y Z, pre ++ q :: rest = y :: Z := List.exists_cons_of_ne_nil (by simp)
    obtain ⟨-, hprev, hrest⟩ := hlinks
    have hyne : y ≠ -2 := by
      cases pre with
      | nil => exact (List.cons.inj hy).1 ▸ hq
      | cons c pre => exact (List.cons.inj hy).1 ▸ (hlive c (by simp)).1
    have hstep := hrest
    rw [List.append_eq, hy] at hstep
    have hcmp := compare_left alpha b x y w h1 h2
    rw [if_neg hyne] at hcmp
    rw [List.length_cons, ← Nat.add_assoc, loop_succ hb hstep.1 hprev hs ha hcmp]
    exact ih hrest (fun i hi => hlive i (List.mem_cons_of_mem _ hi))
      (fun i hi => hleft i (List.mem_cons_of_mem _ hi)) hy

/-- **On the right** of `alpha` nothing changes, once it is in the curve. -/
theorem loop_right {post : List Int} {x next : Int} {Q : List Int} {w : Merge}
    (hlinks : Links w.paretoCurve w.prevCurve (x :: (post ++ [-2])))
    (hin : w.prevCurve alpha ≠ none) (hlive : Live obj w post)
    (hright : Right obj.point post a.point) (hnext : post ++ [-2] = next :: Q) :
    loop obj alpha (fuel + post.length + 1) next w = some w := by
  induction post generalizing x next Q with
  | nil =>
    obtain rfl := (List.cons.inj hnext).1
    rw [loop, if_pos rfl]
  | cons b post ih =>
    obtain rfl := (List.cons.inj hnext).1
    obtain ⟨hb, s, hs⟩ := hlive b (List.mem_cons_self ..)
    obtain ⟨h1, h2⟩ := hright b (List.mem_cons_self ..)
    rw [Pool.point_eq (find_eq hs)] at h1 h2
    obtain ⟨y, Z, hy⟩ : ∃ y Z, post ++ [-2] = y :: Z := List.exists_cons_of_ne_nil (by simp)
    obtain ⟨-, hprev, hrest⟩ := hlinks
    have hstep := hrest
    rw [List.append_eq, hy] at hstep
    have hcmp := compare_right alpha b x y w h1 h2
    rw [if_neg hin] at hcmp
    rw [List.length_cons, ← Nat.add_assoc, loop_succ hb hstep.1 hprev hs ha hcmp]
    exact ih hrest (fun i hi => hlive i (List.mem_cons_of_mem _ hi))
      (fun i hi => hright i (List.mem_cons_of_mem _ hi)) hy

/-- **The dominated solutions behind `alpha`** are taken out. -/
theorem loop_under {pre mid post : List Int} {next : Int} {Q : List Int} {w : Merge}
    (hC : Chain (-1) (-2) w.paretoCurve w.prevCurve (pre ++ alpha :: (mid ++ post)))
    (hlive : Live obj w (mid ++ post)) (hunder : ∀ i ∈ mid, a.point < obj.point i)
    (hright : Right obj.point post a.point) (hnext : mid ++ post ++ [-2] = next :: Q) :
    ∃ w', loop obj alpha (fuel + (mid ++ post).length + 1) next w = some w' ∧
      Chain (-1) (-2) w'.paretoCurve w'.prevCurve (pre ++ alpha :: post) ∧
      w'.solMap = w.solMap ∧ w'.dropped = w.dropped ++ mid := by
  induction mid generalizing next Q w with
  | nil =>
    have hin : w.prevCurve alpha ≠ none := by
      rw [hC.prev_eq]
      exact Option.some_ne_none _
    exact ⟨w, loop_right ha fuel hC.links_right hin hlive hright hnext, hC, rfl,
      (List.append_nil _).symm⟩
  | cons b mid ih =>
    obtain rfl := (List.cons.inj hnext).1
    obtain ⟨hb, s, hs⟩ := hlive b (List.mem_cons_self ..)
    have hlt := hunder b (List.mem_cons_self ..)
    rw [Pool.point_eq (find_eq hs)] at hlt
    obtain ⟨y, Z, hy⟩ : ∃ y Z, mid ++ post ++ [-2] = y :: Z := List.exists_cons_of_ne_nil (by simp)
    obtain ⟨-, hprev, hstep⟩ := hC.links_right
    rw [List.append_eq, List.append_eq, hy] at hstep
    have hin : w.linkPrev alpha alpha = w := if_neg (by
      rw [hC.prev_eq]
      exact Option.some_ne_none _)
    have hcmp := compare_dominates alpha b alpha y w hlt
    rw [hin] at hcmp
    have hC' : Chain (-1) (-2) (w.linkNext alpha b y).paretoCurve (w.linkNext alpha b y).prevCurve
        (pre ++ [alpha] ++ (mid ++ post)) := by
      refine Chain.remove (P := -1 :: pre) rfl hy ?_
      simpa using hC
    obtain ⟨w', hw', hC'', hsol, hdrop⟩ := ih (w := w.linkNext alpha b y) (by simpa using hC')
      (fun i hi => hlive i (List.mem_cons_of_mem _ hi))
      (fun i hi => hunder i (List.mem_cons_of_mem _ hi)) hy
    refine ⟨w', ?_, hC'', hsol, hdrop.trans (by simp [linkNext])⟩
    rw [List.cons_append, List.length_cons, ← Nat.add_assoc,
      loop_succ hb hstep.1 hprev hs ha hcmp]
    exact hw'

/-- **Where `alpha` enters**: the rounds from the first solution on that is not on its left go as
if it were in the curve already. -/
theorem loop_enter {pre post : List Int} {c x : Int} {P : List Int} {w : Merge}
    (hx : -1 :: pre = P ++ [x])
    (hC : Chain (-1) (-2) w.paretoCurve w.prevCurve (pre ++ c :: post))
    (halpha : alpha ∉ -1 :: (pre ++ c :: post ++ [-2])) (hlive : Live obj w (c :: post))
    (h : a.point < obj.point c ∨ Right obj.point (c :: post) a.point) :
    loop obj alpha (fuel + 1) c w = loop obj alpha (fuel + 1) c (w.link alpha x c) := by
  obtain ⟨y, Z, hy⟩ : ∃ y Z, post ++ [-2] = y :: Z := List.exists_cons_of_ne_nil (by simp)
  have hC' : Chain (-1) (-2) (w.link alpha x c).paretoCurve (w.link alpha x c).prevCurve
      (pre ++ alpha :: (c :: post)) := hC.insert hx rfl halpha
  obtain ⟨hc, s, hs⟩ := hlive c (List.mem_cons_self ..)
  have hs' : (w.link alpha x c).find obj c = some s := find_link hs x c
  have hd := hC.nodup
  have hcy : c ≠ y := by
    have hymem : y ∈ post ++ [-2] := by simp [hy]
    simp only [List.nodup_append, List.nodup_cons, List.mem_append, List.mem_cons] at hd hymem
    grind
  have hprev : w.prevCurve c = some x := by
    rw [hC.prev_eq]
    simp [hx]
  obtain ⟨hnext, -, -⟩ : Links w.paretoCurve w.prevCurve (c :: y :: Z) := hy ▸ hC.links_right
  obtain ⟨-, hprev', hstep⟩ := hC'.links_right
  rw [List.append_eq, hy] at hstep
  have hout : w.prevCurve alpha = none := hC.prev_none alpha fun h =>
    halpha (List.mem_cons_of_mem _ h)
  have hin : (w.link alpha x c).prevCurve alpha ≠ none := by
    rw [hC'.prev_eq]
    exact Option.some_ne_none _
  have hpoint := Pool.point_eq (find_eq hs)
  rcases h with h | h
  · rw [hpoint] at h
    rw [loop_succ hc hnext hprev hs ha (compare_dominates alpha c x y w h),
      loop_succ hc hstep.1 hprev' hs' ha (compare_dominates alpha c alpha y _ h)]
    congr 1
    rw [linkPrev, linkPrev, if_pos hout, if_neg hin]
    simp only [linkNext, link, Merge.mk.injEq, and_true]
    refine ⟨?_, ?_⟩
    · rw [Function.update_idem]
    · rw [Function.update_comm hcy, Function.update_idem]
  · obtain ⟨h1, h2⟩ := h c (List.mem_cons_self ..)
    rw [hpoint] at h1 h2
    rw [loop_succ hc hnext hprev hs ha (compare_right alpha c x y w h1 h2),
      loop_succ hc hstep.1 hprev' hs' ha (compare_right alpha c alpha y _ h1 h2), if_pos hout,
      if_neg hin]

section
variable {l : List Int} {w : Merge} (hC : Chain (-1) (-2) w.paretoCurve w.prevCurve l)
  (hlive : Live obj w l) (hF : Front obj.point l)
include hC hlive hF

/-- **A neighbour that is dominated** is dropped. -/
theorem merge_covered (hc : Covered obj.point l a.point) (hf : l.length < fuel) :
    merge obj fuel w alpha = some { w with dropped := w.dropped ++ [alpha] } := by
  obtain ⟨pre, b, post, rfl, hleft, hb⟩ := hF.split_covered hc
  obtain ⟨hbne, s, hs⟩ := hlive b (by simp)
  rw [Pool.point_eq (find_eq hs)] at hb
  obtain ⟨n, rfl⟩ : ∃ n, fuel = n + 1 + pre.length := ⟨fuel - 1 - pre.length, by
    simp only [List.length_append, List.length_cons] at hf
    omega⟩
  have hlinks := hC.links
  rw [List.append_assoc, List.cons_append] at hlinks
  obtain ⟨x, Z, hx⟩ : ∃ x Z, pre ++ b :: (post ++ [-2]) = x :: Z :=
    List.exists_cons_of_ne_nil (by simp)
  have hfirst : w.paretoCurve (-1) = some x := by
    rw [hx] at hlinks
    exact hlinks.1
  obtain ⟨y, Q, hy⟩ : ∃ y Q, post ++ [-2] = y :: Q := List.exists_cons_of_ne_nil (by simp)
  have hnext : w.paretoCurve b = some y := by
    have hright := hC.links_right
    rw [hy] at hright
    exact hright.1
  rw [merge, hfirst, Option.bind_eq_bind, Option.bind_some,
    loop_left ha (n + 1) hlinks hbne (fun i hi => hlive i (by simp [hi])) hleft hx]
  exact loop_break hbne hnext hC.prev_eq hs ha (compare_covered alpha b _ y w hb)

/-- **A neighbour that is not dominated** enters the curve. -/
theorem merge_enters (hc : ¬ Covered obj.point l a.point) (hne : l ≠ [])
    (halpha : alpha ∉ -1 :: (l ++ [-2])) (hf : l.length < fuel) :
    ∃ pre mid post w', l = pre ++ mid ++ post ∧ Left obj.point pre a.point ∧
      (∀ i ∈ mid, a.point < obj.point i) ∧ Right obj.point post a.point ∧
      merge obj fuel w alpha = some w' ∧
      Chain (-1) (-2) w'.paretoCurve w'.prevCurve (pre ++ alpha :: post) ∧
      w'.solMap = addKey w.solMap alpha ∧ w'.dropped = w.dropped ++ mid := by
  obtain ⟨pre, mid, post, rfl, hleft, hunder, hright⟩ := hF.split_not_covered hc
  have hlinks := hC.links
  obtain ⟨x, Z, hx⟩ : ∃ x Z, pre ++ mid ++ post ++ [-2] = x :: Z :=
    List.exists_cons_of_ne_nil (by simp)
  have hfirst : w.paretoCurve (-1) = some x := by
    rw [hx] at hlinks
    exact hlinks.1
  have hmerge : merge obj fuel w alpha = loop obj alpha fuel x w := by
    rw [merge, hfirst, Option.bind_eq_bind, Option.bind_some]
  cases hrest : mid ++ post with
  | cons c rest =>
    have hl : pre ++ mid ++ post = pre ++ c :: rest := by rw [List.append_assoc, hrest]
    rw [hl] at hC hlive halpha hx hlinks hf
    rw [List.append_assoc, List.cons_append] at hx hlinks
    obtain ⟨n, rfl⟩ : ∃ n, fuel = n + (mid ++ post).length + 1 + pre.length :=
      ⟨fuel - 1 - (mid ++ post).length - pre.length, by
        rw [hrest]
        simp only [List.length_append, List.length_cons] at hf ⊢
        omega⟩
    obtain ⟨P, p, hp⟩ : ∃ P p, -1 :: pre = P ++ [p] :=
      ⟨_, _, (List.dropLast_append_getLast (List.cons_ne_nil (-1) pre)).symm⟩
    have hchain : Chain (-1) (-2) (w.link alpha p c).paretoCurve (w.link alpha p c).prevCurve
        (pre ++ alpha :: (mid ++ post)) := by
      rw [hrest]
      exact hC.insert hp rfl halpha
    have hlive' : Live obj (w.link alpha p c) (mid ++ post) := by
      intro i hi
      rw [hrest] at hi
      obtain ⟨hi2, s, hs⟩ := hlive i (List.mem_append_right _ hi)
      exact ⟨hi2, s, find_link hs p c⟩
    have hstand : a.point < obj.point c ∨ Right obj.point (c :: rest) a.point := by
      cases mid with
      | nil => exact Or.inr (hrest ▸ hright)
      | cons m mid => exact Or.inl ((List.cons.inj hrest).1 ▸ hunder m (List.mem_cons_self ..))
    obtain ⟨w', hw', hC', hsol, hdrop⟩ := loop_under ha n hchain hlive' hunder hright
      (show mid ++ post ++ [-2] = c :: (rest ++ [-2]) by rw [hrest]; rfl)
    refine ⟨pre, mid, post, w', hl ▸ rfl, hleft, hunder, hright, ?_, hC', hsol, hdrop⟩
    rw [hmerge, loop_left ha _ hlinks (hlive c (by simp)).1 (fun i hi => hlive i (by simp [hi]))
      hleft hx, loop_enter ha _ hp hC halpha (fun i hi => hlive i (List.mem_append_right _ hi))
      hstand]
    exact hw'
  | nil =>
    obtain ⟨rfl, rfl⟩ := List.append_eq_nil_iff.1 hrest
    rcases List.eq_nil_or_concat pre with rfl | ⟨pre, q, rfl⟩
    · exact absurd rfl hne
    rw [List.append_nil, List.append_nil, List.concat_eq_append] at *
    obtain ⟨hq, s, hs⟩ := hlive q (by simp)
    obtain ⟨h1, h2⟩ := hleft q (by simp)
    rw [Pool.point_eq (find_eq hs)] at h1 h2
    obtain ⟨n, rfl⟩ : ∃ n, fuel = n + 2 + pre.length := ⟨fuel - 2 - pre.length, by
      simp only [List.length_append, List.length_cons, List.length_nil] at hf
      omega⟩
    obtain ⟨hnext, -⟩ := hC.links_right
    have hcmp := compare_left alpha q ((-1 :: pre).getLast (List.cons_ne_nil _ _)) (-2) w h1 h2
    rw [if_pos rfl] at hcmp
    have hchain : Chain (-1) (-2) (w.link alpha q (-2)).paretoCurve
        (w.link alpha q (-2)).prevCurve (pre ++ [q] ++ [alpha]) := by
      refine Chain.insert (P := -1 :: pre) (Q := []) rfl rfl ?_ (by simpa using halpha)
      rwa [List.append_nil]
    refine ⟨pre ++ [q], [], [], w.link alpha q (-2), by simp, hleft, hunder, hright, ?_, hchain,
      rfl, (List.append_nil _).symm⟩
    rw [List.append_assoc] at hx hlinks
    rw [hmerge, loop_left ha (n + 2) hlinks hq (fun i hi => hlive i (by simp [hi]))
      (fun i hi => hleft i (by simp [hi])) hx, loop_succ hq hnext hC.prev_eq hs ha hcmp, loop,
      if_pos rfl]

end

end

end Merge

end StripeRepair

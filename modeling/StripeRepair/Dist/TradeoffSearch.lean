import StripeRepair.Dist.TradeoffCurve
import StripeRepair.Common.Traffic
import Mathlib

/-!
# The search of `genMLP`

`genTradeoffCurve` expands the solutions of the tradeoff curve: it visits the colourings with
another colour for one vertex, and those it did not visit before are evaluated and offered to the
curve.

* `Inv.visit`: what one visit preserves.
* `Inv.expand`, `Inv.rounds`: what the rounds preserve, and why they end.
-/

namespace StripeRepair

open Linked Pareto

namespace Memory

/-- The setters of the other fields. -/
def modify (μ : Memory) (p : Ptr) (f : Solution → Solution) : Memory :=
  { μ with sol := Function.update μ.sol p ((μ.sol p).map f) }

end Memory

/-- The variables of `genTradeoffCurve`. -/
structure Search where
  mem : Memory
  load2bdwt : Points
  bdwt2load : Points
  visited : List (List Char)
  /-- the colourings that were evaluated -/
  evaluated : List (List Nat)

namespace Search

def head : Ptr := 0

def tail : Ptr := 1

section
variable (v m : Nat) (eval : List Nat → Nat × Nat)

/-- The quick search in the two maps. -/
def isWorse (σ : Search) (load bdwt : Nat) : Bool :=
  match σ.load2bdwt load with
  | some b => b ≤ bdwt
  | none =>
    match σ.bdwt2load bdwt with
    | some l => l ≤ load
    | none => false

/-- The body of the loops of `expand`; `eval` gives `_bdwt` and `_load`. -/
def visit (solution : List Nat) (σ : Search) : Option Search :=
  let (neighbor, mem) := σ.mem.alloc ⟨m, solution, false, 0, 0⟩
  let tmps := getString m solution
  if tmps ∈ σ.visited then some { σ with mem := mem.delete neighbor }
  else
    let (bdwt, load) := eval solution
    let mem := mem.modify neighbor fun s => { s with bdwt := bdwt, load := load }
    let σ := { σ with
      mem := mem
      visited := tmps :: σ.visited
      evaluated := solution :: σ.evaluated }
    if σ.isWorse load bdwt then some { σ with mem := mem.delete neighbor }
    else do
      let (status, mem, load2bdwt, bdwt2load) ←
        updateTradeoffCurve head tail neighbor mem σ.load2bdwt σ.bdwt2load
      some { σ with
        mem := if status then mem else mem.delete neighbor
        load2bdwt := load2bdwt
        bdwt2load := bdwt2load }

/-- `expand` -/
def expand (current : Ptr) (σ : Search) : Option Search := do
  let cur ← σ.mem.sol current
  let σ := { σ with mem := σ.mem.modify current fun s => { s with expanded := true } }
  (neighbors v m cur.solution).foldlM (fun σ c => visit m eval c σ) σ

/-- The first solution that is not expanded, or the tail. -/
def findUnexpanded (mem : Memory) : Nat → Ptr → Option Ptr
  | 0, _ => none
  | fuel + 1, current =>
    if current = tail then some current
    else do
      let cur ← mem.sol current
      if cur.expanded then
        let next ← mem.getNext current
        findUnexpanded mem fuel next
      else some current

/-- `current` of the next round. -/
def nextCurrent (σ : Search) : Option Ptr := do
  let first ← σ.mem.getNext head
  findUnexpanded σ.mem σ.mem.size first

/-- `while(true)` -/
def rounds : Nat → Search → Option Search
  | 0, _ => none
  | fuel + 1, σ => do
    let current ← σ.nextCurrent
    if current = tail then some σ
    else do
      let σ ← expand v m eval current σ
      rounds fuel σ

/-- The variables before the first round. -/
def start (init : List Nat) : Search :=
  let (bdwt, load) := eval init
  let init_sol := 2
  { mem :=
      { sol := Function.update (Function.update (Function.update (fun _ => none)
          head (some ⟨0, [], false, 0, 0⟩)) tail (some ⟨0, [], false, 0, 0⟩))
          init_sol (some ⟨m, init, false, bdwt, load⟩)
        next := Function.update (Function.update (fun _ => none) head (some init_sol))
          init_sol (some tail)
        prev := Function.update (Function.update (fun _ => none) tail (some init_sol))
          init_sol (some head)
        size := 3 }
    load2bdwt := Function.update (fun _ => none) load (some bdwt)
    bdwt2load := Function.update (fun _ => none) bdwt (some load)
    visited := [getString m init]
    evaluated := [init] }

/-- The point of a colouring. -/
def pointOf (c : List Nat) : Nat × Nat := ((eval c).2, (eval c).1)

/-- What holds after each visit, with the list from the head to the tail. -/
structure Inv (σ : Search) (l : List Ptr) : Prop where
  curve : Curve head tail σ.mem σ.load2bdwt σ.bdwt2load l
  nonempty : l ≠ []
  listed : ∀ p ∈ l, ∃ s, σ.mem.sol p = some s ∧ s.m = m ∧ s.solution ∈ σ.evaluated ∧
    s.point = pointOf eval s.solution
  visited : ∀ t, t ∈ σ.visited ↔ ∃ c ∈ σ.evaluated, t = getString m c
  nodup : σ.evaluated.Nodup
  colors : ∀ c ∈ σ.evaluated, Colors v m c
  covered : ∀ c ∈ σ.evaluated, Covered σ.mem.point l (pointOf eval c)

/-- How many solutions of the list are not expanded. -/
def unexpanded (σ : Search) (l : List Ptr) : Nat :=
  l.countP fun p => (σ.mem.sol p).any fun s => !s.expanded

/-- What visits do to the list and to the evaluated colourings. -/
structure Visits (cs : List (List Nat)) (σ σ' : Search) (l l' : List Ptr) : Prop where
  inv : Inv v m eval σ' l'
  mem : ∀ c ∈ cs, c ∈ σ'.evaluated
  mono : ∀ c ∈ σ.evaluated, c ∈ σ'.evaluated
  sols : ∀ p ∈ l', p ∈ l ∧ σ'.mem.sol p = σ.mem.sol p ∨
    σ.mem.size ≤ p ∧ ∃ s, σ'.mem.sol p = some s ∧ s.expanded = false
  size : σ.mem.size ≤ σ'.mem.size
  measure : unexpanded σ' l' + σ.evaluated.length ≤ unexpanded σ l + σ'.evaluated.length

end

/-- A curve reads the links and the points only. -/
theorem curve_congr {head tail : Ptr} {μ ν : Memory} {load2bdwt bdwt2load : Points} {l : List Ptr}
    (hC : Curve head tail μ load2bdwt bdwt2load l) (hnext : ν.next = μ.next)
    (hprev : ν.prev = μ.prev) (hlive : ∀ p ∈ head :: (l ++ [tail]), ∃ cur, ν.sol p = some cur)
    (hbelow : ∀ p, (∃ cur, ν.sol p = some cur) → p < ν.size)
    (hpoint : ∀ p ∈ l, ν.point p = μ.point p) : Curve head tail ν load2bdwt bdwt2load l := by
  refine ⟨?_, hC.nodup, hlive, hbelow, (front_congr hpoint).2 hC.front, fun k x => ?_,
    fun k x => ?_⟩
  · rw [hnext, hprev]
    exact hC.links
  · rw [hC.loads k x]
    exact exists_congr fun q => and_congr_right fun hq => by simp only [hpoint q hq]
  · rw [hC.bdwts k x]
    exact exists_congr fun q => and_congr_right fun hq => by simp only [hpoint q hq]

section
variable {v m : Nat} {eval : List Nat → Nat × Nat} {σ : Search} {l : List Ptr}

/-- The next address is not in use. -/
theorem Inv.fresh (hI : Inv v m eval σ l) : σ.mem.sol σ.mem.size = none := by
  cases h : σ.mem.sol σ.mem.size with
  | none => rfl
  | some s => exact absurd (hI.curve.below _ ⟨s, h⟩) (Nat.lt_irrefl _)

/-- A visit that leaves the list as it is. -/
theorem Inv.visits_same (hI : Inv v m eval σ l) {c : List Nat} {σ' : Search}
    (hsol : ∀ p, p ≠ σ.mem.size → σ'.mem.sol p = σ.mem.sol p)
    (hnext : σ'.mem.next = σ.mem.next) (hprev : σ'.mem.prev = σ.mem.prev)
    (hsize : σ'.mem.size = σ.mem.size + 1) (hload : σ'.load2bdwt = σ.load2bdwt)
    (hbdwt : σ'.bdwt2load = σ.bdwt2load) (hc : c ∈ σ'.evaluated)
    (hmono : ∀ c ∈ σ.evaluated, c ∈ σ'.evaluated)
    (hvisited : ∀ t, t ∈ σ'.visited ↔ ∃ c ∈ σ'.evaluated, t = getString m c)
    (hnodup : σ'.evaluated.Nodup) (hcolors : ∀ c ∈ σ'.evaluated, Colors v m c)
    (hcovered : ∀ c ∈ σ'.evaluated, Covered σ.mem.point l (pointOf eval c)) :
    Visits v m eval [c] σ σ' l l := by
  have hlt : ∀ p ∈ head :: (l ++ [tail]), p ≠ σ.mem.size := by
    intro p hp
    exact (hI.curve.below p (hI.curve.live p hp)).ne
  have hltl : ∀ p ∈ l, p ≠ σ.mem.size := fun p hp => hlt p (by simp [hp])
  have hpoint : ∀ p ∈ l, σ'.mem.point p = σ.mem.point p := by
    intro p hp
    unfold Memory.point
    rw [hsol p (hltl p hp)]
  refine ⟨⟨?_, hI.nonempty, ?_, hvisited, hnodup, hcolors, ?_⟩, List.forall_mem_singleton.2 hc,
    hmono, ?_, by omega, ?_⟩
  · rw [hload, hbdwt]
    refine curve_congr hI.curve hnext hprev ?_ ?_ hpoint
    · intro p hp
      rw [hsol p (hlt p hp)]
      exact hI.curve.live p hp
    · rintro p ⟨cur, hcur⟩
      rw [hsize]
      by_cases hp : p = σ.mem.size
      · exact hp ▸ Nat.lt_succ_self _
      · rw [hsol p hp] at hcur
        exact Nat.lt_succ_of_lt (hI.curve.below p ⟨cur, hcur⟩)
  · intro p hp
    obtain ⟨s, hs, h1, h2, h3⟩ := hI.listed p hp
    exact ⟨s, (hsol p (hltl p hp)).trans hs, h1, hmono _ h2, h3⟩
  · intro c hc
    rw [covered_congr hpoint]
    exact hcovered c hc
  · exact fun p hp => Or.inl ⟨hp, hsol p (hltl p hp)⟩
  · have hsame : unexpanded σ' l = unexpanded σ l := by
      refine List.countP_congr fun p hp => ?_
      rw [hsol p (hltl p hp)]
    have hle := (List.subperm_of_subset hI.nodup hmono).length_le
    omega

section
variable (hm : 1 ≤ m) (hI : Inv v m eval σ l) {c : List Nat} (hc : Colors v m c)
include hm hI hc

/-- **A string that was visited** is the string of a colouring that was evaluated. -/
theorem Inv.mem_evaluated (h : getString m c ∈ σ.visited) : c ∈ σ.evaluated := by
  obtain ⟨c', hc', he⟩ := (hI.visited _).1 h
  rw [getString_inj hm hc.2 (hI.colors c' hc').2 he]
  exact hc'

omit hm hc in
theorem Inv.not_mem_evaluated (h : getString m c ∉ σ.visited) : c ∉ σ.evaluated :=
  fun hmem => h ((hI.visited _).2 ⟨c, hmem, rfl⟩)

omit hm hc in
/-- What the visit of a new colouring adds. -/
theorem Inv.visited_cons (t : List Char) : t ∈ getString m c :: σ.visited ↔
    ∃ c' ∈ c :: σ.evaluated, t = getString m c' := by
  rw [List.mem_cons, hI.visited t]
  simp only [List.mem_cons, exists_eq_or_imp]

/-- The new solution in the memory. -/
def added (m : Nat) (eval : List Nat → Nat × Nat) (c : List Nat) (mem : Memory) : Memory :=
  { mem with
    sol := Function.update mem.sol mem.size (some ⟨m, c, false, (eval c).1, (eval c).2⟩)
    size := mem.size + 1 }

omit hm hc in
/-- The curve in the memory with the new solution. -/
theorem Inv.curve_added :
    Curve head tail (added m eval c σ.mem) σ.load2bdwt σ.bdwt2load l := by
  have hne : ∀ p ∈ head :: (l ++ [tail]), p ≠ σ.mem.size := by
    intro p hp
    exact (hI.curve.below p (hI.curve.live p hp)).ne
  have hsol : ∀ p ∈ head :: (l ++ [tail]), (added m eval c σ.mem).sol p = σ.mem.sol p :=
    fun p hp => Function.update_of_ne (hne p hp) _ _
  refine curve_congr hI.curve rfl rfl ?_ ?_ ?_
  · intro p hp
    rw [hsol p hp]
    exact hI.curve.live p hp
  · rintro p ⟨cur, hcur⟩
    show p < σ.mem.size + 1
    by_cases hp : p = σ.mem.size
    · exact hp ▸ Nat.lt_succ_self _
    · have hcur' : σ.mem.sol p = some cur := (Function.update_of_ne hp _ _).symm.trans hcur
      exact Nat.lt_succ_of_lt (hI.curve.below p ⟨cur, hcur'⟩)
  · intro p hp
    unfold Memory.point
    rw [hsol p (by simp [hp])]

omit hm hc in
/-- **The quick search** finds a solution of the list that dominates the point. -/
theorem Inv.isWorse (h : σ.isWorse (eval c).2 (eval c).1 = true) :
    Covered σ.mem.point l (pointOf eval c) := by
  unfold Search.isWorse at h
  split at h
  · next b hb =>
    obtain ⟨q, hq, h1, h2⟩ := (hI.curve.loads _ _).1 hb
    exact ⟨q, hq, h1.le, h2.le.trans (of_decide_eq_true h)⟩
  · split at h
    · next b hb =>
      obtain ⟨q, hq, h1, h2⟩ := (hI.curve.bdwts _ _).1 hb
      exact ⟨q, hq, h2.le.trans (of_decide_eq_true h), h1.le⟩
    · cases h

omit hm hc in
/-- Otherwise no solution of the list has the point. -/
theorem Inv.not_isWorse (h : σ.isWorse (eval c).2 (eval c).1 ≠ true) :
    ∀ q ∈ l, σ.mem.point q ≠ pointOf eval c := by
  intro q hq he
  have hb : σ.load2bdwt (eval c).2 = some (eval c).1 :=
    (hI.curve.loads _ _).2 ⟨q, hq, congrArg Prod.fst he, congrArg Prod.snd he⟩
  refine h ?_
  unfold Search.isWorse
  rw [hb]
  exact decide_eq_true le_rfl

omit hm in
/-- A visit that puts the new solution into the list. -/
theorem Inv.visits_enters (hnew : c ∉ σ.evaluated) {pre mid post : List Ptr}
    (hl : l = pre ++ mid ++ post) {ν : Memory} {load2bdwt bdwt2load : Points}
    (hC : Curve head tail ν load2bdwt bdwt2load (pre ++ σ.mem.size :: post))
    (hsols : ∀ p, ν.sol p = if p ∈ mid then none else (added m eval c σ.mem).sol p)
    (hsize : ν.size = σ.mem.size + 1)
    (hunder : Under (added m eval c σ.mem).point mid (pointOf eval c)) :
    Visits v m eval [c] σ ⟨ν, load2bdwt, bdwt2load, getString m c :: σ.visited, c :: σ.evaluated⟩ l
      (pre ++ σ.mem.size :: post) := by
  have hd := hI.curve.nodup
  have hltl : ∀ p ∈ l, p ≠ σ.mem.size := by
    intro p hp
    exact (hI.curve.below p (hI.curve.live p (by simp [hp]))).ne
  have hadded : ∀ p ∈ l, (added m eval c σ.mem).sol p = σ.mem.sol p := fun p hp =>
    Function.update_of_ne (hltl p hp) _ _
  have hpoint : ∀ p ∈ l, (added m eval c σ.mem).point p = σ.mem.point p := by
    intro p hp
    unfold Memory.point
    rw [hadded p hp]
  have hstay : ∀ p ∈ pre ++ post, p ∈ l ∧ ν.sol p = σ.mem.sol p := by
    intro p hp
    have hpl : p ∈ l ∧ p ∉ mid := by
      rw [hl] at hd ⊢
      simp only [List.nodup_append, List.nodup_cons, List.mem_append, List.mem_cons] at hd hp ⊢
      grind
    rw [hsols, if_neg hpl.2, hadded p hpl.1]
    exact ⟨hpl.1, rfl⟩
  have hsol : ν.sol σ.mem.size = some ⟨m, c, false, (eval c).1, (eval c).2⟩ := by
    rw [hsols, if_neg fun h => hltl _ (by simp [hl, h]) rfl]
    exact Function.update_self ..
  have hmem : ∀ p, p ∈ pre ++ σ.mem.size :: post ↔ p = σ.mem.size ∨ p ∈ pre ++ post := by
    intro p
    simp only [List.mem_append, List.mem_cons]
    tauto
  have hself : (added m eval c σ.mem).sol σ.mem.size =
      some ⟨m, c, false, (eval c).1, (eval c).2⟩ := Function.update_self ..
  have hpnew : (added m eval c σ.mem).point σ.mem.size = pointOf eval c := Memory.point_eq hself
  have hpν : ∀ p ∈ pre ++ σ.mem.size :: post, ν.point p = (added m eval c σ.mem).point p := by
    intro p hp
    unfold Memory.point
    rcases (hmem p).1 hp with rfl | hp
    · rw [hsol, hself]
    · obtain ⟨hpl, he⟩ := hstay p hp
      rw [he, hadded p hpl]
  have hcov : ∀ {y}, Covered σ.mem.point l y → Covered ν.point (pre ++ σ.mem.size :: post) y := by
    intro y hy
    rw [← covered_congr hpoint, hl] at hy
    rw [covered_congr hpν]
    refine hy.replace ?_
    rwa [hpnew]
  refine ⟨⟨hC, by simp, ?_, hI.visited_cons, List.nodup_cons.2 ⟨hnew, hI.nodup⟩,
    List.forall_mem_cons.2 ⟨hc, hI.colors⟩, ?_⟩,
    List.forall_mem_singleton.2 (List.mem_cons_self ..), ?_, ?_, ?_, ?_⟩
  · intro p hp
    rcases (hmem p).1 hp with rfl | hp
    · exact ⟨_, hsol, rfl, List.mem_cons_self .., rfl⟩
    · obtain ⟨hpl, he⟩ := hstay p hp
      obtain ⟨s, hs, h1, h2, h3⟩ := hI.listed p hpl
      exact ⟨s, he.trans hs, h1, List.mem_cons_of_mem _ h2, h3⟩
  · refine List.forall_mem_cons.2 ⟨?_, fun c' hc' => hcov (hI.covered c' hc')⟩
    have hin : Covered ν.point (pre ++ σ.mem.size :: post) (ν.point σ.mem.size) :=
      covered_self pre post _
    rwa [hpν _ ((hmem _).2 (Or.inl rfl)), hpnew] at hin
  · exact fun _ h => List.mem_cons_of_mem _ h
  · intro p hp
    rcases (hmem p).1 hp with rfl | hp
    · exact Or.inr ⟨le_rfl, _, hsol, rfl⟩
    · exact Or.inl (hstay p hp)
  · show σ.mem.size ≤ ν.size
    omega
  · have hcount : ∀ (l' : List Ptr), (∀ p ∈ l', p ∈ pre ++ post) →
        l'.countP (fun p => (ν.sol p).any fun s => !s.expanded) =
          l'.countP fun p => (σ.mem.sol p).any fun s => !s.expanded := by
      intro l' hl'
      refine List.countP_congr fun p hp => ?_
      rw [(hstay p (hl' p hp)).2]
    unfold unexpanded
    rw [hl, List.countP_append, List.countP_append, List.countP_append, List.countP_cons,
      hcount pre fun p hp => List.mem_append_left _ hp,
      hcount post fun p hp => List.mem_append_right _ hp, List.length_cons]
    split <;> omega

/-- **One visit** keeps the invariant. -/
theorem Inv.visit : ∃ σ' l', visit m eval c σ = some σ' ∧ Visits v m eval [c] σ σ' l l' := by
  have hdel : ∀ (x : Option Solution) p, p ≠ σ.mem.size →
      Function.update (Function.update σ.mem.sol σ.mem.size x) σ.mem.size none p = σ.mem.sol p :=
    fun x p hp => by rw [Function.update_of_ne hp, Function.update_of_ne hp]
  unfold Search.visit Memory.alloc
  by_cases hvis : getString m c ∈ σ.visited
  · simp only [if_pos hvis]
    exact ⟨_, l, rfl, hI.visits_same (hdel _) rfl rfl rfl rfl rfl (hI.mem_evaluated hm hc hvis)
      (fun c hc => hc) hI.visited hI.nodup hI.colors hI.covered⟩
  have hnew := hI.not_mem_evaluated hvis
  have hnodup : (c :: σ.evaluated).Nodup := List.nodup_cons.2 ⟨hnew, hI.nodup⟩
  have hcolors : ∀ c' ∈ c :: σ.evaluated, Colors v m c' := List.forall_mem_cons.2 ⟨hc, hI.colors⟩
  have hmono : ∀ c' ∈ σ.evaluated, c' ∈ c :: σ.evaluated := fun _ h => List.mem_cons_of_mem _ h
  have hadd : (Memory.modify ⟨Function.update σ.mem.sol σ.mem.size (some ⟨m, c, false, 0, 0⟩),
      σ.mem.next, σ.mem.prev, σ.mem.size + 1⟩ σ.mem.size
        fun s => { s with bdwt := (eval c).1, load := (eval c).2 }) = added m eval c σ.mem := by
    unfold Memory.modify added
    simp only [Function.update_self, Function.update_idem, Option.map_some]
  simp only [if_neg hvis, hadd]
  have hdelAdded : ∀ p, p ≠ σ.mem.size →
      ((added m eval c σ.mem).delete σ.mem.size).sol p = σ.mem.sol p := hdel _
  split
  · next hw =>
    exact ⟨_, l, rfl, hI.visits_same hdelAdded rfl rfl rfl rfl rfl (List.mem_cons_self ..) hmono
      hI.visited_cons hnodup hcolors (List.forall_mem_cons.2 ⟨hI.isWorse hw, hI.covered⟩)⟩
  · next hw =>
    have hC := hI.curve_added (c := c)
    have hs : (added m eval c σ.mem).sol σ.mem.size =
        some ⟨m, c, false, (eval c).1, (eval c).2⟩ := Function.update_self ..
    have hsol : ∀ p, p ≠ σ.mem.size → (added m eval c σ.mem).sol p = σ.mem.sol p :=
      fun p hp => Function.update_of_ne hp _ _
    have hlt : ∀ p ∈ head :: (l ++ [tail]), p ≠ σ.mem.size := by
      intro p hp
      exact (hI.curve.below p (hI.curve.live p hp)).ne
    have hout : σ.mem.size ∉ head :: (l ++ [tail]) := fun h => hlt _ h rfl
    have hltl : ∀ p ∈ l, p ≠ σ.mem.size := fun p hp => hlt p (by simp [hp])
    have hpoint : ∀ p ∈ l, (added m eval c σ.mem).point p = σ.mem.point p := by
      intro p hp
      unfold Memory.point
      rw [hsol p (hltl p hp)]
    have hstr : ∀ q ∈ l, ∀ cur, (added m eval c σ.mem).sol q = some cur →
        cur.string ≠ Solution.string ⟨m, c, false, (eval c).1, (eval c).2⟩ := by
      intro q hq cur hcur he
      obtain ⟨s, hs, h1, h2, -⟩ := hI.listed q hq
      rw [hsol q (hltl q hq), hs, Option.some.injEq] at hcur
      subst hcur
      refine hvis ((hI.visited _).2 ⟨s.solution, h2, ?_⟩)
      refine Eq.trans he.symm ?_
      rw [Solution.string, h1]
    have hne : ∀ q ∈ l, (added m eval c σ.mem).point q ≠ pointOf eval c := by
      intro q hq
      rw [hpoint q hq]
      exact hI.not_isWorse hw q hq
    rcases hC.front.split (pointOf eval c) with ⟨pre, a, post, hl, hleft, ha⟩ |
      ⟨pre, mid, post, hl, hleft, hunder, hright⟩
    · obtain ⟨status, hup⟩ := updateTradeoffCurve_covered hC hs hout hstr hne hl hleft ha
      rw [hup]
      have hcov : Covered σ.mem.point l (pointOf eval c) :=
        (covered_congr hpoint).1 ⟨a, by simp [hl], ha⟩
      cases status with
      | true =>
        exact ⟨_, l, rfl, hI.visits_same hsol rfl rfl rfl rfl rfl (List.mem_cons_self ..) hmono
          hI.visited_cons hnodup hcolors (List.forall_mem_cons.2 ⟨hcov, hI.covered⟩)⟩
      | false =>
        exact ⟨_, l, rfl, hI.visits_same hdelAdded rfl rfl rfl rfl rfl (List.mem_cons_self ..) hmono
          hI.visited_cons hnodup hcolors (List.forall_mem_cons.2 ⟨hcov, hI.covered⟩)⟩
    · obtain ⟨ν, load2bdwt', bdwt2load', hup, hC', hsols, hsize⟩ :=
        updateTradeoffCurve_enters hC hs hout hstr hl hI.nonempty hleft hunder hne hright
      rw [hup]
      exact ⟨_, _, rfl, hI.visits_enters hc hnew hl hC' hsols hsize hunder⟩

end

/-- Visits one after the other. -/
theorem Visits.trans {cs cs' : List (List Nat)} {σ₁ σ₂ : Search} {l₁ l₂ : List Ptr}
    (h : Visits v m eval cs σ σ₁ l l₁) (h' : Visits v m eval cs' σ₁ σ₂ l₁ l₂) :
    Visits v m eval (cs ++ cs') σ σ₂ l l₂ := by
  refine ⟨h'.inv, ?_, fun c hc => h'.mono c (h.mono c hc), ?_, h.size.trans h'.size, ?_⟩
  · intro c hc
    rcases List.mem_append.1 hc with hc | hc
    · exact h'.mono c (h.mem c hc)
    · exact h'.mem c hc
  · intro p hp
    rcases h'.sols p hp with ⟨hp, he⟩ | ⟨hp, hs⟩
    · rcases h.sols p hp with ⟨hp, he'⟩ | ⟨hp, s, hs, hx⟩
      · exact Or.inl ⟨hp, he.trans he'⟩
      · exact Or.inr ⟨hp, s, he.trans hs, hx⟩
    · exact Or.inr ⟨h.size.trans hp, hs⟩
  · have h1 := h.measure
    have h2 := h'.measure
    omega

/-- **Any number of visits** keep the invariant. -/
theorem Inv.visits (hm : 1 ≤ m) (hI : Inv v m eval σ l) {cs : List (List Nat)}
    (hcs : ∀ c ∈ cs, Colors v m c) : ∃ σ' l',
      cs.foldlM (fun σ c => Search.visit m eval c σ) σ = some σ' ∧
        Visits v m eval cs σ σ' l l' := by
  induction cs generalizing σ l with
  | nil =>
    refine ⟨σ, l, rfl, hI, fun c hc => absurd hc List.not_mem_nil, fun _ h => h, ?_, le_rfl, le_rfl⟩
    exact fun p hp => Or.inl ⟨hp, rfl⟩
  | cons c cs ih =>
    obtain ⟨σ₁, l₁, h₁, hV₁⟩ := hI.visit hm (hcs c (List.mem_cons_self ..))
    obtain ⟨σ₂, l₂, h₂, hV₂⟩ := ih hV₁.inv fun c hc => hcs c (List.mem_cons_of_mem _ hc)
    refine ⟨σ₂, l₂, ?_, hV₁.trans hV₂⟩
    rw [List.foldlM_cons, h₁]
    exact h₂

/-! ## One round -/

/-- The neighbours of the expanded solutions are evaluated, but for those of `cur`. -/
def Searched (v m : Nat) (σ : Search) (l : List Ptr) (cur : Ptr) : Prop :=
  ∀ p ∈ l, p ≠ cur → ∀ s, σ.mem.sol p = some s → s.expanded = true →
    ∀ c ∈ neighbors v m s.solution, c ∈ σ.evaluated

/-- The solution is marked as expanded. -/
def mark (σ : Search) (p : Ptr) : Search :=
  { σ with mem := σ.mem.modify p fun s => { s with expanded := true } }

section
variable (hI : Inv v m eval σ l) {p : Ptr} (hp : p ∈ l) {s : Solution}
  (hs : σ.mem.sol p = some s)
include hI hp hs

theorem Inv.mark : Inv v m eval (σ.mark p) l := by
  have hself : (σ.mark p).mem.sol p = some { s with expanded := true } := by
    show Function.update σ.mem.sol p _ p = _
    rw [Function.update_self, hs]
    rfl
  have hother : ∀ q, q ≠ p → (σ.mark p).mem.sol q = σ.mem.sol q := fun q hq =>
    Function.update_of_ne hq _ _
  have hlive : ∀ q, (∃ cur, (σ.mark p).mem.sol q = some cur) ↔ ∃ cur, σ.mem.sol q = some cur := by
    intro q
    by_cases hq : q = p
    · rw [hq, hself, hs]
      simp
    · rw [hother q hq]
  have hpoint : ∀ q, (σ.mark p).mem.point q = σ.mem.point q := by
    intro q
    by_cases hq : q = p
    · rw [hq, Memory.point_eq hself, Memory.point_eq hs]
      rfl
    · unfold Memory.point
      rw [hother q hq]
  refine ⟨?_, hI.nonempty, ?_, hI.visited, hI.nodup, hI.colors, ?_⟩
  · exact curve_congr hI.curve rfl rfl (fun q hq => (hlive q).2 (hI.curve.live q hq))
      (fun q hq => hI.curve.below q ((hlive q).1 hq)) fun q _ => hpoint q
  · intro q hq
    obtain ⟨t, ht, h1, h2, h3⟩ := hI.listed q hq
    by_cases hqp : q = p
    · subst hqp
      rw [hs, Option.some.injEq] at ht
      subst ht
      exact ⟨_, hself, h1, h2, h3⟩
    · exact ⟨t, (hother q hqp).trans ht, h1, h2, h3⟩
  · intro c hc
    rw [covered_congr fun q _ => hpoint q]
    exact hI.covered c hc

omit hI in
/-- One solution less is not expanded. -/
theorem unexpanded_mark (hx : s.expanded = false) :
    unexpanded (σ.mark p) l + 1 ≤ unexpanded σ l := by
  have hself : (σ.mark p).mem.sol p = some { s with expanded := true } := by
    show Function.update σ.mem.sol p _ p = _
    rw [Function.update_self, hs]
    rfl
  have hle : ∀ l' : List Ptr, unexpanded (σ.mark p) l' ≤ unexpanded σ l' := by
    intro l'
    refine List.countP_mono_left fun q _ hq => ?_
    by_cases hqp : q = p
    · rw [hqp, hself] at hq
      exact absurd hq (by simp)
    · rwa [show (σ.mark p).mem.sol q = σ.mem.sol q from Function.update_of_ne hqp _ _] at hq
  obtain ⟨l₁, l₂, rfl⟩ := List.append_of_mem hp
  have h1 := hle l₁
  have h2 := hle l₂
  unfold unexpanded at h1 h2 ⊢
  rw [List.countP_append, List.countP_append, List.countP_cons, List.countP_cons, hself, hs]
  simp only [Option.any_some, hx, Bool.not_true, Bool.not_false, Bool.false_eq_true, if_false,
    if_true]
  omega

/-- **One round** keeps the invariant, and the measure goes down. -/
theorem Inv.expand (hm : 1 ≤ m) (hS : Searched v m σ l head) (hx : s.expanded = false) :
    ∃ σ' l', expand v m eval p σ = some σ' ∧ Inv v m eval σ' l' ∧ Searched v m σ' l' head ∧
      unexpanded σ' l' + σ.evaluated.length < unexpanded σ l + σ'.evaluated.length := by
  obtain ⟨t, ht, -, hev, -⟩ := hI.listed p hp
  obtain rfl : t = s := Option.some.inj (ht.symm.trans hs)
  have hcolors : ∀ c ∈ neighbors v m t.solution, Colors v m c := fun c hc =>
    (hI.colors _ hev).neighbor hc
  obtain ⟨σ', l', hfold, hV⟩ := (hI.mark hp hs).visits hm hcolors
  refine ⟨σ', l', ?_, hV.inv, ?_, ?_⟩
  · unfold Search.expand
    rw [hs]
    exact hfold
  · intro q hq hne u hu hux c hc
    rcases hV.sols q hq with ⟨hql, he⟩ | ⟨-, u', hu', hx'⟩
    · rw [hu] at he
      by_cases hqp : q = p
      · subst hqp
        have hself : (σ.mark q).mem.sol q = some { t with expanded := true } := by
          show Function.update σ.mem.sol q _ q = _
          rw [Function.update_self, hs]
          rfl
        rw [hself, Option.some.injEq] at he
        rw [he] at hc
        exact hV.mem c hc
      · rw [show (σ.mark p).mem.sol q = σ.mem.sol q from Function.update_of_ne hqp _ _] at he
        exact hV.mono c (hS q hql hne u he.symm hux c hc)
    · rw [hu, Option.some.injEq] at hu'
      rw [hu', hx'] at hux
      cases hux
  · have h1 := hV.measure
    have h2 := unexpanded_mark hp hs hx
    have h3 : (σ.mark p).evaluated.length = σ.evaluated.length := rfl
    omega

end

/-! ## All rounds -/

/-- The first solution of the list that is not expanded. -/
theorem findUnexpanded_spec {mem : Memory} {rest Z : List Ptr} {x : Ptr}
    (hx : rest ++ [tail] = x :: Z) (hpath : Path mem.next x Z)
    (hrest : ∀ q ∈ rest, q ≠ tail ∧ ∃ s, mem.sol q = some s) {fuel : Nat}
    (hfuel : rest.length < fuel) :
    (∃ p ∈ rest, ∃ s, mem.sol p = some s ∧ s.expanded = false ∧
      findUnexpanded mem fuel x = some p) ∨
    (findUnexpanded mem fuel x = some tail ∧
      ∀ p ∈ rest, ∃ s, mem.sol p = some s ∧ s.expanded = true) := by
  induction rest generalizing x Z fuel with
  | nil =>
    obtain ⟨f, rfl⟩ : ∃ f, fuel = f + 1 := ⟨fuel - 1, by omega⟩
    obtain ⟨rfl, rfl⟩ := List.cons.inj hx
    exact Or.inr ⟨if_pos rfl, fun p hp => absurd hp List.not_mem_nil⟩
  | cons q rest ih =>
    obtain ⟨f, rfl⟩ : ∃ f, fuel = f + 1 := ⟨fuel - 1, by omega⟩
    obtain ⟨rfl, hZ⟩ := List.cons.inj hx
    have hZ : rest ++ [tail] = Z := hZ
    obtain ⟨hqt, s, hs⟩ := hrest q (List.mem_cons_self ..)
    unfold findUnexpanded
    rw [if_neg hqt, hs]
    simp only [Option.bind_eq_bind, Option.bind_some]
    by_cases hxs : s.expanded = true
    · obtain ⟨y, Z', hy⟩ : ∃ y Z', rest ++ [tail] = y :: Z' :=
        List.exists_cons_of_ne_nil (by simp)
      have hpath' := hpath
      rw [← hZ, hy] at hpath'
      rw [if_pos hxs, Memory.getNext_eq hs, hpath'.1, Option.bind_some]
      rcases ih hy hpath'.2 (fun q hq => hrest q (List.mem_cons_of_mem _ hq))
        (show rest.length < f by simp at hfuel; omega) with ⟨p, hp, u, hu, hx, hf⟩ | ⟨hf, hall⟩
      · exact Or.inl ⟨p, List.mem_cons_of_mem _ hp, u, hu, hx, hf⟩
      · refine Or.inr ⟨hf, fun p hp => ?_⟩
        rcases List.mem_cons.1 hp with rfl | hp
        · exact ⟨s, hs, hxs⟩
        · exact hall p hp
    · rw [if_neg hxs]
      exact Or.inl ⟨q, List.mem_cons_self .., s, hs, by simpa using hxs, rfl⟩

/-- **The next solution to expand**, or the end. -/
theorem Inv.nextCurrent (hI : Inv v m eval σ l) :
    (∃ p ∈ l, ∃ s, σ.mem.sol p = some s ∧ s.expanded = false ∧ σ.nextCurrent = some p) ∨
    (σ.nextCurrent = some tail ∧ ∀ p ∈ l, ∃ s, σ.mem.sol p = some s ∧ s.expanded = true) := by
  obtain ⟨x, Z, hx⟩ : ∃ x Z, l ++ [tail] = x :: Z := List.exists_cons_of_ne_nil (by simp)
  have hlinks := hI.curve.links
  rw [hx] at hlinks
  obtain ⟨t, ht⟩ := hI.curve.live head (List.mem_cons_self ..)
  have hfirst : σ.mem.getNext head = some x := by
    rw [Memory.getNext_eq ht]
    exact hlinks.1
  unfold Search.nextCurrent
  rw [hfirst]
  simp only [Option.bind_eq_bind, Option.bind_some]
  refine findUnexpanded_spec hx hlinks.2.2.path (fun q hq => ⟨?_, hI.curve.live q (by simp [hq])⟩)
    hI.curve.length_lt
  have hd := hI.curve.nodup
  simp only [List.nodup_append, List.nodup_cons, List.mem_append, List.mem_cons] at hd
  exact hd.2.2.2 q hq tail (by simp)

/-- The address of a solution is not that of the tail. -/
theorem Inv.ne_tail (hI : Inv v m eval σ l) {p : Ptr} (hp : p ∈ l) : p ≠ tail := by
  have hd := hI.curve.nodup
  simp only [List.nodup_append, List.nodup_cons, List.mem_append, List.mem_cons] at hd
  exact hd.2.2.2 p hp tail (by simp)

theorem Inv.ne_head (hI : Inv v m eval σ l) {p : Ptr} (hp : p ∈ l) : p ≠ head := by
  rintro rfl
  exact (List.nodup_cons.1 hI.curve.nodup).1 (List.mem_append_left _ hp)

/-- **The rounds end.** In each of them a colouring is evaluated or a solution is expanded. -/
theorem Inv.rounds (hm : 1 ≤ m) (hI : Inv v m eval σ l) (hS : Searched v m σ l head) :
    ∃ fuel σ', rounds v m eval fuel σ = some σ' := by
  induction hn : unexpanded σ l + (m ^ v - σ.evaluated.length) using Nat.strong_induction_on
    generalizing σ l with
  | _ n ih =>
    rcases hI.nextCurrent with ⟨p, hp, s, hs, hx, hnext⟩ | ⟨hnext, -⟩
    · obtain ⟨σ₁, l₁, hexp, hI₁, hS₁, hlt⟩ := hI.expand hp hs hm hS hx
      have h1 := length_le_of_colors hI.nodup hI.colors
      have h2 := length_le_of_colors hI₁.nodup hI₁.colors
      obtain ⟨fuel, σ', hr⟩ := ih _ (by omega) hI₁ hS₁ rfl
      refine ⟨fuel + 1, σ', ?_⟩
      unfold Search.rounds
      rw [hnext]
      simp only [Option.bind_eq_bind, Option.bind_some, if_neg (hI.ne_tail hp), hexp]
      exact hr
    · refine ⟨1, σ, ?_⟩
      unfold Search.rounds
      rw [hnext]
      simp only [Option.bind_eq_bind, Option.bind_some, if_true]

/-- **At the end** the neighbours of all solutions of the list are evaluated. -/
theorem Inv.rounds_end (hm : 1 ≤ m) (hI : Inv v m eval σ l) (hS : Searched v m σ l head)
    {fuel : Nat} {σ' : Search} (h : Search.rounds v m eval fuel σ = some σ') :
    ∃ l', Inv v m eval σ' l' ∧ ∀ p ∈ l', ∀ s, σ'.mem.sol p = some s →
      ∀ c ∈ neighbors v m s.solution, c ∈ σ'.evaluated := by
  induction fuel generalizing σ l with
  | zero => cases h
  | succ fuel ih =>
    unfold Search.rounds at h
    rcases hI.nextCurrent with ⟨p, hp, s, hs, hx, hnext⟩ | ⟨hnext, hall⟩
    · obtain ⟨σ₁, l₁, hexp, hI₁, hS₁, -⟩ := hI.expand hp hs hm hS hx
      rw [hnext] at h
      simp only [Option.bind_eq_bind, Option.bind_some, if_neg (hI.ne_tail hp), hexp] at h
      exact ih hI₁ hS₁ h
    · rw [hnext] at h
      simp only [Option.bind_eq_bind, Option.bind_some, if_true] at h
      obtain rfl := Option.some.inj h
      refine ⟨l, hI, fun p hp s hs => ?_⟩
      obtain ⟨t, ht, hx⟩ := hall p hp
      obtain rfl := Option.some.inj (hs.symm.trans ht)
      exact hS p hp (hI.ne_head hp) s hs hx

end

/-! ## The run -/

section
variable (v m : Nat) (eval : List Nat → Nat × Nat) (init : List Nat)

/-- The states between the rounds. -/
inductive Between : Search → Prop
  | start : Between (start m eval init)
  | round {σ σ' : Search} {p : Ptr} (h : Between σ) (hp : σ.nextCurrent = some p) (ht : p ≠ tail)
      (he : expand v m eval p σ = some σ') : Between σ'

/-- The states between the rounds and between the visits of a round. -/
def During (σ' : Search) : Prop :=
  Between v m eval init σ' ∨
    ∃ σ p s pre post, Between v m eval init σ ∧ σ.nextCurrent = some p ∧ p ≠ tail ∧
      σ.mem.sol p = some s ∧ neighbors v m s.solution = pre ++ post ∧
      pre.foldlM (fun σ c => visit m eval c σ) (σ.mark p) = some σ'

variable {v m init} (hm : 1 ≤ m) (hinit : Colors v m init)
include hinit

theorem inv_start : Inv v m eval (start m eval init) [2] := by
  have hsol : (start m eval init).mem.sol 2 =
      some ⟨m, init, false, (eval init).1, (eval init).2⟩ := rfl
  have hpoint : (start m eval init).mem.point 2 = pointOf eval init := Memory.point_eq hsol
  refine ⟨⟨⟨rfl, rfl, rfl, rfl, trivial⟩, by decide, ?_, ?_, List.pairwise_singleton _ _, ?_, ?_⟩,
    List.cons_ne_nil _ _, ?_, ?_, List.nodup_singleton _, ?_, ?_⟩
  · intro p hp
    simp only [List.mem_cons, List.not_mem_nil, or_false, List.mem_append] at hp
    rcases hp with rfl | rfl | rfl <;> exact ⟨_, rfl⟩
  · rintro p ⟨cur, hcur⟩
    by_contra hle
    have hp : p ≠ 2 ∧ p ≠ tail ∧ p ≠ head := by
      have hsize : (start m eval init).mem.size = 3 := rfl
      rw [hsize] at hle
      refine ⟨?_, ?_, ?_⟩ <;> rintro rfl <;> exact hle (by decide)
    have hnone : (start m eval init).mem.sol p = none := by
      have hsols : (start m eval init).mem.sol = Function.update (Function.update
          (Function.update (fun _ => none) head (some ⟨0, [], false, 0, 0⟩)) tail
            (some ⟨0, [], false, 0, 0⟩)) 2
              (some ⟨m, init, false, (eval init).1, (eval init).2⟩) := rfl
      rw [hsols, Function.update_of_ne hp.1, Function.update_of_ne hp.2.1,
        Function.update_of_ne hp.2.2]
    rw [hnone] at hcur
    cases hcur
  · intro k x
    have hmap : (start m eval init).load2bdwt =
        Function.update (fun _ => none) (eval init).2 (some (eval init).1) := rfl
    simp only [hmap, List.mem_singleton, exists_eq_left, hpoint, Function.update_apply]
    by_cases hk : k = (eval init).2
    · simp [hk, pointOf]
    · simp [hk, pointOf, Ne.symm hk]
  · intro k x
    have hmap : (start m eval init).bdwt2load =
        Function.update (fun _ => none) (eval init).1 (some (eval init).2) := rfl
    simp only [hmap, List.mem_singleton, exists_eq_left, hpoint, Function.update_apply]
    by_cases hk : k = (eval init).1
    · simp [hk, pointOf]
    · simp [hk, pointOf, Ne.symm hk]
  · intro p hp
    obtain rfl := List.mem_singleton.1 hp
    exact ⟨_, hsol, rfl, List.mem_cons_self .., rfl⟩
  · intro t
    show t ∈ [getString m init] ↔ ∃ c ∈ [init], t = getString m c
    simp
  · intro c hc
    obtain rfl := List.mem_singleton.1 hc
    exact hinit
  · intro c hc
    obtain rfl := List.mem_singleton.1 hc
    exact ⟨2, List.mem_singleton_self _, hpoint.le⟩

omit hinit in
theorem searched_start : Searched v m (start m eval init) [2] head := by
  intro p hp _ s hs hx
  obtain rfl := List.mem_singleton.1 hp
  obtain rfl := Option.some.inj (show some _ = some s from hs)
  cases hx

include hm in
/-- **Between the rounds** the invariant holds. -/
theorem Between.inv {σ : Search} (h : Between v m eval init σ) :
    ∃ l, Inv v m eval σ l ∧ Searched v m σ l head := by
  induction h with
  | start => exact ⟨[2], inv_start eval hinit, searched_start eval⟩
  | round h hp ht he ih =>
    obtain ⟨l, hI, hS⟩ := ih
    rcases hI.nextCurrent with ⟨q, hq, s, hs, hx, hnext⟩ | ⟨hnext, -⟩
    · obtain rfl := Option.some.inj (hp.symm.trans hnext)
      obtain ⟨σ₁, l₁, hexp, hI₁, hS₁, -⟩ := hI.expand hq hs hm hS hx
      obtain rfl := Option.some.inj (he.symm.trans hexp)
      exact ⟨l₁, hI₁, hS₁⟩
    · exact absurd (Option.some.inj (hp.symm.trans hnext)) ht

include hm in
/-- **During the run** the invariant holds. -/
theorem During.inv {σ : Search} (h : During v m eval init σ) : ∃ l, Inv v m eval σ l := by
  rcases h with h | ⟨σ₀, p, s, pre, post, h, hnext, hpt, hs, hcs, hfold⟩
  · obtain ⟨l, hI, -⟩ := h.inv eval hm hinit
    exact ⟨l, hI⟩
  · obtain ⟨l, hI, -⟩ := h.inv eval hm hinit
    rcases hI.nextCurrent with ⟨q, hq, t, ht, -, hnext'⟩ | ⟨hnext', -⟩
    · obtain rfl := Option.some.inj (hnext.symm.trans hnext')
      obtain ⟨t', ht', -, hev, -⟩ := hI.listed p hq
      obtain rfl := Option.some.inj (hs.symm.trans ht')
      have hcolors : ∀ c ∈ pre, Colors v m c := fun c hc =>
        (hI.colors _ hev).neighbor (hcs ▸ List.mem_append_left _ hc)
      obtain ⟨σ', l', hfold', hV⟩ := (hI.mark hq hs).visits hm hcolors
      obtain rfl := Option.some.inj (hfold.symm.trans hfold')
      exact ⟨l', hV.inv⟩
    · exact absurd (Option.some.inj (hnext.symm.trans hnext')) hpt

end

end Search

end StripeRepair

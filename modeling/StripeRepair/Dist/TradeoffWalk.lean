import StripeRepair.Dist.Solution
import StripeRepair.Lib.Links
import StripeRepair.Lib.Pareto
import Mathlib

/-!
# The walk of `updateTradeoffCurve`

`genMLP` keeps the solutions it found in a doubly linked list between a head and a tail, and two
maps keep the bandwidth under the load and the load under the bandwidth. The list is edited while
the walk goes along it.

* `loop_left`, `loop_right`: the rounds that change nothing.
* `loop_replace`, `loop_insertBefore`, `loop_insertLast`: the round that puts a solution in.
* `loop_under`: the rounds that take out dominated solutions behind it.
-/

namespace StripeRepair

/-- The address of a solution. -/
abbrev Ptr := Nat

/-- A solution without its links. -/
structure Solution where
  m : Nat
  solution : List Nat
  expanded : Bool
  bdwt : Nat
  load : Nat
  deriving DecidableEq, Repr

namespace Solution

/-- `Solution::getString` -/
def string (s : Solution) : List Char := getString s.m s.solution

def point (s : Solution) : Nat × Nat := (s.load, s.bdwt)

/-- `dominate` -/
def dominate (a b : Solution) : Bool :=
  if a.load < b.load then
    if a.bdwt < b.bdwt then true else if a.bdwt = b.bdwt then true else false
  else if a.load > b.load then false
  else if a.bdwt < b.bdwt then true else false

/-- The order of the points. -/
theorem dominate_iff (a b : Solution) : dominate a b = true ↔ a.point < b.point := by
  unfold dominate point
  rw [Prod.mk_lt_mk]
  split
  · split
    · simp; omega
    · split <;> simp <;> omega
  · split
    · simp; omega
    · split <;> simp <;> omega

end Solution

/-- The solutions and their links. A deleted solution is not there any more, and reading or
writing one that is not there fails, as following a null pointer does. -/
structure Memory where
  sol : Ptr → Option Solution
  next : Ptr → Option Ptr
  prev : Ptr → Option Ptr
  /-- the next address -/
  size : Nat

namespace Memory

variable (μ : Memory)

def getNext (p : Ptr) : Option Ptr := (μ.sol p).bind fun _ => μ.next p

def getPrev (p : Ptr) : Option Ptr := (μ.sol p).bind fun _ => μ.prev p

def setNext (p : Ptr) (q : Option Ptr) : Option Memory :=
  (μ.sol p).map fun _ => { μ with next := Function.update μ.next p q }

def setPrev (p : Ptr) (q : Option Ptr) : Option Memory :=
  (μ.sol p).map fun _ => { μ with prev := Function.update μ.prev p q }

/-- `new Solution(..)` -/
def alloc (s : Solution) : Ptr × Memory :=
  (μ.size, { μ with sol := Function.update μ.sol μ.size (some s), size := μ.size + 1 })

/-- `delete p` -/
def delete (p : Ptr) : Memory := { μ with sol := Function.update μ.sol p none }

end Memory

/-- `unordered_map<int, int>` -/
abbrev Points := Nat → Option Nat

namespace Points

def erase (m : Points) (k : Nat) : Points := Function.update m k none

/-- `insert` keeps what is there. -/
def insert (m : Points) (k v : Nat) : Points :=
  if m k = none then Function.update m k (some v) else m

end Points

/-! ## The walk -/

/-- The variables of `updateTradeoffCurve`. -/
structure CurveWalk where
  mem : Memory
  current : Ptr
  prev : Option Ptr
  load2bdwt : Points
  bdwt2load : Points
  toremove : List Ptr
  status : Bool

namespace CurveWalk

section
variable (tail sol : Ptr) (cur s : Solution) (w : CurveWalk)

/-- The two inserts into the maps. -/
def enter : CurveWalk :=
  { w with
    load2bdwt := w.load2bdwt.insert s.load s.bdwt
    bdwt2load := w.bdwt2load.insert s.bdwt s.load }

/-- Case 2, the first time: `sol` behind the previous solution. -/
def linkPrev : Option CurveWalk :=
  if w.prev = none then do
    let p ← w.mem.getPrev w.current
    let mem ← w.mem.setNext p (some sol)
    let mem ← mem.setPrev sol (some p)
    let mem ← mem.setPrev w.current none
    some { w with mem := mem, prev := some p }
  else some w

/-- Case 2, each time: `sol` before the next solution. -/
def linkNext : Option CurveWalk := do
  let next ← w.mem.getNext w.current
  let mem ← w.mem.setNext sol (some next)
  let mem ← mem.setPrev next (some sol)
  some { w with mem := mem }

/-- Case 2: `sol` dominates the current solution. -/
def replaceCurrent : Option CurveWalk := do
  let w ← w.linkPrev sol
  let w ← w.linkNext sol
  some (enter s { w with
    load2bdwt := w.load2bdwt.erase cur.load
    bdwt2load := w.bdwt2load.erase cur.bdwt
    toremove := w.toremove ++ [w.current]
    status := true })

/-- Case 3, on the left: `sol` before the current solution. -/
def insertBefore : Option CurveWalk :=
  if w.prev = none then do
    let p ← w.mem.getPrev w.current
    let mem ← w.mem.setNext p (some sol)
    let mem ← mem.setPrev sol (some p)
    let mem ← mem.setNext sol (some w.current)
    let mem ← mem.setPrev w.current (some sol)
    some (enter s { w with mem := mem, prev := some p })
  else some w

/-- Case 3, on the right: `sol` before the tail. -/
def insertLast : Option CurveWalk := do
  let next ← w.mem.getNext w.current
  if next = tail then do
    let mem ← w.mem.setNext w.current (some sol)
    let mem ← mem.setPrev sol (some w.current)
    let mem ← mem.setNext sol (some next)
    let mem ← mem.setPrev next (some sol)
    some (enter s { w with mem := mem })
  else some w

/-- The body of the loop; `false` is `break`. -/
def compare : Option (Bool × CurveWalk) :=
  if w.current = sol then some (true, w)
  else do
    let cur ← w.mem.sol w.current
    let s ← w.mem.sol sol
    if cur.string = s.string then some (false, w)
    else if Solution.dominate cur s then some (false, w)
    else if Solution.dominate s cur then (replaceCurrent sol cur s w).map (true, ·)
    else
      -- none dominates the other
      let w := { w with status := true }
      if s.load < cur.load then (insertBefore sol s w).map (true, ·)
      else (insertLast tail sol s w).map (true, ·)

end

/-- `while (current->getNext() != tail)` -/
def loop (tail sol : Ptr) : Nat → CurveWalk → Option CurveWalk
  | 0, _ => none
  | fuel + 1, w => do
    let next ← w.mem.getNext w.current
    if next = tail then some w
    else do
      let (go, w) ← compare tail sol { w with current := next }
      if go then loop tail sol fuel w else some w

end CurveWalk

/-- `updateTradeoffCurve`: the status, and what it does to the solutions and the two maps. -/
def updateTradeoffCurve (head tail sol : Ptr) (mem : Memory) (load2bdwt bdwt2load : Points) :
    Option (Bool × Memory × Points × Points) := do
  let w ← CurveWalk.loop tail sol mem.size ⟨mem, head, none, load2bdwt, bdwt2load, [], false⟩
  some (w.status, w.toremove.foldl Memory.delete w.mem, w.load2bdwt, w.bdwt2load)

namespace Memory

variable {μ : Memory} {p q : Ptr}

/-- The point of a solution that is there. -/
def point (μ : Memory) (p : Ptr) : Nat × Nat := ((μ.sol p).map Solution.point).getD (0, 0)

theorem point_eq {s : Solution} (h : μ.sol p = some s) : μ.point p = s.point := by
  rw [point, h]
  rfl

theorem getNext_eq {s : Solution} (h : μ.sol p = some s) : μ.getNext p = μ.next p := by
  rw [getNext, h]
  rfl

theorem getPrev_eq {s : Solution} (h : μ.sol p = some s) : μ.getPrev p = μ.prev p := by
  rw [getPrev, h]
  rfl

theorem setNext_eq {sol : Ptr → Option Solution} {s : Solution} (h : sol p = some s)
    (next prev : Ptr → Option Ptr) (size : Nat) (q : Option Ptr) :
    (Memory.mk sol next prev size).setNext p q =
      some ⟨sol, Function.update next p q, prev, size⟩ := by
  simp only [setNext, h, Option.map_some]

theorem setPrev_eq {sol : Ptr → Option Solution} {s : Solution} (h : sol p = some s)
    (next prev : Ptr → Option Ptr) (size : Nat) (q : Option Ptr) :
    (Memory.mk sol next prev size).setPrev p q =
      some ⟨sol, next, Function.update prev p q, size⟩ := by
  simp only [setPrev, h, Option.map_some]

end Memory

/-! ## One round of the walk -/

namespace CurveWalk

open Linked Pareto
open Function (update update_of_ne update_self)

section
variable {tail sol : Ptr} {s : Solution} {w : CurveWalk} {q : Ptr} {cur : Solution} {fuel : Nat}

/-- The walk goes on to a solution that is there. -/
theorem loop_succ {last : Solution} (hlast : w.mem.sol w.current = some last)
    (hnext : w.mem.next w.current = some q) (hq : q ≠ tail) {w' : CurveWalk}
    (h : compare tail sol { w with current := q } = some (true, w')) :
    loop tail sol (fuel + 1) w = loop tail sol fuel w' := by
  rw [loop, Memory.getNext_eq hlast, hnext]
  simp only [Option.bind_eq_bind, Option.bind_some, if_neg hq, h, if_true]

/-- The walk ends before the tail. -/
theorem loop_tail {last : Solution} (hlast : w.mem.sol w.current = some last)
    (hnext : w.mem.next w.current = some tail) : loop tail sol (fuel + 1) w = some w := by
  rw [loop, Memory.getNext_eq hlast, hnext]
  simp only [Option.bind_eq_bind, Option.bind_some, if_true]

/-- The walk ends at a solution that dominates the new one. -/
theorem loop_break {last : Solution} (hlast : w.mem.sol w.current = some last)
    (hnext : w.mem.next w.current = some q) (hq : q ≠ tail) {w' : CurveWalk}
    (h : compare tail sol { w with current := q } = some (false, w')) :
    loop tail sol (fuel + 1) w = some w' := by
  rw [loop, Memory.getNext_eq hlast, hnext]
  simp only [Option.bind_eq_bind, Option.bind_some, if_neg hq, h, Bool.false_eq_true, if_false]

section
variable (tail)
variable (hs : w.mem.sol sol = some s) (hc : w.mem.sol w.current = some cur)
  (hne : w.current ≠ sol) (hstr : cur.string ≠ s.string)
include hs hc hne hstr

theorem compare_dominated (h : cur.point < s.point) : compare tail sol w = some (false, w) := by
  rw [compare, if_neg hne, hs, hc]
  simp only [Option.bind_eq_bind, Option.bind_some, if_neg hstr]
  rw [if_pos ((Solution.dominate_iff _ _).2 h)]

theorem compare_dominates (h : s.point < cur.point) :
    compare tail sol w = (replaceCurrent sol cur s w).map (true, ·) := by
  rw [compare, if_neg hne, hs, hc]
  simp only [Option.bind_eq_bind, Option.bind_some, if_neg hstr]
  rw [if_neg fun hd => absurd ((Solution.dominate_iff _ _).1 hd) h.asymm,
    if_pos ((Solution.dominate_iff _ _).2 h)]

/-- On the left of the new solution. -/
theorem compare_left (h1 : cur.load < s.load) (h2 : s.bdwt < cur.bdwt) :
    compare tail sol w = (insertLast tail sol s { w with status := true }).map (true, ·) := by
  rw [compare, if_neg hne, hs, hc]
  simp only [Option.bind_eq_bind, Option.bind_some, if_neg hstr]
  rw [if_neg, if_neg, if_neg (by omega)]
  · rw [Solution.dominate_iff]
    exact fun hd => absurd hd.le.1 (not_le.2 h1)
  · rw [Solution.dominate_iff]
    exact fun hd => absurd hd.le.2 (not_le.2 h2)

/-- On the right of the new solution. -/
theorem compare_right (h1 : s.load < cur.load) (h2 : cur.bdwt < s.bdwt) :
    compare tail sol w = (insertBefore sol s { w with status := true }).map (true, ·) := by
  rw [compare, if_neg hne, hs, hc]
  simp only [Option.bind_eq_bind, Option.bind_some, if_neg hstr]
  rw [if_neg, if_neg, if_pos h1]
  · rw [Solution.dominate_iff]
    exact fun hd => absurd hd.le.2 (not_le.2 h2)
  · rw [Solution.dominate_iff]
    exact fun hd => absurd hd.le.1 (not_le.2 h1)

end

end

/-! ## The rounds along the list -/

/-- Solutions of the list, told apart from the new one. -/
def Items (mem : Memory) (tail sol : Ptr) (s : Solution) (l : List Ptr) : Prop :=
  ∀ q ∈ l, q ≠ tail ∧ q ≠ sol ∧ ∃ cur, mem.sol q = some cur ∧ cur.string ≠ s.string

/-- All of them are there. -/
def Live (mem : Memory) (l : List Ptr) : Prop := ∀ q ∈ l, ∃ cur, mem.sol q = some cur

/-- The two maps after a dominated solution was taken out. -/
def refresh (k v : Nat) (m : Points) (key : Nat) : Points := (m.erase key).insert k v

/-- The walk is behind the place where the new solution was put in. -/
structure Entered (tail : Ptr) (w : CurveWalk) (rest : List Ptr) : Prop where
  prev : w.prev ≠ none
  status : w.status = true
  path : Path w.mem.next w.current (rest ++ [tail])
  live : ∃ last, w.mem.sol w.current = some last

section
variable {head tail sol : Ptr} {s : Solution} (fuel : Nat)

theorem getLast_live {mem : Memory} {p : Ptr} {l : List Ptr} (hp : ∃ cur, mem.sol p = some cur)
    (hl : Items mem tail sol s l) :
    ∃ cur, mem.sol ((p :: l).getLast (List.cons_ne_nil p l)) = some cur := by
  rcases List.mem_cons.1 (List.getLast_mem (List.cons_ne_nil p l)) with h | h
  · rw [h]
    exact hp
  · obtain ⟨-, -, cur, hcur, -⟩ := hl _ h
    exact ⟨cur, hcur⟩

/-- **On the left** the walk changes nothing, unless the tail follows. -/
theorem loop_left {pre : List Ptr} {a : Ptr} (ha : a ≠ tail) {w : CurveWalk}
    (hs : w.mem.sol sol = some s) (hcur : ∃ last, w.mem.sol w.current = some last)
    (hitems : Items w.mem tail sol s pre) (hpath : Path w.mem.next w.current (pre ++ [a]))
    (hleft : Left w.mem.point pre s.point) :
    ∃ b, loop tail sol (fuel + pre.length) w = loop tail sol fuel
      { w with current := (w.current :: pre).getLast (List.cons_ne_nil _ _), status := b } := by
  induction pre generalizing w with
  | nil => exact ⟨w.status, rfl⟩
  | cons q pre ih =>
    obtain ⟨last, hlast⟩ := hcur
    obtain ⟨hqt, hqs, cur, hq, hstr⟩ := hitems q (List.mem_cons_self ..)
    obtain ⟨hl1, hl2⟩ := hleft q (List.mem_cons_self ..)
    rw [Memory.point_eq hq] at hl1 hl2
    have hrest : Items w.mem tail sol s pre := fun r hr => hitems r (List.mem_cons_of_mem _ hr)
    obtain ⟨n, hn, hnt⟩ : ∃ n, w.mem.next q = some n ∧ n ≠ tail := by
      cases pre with
      | nil => exact ⟨a, hpath.2.1, ha⟩
      | cons n pre => exact ⟨n, hpath.2.1, (hrest n (List.mem_cons_self ..)).1⟩
    have hlastIns : insertLast tail sol s { w with current := q, status := true } =
        some { w with current := q, status := true } := by
      unfold insertLast
      rw [Memory.getNext_eq hq]
      simp only [hn, Option.bind_eq_bind, Option.bind_some, if_neg hnt]
    have hcmp := compare_left tail (w := { w with current := q }) hs hq hqs hstr hl1 hl2
    rw [hlastIns] at hcmp
    obtain ⟨b, hb⟩ := ih (w := { w with current := q, status := true }) hs ⟨cur, hq⟩ hrest
      hpath.2 fun r hr => hleft r (List.mem_cons_of_mem _ hr)
    refine ⟨b, ?_⟩
    rw [List.length_cons, ← Nat.add_assoc, loop_succ hlast hpath.1 hqt hcmp, hb]
    rfl

/-- **On the right** the walk changes nothing, once the new solution is in the list. -/
theorem loop_right {post : List Ptr} {w : CurveWalk} (hE : Entered tail w post)
    (hs : w.mem.sol sol = some s) (hitems : Items w.mem tail sol s post)
    (hright : Right w.mem.point post s.point) :
    ∃ p, loop tail sol (fuel + post.length + 1) w = some { w with current := p } := by
  induction post generalizing w with
  | nil =>
    obtain ⟨last, hlast⟩ := hE.live
    exact ⟨w.current, loop_tail hlast hE.path.1⟩
  | cons q post ih =>
    obtain ⟨last, hlast⟩ := hE.live
    obtain ⟨hqt, hqs, cur, hq, hstr⟩ := hitems q (List.mem_cons_self ..)
    obtain ⟨hr1, hr2⟩ := hright q (List.mem_cons_self ..)
    rw [Memory.point_eq hq] at hr1 hr2
    have hins : insertBefore sol s { w with current := q, status := true } =
        some { w with current := q } := by
      unfold insertBefore
      rw [if_neg hE.prev, ← hE.status]
    have hcmp := compare_right tail (w := { w with current := q }) hs hq hqs hstr hr1 hr2
    rw [hins] at hcmp
    obtain ⟨p, hp⟩ := ih (w := { w with current := q }) ⟨hE.prev, hE.status, hE.path.2, cur, hq⟩ hs
      (fun r hr => hitems r (List.mem_cons_of_mem _ hr))
      fun r hr => hright r (List.mem_cons_of_mem _ hr)
    exact ⟨p, (loop_succ hlast hE.path.1 hqt hcmp).trans hp⟩

/-- The links behind the new solution, when it takes the place of one more solution. -/
theorem linkNext_eq {sols : Ptr → Option Solution} {q y : Ptr} {cur ynode : Solution}
    (hs : sols sol = some s) (hq : sols q = some cur) (hy : sols y = some ynode)
    {next prev : Ptr → Option Ptr} (hnext : next q = some y) (size : Nat) (before : Option Ptr)
    (load2bdwt bdwt2load : Points) (toremove : List Ptr) (status : Bool) :
    linkNext sol ⟨⟨sols, next, prev, size⟩, q, before, load2bdwt, bdwt2load, toremove, status⟩ =
      some ⟨⟨sols, update next sol (some y), update prev y (some sol), size⟩, q,
        before, load2bdwt, bdwt2load, toremove, status⟩ := by
  unfold linkNext Memory.getNext
  simp only [hq, hnext, Option.bind_eq_bind, Option.bind_some]
  rw [Memory.setNext_eq hs, Option.bind_some, Memory.setPrev_eq hy, Option.bind_some]

/-- **Dominated solutions** behind the new one are taken out one after the other. -/
theorem loop_under {pre mid rest : List Ptr} {w : CurveWalk} (hE : Entered tail w (mid ++ rest))
    (hlinks : Links w.mem.next w.mem.prev (head :: (pre ++ sol :: (mid ++ rest ++ [tail]))))
    (hd : (head :: (pre ++ sol :: (mid ++ rest ++ [tail]))).Nodup)
    (hs : w.mem.sol sol = some s) (hitems : Items w.mem tail sol s (mid ++ rest))
    (htail : ∃ t, w.mem.sol tail = some t)
    (hunder : ∀ q ∈ mid, s.point < w.mem.point q) :
    ∃ w', loop tail sol (fuel + mid.length) w = loop tail sol fuel w' ∧ Entered tail w' rest ∧
      Links w'.mem.next w'.mem.prev (head :: (pre ++ sol :: (rest ++ [tail]))) ∧
      w'.mem.sol = w.mem.sol ∧ w'.mem.size = w.mem.size ∧
      w'.load2bdwt = (mid.map fun q => (w.mem.point q).1).foldl (refresh s.load s.bdwt)
        w.load2bdwt ∧
      w'.bdwt2load = (mid.map fun q => (w.mem.point q).2).foldl (refresh s.bdwt s.load)
        w.bdwt2load ∧
      w'.toremove = w.toremove ++ mid := by
  induction mid generalizing w with
  | nil => exact ⟨w, rfl, hE, hlinks, rfl, rfl, rfl, rfl, (List.append_nil _).symm⟩
  | cons q mid ih =>
    obtain ⟨last, hlast⟩ := hE.live
    obtain ⟨hqt, hqs, cur, hq, hstr⟩ := hitems q (List.mem_cons_self ..)
    have hpt := Memory.point_eq hq
    have hdom := hunder q (List.mem_cons_self ..)
    rw [hpt] at hdom
    obtain ⟨y, Z, hyZ⟩ : ∃ y Z, mid ++ rest ++ [tail] = y :: Z :=
      List.exists_cons_of_ne_nil (by simp)
    have hrest : Items w.mem tail sol s (mid ++ rest) := fun r hr =>
      hitems r (List.mem_cons_of_mem _ hr)
    obtain ⟨ynode, hy⟩ : ∃ n, w.mem.sol y = some n := by
      have hmem : y ∈ mid ++ rest ++ [tail] := by
        rw [hyZ]
        exact List.mem_cons_self ..
      rcases List.mem_append.1 hmem with h | h
      · obtain ⟨-, -, n, hn, -⟩ := hrest y h
        exact ⟨n, hn⟩
      · rw [List.mem_singleton.1 h]
        exact htail
    have hpath := hE.path
    simp only [List.cons_append] at hlinks hd hpath
    rw [hyZ] at hlinks hd hpath
    have hrep : replaceCurrent sol cur s { w with current := q } =
        some (enter s { w with
          mem := { w.mem with
            next := update w.mem.next sol (some y)
            prev := update w.mem.prev y (some sol) }
          current := q
          load2bdwt := w.load2bdwt.erase cur.load
          bdwt2load := w.bdwt2load.erase cur.bdwt
          toremove := w.toremove ++ [q]
          status := true }) := by
      unfold replaceCurrent linkPrev
      rw [if_neg hE.prev]
      simp only [Option.bind_eq_bind, Option.bind_some]
      rw [linkNext_eq hs hq hy hpath.2.1]
      rfl
    have hcmp := compare_dominates tail (w := { w with current := q }) hs hq hqs hstr hdom
    rw [hrep] at hcmp
    have hlinks' : Links (update w.mem.next sol (some y))
        (update w.mem.prev y (some sol))
        (head :: (pre ++ sol :: (mid ++ rest ++ [tail]))) := by
      rw [hyZ]
      exact Links.remove (head :: pre) [q] hlinks hd (update_self ..)
        (update_self ..) (fun a ha _ => update_of_ne ha _ _)
        fun a ha _ => update_of_ne ha _ _
    have hd' : (head :: (pre ++ sol :: (mid ++ rest ++ [tail]))).Nodup := by
      rw [hyZ]
      exact hd.sublist (List.Sublist.cons_cons _
        (List.Sublist.append_left ((List.sublist_cons_self q _).cons_cons sol) _))
    have hsol : sol ∉ q :: y :: Z := by
      have h := hd
      simp only [List.nodup_cons, List.nodup_append] at h
      grind
    have hpath' : Path (update w.mem.next sol (some y)) q (mid ++ rest ++ [tail]) := by
      rw [hyZ]
      refine hpath.2.congr fun a ha => update_of_ne ?_ _ _
      rintro rfl
      exact hsol ha
    obtain ⟨w', hloop, hE', hl', hsol', hsize', hm1, hm2, hrem⟩ := ih
      (w := enter s { w with
          mem := { w.mem with
            next := update w.mem.next sol (some y)
            prev := update w.mem.prev y (some sol) }
          current := q
          load2bdwt := w.load2bdwt.erase cur.load
          bdwt2load := w.bdwt2load.erase cur.bdwt
          toremove := w.toremove ++ [q]
          status := true }) ⟨hE.prev, rfl, hpath', cur, hq⟩ hlinks' hd' hs hrest htail
      fun r hr => hunder r (List.mem_cons_of_mem _ hr)
    refine ⟨w', ?_, hE', hl', hsol', hsize', ?_, ?_, ?_⟩
    · rw [List.length_cons, ← Nat.add_assoc, loop_succ hlast hpath.1 hqt hcmp, hloop]
    · rw [hm1, List.map_cons, List.foldl_cons, hpt]
      rfl
    · rw [hm2, List.map_cons, List.foldl_cons, hpt]
      rfl
    · rw [hrem]
      show w.toremove ++ [q] ++ mid = _
      rw [List.append_assoc]
      rfl

/-! ## The place of the new solution -/

section
variable {P Z : List Ptr} {p q y : Ptr} {w : CurveWalk} {cur last ynode : Solution}
  (hprev : w.prev = none) (hs : w.mem.sol sol = some s)
  (hlast : w.mem.sol w.current = some last) (hp : w.current = p)
  (hq : w.mem.sol q = some cur)
include hprev hs hlast hp hq

/-- **The first dominated solution** gives its place to the new one. -/
theorem loop_replace (hqt : q ≠ tail) (hstr : cur.string ≠ s.string) (hy : w.mem.sol y = some ynode)
    (hlinks : Links w.mem.next w.mem.prev (P ++ p :: q :: y :: Z))
    (hd : (P ++ p :: q :: y :: Z).Nodup) (hsol : sol ∉ P ++ p :: q :: y :: Z)
    (hdom : s.point < cur.point) :
    ∃ w', loop tail sol (fuel + 1) w = loop tail sol fuel w' ∧ w'.current = q ∧ w'.prev ≠ none ∧
      w'.status = true ∧ Links w'.mem.next w'.mem.prev (P ++ p :: sol :: y :: Z) ∧
      Path w'.mem.next q (y :: Z) ∧ w'.mem.sol = w.mem.sol ∧ w'.mem.size = w.mem.size ∧
      w'.load2bdwt = refresh s.load s.bdwt w.load2bdwt cur.load ∧
      w'.bdwt2load = refresh s.bdwt s.load w.bdwt2load cur.bdwt ∧
      w'.toremove = w.toremove ++ [q] := by
  obtain ⟨hnp, hpq⟩ := hlinks.adjacent
  have hpath : Path w.mem.next q (y :: Z) := by
    have h : Links w.mem.next w.mem.prev (q :: y :: Z) :=
      Links.of_append (l := P ++ [p]) (by simpa using hlinks)
    exact h.path
  subst hp
  have hne : q ≠ w.current ∧ y ≠ w.current ∧ sol ≠ w.current ∧ q ≠ sol ∧ y ≠ sol ∧ y ≠ q ∧
      ∀ a ∈ q :: y :: Z, a ≠ sol ∧ a ≠ w.current := by
    simp only [List.nodup_append, List.nodup_cons, List.mem_append, List.mem_cons,
      not_or] at hd hsol
    grind
  obtain ⟨hqp, hyp, hsp, hqs, hys, hyq, hZ⟩ := hne
  have hrep : replaceCurrent sol cur s { w with current := q } =
      some (enter s { w with
        mem := ⟨w.mem.sol, update (update w.mem.next w.current (some sol)) sol (some y),
          update (update (update w.mem.prev sol (some w.current)) q none)
            y (some sol), w.mem.size⟩
        current := q
        prev := some w.current
        load2bdwt := w.load2bdwt.erase cur.load
        bdwt2load := w.bdwt2load.erase cur.bdwt
        toremove := w.toremove ++ [q]
        status := true }) := by
    have hlink : linkPrev sol { w with current := q } = some { w with
        mem := ⟨w.mem.sol, update w.mem.next w.current (some sol),
          update (update w.mem.prev sol (some w.current)) q none, w.mem.size⟩
        current := q
        prev := some w.current } := by
      unfold linkPrev
      rw [if_pos hprev, Memory.getPrev_eq hq, hpq]
      simp only [Option.bind_eq_bind, Option.bind_some]
      rw [Memory.setNext_eq hlast, Option.bind_some, Memory.setPrev_eq hs, Option.bind_some,
        Memory.setPrev_eq hq, Option.bind_some]
    unfold replaceCurrent
    rw [hlink]
    simp only [Option.bind_eq_bind, Option.bind_some]
    rw [linkNext_eq hs hq hy]
    · rfl
    · show update w.mem.next w.current (some sol) q = some y
      rw [update_of_ne hqp]
      exact hpath.1
  have hcmp := compare_dominates tail (w := { w with current := q }) hs hq hqs hstr hdom
  rw [hrep] at hcmp
  refine ⟨_, loop_succ hlast hnp hqt hcmp, rfl, Option.some_ne_none _, rfl, ?_, ?_, rfl, rfl, rfl,
    rfl, rfl⟩
  · refine Links.insert P [q] hlinks hd hsol ?_ ?_ ?_ ?_ (fun a h1 h2 => ?_) fun a h1 h2 h3 => ?_
    · show update (update w.mem.next w.current (some sol)) sol (some y) w.current = _
      rw [update_of_ne hsp.symm, update_self]
    · exact update_self ..
    · show update (update (update w.mem.prev sol (some w.current)) q none)
        y (some sol) sol = _
      rw [update_of_ne hys.symm, update_of_ne hqs.symm, update_self]
    · exact update_self ..
    · show update (update w.mem.next w.current (some sol)) sol (some y) a = _
      rw [update_of_ne h2, update_of_ne h1]
    · show update (update (update w.mem.prev sol (some w.current)) q none)
        y (some sol) a = _
      rw [update_of_ne h2, update_of_ne (by simpa using h3),
        update_of_ne h1]
  · refine hpath.congr fun a ha => ?_
    show update (update w.mem.next w.current (some sol)) sol (some y) a = _
    rw [update_of_ne (hZ a ha).1, update_of_ne (hZ a ha).2]

/-- **The first solution on the right** gets the new one before it. -/
theorem loop_insertBefore (hqt : q ≠ tail) (hstr : cur.string ≠ s.string)
    (hlinks : Links w.mem.next w.mem.prev (P ++ p :: q :: Z))
    (hd : (P ++ p :: q :: Z).Nodup) (hsol : sol ∉ P ++ p :: q :: Z)
    (h1 : s.load < cur.load) (h2 : cur.bdwt < s.bdwt) :
    ∃ w', loop tail sol (fuel + 1) w = loop tail sol fuel w' ∧ w'.current = q ∧ w'.prev ≠ none ∧
      w'.status = true ∧ Links w'.mem.next w'.mem.prev (P ++ p :: sol :: q :: Z) ∧
      Path w'.mem.next q Z ∧ w'.mem.sol = w.mem.sol ∧ w'.mem.size = w.mem.size ∧
      w'.load2bdwt = w.load2bdwt.insert s.load s.bdwt ∧
      w'.bdwt2load = w.bdwt2load.insert s.bdwt s.load ∧ w'.toremove = w.toremove := by
  obtain ⟨hnp, hpq⟩ := hlinks.adjacent
  have hpath : Path w.mem.next q Z := by
    have h : Links w.mem.next w.mem.prev (q :: Z) :=
      Links.of_append (l := P ++ [p]) (by simpa using hlinks)
    exact h.path
  subst hp
  have hne : q ≠ w.current ∧ sol ≠ w.current ∧ q ≠ sol ∧
      ∀ a ∈ q :: Z, a ≠ sol ∧ a ≠ w.current := by
    simp only [List.nodup_append, List.nodup_cons, List.mem_append, List.mem_cons,
      not_or] at hd hsol
    grind
  obtain ⟨hqp, hsp, hqs, hZ⟩ := hne
  have hins : insertBefore sol s { w with current := q, status := true } =
      some (enter s { w with
        mem := ⟨w.mem.sol, update (update w.mem.next w.current (some sol)) sol (some q),
          update (update w.mem.prev sol (some w.current)) q (some sol), w.mem.size⟩
        current := q
        prev := some w.current
        status := true }) := by
    unfold insertBefore
    rw [if_pos hprev, Memory.getPrev_eq hq, hpq]
    simp only [Option.bind_eq_bind, Option.bind_some]
    rw [Memory.setNext_eq hlast, Option.bind_some, Memory.setPrev_eq hs, Option.bind_some,
      Memory.setNext_eq hs, Option.bind_some, Memory.setPrev_eq hq, Option.bind_some]
  have hcmp := compare_right tail (w := { w with current := q }) hs hq hqs hstr h1 h2
  rw [hins] at hcmp
  refine ⟨_, loop_succ hlast hnp hqt hcmp, rfl, Option.some_ne_none _, rfl, ?_, ?_, rfl, rfl, rfl,
    rfl, rfl⟩
  · refine Links.insert P [] hlinks hd hsol ?_ ?_ ?_ ?_ (fun a h1 h2 => ?_) fun a h1 h2 _ => ?_
    · show update (update w.mem.next w.current (some sol)) sol (some q) w.current = _
      rw [update_of_ne hsp.symm, update_self]
    · exact update_self ..
    · show update (update w.mem.prev sol (some w.current)) q (some sol) sol = _
      rw [update_of_ne hqs.symm, update_self]
    · exact update_self ..
    · show update (update w.mem.next w.current (some sol)) sol (some q) a = _
      rw [update_of_ne h2, update_of_ne h1]
    · show update (update w.mem.prev sol (some w.current)) q (some sol) a = _
      rw [update_of_ne h2, update_of_ne h1]
  · refine hpath.congr fun a ha => ?_
    show update (update w.mem.next w.current (some sol)) sol (some q) a = _
    rw [update_of_ne (hZ a ha).1, update_of_ne (hZ a ha).2]

omit hprev hp in
/-- **Behind the last solution** comes the new one, and the walk ends. -/
theorem loop_insertLast {t : Solution} (ht : w.mem.sol tail = some t) (hqt : q ≠ tail)
    (hstr : cur.string ≠ s.string) (hwq : w.mem.next w.current = some q)
    (hlinks : Links w.mem.next w.mem.prev (P ++ q :: [tail]))
    (hd : (P ++ q :: [tail]).Nodup) (hsol : sol ∉ P ++ q :: [tail])
    (h1 : cur.load < s.load) (h2 : s.bdwt < cur.bdwt) :
    ∃ w', loop tail sol (fuel + 3) w = some w' ∧ w'.status = true ∧
      Links w'.mem.next w'.mem.prev (P ++ q :: sol :: [tail]) ∧
      w'.mem.sol = w.mem.sol ∧ w'.mem.size = w.mem.size ∧
      w'.load2bdwt = w.load2bdwt.insert s.load s.bdwt ∧
      w'.bdwt2load = w.bdwt2load.insert s.bdwt s.load ∧ w'.toremove = w.toremove := by
  have hnq := hlinks.adjacent.1
  have hne : sol ≠ q ∧ sol ≠ tail := by
    simp only [List.mem_append, List.mem_cons, not_or] at hsol
    exact ⟨hsol.2.1, hsol.2.2.1⟩
  obtain ⟨hsq, hst⟩ := hne
  have hins : insertLast tail sol s { w with current := q, status := true } =
      some (enter s { w with
        mem := ⟨w.mem.sol, update (update w.mem.next q (some sol)) sol (some tail),
          update (update w.mem.prev sol (some q)) tail (some sol), w.mem.size⟩
        current := q
        status := true }) := by
    unfold insertLast
    rw [Memory.getNext_eq hq]
    simp only [hnq, Option.bind_eq_bind, Option.bind_some, if_true]
    rw [Memory.setNext_eq hq, Option.bind_some, Memory.setPrev_eq hs, Option.bind_some,
      Memory.setNext_eq hs, Option.bind_some, Memory.setPrev_eq ht, Option.bind_some]
  have hcmp := compare_left tail (w := { w with current := q }) hs hq hsq.symm hstr h1 h2
  rw [hins] at hcmp
  -- the walk meets the new solution once, and then the tail
  have hmeet : ∀ w : CurveWalk, compare tail sol { w with current := sol } =
      some (true, { w with current := sol }) := fun w => by rw [compare, if_pos rfl]
  refine ⟨{ enter s { w with
      mem := ⟨w.mem.sol, update (update w.mem.next q (some sol)) sol (some tail),
        update (update w.mem.prev sol (some q)) tail (some sol), w.mem.size⟩
      status := true } with current := sol }, ?_, rfl, ?_, rfl, rfl, rfl, rfl, rfl⟩
  · rw [loop_succ hlast hwq hqt hcmp]
    refine (loop_succ (q := sol) hq ?_ hst (hmeet _)).trans (loop_tail (show _ = some s from hs) ?_)
    · show update (update w.mem.next q (some sol)) sol (some tail) q = _
      rw [update_of_ne hsq.symm, update_self]
    · exact update_self ..
  · refine Links.insert P [] hlinks hd hsol ?_ ?_ ?_ ?_ (fun a h1 h2 => ?_) fun a h1 h2 _ => ?_
    · show update (update w.mem.next q (some sol)) sol (some tail) q = _
      rw [update_of_ne hsq.symm, update_self]
    · exact update_self ..
    · show update (update w.mem.prev sol (some q)) tail (some sol) sol = _
      rw [update_of_ne hst, update_self]
    · exact update_self ..
    · show update (update w.mem.next q (some sol)) sol (some tail) a = _
      rw [update_of_ne h2, update_of_ne h1]
    · show update (update w.mem.prev sol (some q)) tail (some sol) a = _
      rw [update_of_ne h2, update_of_ne h1]

end

end

end CurveWalk

end StripeRepair

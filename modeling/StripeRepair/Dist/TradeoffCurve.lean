import StripeRepair.Dist.TradeoffWalk
import Mathlib

/-!
# The tradeoff curve of `genMLP`

What one call of `updateTradeoffCurve` makes of the list and the two maps.

* `updateTradeoffCurve_covered`: a solution that is dominated does not enter.
* `updateTradeoffCurve_enters`: another one enters in the place of those it dominates.
-/

namespace StripeRepair

open Linked Pareto

/-! ## The curve -/

namespace Points

/-- The map holds exactly the solutions of the list. -/
def Exact (m : Points) (key val : Ptr → Nat) (l : List Ptr) : Prop :=
  ∀ k v, m k = some v ↔ ∃ q ∈ l, key q = k ∧ val q = v

/-- A new entry, and the entries that are taken out. -/
def Entry (m m' : Points) (k v : Nat) (keys : List Nat) : Prop :=
  ∀ i, m' i = if i = k then some v else if i ∈ keys then none else m i

theorem entry_insert {m : Points} {k : Nat} (h : m k = none) (v : Nat) :
    Entry m (m.insert k v) k v [] := by
  intro i
  rw [insert, if_pos h, Function.update_apply]
  simp

theorem refresh_apply (m : Points) (k v key i : Nat) : CurveWalk.refresh k v m key i =
    if i = k then some ((if k = key then none else m k).getD v)
    else if i = key then none else m i := by
  unfold CurveWalk.refresh insert erase
  simp only [Function.update_apply]
  by_cases hk : k = key
  · subst hk
    by_cases hi : i = k <;> simp [hi]
  · cases hm : m k with
    | none => by_cases hi : i = k <;> simp [hk, hi, Function.update_apply]
    | some x => by_cases hi : i = k <;> simp [hk, hm, hi, Function.update_apply]

/-- The entries of the dominated solutions give way to the new one. -/
theorem entry_refresh {keys : List Nat} {m : Points} {k v : Nat}
    (h : m k = none ∨ m k = some v ∨ k ∈ keys) (hne : keys ≠ []) :
    Entry m (keys.foldl (CurveWalk.refresh k v) m) k v keys := by
  induction keys generalizing m with
  | nil => exact absurd rfl hne
  | cons key keys ih =>
    rw [List.foldl_cons]
    have hk : CurveWalk.refresh k v m key k = some v ∨ k ∈ keys := by
      rw [refresh_apply, if_pos rfl]
      by_cases hkey : k = key
      · left
        rw [if_pos hkey]
        rfl
      · rw [if_neg hkey]
        rcases h with h | h | h
        · rw [h]
          exact Or.inl rfl
        · rw [h]
          exact Or.inl rfl
        · exact Or.inr ((List.mem_cons.1 h).resolve_left hkey)
    cases keys with
    | nil =>
      intro i
      have hv := hk.resolve_right List.not_mem_nil
      rw [refresh_apply, if_pos rfl] at hv
      rw [List.foldl_nil, refresh_apply, hv]
      simp
    | cons key' keys =>
      intro i
      rw [ih (Or.inr hk) (List.cons_ne_nil _ _) i]
      split
      · rfl
      · next hi =>
        rw [refresh_apply, if_neg hi]
        simp only [List.mem_cons]
        by_cases h1 : i = key
        · simp [h1]
        · simp [h1]

/-- A key that only solutions of `mid` may have. -/
theorem Exact.free {m : Points} {key val : Ptr → Nat} {pre mid post : List Ptr} {k : Nat}
    (h : m.Exact key val (pre ++ mid ++ post)) (hkey : ∀ q ∈ pre ++ post, key q ≠ k) :
    m k = none ∨ k ∈ mid.map key := by
  cases hv : m k with
  | none => exact Or.inl rfl
  | some v =>
    obtain ⟨q, hq, hk, -⟩ := (h k v).1 hv
    rw [List.mem_append, List.mem_append] at hq
    rcases hq with (hq | hq) | hq
    · exact absurd hk (hkey q (List.mem_append_left _ hq))
    · exact Or.inr (List.mem_map.2 ⟨q, hq, hk⟩)
    · exact absurd hk (hkey q (List.mem_append_right _ hq))

/-- The map of the new list. -/
theorem Exact.replace {m m' : Points} {key val key' val' : Ptr → Nat} {pre mid post : List Ptr}
    {p : Ptr} {k v : Nat} (h : m.Exact key val (pre ++ mid ++ post))
    (hE : m.Entry m' k v (mid.map key))
    (hkey : ∀ q ∈ pre ++ post, key q ≠ k ∧ ∀ r ∈ mid, key q ≠ key r)
    (hp : key' p = k ∧ val' p = v) (hsame : ∀ q ∈ pre ++ post, key' q = key q ∧ val' q = val q) :
    m'.Exact key' val' (pre ++ p :: post) := by
  have hmem : ∀ q, q ∈ pre ++ p :: post ↔ q = p ∨ q ∈ pre ++ post := by
    intro q
    simp only [List.mem_append, List.mem_cons]
    tauto
  intro i x
  rw [hE i]
  simp only [hmem]
  constructor
  · intro hx
    split at hx
    · next hi =>
      exact ⟨p, Or.inl rfl, hp.1.trans hi.symm, hp.2.trans (Option.some.inj hx)⟩
    · split at hx
      · cases hx
      · next hi hmid =>
        obtain ⟨q, hq, rfl, rfl⟩ := (h i x).1 hx
        have hq' : q ∈ pre ++ post := by
          have hqm : q ∉ mid := fun hqm => hmid (List.mem_map_of_mem hqm)
          simp only [List.mem_append] at hq ⊢
          tauto
        exact ⟨q, Or.inr hq', (hsame q hq').1, (hsame q hq').2⟩
  · rintro ⟨q, rfl | hq, rfl, rfl⟩
    · rw [if_pos hp.1, hp.2]
    · obtain ⟨hk, hmid⟩ := hkey q hq
      obtain ⟨h1, h2⟩ := hsame q hq
      rw [h1, h2, if_neg hk, if_neg, h]
      · refine ⟨q, ?_, rfl, rfl⟩
        simp only [List.mem_append] at hq ⊢
        tauto
      · intro hm
        obtain ⟨r, hr, he⟩ := List.mem_map.1 hm
        exact hmid r hr he.symm

end Points

/-- The list from the head to the tail, and the two maps. -/
structure Curve (head tail : Ptr) (mem : Memory) (load2bdwt bdwt2load : Points) (l : List Ptr) :
    Prop where
  links : Links mem.next mem.prev (head :: (l ++ [tail]))
  nodup : (head :: (l ++ [tail])).Nodup
  live : ∀ p ∈ head :: (l ++ [tail]), ∃ cur, mem.sol p = some cur
  below : ∀ p, (∃ cur, mem.sol p = some cur) → p < mem.size
  front : Front mem.point l
  loads : load2bdwt.Exact (fun p => (mem.point p).1) (fun p => (mem.point p).2) l
  bdwts : bdwt2load.Exact (fun p => (mem.point p).2) (fun p => (mem.point p).1) l

theorem foldl_delete (mem : Memory) (l : List Ptr) : l.foldl Memory.delete mem =
    { mem with sol := fun p => if p ∈ l then none else mem.sol p } := by
  induction l generalizing mem with
  | nil => simp
  | cons p l ih =>
    rw [List.foldl_cons, ih]
    unfold Memory.delete
    congr 1
    funext q
    simp only [Function.update_apply, List.mem_cons]
    by_cases hq : q = p
    · simp [hq]
    · simp [hq]

section
variable {head tail sol : Ptr} {s : Solution} {μ ν : Memory} {load2bdwt bdwt2load : Points}
  {pre mid post : List Ptr}

/-- The points of the solutions that stay. -/
theorem point_congr {p : Ptr} (hsols : ∀ p, ν.sol p = if p ∈ mid then none else μ.sol p)
    (hp : p ∉ mid) : ν.point p = μ.point p := by
  unfold Memory.point
  rw [hsols, if_neg hp]

/-- **The new curve**: the solution in the place of those it dominates. -/
theorem Curve.replace (hC : Curve head tail μ load2bdwt bdwt2load (pre ++ mid ++ post))
    (hs : μ.sol sol = some s) (hsol : sol ∉ head :: (pre ++ mid ++ post ++ [tail]))
    (hl : Left μ.point pre s.point) (hr : Right μ.point post s.point)
    (hlinks : Links ν.next ν.prev (head :: (pre ++ sol :: (post ++ [tail]))))
    (hsols : ∀ p, ν.sol p = if p ∈ mid then none else μ.sol p) (hsize : ν.size = μ.size)
    {load2bdwt' bdwt2load' : Points}
    (hE1 : load2bdwt.Entry load2bdwt' s.load s.bdwt (mid.map fun p => (μ.point p).1))
    (hE2 : bdwt2load.Entry bdwt2load' s.bdwt s.load (mid.map fun p => (μ.point p).2)) :
    Curve head tail ν load2bdwt' bdwt2load' (pre ++ sol :: post) := by
  have hd := hC.nodup
  have hnew : ∀ p ∈ head :: (pre ++ sol :: (post ++ [tail])), p = sol ∨
      p ∈ head :: (pre ++ mid ++ post ++ [tail]) ∧ p ∉ mid := by
    intro p hp
    simp only [List.nodup_append, List.nodup_cons, List.mem_append, List.mem_cons] at hd hp ⊢
    grind
  have hsm : sol ∉ mid := fun h => hsol (by simp [h])
  have hpt := Memory.point_eq hs
  have hpoint : ∀ p ∈ pre ++ sol :: post, ν.point p = μ.point p := by
    intro p hp
    refine point_congr hsols ?_
    rcases hnew p (by simp only [List.mem_append, List.mem_cons] at hp ⊢; tauto) with rfl | h
    · exact hsm
    · exact h.2
  have hstay : ∀ p ∈ pre ++ post, ν.point p = μ.point p := by
    intro p hp
    refine hpoint p ?_
    simp only [List.mem_append, List.mem_cons] at hp ⊢
    tauto
  obtain ⟨hpm, -, hcross⟩ := List.pairwise_append.1 hC.front
  have hsides : ∀ q ∈ pre ++ post, (∀ r ∈ mid, (μ.point q).1 ≠ (μ.point r).1 ∧
      (μ.point q).2 ≠ (μ.point r).2) ∧ (μ.point q).1 ≠ s.load ∧ (μ.point q).2 ≠ s.bdwt := by
    intro q hq
    rcases List.mem_append.1 hq with hq | hq
    · obtain ⟨h1, h2⟩ := hl q hq
      refine ⟨fun r hr => ?_, h1.ne, h2.ne'⟩
      obtain ⟨h3, h4⟩ := (List.pairwise_append.1 hpm).2.2 q hq r hr
      exact ⟨h3.ne, h4.ne'⟩
    · obtain ⟨h1, h2⟩ := hr q hq
      refine ⟨fun r hr => ?_, h1.ne', h2.ne⟩
      obtain ⟨h3, h4⟩ := hcross r (List.mem_append_right _ hr) q hq
      exact ⟨h3.ne', h4.ne⟩
  have hpsol : ν.point sol = s.point :=
    (hpoint sol (List.mem_append_right _ (List.mem_cons_self ..))).trans hpt
  refine ⟨by simpa using hlinks, ?_, ?_, ?_, ?_, ?_, ?_⟩
  · simp only [List.nodup_append, List.nodup_cons, List.mem_append, List.mem_cons] at hd hsol ⊢
    grind
  · intro p hp
    rw [hsols]
    rcases hnew p (by simpa using hp) with rfl | ⟨hold, hmid⟩
    · rw [if_neg hsm]
      exact ⟨s, hs⟩
    · rw [if_neg hmid]
      exact hC.live p hold
  · rintro p ⟨cur, hcur⟩
    rw [hsols] at hcur
    split at hcur
    · cases hcur
    · rw [hsize]
      exact hC.below p ⟨cur, hcur⟩
  · rw [front_congr hpoint]
    refine Front.replace hC.front ?_ ?_ <;> rwa [hpt]
  · refine hC.loads.replace hE1 (fun q hq => ⟨(hsides q hq).2.1, fun r hr => ?_⟩)
      ⟨by rw [hpsol]; rfl, by rw [hpsol]; rfl⟩ fun q hq => by rw [hstay q hq]; exact ⟨rfl, rfl⟩
    exact ((hsides q hq).1 r hr).1
  · refine hC.bdwts.replace hE2 (fun q hq => ⟨(hsides q hq).2.2, fun r hr => ?_⟩)
      ⟨by rw [hpsol]; rfl, by rw [hpsol]; rfl⟩ fun q hq => by rw [hstay q hq]; exact ⟨rfl, rfl⟩
    exact ((hsides q hq).1 r hr).2

/-- The list has different addresses that are in use. -/
theorem Curve.length_lt {l : List Ptr} (hC : Curve head tail μ load2bdwt bdwt2load l) :
    l.length < μ.size := by
  have hsub : head :: (l ++ [tail]) ⊆ List.range μ.size := fun p hp =>
    List.mem_range.2 (hC.below p (hC.live p hp))
  have hlen := (List.subperm_of_subset hC.nodup hsub).length_le
  simp only [List.length_cons, List.length_append, List.length_nil, List.length_range] at hlen
  omega

/-- There are enough addresses for the walk. -/
theorem Curve.length_le {l : List Ptr} (hC : Curve head tail μ load2bdwt bdwt2load l)
    (hs : μ.sol sol = some s) (hsol : sol ∉ head :: (l ++ [tail])) : l.length + 3 ≤ μ.size := by
  have hsub : (sol :: head :: (l ++ [tail])) ⊆ List.range μ.size := by
    intro p hp
    rw [List.mem_range]
    rcases List.mem_cons.1 hp with rfl | hp
    · exact hC.below _ ⟨s, hs⟩
    · exact hC.below p (hC.live p hp)
  have hlen := (List.subperm_of_subset (List.nodup_cons.2 ⟨hsol, hC.nodup⟩) hsub).length_le
  simp only [List.length_cons, List.length_append, List.length_nil, List.length_range] at hlen
  omega

section
variable {l : List Ptr} (hC : Curve head tail μ load2bdwt bdwt2load l)
  (hs : μ.sol sol = some s) (hsol : sol ∉ head :: (l ++ [tail]))
  (hstr : ∀ q ∈ l, ∀ cur, μ.sol q = some cur → cur.string ≠ s.string)
include hC hs hsol hstr

theorem Curve.items : CurveWalk.Items μ tail sol s l := by
  intro q hq
  obtain ⟨cur, hcur⟩ := hC.live q (by simp [hq])
  refine ⟨?_, ?_, cur, hcur, hstr q hq cur hcur⟩
  · have hd := hC.nodup
    simp only [List.nodup_append, List.nodup_cons, List.mem_append, List.mem_cons] at hd
    exact hd.2.2.2 q hq tail (by simp)
  · rintro rfl
    exact hsol (by simp [hq])

/-- The walk comes to the last solution on the left. -/
theorem Curve.walk_left {r : List Ptr} {a : Ptr} (hl : l = pre ++ a :: r)
    (hleft : Left μ.point pre s.point) (fuel : Nat) :
    ∃ (p : Ptr) (b : Bool) (P : List Ptr), head :: pre = P ++ [p] ∧ (∃ last, μ.sol p = some last) ∧
      μ.next p = some a ∧
      CurveWalk.loop tail sol (fuel + pre.length) ⟨μ, head, none, load2bdwt, bdwt2load, [], false⟩ =
        CurveWalk.loop tail sol fuel ⟨μ, p, none, load2bdwt, bdwt2load, [], b⟩ := by
  have hitems := hC.items hs hsol hstr
  have hpath : Path μ.next head (pre ++ a :: (r ++ [tail])) := by
    have h := hC.links.path
    rw [hl] at h
    simpa using h
  have hpre : CurveWalk.Items μ tail sol s pre := fun q hq => hitems q (by simp [hl, hq])
  have hhead : ∃ last, μ.sol head = some last := hC.live head (List.mem_cons_self ..)
  have hpath' : Path μ.next head (pre ++ [a]) := by
    refine Path.left (r := r ++ [tail]) ?_
    simpa using hpath
  obtain ⟨b, hb⟩ := CurveWalk.loop_left fuel (hitems a (by simp [hl])).1
    (w := ⟨μ, head, none, load2bdwt, bdwt2load, [], false⟩) hs hhead hpre hpath' hleft
  exact ⟨_, b, (head :: pre).dropLast, (List.dropLast_append_getLast _).symm,
    CurveWalk.getLast_live hhead hpre, hpath.append.1, hb⟩

/-- **A solution that is dominated** does not enter the list. -/
theorem updateTradeoffCurve_covered (hne : ∀ q ∈ l, μ.point q ≠ s.point) {a : Ptr}
    (hl : l = pre ++ a :: post) (hleft : Left μ.point pre s.point) (ha : μ.point a ≤ s.point) :
    ∃ status, updateTradeoffCurve head tail sol μ load2bdwt bdwt2load =
      some (status, μ, load2bdwt, bdwt2load) := by
  have hmem : a ∈ l := by simp [hl]
  obtain ⟨hat, has, cur, hcur, hcstr⟩ := hC.items hs hsol hstr a hmem
  have hdom : cur.point < s.point := by
    rw [← Memory.point_eq hcur]
    exact lt_of_le_of_ne ha (hne a hmem)
  have hlen := hC.length_le hs hsol
  obtain ⟨fuel, hfuel⟩ : ∃ fuel, μ.size = fuel + 1 + pre.length :=
    ⟨μ.size - 1 - pre.length, by
      rw [hl, List.length_append, List.length_cons] at hlen
      omega⟩
  obtain ⟨p, b, P, -, ⟨last, hlast⟩, hnext, hwalk⟩ := hC.walk_left hs hsol hstr hl hleft (fuel + 1)
  have hcmp := CurveWalk.compare_dominated tail
    (w := ⟨μ, a, none, load2bdwt, bdwt2load, [], b⟩) hs hcur has hcstr hdom
  refine ⟨b, ?_⟩
  unfold updateTradeoffCurve
  rw [hfuel, hwalk, CurveWalk.loop_break hlast hnext hat hcmp]
  rfl

omit hs hsol hstr in
/-- The keys of the new solution belong to no solution that stays. -/
theorem Curve.keys_free (hl : l = pre ++ mid ++ post) (hleft : Left μ.point pre s.point)
    (hright : Right μ.point post s.point) :
    (load2bdwt s.load = none ∨ s.load ∈ mid.map fun p => (μ.point p).1) ∧
      (bdwt2load s.bdwt = none ∨ s.bdwt ∈ mid.map fun p => (μ.point p).2) := by
  subst hl
  constructor
  · refine hC.loads.free fun q hq => ?_
    rcases List.mem_append.1 hq with hq | hq
    · exact (hleft q hq).1.ne
    · exact (hright q hq).1.ne'
  · refine hC.bdwts.free fun q hq => ?_
    rcases List.mem_append.1 hq with hq | hq
    · exact (hleft q hq).2.ne'
    · exact (hright q hq).2.ne

/-- The walk ended behind the new solution, in the place of `mid`. -/
structure CurveWalk.Ends (head tail sol : Ptr) (s : Solution) (μ : Memory)
    (load2bdwt bdwt2load : Points) (pre mid post : List Ptr) (w : CurveWalk) : Prop where
  status : w.status = true
  links : Links w.mem.next w.mem.prev (head :: (pre ++ sol :: (post ++ [tail])))
  sols : w.mem.sol = μ.sol
  size : w.mem.size = μ.size
  loads : load2bdwt.Entry w.load2bdwt s.load s.bdwt (mid.map fun p => (μ.point p).1)
  bdwts : bdwt2load.Entry w.bdwt2load s.bdwt s.load (mid.map fun p => (μ.point p).2)
  toremove : w.toremove = mid

/-- Some solution is dominated. -/
theorem Curve.walk_replace {m : Ptr} (hl : l = pre ++ (m :: mid) ++ post)
    (hleft : Left μ.point pre s.point) (hunder : Under μ.point (m :: mid) s.point)
    (hne : ∀ q ∈ l, μ.point q ≠ s.point) (hright : Right μ.point post s.point) :
    ∃ w, CurveWalk.loop tail sol μ.size ⟨μ, head, none, load2bdwt, bdwt2load, [], false⟩ = some w ∧
      CurveWalk.Ends head tail sol s μ load2bdwt bdwt2load pre (m :: mid) post w := by
  have hitems := hC.items hs hsol hstr
  have hlen := hC.length_le hs hsol
  obtain ⟨hmt, -, cur, hcur, hcstr⟩ := hitems m (by simp [hl])
  have hstrict : ∀ q ∈ m :: mid, s.point < μ.point q := by
    intro q hq
    exact lt_of_le_of_ne (hunder q hq) (hne q (by
      rw [hl]
      exact List.mem_append_left _ (List.mem_append_right _ hq))).symm
  have hpt := Memory.point_eq hcur
  obtain ⟨fuel, hfuel⟩ : ∃ fuel, μ.size = fuel + post.length + 1 + mid.length + 1 + pre.length :=
    ⟨μ.size - (post.length + 1 + mid.length + 1 + pre.length), by
      rw [hl] at hlen
      simp only [List.length_append, List.length_cons] at hlen
      omega⟩
  obtain ⟨p, b, P, hP, ⟨last, hlast⟩, -, hwalk⟩ := hC.walk_left hs hsol hstr
    (hl.trans (by simp : _ = pre ++ m :: (mid ++ post))) hleft
    (fuel + post.length + 1 + mid.length + 1)
  obtain ⟨y, Z, hyZ⟩ : ∃ y Z, mid ++ post ++ [tail] = y :: Z :=
    List.exists_cons_of_ne_nil (by simp)
  obtain ⟨ynode, hy⟩ : ∃ n, μ.sol y = some n := by
    refine hC.live y ?_
    have hmem : y ∈ mid ++ post ++ [tail] := by simp [hyZ]
    rw [hl]
    simp only [List.mem_append, List.mem_cons] at hmem ⊢
    tauto
  have hchain : head :: (l ++ [tail]) = P ++ p :: m :: y :: Z := by
    calc head :: (l ++ [tail]) = (head :: pre) ++ m :: (mid ++ post ++ [tail]) := by simp [hl]
      _ = P ++ p :: m :: y :: Z := by simp [hP, hyZ]
  have hnew : head :: (pre ++ sol :: (mid ++ post ++ [tail])) = P ++ p :: sol :: y :: Z := by
    calc head :: (pre ++ sol :: (mid ++ post ++ [tail]))
        = (head :: pre) ++ sol :: (mid ++ post ++ [tail]) := by simp
      _ = P ++ p :: sol :: y :: Z := by simp [hP, hyZ]
  have hlinks := hC.links
  have hd := hC.nodup
  have hsol' := hsol
  rw [hchain] at hlinks hd hsol'
  obtain ⟨w₁, hw₁, hc₁, hprev₁, hst₁, hlinks₁, hpath₁, hsols₁, hsize₁, hl₁, hb₁, hr₁⟩ :=
    CurveWalk.loop_replace (fuel + post.length + 1 + mid.length)
      (w := ⟨μ, p, none, load2bdwt, bdwt2load, [], b⟩) rfl hs hlast rfl hcur hmt hcstr hy hlinks hd
      hsol' (hpt ▸ hstrict m (List.mem_cons_self ..))
  have hrest : CurveWalk.Items μ tail sol s (mid ++ post) := fun q hq => hitems q (by
    simp only [hl, List.mem_append, List.mem_cons] at hq ⊢
    tauto)
  have hE₁ : CurveWalk.Entered tail w₁ (mid ++ post) := by
    refine ⟨hprev₁, hst₁, ?_, cur, ?_⟩
    · rw [hc₁, hyZ]
      exact hpath₁
    · rw [hc₁, hsols₁]
      exact hcur
  have hd₁ : (head :: (pre ++ sol :: (mid ++ post ++ [tail]))).Nodup := by
    rw [hnew]
    simp only [List.nodup_append, List.nodup_cons, List.mem_append, List.mem_cons] at hd hsol' ⊢
    grind
  rw [← hnew] at hlinks₁
  have hpoint₁ : w₁.mem.point = μ.point := by
    unfold Memory.point
    rw [hsols₁]
  obtain ⟨w₂, hw₂, hE₂, hlinks₂, hsols₂, hsize₂, hl₂, hb₂, hr₂⟩ := CurveWalk.loop_under
    (fuel + post.length + 1) hE₁ hlinks₁ hd₁ (by rw [hsols₁]; exact hs)
    (by unfold CurveWalk.Items; rw [hsols₁]; exact hrest)
    (by rw [hsols₁]; exact hC.live tail (by simp))
    (by rw [hpoint₁]; exact fun q hq => hstrict q (List.mem_cons_of_mem _ hq))
  have hsols : w₂.mem.sol = μ.sol := hsols₂.trans hsols₁
  have hpoint₂ : w₂.mem.point = μ.point := by
    unfold Memory.point
    rw [hsols]
  have hs₂ : w₂.mem.sol sol = some s := by rw [hsols, hs]
  obtain ⟨p', hw₃⟩ := CurveWalk.loop_right fuel hE₂ hs₂
    (by unfold CurveWalk.Items; rw [hsols]; exact fun q hq => hrest q (List.mem_append_right _ hq))
    (by rw [hpoint₂]; exact hright)
  refine ⟨{ w₂ with current := p' }, ?_, hE₂.status, hlinks₂, hsols, hsize₂.trans hsize₁, ?_, ?_,
    ?_⟩
  · rw [hfuel, hwalk, hw₁, hw₂, hw₃]
  · show load2bdwt.Entry w₂.load2bdwt _ _ _
    have h := (hC.keys_free hl hleft hright).1
    rw [hl₂, hl₁, hpoint₁]
    have he := Points.entry_refresh (v := s.bdwt) (h.imp_right Or.inr) (by simp)
    rw [List.map_cons, List.foldl_cons, hpt] at he
    rw [List.map_cons, hpt]
    exact he
  · show bdwt2load.Entry w₂.bdwt2load _ _ _
    have h := (hC.keys_free hl hleft hright).2
    rw [hb₂, hb₁, hpoint₁]
    have he := Points.entry_refresh (v := s.load) (h.imp_right Or.inr) (by simp)
    rw [List.map_cons, List.foldl_cons, hpt] at he
    rw [List.map_cons, hpt]
    exact he
  · rw [hr₂, hr₁]
    rfl

/-- None is dominated, and some are on the right. -/
theorem Curve.walk_before {c : Ptr} (hl : l = pre ++ c :: post) (hleft : Left μ.point pre s.point)
    (hright : Right μ.point (c :: post) s.point) :
    ∃ w, CurveWalk.loop tail sol μ.size ⟨μ, head, none, load2bdwt, bdwt2load, [], false⟩ = some w ∧
      CurveWalk.Ends head tail sol s μ load2bdwt bdwt2load pre [] (c :: post) w := by
  have hitems := hC.items hs hsol hstr
  have hlen := hC.length_le hs hsol
  obtain ⟨hct, -, cur, hcur, hcstr⟩ := hitems c (by simp [hl])
  have hpt := Memory.point_eq hcur
  obtain ⟨hr1, hr2⟩ := hright c (List.mem_cons_self ..)
  rw [hpt] at hr1 hr2
  obtain ⟨fuel, hfuel⟩ : ∃ fuel, μ.size = fuel + post.length + 1 + 1 + pre.length :=
    ⟨μ.size - (post.length + 1 + 1 + pre.length), by
      rw [hl] at hlen
      simp only [List.length_append, List.length_cons] at hlen
      omega⟩
  obtain ⟨p, b, P, hP, ⟨last, hlast⟩, -, hwalk⟩ := hC.walk_left hs hsol hstr hl hleft
    (fuel + post.length + 1 + 1)
  have hchain : head :: (l ++ [tail]) = P ++ p :: c :: (post ++ [tail]) := by
    calc head :: (l ++ [tail]) = (head :: pre) ++ c :: (post ++ [tail]) := by simp [hl]
      _ = P ++ p :: c :: (post ++ [tail]) := by simp [hP]
  have hnew : head :: (pre ++ sol :: (c :: post ++ [tail])) =
      P ++ p :: sol :: c :: (post ++ [tail]) := by
    calc head :: (pre ++ sol :: (c :: post ++ [tail]))
        = (head :: pre) ++ sol :: c :: (post ++ [tail]) := by simp
      _ = P ++ p :: sol :: c :: (post ++ [tail]) := by simp [hP]
  have hlinks := hC.links
  have hd := hC.nodup
  have hsol' := hsol
  rw [hchain] at hlinks hd hsol'
  obtain ⟨w₁, hw₁, hc₁, hprev₁, hst₁, hlinks₁, hpath₁, hsols₁, hsize₁, hl₁, hb₁, hr₁⟩ :=
    CurveWalk.loop_insertBefore (fuel + post.length + 1)
      (w := ⟨μ, p, none, load2bdwt, bdwt2load, [], b⟩) rfl hs hlast rfl hcur hct hcstr hlinks hd
      hsol' hr1 hr2
  have hE₁ : CurveWalk.Entered tail w₁ post := by
    refine ⟨hprev₁, hst₁, ?_, cur, ?_⟩
    · rw [hc₁]
      exact hpath₁
    · rw [hc₁, hsols₁]
      exact hcur
  have hpoint₁ : w₁.mem.point = μ.point := by
    unfold Memory.point
    rw [hsols₁]
  have hs₁ : w₁.mem.sol sol = some s := by rw [hsols₁, hs]
  obtain ⟨p', hw₂⟩ := CurveWalk.loop_right fuel hE₁ hs₁
    (by unfold CurveWalk.Items; rw [hsols₁]; exact fun q hq => hitems q (by simp [hl, hq]))
    (by rw [hpoint₁]; exact fun q hq => hright q (List.mem_cons_of_mem _ hq))
  have hl' : l = pre ++ [] ++ (c :: post) := by simp [hl]
  refine ⟨{ w₁ with current := p' }, ?_, hst₁, by rw [hnew]; exact hlinks₁, hsols₁, hsize₁, ?_, ?_,
    hr₁⟩
  · rw [hfuel, hwalk, hw₁, hw₂]
  · show load2bdwt.Entry w₁.load2bdwt _ _ _
    rw [hl₁]
    exact Points.entry_insert ((hC.keys_free hl' hleft hright).1.resolve_right List.not_mem_nil) _
  · show bdwt2load.Entry w₁.bdwt2load _ _ _
    rw [hb₁]
    exact Points.entry_insert ((hC.keys_free hl' hleft hright).2.resolve_right List.not_mem_nil) _

/-- All are on the left. -/
theorem Curve.walk_last {q : Ptr} (hl : l = pre ++ [q])
    (hleft : Left μ.point (pre ++ [q]) s.point) :
    ∃ w, CurveWalk.loop tail sol μ.size ⟨μ, head, none, load2bdwt, bdwt2load, [], false⟩ = some w ∧
      CurveWalk.Ends head tail sol s μ load2bdwt bdwt2load (pre ++ [q]) [] [] w := by
  have hitems := hC.items hs hsol hstr
  have hlen := hC.length_le hs hsol
  obtain ⟨hqt, -, cur, hcur, hcstr⟩ := hitems q (by simp [hl])
  have hpt := Memory.point_eq hcur
  obtain ⟨hl1, hl2⟩ := hleft q (by simp)
  rw [hpt] at hl1 hl2
  obtain ⟨t, ht⟩ := hC.live tail (by simp)
  obtain ⟨fuel, hfuel⟩ : ∃ fuel, μ.size = fuel + 3 + pre.length :=
    ⟨μ.size - (3 + pre.length), by
      rw [hl] at hlen
      simp only [List.length_append, List.length_cons, List.length_nil] at hlen
      omega⟩
  obtain ⟨p, b, P, hP, ⟨last, hlast⟩, hnext, hwalk⟩ := hC.walk_left hs hsol hstr
    (a := q) (r := []) hl (fun r hr => hleft r (List.mem_append_left _ hr)) (fuel + 3)
  have hchain : head :: (l ++ [tail]) = (head :: pre) ++ q :: [tail] := by simp [hl]
  have hlinks := hC.links
  have hd := hC.nodup
  have hsol' := hsol
  rw [hchain] at hlinks hd hsol'
  obtain ⟨w₁, hw₁, hst₁, hlinks₁, hsols₁, hsize₁, hl₁, hb₁, hr₁⟩ :=
    CurveWalk.loop_insertLast fuel (w := ⟨μ, p, none, load2bdwt, bdwt2load, [], b⟩) hs hlast
      hcur ht hqt hcstr hnext hlinks hd hsol' hl1 hl2
  have hl' : l = pre ++ [q] ++ [] ++ [] := by simp [hl]
  have hright : Right μ.point [] s.point := fun r hr => absurd hr List.not_mem_nil
  refine ⟨w₁, ?_, hst₁, by simpa using hlinks₁, hsols₁, hsize₁, ?_, ?_, hr₁⟩
  · rw [hfuel, hwalk, hw₁]
  · rw [hl₁]
    exact Points.entry_insert ((hC.keys_free hl' hleft hright).1.resolve_right List.not_mem_nil) _
  · rw [hb₁]
    exact Points.entry_insert ((hC.keys_free hl' hleft hright).2.resolve_right List.not_mem_nil) _

/-- **A solution that is not dominated** enters the list. -/
theorem updateTradeoffCurve_enters (hl : l = pre ++ mid ++ post) (hempty : l ≠ [])
    (hleft : Left μ.point pre s.point) (hunder : Under μ.point mid s.point)
    (hne : ∀ q ∈ l, μ.point q ≠ s.point) (hright : Right μ.point post s.point) :
    ∃ ν load2bdwt' bdwt2load', updateTradeoffCurve head tail sol μ load2bdwt bdwt2load =
        some (true, ν, load2bdwt', bdwt2load') ∧
      Curve head tail ν load2bdwt' bdwt2load' (pre ++ sol :: post) ∧
      (∀ p, ν.sol p = if p ∈ mid then none else μ.sol p) ∧ ν.size = μ.size := by
  obtain ⟨w, hwalk, hE⟩ : ∃ w,
      CurveWalk.loop tail sol μ.size ⟨μ, head, none, load2bdwt, bdwt2load, [], false⟩ = some w ∧
        CurveWalk.Ends head tail sol s μ load2bdwt bdwt2load pre mid post w := by
    cases mid with
    | cons m mid => exact hC.walk_replace hs hsol hstr hl hleft hunder hne hright
    | nil =>
      cases post with
      | cons c post =>
        exact hC.walk_before hs hsol hstr (hl.trans (by simp)) hleft hright
      | nil =>
        rcases List.eq_nil_or_concat pre with rfl | ⟨pre, q, rfl⟩
        · exact absurd hl hempty
        · rw [List.concat_eq_append] at hl hleft ⊢
          exact hC.walk_last hs hsol hstr (hl.trans (by simp)) hleft
  have hdel := foldl_delete w.mem w.toremove
  refine ⟨w.toremove.foldl Memory.delete w.mem, w.load2bdwt, w.bdwt2load, ?_, ?_, ?_, ?_⟩
  · unfold updateTradeoffCurve
    rw [hwalk, ← hE.status]
    rfl
  · subst hl
    rw [hdel]
    refine hC.replace
      (ν := { w.mem with sol := fun p => if p ∈ w.toremove then none else w.mem.sol p })
      hs hsol hleft hright hE.links (fun p => ?_) hE.size hE.loads hE.bdwts
    simp only [hE.toremove, hE.sols]
  · intro p
    rw [hdel, hE.toremove, hE.sols]
  · rw [hdel]
    exact hE.size

end

end

end StripeRepair

import StripeRepair.Lib.IntMap
import StripeRepair.Sol.Recolour

/-!
# Changing a colour

A stripe keeps its tables `_in` and `_out` while the planner recolours its vertices:
`changeColor` takes away what the vertex and its children sent and adds what they send now.
`evaluateChange` writes the same difference into a table without touching the stripe.

* `changeColor_iff`: the tables stay those of the colouring unless the vertex keeps its
  colour and is the only parent of that colour of some child.
* `Covers.changeColor`: else no counter gets too small, so no assertion fails later.
* `evaluateChange_eq_changeColor`: the preview is what `changeColor` leaves.
-/

namespace StripeRepair

open PRSolution (colorAt)

/-- `_in` and `_out` -/
structure Counters where
  inMap : IntMap Int
  outMap : IntMap Int

/-- What `changeColor` changes of a stripe. -/
structure StripeTables extends Counters where
  coloring : Coloring
  bdwt : Int
  load : Int

namespace Counters

def empty : Counters := ⟨∅, ∅⟩

/-- The entries are of nodes of the cluster. -/
def Within (m : Counters) (clusterSize : Nat) : Prop :=
  ∀ c, c ∈ m.inMap ∨ c ∈ m.outMap → 0 ≤ c ∧ c < clusterSize

/-- `x` more packets from the first node to the second. -/
def transfer (m : Counters) (src dst x : Int) : Counters := ⟨m.inMap.bump dst x, m.outMap.bump src x⟩

/-- `_bdwt` and `_load`: the loop over `_in` and then the loop over `_out`. -/
def stat (m : Counters) (ord : HashOrder EvalWalk) : Int × Int :=
  let (bdwt, load) := (ord.order .inMap m.inMap.entries).foldl
    (fun acc item => (acc.1 + item.2, IntMap.raise acc.2 item.2)) ((0 : Int), (0 : Int))
  (bdwt, (ord.order .outMap m.outMap.entries).foldl (fun load item => IntMap.raise load item.2) load)

/-- For parent color: parent in --, old out --; parent in ++, new out ++. -/
def changeParent (oldColor newColor : Int) (m : Counters) (parentColor : Int) : Counters :=
  if parentColor = -1 then m
  else
    let m := if parentColor ≠ oldColor ∧ oldColor ≠ -1 then
      ⟨m.inMap.bump parentColor (-1), m.outMap.bump oldColor (-1)⟩ else m
    if parentColor ≠ newColor ∧ newColor ≠ -1 then
      ⟨m.inMap.bump parentColor 1, m.outMap.bump newColor 1⟩ else m

/-- For child color, when the vertex had no color. -/
def addChild (d : ECDAG) (coloring : Coloring) (newColor : Int) (m : Counters) (child : Nat) :
    Counters :=
  let childColor := colorAt coloring child
  if childColor = -1 then m
  else if d.countColor coloring child newColor = 0 ∧ newColor ≠ childColor then
    ⟨m.inMap.bump newColor 1, m.outMap.bump childColor 1⟩
  else m

/-- For child color: if the child sends to one vertex of the old color, take it away. -/
def changeChild (d : ECDAG) (coloring : Coloring) (oldColor newColor : Int) (m : Counters)
    (child : Nat) : Counters :=
  let childColor := colorAt coloring child
  if childColor = -1 then m
  else
    let m := if d.countColor coloring child oldColor = 1 ∧ oldColor ≠ childColor then
      ⟨m.inMap.bump oldColor (-1), m.outMap.bump childColor (-1)⟩ else m
    if d.countColor coloring child newColor = 0 ∧ newColor ≠ childColor then
      ⟨m.inMap.bump newColor 1, m.outMap.bump childColor 1⟩
    else m

end Counters

namespace StripeTables

section
variable (d : ECDAG) (ord : HashOrder EvalWalk)

def evaluateColoring (s : StripeTables) : StripeTables :=
  let m := (ord.order .coloring s.coloring.keys).foldl
    (d.evalVertex (colorAt s.coloring) Stripe.counted fun m e => m.transfer e.1 e.2 1)
    Counters.empty
  { s with toCounters := m, bdwt := (m.stat ord).1, load := (m.stat ord).2 }

/-- The loops over the colors of the parents and over the children. -/
def changeCounters (idx : Nat) (newColor : Int) (s : StripeTables) : Counters :=
  let oldColor := colorAt s.coloring idx
  let m := (d.parentColors (colorAt s.coloring) idx).foldl
    (Counters.changeParent oldColor newColor) s.toCounters
  if oldColor = -1 then (d.childIndices idx).foldl (Counters.addChild d s.coloring newColor) m
  else (d.childIndices idx).foldl (Counters.changeChild d s.coloring oldColor newColor) m

/-- `none` when an assertion fails: an entry of `_in` or `_out` is negative. -/
def changeColor (idx : Nat) (newColor : Int) (s : StripeTables) : Option StripeTables :=
  let m := s.changeCounters d idx newColor
  if (∀ x ∈ m.inMap.values, 0 ≤ x) ∧ ∀ x ∈ m.outMap.values, 0 ≤ x then
    some { toCounters := m, coloring := s.coloring.insert idx newColor
           bdwt := (m.stat ord).1, load := (m.stat ord).2 }
  else none

/-- The tables are those of `evaluateColoring`. -/
structure Evaluated (s : StripeTables) : Prop where
  inMap : ∀ c, s.inMap.get c = (s.evaluateColoring d ord).inMap.get c
  outMap : ∀ c, s.outMap.get c = (s.evaluateColoring d ord).outMap.get c
  bdwt : s.bdwt = (s.evaluateColoring d ord).bdwt
  load : s.load = (s.evaluateColoring d ord).load

/-- The colouring is total. -/
def Total (s : StripeTables) : Prop := ∀ v, v ∈ s.coloring ↔ v ∈ d.nodeIds

end

end StripeTables

/-! ## Counters as functions -/

namespace Counters

def cells (m : Counters) : Cells := ⟨m.outMap.get, m.inMap.get⟩

theorem cells_empty : Counters.empty.cells = .zero := by
  show (⟨_, _⟩ : Cells) = ⟨_, _⟩
  rw [show (Counters.empty.outMap).get = fun _ => 0 from funext IntMap.get_empty,
    show (Counters.empty.inMap).get = fun _ => 0 from funext IntMap.get_empty]

theorem cells_bump (m : Counters) (src dst x : Int) :
    cells ⟨m.inMap.bump dst x, m.outMap.bump src x⟩ = m.cells.move src dst x := by
  rw [cells, IntMap.get_bump, IntMap.get_bump]
  rfl

theorem cells_transfer (m : Counters) (src dst x : Int) :
    (m.transfer src dst x).cells = m.cells.move src dst x := m.cells_bump src dst x

theorem cells_step (p : Prop) [Decidable p] {m : Counters} {t : Cells} (h : m.cells = t)
    (src dst x : Int) :
    (if p then ⟨m.inMap.bump dst x, m.outMap.bump src x⟩ else m : Counters).cells =
      if p then t.move src dst x else t := by
  split
  · rw [cells_bump, h]
  · exact h

theorem cells_changeParent (old new : Int) (m : Counters) (c : Int) :
    (changeParent old new m c).cells = ECDAG.parentMove old new m.cells c := by
  unfold changeParent ECDAG.parentMove
  by_cases h : c = -1
  · rw [if_pos h, if_pos h]
  · rw [if_neg h, if_neg h]
    exact cells_step _ (cells_step _ rfl _ _ _) _ _ _

section
variable (d : ECDAG) (coloring : Coloring) (new : Int) (m : Counters) (child : Nat)

theorem cells_changeChild {old : Int} (hold : old ≠ -1) :
    (changeChild d coloring old new m child).cells =
      d.childMove Cells.move coloring old new m.cells child := by
  unfold changeChild ECDAG.childMove
  by_cases h : colorAt coloring child = -1
  · simp only [h, if_true]
  · simp only [h, hold, if_false]
    exact cells_step _ (cells_step _ rfl _ _ _) _ _ _

theorem cells_addChild : (addChild d coloring new m child).cells =
    d.childMove Cells.move coloring (-1) new m.cells child := by
  unfold addChild ECDAG.childMove
  by_cases h : colorAt coloring child = -1
  · simp only [h, if_true]
  · simp only [h, if_false, if_true]
    exact cells_step _ rfl _ _ _

end

theorem cells_foldl {α : Type} {f : Counters → α → Counters} {g : Cells → α → Cells}
    (h : ∀ m a, (f m a).cells = g m.cells a) (l : List α) (m : Counters) :
    (l.foldl f m).cells = l.foldl g m.cells := by
  induction l generalizing m with
  | nil => rfl
  | cons a l ih => rw [List.foldl_cons, ih, h, List.foldl_cons]

/-- The two numbers depend on the counters only. -/
theorem stat_congr {m m' : Counters} (h : m.cells = m'.cells) (ord : HashOrder EvalWalk) :
    m.stat ord = m'.stat ord := by
  have hpair : ∀ (l : List (Σ _ : Int, Int)) (b p : Int),
      l.foldl (fun (acc : Int × Int) item => (acc.1 + item.2, IntMap.raise acc.2 item.2)) (b, p) =
        (b + (l.map Sigma.snd).sum, (l.map Sigma.snd).foldl IntMap.raise p) := by
    intro l
    induction l with
    | nil => exact fun b p => by simp
    | cons e l ih =>
      intro b p
      rw [List.foldl_cons, ih]
      simp only [List.map_cons, List.sum_cons, List.foldl_cons, add_assoc]
  have hwalk : ∀ (w : EvalWalk) (m : IntMap Int),
      ((ord.order w m.entries).map Sigma.snd).Perm m.values := fun w m => (ord.perm w _).map _
  have htop : ∀ m : Counters, IntMap.IsTop m.inMap.get m.outMap.get (m.stat ord).2 := by
    intro m
    have htop := IntMap.isTop_foldl_raise (hwalk .inMap m.inMap) (hwalk .outMap m.outMap)
    rw [List.foldl_map] at htop
    simp only [stat, hpair]
    exact htop
  have hin : m.inMap.get = m'.inMap.get := congrArg Cells.inn h
  have hout : m.outMap.get = m'.outMap.get := congrArg Cells.out h
  apply Prod.ext
  · simp only [stat, hpair, zero_add]
    rw [(hwalk _ _).sum_eq, (hwalk _ _).sum_eq, IntMap.sum_values_congr hin]
  · have h1 := htop m
    rw [hin, hout] at h1
    exact h1.unique (htop m')

end Counters

/-! ## The counters after a change -/

namespace StripeTables

section
variable {d : ECDAG} (ord : HashOrder EvalWalk) (s : StripeTables)

theorem cells_evaluateColoring :
    (s.evaluateColoring d ord).cells = d.evaluateCells ord s.coloring := by
  unfold evaluateColoring ECDAG.evaluateCells
  rw [← Counters.cells_empty]
  refine Counters.cells_foldl (fun m v => ?_) _ _
  unfold ECDAG.evalVertex
  split
  · rfl
  · refine Counters.cells_foldl (fun m c => ?_) _ m
    split
    · exact m.cells_transfer _ _ _
    · rfl

variable {ord s}

/-- Two numbers follow from the counters. -/
theorem evaluated_iff (hs : (s.bdwt, s.load) = s.stat ord) :
    s.Evaluated d ord ↔ s.cells = d.evaluateCells ord s.coloring := by
  rw [← cells_evaluateColoring]
  constructor
  · intro h
    show (⟨_, _⟩ : Cells) = ⟨_, _⟩
    rw [funext h.inMap, funext h.outMap]
  · intro h
    have hstat := Counters.stat_congr h ord
    rw [← hs] at hstat
    exact ⟨fun c => congrFun (congrArg Cells.inn h) c, fun c => congrFun (congrArg Cells.out h) c,
      congrArg Prod.fst hstat, congrArg Prod.snd hstat⟩

theorem Evaluated.cells_eq (hs : s.Evaluated d ord) : s.cells = d.evaluateCells ord s.coloring := by
  rw [← cells_evaluateColoring]
  show (⟨_, _⟩ : Cells) = ⟨_, _⟩
  rw [funext hs.inMap, funext hs.outMap]

theorem cells_changeCounters (idx : Nat) (new : Int) :
    (s.changeCounters d idx new).cells = d.changeCells s.coloring s.cells idx new := by
  unfold changeCounters ECDAG.changeCells
  dsimp only
  have hparents := Counters.cells_foldl (Counters.cells_changeParent (colorAt s.coloring idx) new)
    (d.parentColors (colorAt s.coloring) idx) s.toCounters
  split
  · next h =>
    rw [Counters.cells_foldl (Counters.cells_addChild d s.coloring new), hparents, h]
  · next h =>
    rw [Counters.cells_foldl fun m child => Counters.cells_changeChild d s.coloring new m child h,
      hparents]

end

theorem keys_perm_insert {coloring : Coloring} {idx : Nat} (h : idx ∈ coloring) (new : Int) :
    (coloring.insert idx new).keys.Perm coloring.keys := by
  refine (List.perm_ext_iff_of_nodup (AList.keys_nodup _) (AList.keys_nodup _)).2 fun v => ?_
  show v ∈ coloring.insert idx new ↔ v ∈ coloring
  rw [AList.mem_insert]
  constructor
  · rintro (rfl | hv)
    · exact h
    · exact hv
  · exact Or.inr

/-- The tables as sums over the transfers. -/
theorem Evaluated.tracks {d : ECDAG} {ord : HashOrder EvalWalk} {s : StripeTables}
    (hs : s.Evaluated d ord) (idx : Nat) (new : Int) :
    (s.changeCounters d idx new).cells.Tracks fun w =>
      (s.coloring.keys.map (d.sent (colorAt s.coloring) w)).sum +
        ((d.parentColors (colorAt s.coloring) idx).map
          (ECDAG.parentWeight (colorAt s.coloring idx) new w)).sum +
        ((d.childIndices idx).map (d.childWeight s.coloring (colorAt s.coloring idx) new w)).sum := by
  rw [cells_changeCounters, hs.cells_eq]
  exact d.tracks_changeCells s.coloring (d.tracks_evaluateCells ord s.coloring) idx new

theorem Weight.from_nonneg (x a b : Int) : 0 ≤ Weight.from x a b := by
  unfold Weight.from
  split <;> omega

theorem Weight.into_nonneg (x a b : Int) : 0 ≤ Weight.into x a b := by
  unfold Weight.into
  split <;> omega

/-- `idx` keeps its colour and a child sends to that colour because of `idx` alone. -/
def Drops (d : ECDAG) (s : StripeTables) (idx : Nat) (newColor : Int) : Prop :=
  colorAt s.coloring idx = newColor ∧ ∃ child ∈ d.childIndices idx,
    colorAt s.coloring child ≠ -1 ∧ colorAt s.coloring child ≠ newColor ∧
      d.countColor s.coloring child newColor = 1

instance (d : ECDAG) (s : StripeTables) (idx : Nat) (newColor : Int) :
    Decidable (s.Drops d idx newColor) :=
  inferInstanceAs (Decidable (_ ∧ ∃ child ∈ d.childIndices idx, _ ∧ _ ∧ _))

/-- No counter is below that of `evaluateColoring`. -/
structure Covers (d : ECDAG) (ord : HashOrder EvalWalk) (s : StripeTables) : Prop where
  out : ∀ c, (d.evaluateCells ord s.coloring).out c ≤ s.cells.out c
  inn : ∀ c, (d.evaluateCells ord s.coloring).inn c ≤ s.cells.inn c

theorem Evaluated.covers {d : ECDAG} {ord : HashOrder EvalWalk} {s : StripeTables}
    (hs : s.Evaluated d ord) : s.Covers d ord :=
  ⟨fun c => (congrArg (fun t : Cells => t.out c) hs.cells_eq).ge,
    fun c => (congrArg (fun t : Cells => t.inn c) hs.cells_eq).ge⟩

/-- What is left when no assertion fails. -/
theorem changeColor_some {d : ECDAG} {ord : HashOrder EvalWalk} {s s' : StripeTables} {idx : Nat}
    {new : Int} (h : s.changeColor d ord idx new = some s') :
    s'.coloring = s.coloring.insert idx new ∧
      s'.cells = d.changeCells s.coloring s.cells idx new := by
  unfold changeColor at h
  dsimp only at h
  split at h
  · obtain rfl := Option.some.inj h
    exact ⟨rfl, cells_changeCounters idx new⟩
  · cases h

theorem colorAt_insert_self (coloring : Coloring) (idx : Nat) (new : Int) :
    colorAt (coloring.insert idx new) idx = new := by
  rw [PRSolution.colorAt_insert, if_pos rfl]

theorem colorAt_insert_of_ne (coloring : Coloring) {idx v : Nat} (hv : v ≠ idx) (new : Int) :
    colorAt (coloring.insert idx new) v = colorAt coloring v := by
  rw [PRSolution.colorAt_insert, if_neg hv]

section
variable {d : ECDAG} (hd : d.Consistent) {ord : HashOrder EvalWalk} {s : StripeTables}
  (ht : s.Total d) {idx : Nat} (hidx : idx ∈ d.nodeIds)

include ht hidx in
theorem Total.changeColor {s' : StripeTables} {new : Int}
    (h : s.changeColor d ord idx new = some s') : s'.Total d := by
  intro v
  rw [(changeColor_some h).1, AList.mem_insert, ht v]
  refine or_iff_right_of_imp ?_
  rintro rfl
  exact hidx

include hd ht hidx

/-- **The assertions hold** while the counters are not too small. -/
theorem Covers.changeColor_eq (hs : s.Covers d ord) (new : Int) :
    s.changeColor d ord idx new = some
      { toCounters := s.changeCounters d idx new, coloring := s.coloring.insert idx new
        bdwt := ((s.changeCounters d idx new).stat ord).1
        load := ((s.changeCounters d idx new).stat ord).2 } := by
  obtain ⟨μ, hμ⟩ := s.cells.exists_tracks
  have hkeys := s.coloring.keys_nodup
  have hexact := d.tracks_evaluateCells ord s.coloring
  have htracks := d.tracks_changeCells s.coloring hμ idx new
  rw [← cells_changeCounters] at htracks
  have hall := @ECDAG.Consistent.changed_nonneg d hd idx hidx _ hkeys ht s.coloring
  unfold changeColor
  refine if_pos ⟨fun x hx => ?_, fun x hx => ?_⟩
  · obtain ⟨k, -, rfl⟩ := IntMap.mem_values.1 hx
    have hget := htracks.inn k
    have hnonneg := hall (Weight.into_nonneg k) new
    have hle := hs.inn k
    rw [hexact.inn, hμ.inn] at hle
    show 0 ≤ (s.changeCounters d idx new).cells.inn k
    omega
  · obtain ⟨k, -, rfl⟩ := IntMap.mem_values.1 hx
    have hget := htracks.out k
    have hnonneg := hall (Weight.from_nonneg k) new
    have hle := hs.out k
    rw [hexact.out, hμ.out] at hle
    show 0 ≤ (s.changeCounters d idx new).cells.out k
    omega

/-- **No counter gets too small** if no transfer is dropped. -/
theorem Covers.changeColor (hs : s.Covers d ord) {new : Int} (hnew : new ≠ -1)
    (hdrop : ¬ s.Drops d idx new) :
    ∃ s', s.changeColor d ord idx new = some s' ∧ s'.Covers d ord ∧ s'.Total d := by
  have heq := hs.changeColor_eq hd ht hidx new
  obtain ⟨μ, hμ⟩ := s.cells.exists_tracks
  have hself := colorAt_insert_self s.coloring idx new
  have hexact := d.tracks_evaluateCells ord s.coloring
  have hexact' := d.tracks_evaluateCells ord (s.coloring.insert idx new)
  have htracks := d.tracks_changeCells s.coloring hμ idx new
  have hperm := keys_perm_insert ((ht idx).2 hidx) new
  have hsum : ∀ {w : Weight}, (∀ a b, 0 ≤ w a b) → _ := fun {w} hw =>
    hd.sum_sent_le (w := w) hidx s.coloring.keys_nodup ht
      (fun v hv => colorAt_insert_of_ne s.coloring hv new) (by rw [hself]; exact hnew) hw
      fun h child hc h1 h2 h3 => hdrop ⟨(hself.symm.trans h).symm, child, hc, h1, hself ▸ h2, hself ▸ h3⟩
  refine ⟨_, heq, ⟨fun k => ?_, fun k => ?_⟩, ht.changeColor hidx heq⟩
  · have hle := hs.out k
    have hsent := hsum (Weight.from_nonneg k)
    rw [hself] at hsent
    rw [hexact.out, hμ.out] at hle
    show _ ≤ (s.changeCounters d idx new).cells.out k
    rw [hexact'.out, cells_changeCounters, htracks.out, (hperm.map _).sum_eq]
    omega
  · have hle := hs.inn k
    have hsent := hsum (Weight.into_nonneg k)
    rw [hself] at hsent
    rw [hexact.inn, hμ.inn] at hle
    show _ ≤ (s.changeCounters d idx new).cells.inn k
    rw [hexact'.inn, cells_changeCounters, htracks.inn, (hperm.map _).sum_eq]
    omega

/-- **The assertions hold** on the tables of a colouring. -/
theorem changeColor_eq (hs : s.Evaluated d ord) (new : Int) : s.changeColor d ord idx new = some
    { toCounters := s.changeCounters d idx new, coloring := s.coloring.insert idx new
      bdwt := ((s.changeCounters d idx new).stat ord).1
      load := ((s.changeCounters d idx new).stat ord).2 } :=
  hs.covers.changeColor_eq hd ht hidx new

/-- What `evaluateColoring` would count, and the code does not. -/
theorem tracks_recomputed (new : Int) (hch : (d.childIndices idx).Nodup) (hnew : new ≠ -1) :
    (d.evaluateCells ord (s.coloring.insert idx new)).Tracks fun w =>
      (s.coloring.keys.map (d.sent (colorAt s.coloring) w)).sum +
        ((d.parentColors (colorAt s.coloring) idx).map
          (ECDAG.parentWeight (colorAt s.coloring idx) new w)).sum +
        ((d.childIndices idx).map (d.childWeight s.coloring (colorAt s.coloring idx) new w)).sum +
        ((d.childIndices idx).map
          (d.keptWeight s.coloring (colorAt s.coloring idx) new w)).sum := by
  refine (d.tracks_evaluateCells ord _).congr fun w => ?_
  have hself := colorAt_insert_self s.coloring idx new
  have hsame : ∀ v, v ≠ idx → colorAt (s.coloring.insert idx new) v = colorAt s.coloring v :=
    fun v hv => colorAt_insert_of_ne s.coloring hv new
  have hsum := hd.sum_sent hidx s.coloring.keys_nodup ht hsame (by rw [hself]; exact hnew) hch w
  rw [hself] at hsum
  rw [((keys_perm_insert ((ht idx).2 hidx) new).map _).sum_eq, hsum]

end

theorem keptWeight_eq {d : ECDAG} {s : StripeTables} {idx child : Nat} {new : Int} (w : Weight) :
    d.keptWeight s.coloring (colorAt s.coloring idx) new w child =
      if colorAt s.coloring idx = new ∧ colorAt s.coloring child ≠ -1 ∧
        colorAt s.coloring child ≠ new ∧ d.countColor s.coloring child new = 1 then
      w (colorAt s.coloring child) new else 0 := by
  unfold ECDAG.keptWeight
  dsimp only
  by_cases h : colorAt s.coloring idx = new
  · simp only [h, true_and, ne_comm, and_comm]
  · rw [if_neg fun hh => h hh.1.symm, if_neg fun hh => h hh.1]

/-- The counters are right exactly if no transfer is dropped. -/
theorem cells_eq_iff {d : ECDAG} (hd : d.Consistent) {ord : HashOrder EvalWalk}
    {s : StripeTables} (ht : s.Total d) (hs : s.Evaluated d ord) {idx : Nat}
    (hidx : idx ∈ d.nodeIds) (hch : (d.childIndices idx).Nodup) {new : Int} (hnew : new ≠ -1) :
    (s.changeCounters d idx new).cells = d.evaluateCells ord (s.coloring.insert idx new) ↔
      ¬ s.Drops d idx new := by
  have htracks := hs.tracks idx new
  have htrue := @tracks_recomputed d hd ord s ht idx hidx new hch hnew
  constructor
  · rintro heq ⟨hold, child, hc, hcc, hne, hone⟩
    -- the transfer that is dropped is missing at its receiver
    have hinn := htrue.inn new
    rw [← heq, htracks.inn] at hinn
    have hle : d.keptWeight s.coloring (colorAt s.coloring idx) new (.into new) child ≤
        ((d.childIndices idx).map
          (d.keptWeight s.coloring (colorAt s.coloring idx) new (.into new))).sum := by
      refine List.single_le_sum (fun x hx => ?_) _ (List.mem_map_of_mem hc)
      obtain ⟨v, -, rfl⟩ := List.mem_map.1 hx
      rw [keptWeight_eq]
      split
      · exact Weight.into_nonneg _ _ _
      · exact le_refl _
    rw [keptWeight_eq, if_pos ⟨hold, hcc, hne, hone⟩, Weight.into, if_pos rfl] at hle
    omega
  · intro hdrop
    refine htracks.ext (htrue.congr fun w => ?_)
    have hzero : ((d.childIndices idx).map
        (d.keptWeight s.coloring (colorAt s.coloring idx) new w)).sum = 0 := by
      refine List.sum_eq_zero fun x hx => ?_
      obtain ⟨child, hc, rfl⟩ := List.mem_map.1 hx
      rw [keptWeight_eq, if_neg]
      rintro ⟨hold, h⟩
      exact hdrop ⟨hold, child, hc, h⟩
    rw [hzero, add_zero]

/-- **Incremental recolouring equals recomputation** exactly if no transfer is dropped. -/
theorem changeColor_iff {d : ECDAG} (hd : d.Consistent) (hch : ∀ v, (d.childIndices v).Nodup)
    {ord : HashOrder EvalWalk} {s : StripeTables} (ht : s.Total d) (hs : s.Evaluated d ord)
    {idx : Nat} (hidx : idx ∈ d.nodeIds) {new : Int} (hnew : new ≠ -1) :
    (∃ s', s.changeColor d ord idx new = some s' ∧
      (∀ v, s'.coloring.lookup v = if v = idx then some new else s.coloring.lookup v) ∧
      s'.Evaluated d ord) ↔ ¬ s.Drops d idx new := by
  have hlookup : ∀ v, (s.coloring.insert idx new).lookup v =
      if v = idx then some new else s.coloring.lookup v := by
    intro v
    split
    · next h => rw [h, AList.lookup_insert]
    · next h => rw [AList.lookup_insert_ne h]
  rw [changeColor_eq hd ht hidx hs new, ← cells_eq_iff hd ht hs hidx (hch idx) hnew]
  constructor
  · rintro ⟨s', hs', -, heval⟩
    obtain rfl := Option.some.inj hs'
    exact (evaluated_iff rfl).1 heval
  · intro heq
    exact ⟨_, rfl, hlookup, (evaluated_iff rfl).2 heq⟩

theorem evaluated_evaluateColoring (d : ECDAG) (ord : HashOrder EvalWalk) (s : StripeTables) :
    (s.evaluateColoring d ord).Evaluated d ord :=
  ⟨fun _ => rfl, fun _ => rfl, rfl, rfl⟩

/-- Each vertex of `sharedChild` on a node of its own. -/
def fourNodes : StripeTables :=
  evaluateColoring .sharedChild (.insertion _)
    { toCounters := .empty, coloring := [⟨0, 0⟩, ⟨1, 1⟩, ⟨2, 2⟩, ⟨3, 3⟩].toAList
      bdwt := 0, load := 0 }

theorem total_fourNodes : fourNodes.Total .sharedChild := fun _ => Iff.rfl

theorem changeColor_iff_fourNodes : ∃ s', fourNodes.changeColor .sharedChild (.insertion _) 2 3 =
      some s' ∧
    (∀ v, s'.coloring.lookup v = if v = 2 then some 3 else fourNodes.coloring.lookup v) ∧
    s'.Evaluated .sharedChild (.insertion _) := by
  refine (changeColor_iff ECDAG.consistent_sharedChild (fun v => ?_) total_fourNodes
    (evaluated_evaluateColoring _ _ _) (by decide) (by decide)).2 ?_
  · unfold ECDAG.childIndices
    cases h : ECDAG.node? .sharedChild v with
    | none => exact List.nodup_nil
    | some nd =>
      have hall : ∀ nd ∈ ECDAG.sharedChild.ecNodeMap, nd.childNodes.Nodup := by decide
      exact hall nd (List.mem_of_find?_eq_some h)
  · rintro ⟨hold, -⟩
    exact absurd hold (by decide)

/-- Vertex 3 keeps its colour, and what vertices 2 and 0 send to it is gone. -/
theorem sameColor_drops : ¬ ∀ (s : StripeTables), s.Total .sharedChild →
    s.Evaluated .sharedChild (.insertion _) → ∀ idx ∈ ECDAG.sharedChild.nodeIds, ∀ new ≠ -1,
    ∃ s', s.changeColor .sharedChild (.insertion _) idx new = some s' ∧
      (∀ v, s'.coloring.lookup v = if v = idx then some new else s.coloring.lookup v) ∧
      s'.Evaluated .sharedChild (.insertion _) := by
  intro h
  have heval := evaluated_evaluateColoring .sharedChild (.insertion _)
    { toCounters := .empty, coloring := [⟨0, 0⟩, ⟨1, 1⟩, ⟨2, 2⟩, ⟨3, 3⟩].toAList
      bdwt := 0, load := 0 }
  obtain ⟨s', hs', -, h'⟩ := h fourNodes total_fourNodes heval 3 (by decide) 3 (by decide)
  rw [changeColor_eq ECDAG.consistent_sharedChild total_fourNodes (by decide) heval 3] at hs'
  obtain rfl := Option.some.inj hs'
  refine (cells_eq_iff ECDAG.consistent_sharedChild total_fourNodes heval (by decide) (by decide)
    (by decide)).1 ((evaluated_iff rfl).1 h') ⟨by decide, 2, by decide, by decide, by decide, ?_⟩
  decide

end StripeTables

end StripeRepair

import StripeRepair.Lib.BestSoFar
import StripeRepair.Sol.GroupPreview
import Mathlib.Data.Prod.Lex

/-!
# The least colour

The functions that choose a colour differ in the preview they look at and in how they compare
two states. `isBetter2` compares load and bandwidth; `isBetter3` also takes a colour of more
bandwidth when its node sends less.

* `chooseColor_iff`: when the choice is a colour of least load and bandwidth.
* `reads_chooseColor_fullnode`: on a coloured stripe, what is chosen on the counters.
-/

namespace StripeRepair

open PRSolution (colorAt)
open BestSoFar (pick Exact foldl_pick_iff)

/-! ## The comparisons -/

/-- Load and bandwidth, in lexicographic order. -/
def State.pair (st : State) : Int ×ₗ Int := toLex (st.load, st.bdwt)

theorem ParallelSolution.isBetter2_iff (st1 st2 : State) :
    isBetter2 st1 st2 = true ↔ st1.pair < st2.pair := by
  unfold isBetter2 State.pair
  rw [Prod.Lex.toLex_lt_toLex, decide_eq_true_iff]

namespace StripeTables

open ParallelSolution (evalTable1 isBetter2 isBetter2_iff addTables)

/-- `table[color][0]` of a node. -/
def sends (table : List (List Int)) (color : Int) : Int := (table.getD color.toNat []).getD 0 0

/-- `none` when a row is read that is not there: the color -1 has none. -/
def isBetter3 (st1 : State) (color1 : Int) (st2 : State) (color2 : Int) (table : List (List Int)) :
    Option Bool :=
  if st1.load < st2.load then some true
  else if st1.load = st2.load then
    if st1.bdwt < st2.bdwt then some true
    else if 0 ≤ color1 ∧ 0 ≤ color2 then some (sends table color1 < sends table color2)
    else none
  else some false

/-! ## The choice -/

/-- The loop over the colours. -/
def chooseBy (better : State → Int → State → Int → List (List Int) → Option Bool)
    (evaluate : Int → StateM StripeTables (List (List Int))) (colors : List Int) :
    StateM StripeTables (Option Int) := do
  let best ← colors.foldlM (fun best newColor => do
    let testTable ← evaluate newColor
    return pick (fun e b => better e.1 e.2 b.1 b.2 testTable) best
      (evalTable1 testTable, newColor)) (some ((⟨INT_MAX, INT_MAX⟩ : State), (-1 : Int)))
  return best.map Prod.snd

section
variable (d : ECDAG) (ord : HashOrder EvalWalk)

/-- `currTable` of one vertex. -/
def globalChange (loadTable : List (List Int)) (idx : Nat) (newColor : Int) :
    StateM StripeTables (List (List Int)) := do
  return addTables loadTable (← evaluateChange d ord loadTable.length idx newColor)

/-- `currTable` of a group. -/
def globalChange2 (loadTable : List (List Int)) (itmIdx : List Nat) (newColor : Int) :
    StateM StripeTables (List (List Int)) := do
  return addTables loadTable (← evaluateChange2 d ord loadTable.length itmIdx newColor)

def chooseColor_fullnode (childColors : List Int) (loadTable : List (List Int)) (idx : Nat) :
    StateM StripeTables (Option Int) :=
  chooseBy (fun st1 _ st2 _ _ => some (isBetter2 st1 st2)) (globalChange d ord loadTable idx)
    childColors

def chooseColor2New (childColors : List Int) (loadTable : List (List Int)) (itmIdx : List Nat) :
    StateM StripeTables (Option Int) :=
  chooseBy (fun st1 _ st2 _ _ => some (isBetter2 st1 st2)) (globalChange2 d ord loadTable itmIdx)
    childColors

def chooseColor4 (childColors : List Int) (loadTable : List (List Int)) (idx : Nat) :
    StateM StripeTables (Option Int) :=
  chooseBy isBetter3 (globalChange d ord loadTable idx) childColors

/-- `clusterSize` is `_num_agents + _standby_size`. -/
def chooseColor1 (clusterSize : Nat) (childColors : List Int) (idx : Nat) :
    StateM StripeTables (Option Int) :=
  chooseBy isBetter3 (evaluateChange d ord clusterSize idx) childColors

end

/-! ## The previews do not disturb each other

A colour that is put into the colouring is the one that was read. -/

/-- The counters are the same, and each vertex has the colour it had. -/
def SameColors (s s' : StripeTables) : Prop :=
  s'.toCounters = s.toCounters ∧ ∀ v, colorAt s'.coloring v = colorAt s.coloring v

theorem SameColors.refl (s : StripeTables) : SameColors s s := ⟨rfl, fun _ => rfl⟩

theorem run_colorOf_of_some {s : StripeTables} {v : Nat} {c : Int}
    (hv : s.coloring.lookup v = some c) : (colorOf v).run s = (c, s) := by
  unfold colorOf
  simp only [StateT.run_bind, StateT.run_get, pure_bind, hv]
  rfl

theorem run_colorOf_of_none {s : StripeTables} {v : Nat} (hv : s.coloring.lookup v = none) :
    (colorOf v).run s = (0, { s with coloring := s.coloring.insert v 0 }) := by
  unfold colorOf
  simp only [StateT.run_bind, StateT.run_get, pure_bind, hv]
  rfl

theorem peeks_colorOf (v : Nat) : Peeks SameColors (colorOf v) := by
  have hrun : ∀ s : StripeTables, ((colorOf v).run s).1 = colorAt s.coloring v ∧
      SameColors s ((colorOf v).run s).2 := by
    intro s
    cases hv : s.coloring.lookup v with
    | some c =>
      rw [run_colorOf_of_some hv, colorAt, hv]
      exact ⟨rfl, .refl s⟩
    | none =>
      rw [run_colorOf_of_none hv]
      refine ⟨by rw [colorAt, hv]; rfl, rfl, fun u => ?_⟩
      show colorAt (s.coloring.insert v 0) u = _
      rw [PRSolution.colorAt_insert]
      split
      · next h =>
        rw [h, colorAt, hv]
        rfl
      · rfl
  intro s t h
  refine ⟨?_, ?_⟩
  · rw [(hrun t).1, (hrun s).1, h.2 v]
  · obtain ⟨h1, h2⟩ := (hrun t).2
    exact ⟨h1.trans h.1, fun u => (h2 u).trans (h.2 u)⟩

section
variable (d : ECDAG)

theorem peeks_previewParents (idx : Nat) (oldColor newColor : Int) (t : List (List Int)) :
    Peeks SameColors (previewParents d idx oldColor newColor t) :=
  .bind .refl (.foldlM .refl (fun _ p => .bind .refl (peeks_colorOf p) fun _ => .pure _) _ _)
    fun _ => .pure _

theorem peeks_previewAdd (newColor : Int) (t : List (List Int)) (child : Nat) :
    Peeks SameColors (previewAdd d newColor t child) := by
  refine .bind .refl (peeks_colorOf child) fun childColor => ?_
  split
  · exact .pure _
  · refine .bind .refl (.foldlM .refl
      (fun _ p => .bind .refl (peeks_colorOf p) fun _ => .pure _) _ _) fun count => ?_
    split
    · exact .pure _
    · exact .pure _

theorem peeks_countBoth (child : Nat) (oldColor newColor : Int) :
    Peeks SameColors (countBoth d child oldColor newColor) :=
  .foldlM .refl (fun _ p => .bind .refl (peeks_colorOf p) fun _ =>
    .bind .refl (peeks_colorOf p) fun _ => .pure _) _ _

theorem peeks_previewChild (oldColor newColor : Int) (t : List (List Int)) (child : Nat) :
    Peeks SameColors (previewChild d oldColor newColor t child) := by
  refine .bind .refl (peeks_colorOf child) fun childColor => ?_
  split
  · exact .pure _
  · refine .bind .refl (peeks_countBoth d child oldColor newColor) fun count => ?_
    dsimp only
    split
    · exact .pure _
    · exact .pure _

theorem peeks_previewChild2 (oldColor newColor : Int) (t : List (List Int)) (child : Nat) :
    Peeks SameColors (previewChild2 d oldColor newColor t child) := by
  refine .bind .refl (peeks_colorOf child) fun childColor => ?_
  split
  · exact .pure _
  · refine .bind .refl (peeks_countBoth d child oldColor newColor) fun count => ?_
    dsimp only
    split
    · exact .pure _
    · exact .pure _

variable (ord : HashOrder EvalWalk)

theorem copyTables_same (clusterSize : Nat) {s s' : StripeTables} (h : SameColors s s') :
    copyTables ord clusterSize s' = copyTables ord clusterSize s := by
  unfold copyTables
  rw [h.1]

theorem peeks_evaluateChange (clusterSize idx : Nat) (newColor : Int) :
    Peeks SameColors (evaluateChange d ord clusterSize idx newColor) := by
  refine .get_bind (fun s s' h => by rw [copyTables_same ord clusterSize h]) fun s => ?_
  refine .bind .refl (peeks_colorOf idx) fun oldColor => ?_
  refine .bind .refl (peeks_previewParents d idx oldColor newColor _) fun t => ?_
  split
  · exact .foldlM .refl (fun t child => peeks_previewAdd d newColor t child) _ _
  · exact .foldlM .refl (fun t child => peeks_previewChild d oldColor newColor t child) _ _

theorem peeks_evaluateChange2 (agentNum : Nat) (itmIdx : List Nat) (newColor : Int) :
    Peeks SameColors (evaluateChange2 d ord agentNum itmIdx newColor) := by
  refine .get_bind (fun s s' h => by rw [copyTables_same ord agentNum h]) fun s => ?_
  refine .bind .refl (.foldlM .refl (fun t idx => ?_) _ _) fun t => ?_
  · exact .bind .refl (peeks_colorOf idx) fun oldColor =>
      peeks_previewParents d idx oldColor newColor t
  · refine .bind .refl (peeks_colorOf _) fun oldColor => ?_
    split
    · exact .foldlM .refl (fun t child => peeks_previewAdd d newColor t child) _ _
    · exact .foldlM .refl (fun t child => peeks_previewChild2 d oldColor newColor t child) _ _

end

/-! ## The choice is the least -/

section
variable (s : StripeTables) (evaluate : Int → StateM StripeTables (List (List Int)))

/-- The table that is looked at for one colour. -/
def tried (c : Int) : List (List Int) := ((evaluate c).run s).1

/-- **What a choice should do**: of each list of colours of `S`, one whose pair is least. -/
def LeastOn (S : Set Int) (choose : List Int → StateM StripeTables (Option Int)) : Prop :=
  ∀ colors : List Int, colors ≠ [] → (∀ c ∈ colors, c ∈ S) → ∃ best ∈ colors,
    ((choose colors).run s).1 = some best ∧
    ∀ c ∈ colors, (evalTable1 (tried s evaluate best)).pair ≤ (evalTable1 (tried s evaluate c)).pair

/-- The pair is less than that of `State(INT_MAX, INT_MAX)`. -/
def Below (S : Set Int) : Prop :=
  ∀ c ∈ S, (evalTable1 (tried s evaluate c)).pair < (⟨INT_MAX, INT_MAX⟩ : State).pair

/-- `b` is taken after `a`: of the same load and more bandwidth, but its node sends less. -/
def Misleads (a b : Int) : Prop :=
  (evalTable1 (tried s evaluate a)).load = (evalTable1 (tried s evaluate b)).load ∧
  (evalTable1 (tried s evaluate a)).bdwt < (evalTable1 (tried s evaluate b)).bdwt ∧
  sends (tried s evaluate b) b < sends (tried s evaluate b) a

variable {s evaluate} {S : Set Int} (hS : ∀ c ∈ S, 0 ≤ c)
  {better : State → Int → State → Int → List (List Int) → Option Bool}

/-- The previews do not disturb the loop. -/
theorem run_chooseBy (hpeek : ∀ c, Peeks SameColors (evaluate c)) (colors : List Int) :
    ((chooseBy better evaluate colors).run s).1 = (colors.foldl (fun best c =>
      pick (fun e b => better e.1 e.2 b.1 b.2 (tried s evaluate e.2)) best
        (evalTable1 (tried s evaluate c), c))
      (some ((⟨INT_MAX, INT_MAX⟩ : State), (-1 : Int)))).map Prod.snd :=
  congrArg (Option.map Prod.snd) (Peeks.foldlM_eq hpeek
    (fun (best : Option (State × Int)) newColor testTable =>
      pick (fun e b => better e.1 e.2 b.1 b.2 testTable) best (evalTable1 testTable, newColor))
    colors (some (⟨INT_MAX, INT_MAX⟩, -1)) (SameColors.refl s))

include hS

theorem leastOn_iff_exact (hpeek : ∀ c, Peeks SameColors (evaluate c)) :
    LeastOn s evaluate S (chooseBy better evaluate) ↔
      Exact (fun e b : State × Int => better e.1 e.2 b.1 b.2 (tried s evaluate e.2))
        (fun c => (evalTable1 (tried s evaluate c)).pair)
        (fun c => (evalTable1 (tried s evaluate c), c)) (⟨INT_MAX, INT_MAX⟩, -1) S := by
  rw [← foldl_pick_iff (g := Prod.snd) (fun _ _ => rfl) fun h => absurd (hS _ h) (by decide)]
  unfold LeastOn
  simp only [run_chooseBy hpeek]

/-- `isBetter2`: the bound of the loop is the only condition. -/
theorem leastOn_isBetter2 (hpeek : ∀ c, Peeks SameColors (evaluate c)) :
    LeastOn s evaluate S (chooseBy (fun st1 _ st2 _ _ => some (isBetter2 st1 st2)) evaluate) ↔
      Below s evaluate S := by
  rw [leastOn_iff_exact hS hpeek]
  constructor
  · intro h c hc
    exact (isBetter2_iff _ _).1 (Option.some.inj (h.first c hc))
  · intro h
    refine ⟨fun c hc => congrArg some ((isBetter2_iff _ _).2 (h c hc)), fun a _ b _ =>
      ⟨_, rfl, ?_⟩⟩
    split
    · next hlt => exact ((isBetter2_iff _ _).1 hlt).le
    · next hlt => exact not_lt.1 fun h => hlt ((isBetter2_iff _ _).2 h)

/-- `isBetter3`: also no colour misleads. -/
theorem leastOn_isBetter3 (hpeek : ∀ c, Peeks SameColors (evaluate c)) :
    LeastOn s evaluate S (chooseBy isBetter3 evaluate) ↔
      Below s evaluate S ∧ ∀ a ∈ S, ∀ b ∈ S, ¬ Misleads s evaluate a b := by
  rw [leastOn_iff_exact hS hpeek]
  have hpair : ∀ st1 st2 : State, st1.pair < st2.pair ↔
      st1.load < st2.load ∨ st1.load = st2.load ∧ st1.bdwt < st2.bdwt := fun st1 st2 =>
    Prod.Lex.toLex_lt_toLex
  have hpair_le : ∀ st1 st2 : State, st1.pair ≤ st2.pair ↔
      st1.load < st2.load ∨ st1.load = st2.load ∧ st1.bdwt ≤ st2.bdwt := fun st1 st2 =>
    Prod.Lex.toLex_le_toLex
  have hneg : ¬ (0 : Int) ≤ -1 := by decide
  constructor
  · intro h
    refine ⟨fun c hc => ?_, fun a ha b hb hmis => ?_⟩
    · have hfirst := h.first c hc
      rw [hpair]
      simp only [isBetter3] at hfirst
      split at hfirst
      · next hlt => exact Or.inl hlt
      · split at hfirst
        · next heq =>
          split at hfirst
          · next hlt => exact Or.inr ⟨heq, hlt⟩
          · rw [if_neg fun h => hneg h.2] at hfirst
            cases hfirst
        · cases hfirst
    · obtain ⟨yes, hyes, hcost⟩ := h.next a ha b hb
      obtain ⟨hload, hbdwt, hsends⟩ := hmis
      simp only [isBetter3] at hyes
      rw [if_neg (by omega), if_pos hload.symm, if_neg (by omega), if_pos ⟨hS b hb, hS a ha⟩,
        decide_eq_true hsends] at hyes
      obtain rfl := Option.some.inj hyes
      have hcost := (hpair_le _ _).1 hcost
      omega
  · rintro ⟨hbelow, hmis⟩
    refine ⟨fun c hc => ?_, fun a ha b hb => ?_⟩
    · simp only [isBetter3]
      rcases (hpair _ _).1 (hbelow c hc) with h | ⟨h1, h2⟩
      · rw [if_pos h]
      · rw [if_neg (not_lt.2 h1.ge), if_pos h1, if_pos h2]
    · simp only [isBetter3, hpair_le]
      split
      · next hlt => exact ⟨true, rfl, Or.inl hlt⟩
      · next hlt =>
        split
        · next heq =>
          split
          · next hb => exact ⟨true, rfl, Or.inr ⟨heq, hb.le⟩⟩
          · next hnb =>
            rw [if_pos ⟨hS b hb, hS a ha⟩]
            refine ⟨_, rfl, ?_⟩
            split
            · next hsends =>
              -- not more bandwidth, for then `b` would mislead
              refine Or.inr ⟨heq, ?_⟩
              by_contra hlt
              exact hmis a ha b hb ⟨heq.symm, not_le.1 hlt, of_decide_eq_true hsends⟩
            · exact Or.inr ⟨heq.symm, not_lt.1 hnb⟩
        · next hne => exact ⟨false, rfl, Or.inl (by omega)⟩

end

section
variable (d : ECDAG) (ord : HashOrder EvalWalk)

theorem peeks_globalChange (loadTable : List (List Int)) (idx : Nat) (c : Int) :
    Peeks SameColors (globalChange d ord loadTable idx c) :=
  .bind .refl (peeks_evaluateChange d ord _ idx c) fun _ => .pure _

theorem peeks_globalChange2 (loadTable : List (List Int)) (itmIdx : List Nat) (c : Int) :
    Peeks SameColors (globalChange2 d ord loadTable itmIdx c) :=
  .bind .refl (peeks_evaluateChange2 d ord _ itmIdx c) fun _ => .pure _

/-- **When the least colour is chosen**, in each order of the candidates. -/
theorem chooseColor_iff (s : StripeTables) (loadTable : List (List Int)) (clusterSize idx : Nat)
    (itmIdx : List Nat) {S : Set Int} (hS : ∀ c ∈ S, 0 ≤ c) :
    (LeastOn s (globalChange d ord loadTable idx) S
        (fun colors => chooseColor_fullnode d ord colors loadTable idx) ↔
      Below s (globalChange d ord loadTable idx) S) ∧
    (LeastOn s (globalChange2 d ord loadTable itmIdx) S
        (fun colors => chooseColor2New d ord colors loadTable itmIdx) ↔
      Below s (globalChange2 d ord loadTable itmIdx) S) ∧
    (LeastOn s (globalChange d ord loadTable idx) S
        (fun colors => chooseColor4 d ord colors loadTable idx) ↔
      Below s (globalChange d ord loadTable idx) S ∧
        ∀ a ∈ S, ∀ b ∈ S, ¬ Misleads s (globalChange d ord loadTable idx) a b) ∧
    (LeastOn s (evaluateChange d ord clusterSize idx) S
        (fun colors => chooseColor1 d ord clusterSize colors idx) ↔
      Below s (evaluateChange d ord clusterSize idx) S ∧
        ∀ a ∈ S, ∀ b ∈ S, ¬ Misleads s (evaluateChange d ord clusterSize idx) a b) :=
  ⟨leastOn_isBetter2 hS (peeks_globalChange d ord loadTable idx),
    leastOn_isBetter2 hS (peeks_globalChange2 d ord loadTable itmIdx),
    leastOn_isBetter3 hS (peeks_globalChange d ord loadTable idx),
    leastOn_isBetter3 hS (peeks_evaluateChange d ord clusterSize idx)⟩

end

/-- As `uncoloredParities`, with the second parity on node 1. -/
def halfColoredParities : StripeTables :=
  evaluateColoring twoParities (.insertion _)
    { toCounters := .empty
      coloring := [⟨0, 0⟩, ⟨1, 1⟩, ⟨3, -1⟩, ⟨2, 2⟩, ⟨4, 1⟩, ⟨REQUESTOR - 3, 5⟩,
        ⟨REQUESTOR - 4, 6⟩].toAList
      bdwt := 0, load := 0 }

/-- Node 1 sends 5 packets already and node 2 sends 9. -/
def busyTable : List (List Int) := [[0, 0], [5, 0], [9, 0], [0, 0], [0, 0], [0, 0], [0, 0]]

theorem chooseColor_iff_parities :
    LeastOn halfColoredParities (globalChange twoParities (.insertion _) busyTable 3) {0, 1}
      fun colors => chooseColor_fullnode twoParities (.insertion _) colors busyTable 3 := by
  refine (chooseColor_iff twoParities (.insertion _) halfColoredParities busyTable 7 3 [3]
    ?_).1.2 ?_
  · rintro c (rfl | rfl)
    · decide
    · decide
  · rintro c (rfl | rfl)
    · unfold State.pair
      rw [Prod.Lex.toLex_lt_toLex]
      decide +kernel
    · unfold State.pair
      rw [Prod.Lex.toLex_lt_toLex]
      decide +kernel

/-- On node 1 the first parity needs one packet less than on node 0, and is put on node 0. -/
theorem chooseColor4_misled :
    ¬ LeastOn halfColoredParities (globalChange twoParities (.insertion _) busyTable 3) {0, 1}
      fun colors => chooseColor4 twoParities (.insertion _) colors busyTable 3 := by
  intro h
  obtain ⟨best, -, hbest, hle⟩ := h [1, 0] (by decide) fun c hc => by
    rcases List.mem_pair.1 hc with rfl | rfl
    · exact Or.inr rfl
    · exact Or.inl rfl
  have hrun : ((chooseColor4 twoParities (.insertion _) [1, 0] busyTable 3).run
      halfColoredParities).1 = some 0 := by decide +kernel
  obtain rfl : 0 = best := Option.some.inj (hrun.symm.trans hbest)
  have hle := hle 1 List.mem_cons_self
  unfold State.pair at hle
  rw [Prod.Lex.toLex_le_toLex] at hle
  revert hle
  decide +kernel

/-! ## On a coloured stripe -/

section
variable {d : ECDAG} (hd : d.Consistent) {ord : HashOrder EvalWalk} {s : StripeTables}
  (ht : s.Total d) {loadTable : List (List Int)} (hN : s.Within loadTable.length)
  (hcol : ∀ v ∈ d.nodeIds, NodeColor (colorAt s.coloring v)) {colors : List Int}
  (hcolors : ∀ c ∈ colors, 0 ≤ c)
include hd ht hN hcol hcolors

omit hd ht hN hcol in
theorem reads_chooseBy {evaluate : Int → StateM StripeTables (List (List Int))}
    {table : Int → List (List Int)} (hread : ∀ c, 0 ≤ c → Reads s (evaluate c) (table c)) :
    Reads s (chooseBy (fun st1 _ st2 _ _ => some (isBetter2 st1 st2)) evaluate colors)
      (some (ParallelSolution.chooseColor (fun c => evalTable1 (table c)) colors)) := by
  have hloop := Reads.foldlM (s := s) (f := fun best newColor => do
      let testTable ← evaluate newColor
      return pick (fun e b : State × Int => some (isBetter2 e.1 b.1)) best
        (evalTable1 testTable, newColor))
    (g := fun best c => pick (fun e b : State × Int => some (isBetter2 e.1 b.1)) best
      (evalTable1 (table c), c))
    (l := colors) (fun c hc _ => (hread c (hcolors c hc)).bind (.pure _))
    (some (⟨INT_MAX, INT_MAX⟩, -1))
  have hfold : ∀ (l : List Int) (best : State × Int),
      l.foldl (fun best c => pick (fun e b : State × Int => some (isBetter2 e.1 b.1)) best
        (evalTable1 (table c), c)) (some best) =
      some (l.foldl (fun best c => if isBetter2 (evalTable1 (table c)) best.1 then
        (evalTable1 (table c), c) else best) best) := by
    intro l
    induction l with
    | nil => exact fun _ => rfl
    | cons c l ih => exact fun best => ih _
  rw [hfold] at hloop
  exact hloop.bind (.pure _)

theorem reads_chooseColor_fullnode {idx : Nat} (hidx : idx ∈ d.nodeIds) :
    Reads s (chooseColor_fullnode d ord colors loadTable idx) (some
      (ParallelSolution.chooseColor_fullnode d s.coloring s.cells colors loadTable idx)) :=
  reads_chooseBy hcolors fun _ hc => (reads_evaluateChange hd ht hN hcol hidx hc).bind (.pure _)

theorem reads_chooseColor2New {group : List Nat} (hgroup : ∀ v ∈ group, v ∈ d.nodeIds)
    (hfirst : group.getD 0 0 ∈ group) :
    Reads s (chooseColor2New d ord colors loadTable group) (some
      (ParallelSolution.chooseColor2New d s.coloring s.cells colors loadTable group)) :=
  reads_chooseBy hcolors fun _ hc =>
    (reads_evaluateChange2 ht hd hN hcol hgroup hfirst hc).bind (.pure _)

end

end StripeTables

end StripeRepair

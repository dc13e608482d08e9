import StripeRepair.Lib.CountMap
import StripeRepair.Common.TaskContents

/-!
# The traffic of a colouring

Before tasks are compiled, `evaluateColoring` and `evalColoringGlobal` predict what they
will move: for each vertex that is not coloured -1 one packet to each other colour that
some parent has and that is not -1.

* `counts_sends`, `counts_recvs`: the prediction counts the entries of the send and of the
  receive tasks.
* `evalColoringGlobal_eq`: the load table after the repair.
-/

namespace StripeRepair

/-- The unordered maps that are walked through while a colouring is evaluated. -/
inductive EvalWalk
  | coloring
  | inMap
  | outMap

/-- `parent_colors`: the colours of the parents, each once. -/
def ECDAG.parentColors (d : ECDAG) (coloring : Nat → Int) (dagidx : Nat) : List Int :=
  (d.parentIds dagidx).foldl (fun l p => if coloring p ∈ l then l else l ++ [coloring p]) []

/-- The body of the loop over the colouring. The functions below differ in the transfers they
count and in what they do with one. -/
def ECDAG.evalVertex {σ : Type} (d : ECDAG) (coloring : Nat → Int) (counted : Int → Int → Bool)
    (move : σ → Int × Int → σ) (st : σ) (dagidx : Nat) : σ :=
  if coloring dagidx = -1 then st
  else (d.parentColors coloring dagidx).foldl (fun st c =>
    if counted (coloring dagidx) c then move st (coloring dagidx, c) else st) st

/-- The tables `_in` and `_out`. -/
structure Traffic where
  inMap : CountMap Int
  outMap : CountMap Int

namespace Traffic

def empty : Traffic := ⟨∅, ∅⟩

/-- A packet from the first node to the second. -/
def move (t : Traffic) (e : Int × Int) : Traffic := ⟨t.inMap.incr e.2, t.outMap.incr e.1⟩

/-- `_bdwt` and `_load` after the loop over `_in` and the loop over `_out`, from what they
were before. -/
def stat (t : Traffic) (ord : HashOrder EvalWalk) (start : Nat × Nat) : Nat × Nat :=
  let (bdwt, load) := (ord.order .inMap t.inMap.entries).foldl
    (fun acc item => (acc.1 + item.2, CountMap.raise acc.2 item.2)) start
  (bdwt, (ord.order .outMap t.outMap.entries).foldl
    (fun load item => CountMap.raise load item.2) load)

end Traffic

namespace Stripe

/-- What `evaluateColoring` and `evalColoringGlobal` count. -/
def counted (mycolor parentcolor : Int) : Bool := mycolor ≠ parentcolor ∧ parentcolor ≠ -1

section
variable (s : Stripe) (ord : HashOrder EvalWalk)

/-- `_in` and `_out`. The colouring is total: its keys are the vertices. -/
def evaluateColoring : Traffic :=
  (ord.order .coloring s.ecdag.nodeIds).foldl
    (s.ecdag.evalVertex s.coloring counted Traffic.move) .empty

/-- `loadTable[e.1][0]++; loadTable[e.2][1]++` -/
def bump (loadTable : List (List Int)) (e : Int × Int) : List (List Int) :=
  (loadTable.modify e.1.toNat fun row => row.modify 0 (· + 1)).modify e.2.toNat
    fun row => row.modify 1 (· + 1)

def evalColoringGlobal (loadTable : List (List Int)) : List (List Int) :=
  (ord.order .coloring s.ecdag.nodeIds).foldl
    (s.ecdag.evalVertex s.coloring counted bump) loadTable

end

end Stripe

/-! ## The transfers -/

/-- What the loop counts for the vertex `v`: the packet and where it goes. -/
def ECDAG.movesOf (d : ECDAG) (coloring : Nat → Int) (counted : Int → Int → Bool) (v : Nat) :
    List (Nat × Int) :=
  if coloring v = -1 then []
  else ((d.parentColors coloring v).filter (counted (coloring v))).map fun c => (v, c)

/-- The colours a transfer goes from and to. -/
def ends (coloring : Nat → Int) (m : Nat × Int) : Int × Int := (coloring m.1, m.2)

theorem ECDAG.foldl_evalVertex {σ : Type} (d : ECDAG) (coloring : Nat → Int)
    (counted : Int → Int → Bool) (move : σ → Int × Int → σ) (vs : List Nat) (st : σ) :
    vs.foldl (d.evalVertex coloring counted move) st =
      ((vs.flatMap (d.movesOf coloring counted)).map (ends coloring)).foldl move st := by
  induction vs generalizing st with
  | nil => rfl
  | cons v vs ih =>
    rw [List.foldl_cons, ih, List.flatMap_cons, List.map_append, List.foldl_append]
    congr 1
    unfold evalVertex movesOf
    split
    · rfl
    · rw [List.map_map, List.foldl_map, List.foldl_filter]
      rfl

namespace Traffic

theorem foldl_move (es : List (Int × Int)) (t : Traffic) :
    es.foldl move t =
      ⟨(es.map Prod.snd).foldl CountMap.incr t.inMap,
        (es.map Prod.fst).foldl CountMap.incr t.outMap⟩ := by
  induction es generalizing t with
  | nil => rfl
  | cons e es ih =>
    rw [List.foldl_cons, ih]
    rfl

/-- The tables of the transfers `es`. -/
theorem get_foldl_move (es : List (Int × Int)) (c : Int) :
    (es.foldl move empty).inMap.get c = es.countP (fun e => e.2 = c) ∧
      (es.foldl move empty).outMap.get c = es.countP (fun e => e.1 = c) := by
  rw [foldl_move, CountMap.get_foldl_incr, CountMap.get_foldl_incr]
  simp only [empty, CountMap.get_empty, Nat.zero_add, List.count, List.countP_map]
  exact ⟨List.countP_congr fun e _ => by simp, List.countP_congr fun e _ => by simp⟩

/-- Each transfer is counted once in each table. -/
theorem sum_foldl_move (es : List (Int × Int)) :
    (es.foldl move empty).inMap.counts.sum = es.length ∧
      (es.foldl move empty).outMap.counts.sum = es.length := by
  rw [foldl_move, CountMap.sum_counts_foldl_incr, CountMap.sum_counts_foldl_incr, List.length_map,
    List.length_map]
  exact ⟨Nat.zero_add _, Nat.zero_add _⟩

/-- **What the two loops at the end compute** from 0: a sum and a maximum. -/
theorem stat_spec (t : Traffic) (ord : HashOrder EvalWalk) :
    (t.stat ord (0, 0)).1 = t.inMap.counts.sum ∧
      CountMap.IsPeak t.inMap.get t.outMap.get (t.stat ord (0, 0)).2 := by
  have hpair : ∀ (l : List (Σ _ : Int, Nat)) (b p : Nat),
      l.foldl (fun (acc : Nat × Nat) item => (acc.1 + item.2, CountMap.raise acc.2 item.2)) (b, p) =
        (b + (l.map Sigma.snd).sum, (l.map Sigma.snd).foldl CountMap.raise p) := by
    intro l
    induction l with
    | nil => exact fun b p => rfl
    | cons e l ih =>
      intro b p
      rw [List.foldl_cons, ih]
      simp only [List.map_cons, List.sum_cons, List.foldl_cons, Nat.add_assoc]
  have hin := ((ord.perm .inMap t.inMap.entries).map Sigma.snd)
  have hout := ((ord.perm .outMap t.outMap.entries).map Sigma.snd)
  have hpeak := CountMap.isPeak_foldl_raise hin hout
  rw [List.foldl_map] at hpeak
  simp only [stat, hpair, Nat.zero_add]
  exact ⟨hin.sum_eq, hpeak⟩

end Traffic

namespace Stripe

section
variable (s : Stripe)

/-- The colours of a colouring that tells the zero packets: the leaves coloured -1 are those of
no real block, and a vertex coloured -1 has children coloured -1. -/
structure ZeroColored (ecn ecw : Nat) : Prop where
  zero : ∀ v ∈ s.ecdag.nodeIds, s.coloring v = -1 → ∀ c ∈ s.ecdag.childIndices v,
    s.coloring c = -1
  leaf : ∀ v ∈ s.ecdag.nodeIds, s.ecdag.childIndices v = [] → (s.coloring v = -1 ↔ ¬ v / ecw < ecn)

/-- All packets that are moved, with their targets. -/
def moves : List (Nat × Int) := s.ecdag.nodeIds.flatMap (s.ecdag.movesOf s.coloring counted)

theorem evaluateColoring_eq (ord : HashOrder EvalWalk) : ∃ es : List (Nat × Int), es.Perm s.moves ∧
    s.evaluateColoring ord = (es.map (ends s.coloring)).foldl Traffic.move .empty :=
  ⟨_, (ord.perm _ _).flatMap_right _, ECDAG.foldl_evalVertex ..⟩

theorem sendto_eq_filter (v : Nat) :
    s.sendto v = (s.ecdag.parentColors s.coloring v).filter fun c => s.coloring v ≠ c := by
  rw [sendto, (s.nodup_nodeidlist v).erase_eq_filter]
  refine List.filter_congr fun c _ => ?_
  rw [Bool.eq_iff_iff]
  simp only [bne_iff_ne, decide_eq_true_eq]
  exact ne_comm

variable {s} {ecn ecw : Nat} (hd : s.ecdag.WellFormed) (hz : s.ZeroColored ecn ecw)
include hd hz

theorem ZeroColored.made_iff {v : Nat} (hv : v ∈ s.ecdag.nodeIds) :
    s.Made ecn ecw v ↔ s.coloring v ≠ -1 := by
  by_cases h0 : s.ecdag.childIndices v = []
  · rw [made_leaf hd hv ((hd.height_eq_zero hv).2 h0), ne_eq, hz.leaf v hv h0, not_not]
  · exact made_inner hd hv fun hh => h0 ((hd.height_eq_zero hv).1 hh)

theorem ZeroColored.movesOf_eq {v : Nat} (hc : s.coloring v ≠ -1) :
    s.ecdag.movesOf s.coloring counted v = (s.sendto v).map fun c => (v, c) := by
  rw [ECDAG.movesOf, if_neg hc, sendto_eq_filter]
  congr 1
  refine List.filter_congr fun c hcm => ?_
  -- a parent coloured -1 would have a child that is not
  have hne : c ≠ -1 := by
    rintro rfl
    obtain ⟨p, hp, hpc⟩ := s.mem_nodeidlist.1 hcm
    have hch := hd.mem_parentIds.1 hp
    exact hc (hz.zero p (hd.childIndices_nodeIds hch).2 hpc v hch)
  simp [counted, hne]

/-- **What is counted is what is sent.** -/
theorem ZeroColored.moves_eq : s.moves =
    (s.ecdag.nodeIds.filter fun v => s.Made ecn ecw v).flatMap
      fun v => (s.sendto v).map fun c => (v, c) := by
  have hstep : ∀ l : List Nat, (∀ v ∈ l, v ∈ s.ecdag.nodeIds) →
      l.flatMap (s.ecdag.movesOf s.coloring counted) =
        (l.filter fun v => s.Made ecn ecw v).flatMap fun v => (s.sendto v).map fun c => (v, c) := by
    intro l hl
    induction l with
    | nil => rfl
    | cons v l ih =>
      have hv := hz.made_iff hd (hl v (List.mem_cons_self ..))
      rw [List.flatMap_cons, ih fun u hu => hl u (List.mem_cons_of_mem _ hu)]
      by_cases hc : s.coloring v = -1
      · rw [List.filter_cons_of_neg (by simpa [hv] using hc), ECDAG.movesOf, if_pos hc,
          List.nil_append]
      · rw [List.filter_cons_of_pos (by simpa [hv] using hc), List.flatMap_cons,
          hz.movesOf_eq hd hc]
  exact hstep _ fun v hv => hv

theorem ZeroColored.counts_sends (ord : HashOrder Walk) (c : Int) :
    ((s.nodeTasks ecn ecw ord c).flatMap Task.sendEntries).length =
      s.moves.countP fun m => s.coloring m.1 = c := by
  rw [(sends_perm hd ecn ecw ord c).length_eq, hz.moves_eq hd]
  induction s.ecdag.nodeIds.filter (fun v => s.Made ecn ecw v) with
  | nil => rfl
  | cons v l ih =>
    rw [List.flatMap_cons, List.countP_append, ← ih, List.countP_map]
    by_cases hv : s.coloring v = c
    · rw [List.filter_cons_of_pos (by simpa using hv), List.flatMap_cons, List.length_append,
        List.length_map, List.countP_eq_length.2 (by simp [hv])]
    · rw [List.filter_cons_of_neg (by simpa using hv), List.countP_eq_zero.2 (by simp [hv]),
        Nat.zero_add]

theorem ZeroColored.counts_recvs (ord : HashOrder Walk) (c : Int) :
    ((s.nodeTasks ecn ecw ord c).flatMap Task.recvEntries).length =
      s.moves.countP fun m => m.2 = c := by
  rw [(recvs_perm hd ecn ecw ord c).length_eq, hz.moves_eq hd]
  induction s.ecdag.nodeIds.filter (fun v => s.Made ecn ecw v) with
  | nil => rfl
  | cons v l ih =>
    have hcount : (s.sendto v).countP ((fun m : Nat × Int => decide (m.2 = c)) ∘ fun c => (v, c)) =
        (s.sendto v).count c := List.countP_congr fun e _ => by simp
    rw [List.flatMap_cons, List.countP_append, ← ih, List.countP_map, hcount]
    by_cases hv : c ∈ s.sendto v
    · rw [List.filter_cons_of_pos (by simpa using hv), List.length_cons,
        List.count_eq_one_of_mem (s.nodup_sendto v) hv]
      omega
    · rw [List.filter_cons_of_neg (by simpa using hv), List.count_eq_zero.2 hv, Nat.zero_add]

end

/-! ## The load table -/

/-- The load table has a row for each node that is a colour. -/
def OverCluster (s : Stripe) (loadTable : List (List Int)) : Prop :=
  ∀ v ∈ s.ecdag.nodeIds, s.coloring v ≠ -1 →
    0 ≤ s.coloring v ∧ s.coloring v < loadTable.length

/-- Row `i` plus `out i` in the first and `inn i` in the second column. -/
def addTo (loadTable : List (List Int)) (out inn : Int → Nat) : List (List Int) :=
  loadTable.mapIdx fun i row => (row.modify 0 (· + (out i : Int))).modify 1 (· + (inn i : Int))

/-- `L` plus the tables. -/
def plus (loadTable : List (List Int)) (t : Traffic) : List (List Int) :=
  addTo loadTable t.outMap.get t.inMap.get

theorem modify_add (row : List Int) (a b c d : Nat) :
    ((((row.modify 0 (· + (a : Int))).modify 1 (· + (b : Int))).modify 0 (· + (c : Int))).modify 1
      (· + (d : Int))) =
      (row.modify 0 (· + ((a + c : Nat) : Int))).modify 1 (· + ((b + d : Nat) : Int)) := by
  match row with
  | [] => rfl
  | [x] => simp [add_assoc]
  | x :: y :: row => simp [add_assoc]

theorem addTo_addTo (L : List (List Int)) (f g f' g' : Int → Nat) :
    addTo (addTo L f g) f' g' = addTo L (fun i => f i + f' i) fun i => g i + g' i := by
  rw [addTo, addTo, List.mapIdx_mapIdx, addTo]
  congr 1
  funext i row
  exact modify_add row _ _ _ _

theorem modify_self (row : List Int) (k : Nat) : (row.modify k fun x => x) = row :=
  List.modify_id k row

theorem bump_eq (L : List (List Int)) {e : Int × Int} (h1 : 0 ≤ e.1) (h2 : 0 ≤ e.2) :
    bump L e = addTo L (fun i => if e.1 = i then 1 else 0) fun i => if e.2 = i then 1 else 0 := by
  apply List.ext_getElem?
  intro i
  have hi1 : e.1.toNat = i ↔ e.1 = i := by omega
  have hi2 : e.2.toNat = i ↔ e.2 = i := by omega
  rw [bump, addTo, List.getElem?_modify, List.getElem?_modify, List.getElem?_mapIdx]
  cases L[i]? with
  | none => rfl
  | some row =>
    by_cases he1 : e.1 = i <;> by_cases he2 : e.2 = i <;> simp [hi1, hi2, he1, he2, modify_self]

theorem foldl_bump (L : List (List Int)) {es : List (Int × Int)}
    (h : ∀ e ∈ es, 0 ≤ e.1 ∧ 0 ≤ e.2) : es.foldl bump L =
      addTo L (fun i => es.countP fun e => e.1 = i) fun i => es.countP fun e => e.2 = i := by
  induction es generalizing L with
  | nil =>
    show L = List.mapIdx _ L
    apply List.ext_getElem?
    intro i
    rw [List.getElem?_mapIdx]
    cases L[i]? <;> simp [modify_self]
  | cons e es ih =>
    obtain ⟨h1, h2⟩ := h e (List.mem_cons_self ..)
    rw [List.foldl_cons, ih _ fun e he => h e (List.mem_cons_of_mem _ he), bump_eq L h1 h2,
      addTo_addTo]
    congr 1 <;>
    · funext i
      simp only [List.countP_cons, decide_eq_true_eq]
      exact Nat.add_comm _ _

section
variable {s : Stripe}

/-- The ends of a transfer are nodes of the cluster. -/
theorem ends_nonneg (hd : s.ecdag.WellFormed) {L : List (List Int)} (hL : s.OverCluster L) :
    ∀ m ∈ s.moves, 0 ≤ (ends s.coloring m).1 ∧ 0 ≤ (ends s.coloring m).2 := by
  intro m hm
  obtain ⟨v, hv, hm⟩ := List.mem_flatMap.1 hm
  unfold ECDAG.movesOf at hm
  split at hm
  · cases hm
  · next hc =>
    obtain ⟨c, hcm, rfl⟩ := List.mem_map.1 hm
    obtain ⟨hcm, hcount⟩ := List.mem_filter.1 hcm
    obtain ⟨p, hp, rfl⟩ := s.mem_nodeidlist.1 hcm
    have hp := (hd.childIndices_nodeIds (hd.mem_parentIds.1 hp)).2
    simp only [counted, decide_eq_true_eq] at hcount
    exact ⟨(hL v hv hc).1, (hL p hp hcount.2).1⟩

/-- **The load table after the repair**: the one before plus the tables. -/
theorem evalColoringGlobal_eq (hd : s.ecdag.WellFormed) (ord ord' : HashOrder EvalWalk)
    {L : List (List Int)} (hL : s.OverCluster L) :
    s.evalColoringGlobal ord L = plus L (s.evaluateColoring ord') := by
  obtain ⟨es, hperm, he⟩ := s.evaluateColoring_eq ord'
  have hperm' : ((ord.order .coloring s.ecdag.nodeIds).flatMap
      (s.ecdag.movesOf s.coloring counted)).Perm s.moves := (ord.perm _ _).flatMap_right _
  rw [evalColoringGlobal, ECDAG.foldl_evalVertex, foldl_bump, plus, he]
  · congr 1 <;>
    · funext i
      simp only [Traffic.get_foldl_move]
      exact ((hperm'.trans hperm.symm).map _).countP_eq _
  · intro e hem
    obtain ⟨m, hm, rfl⟩ := List.mem_map.1 hem
    exact ends_nonneg hd hL m (hperm'.mem_iff.1 hm)

end

end Stripe

end StripeRepair

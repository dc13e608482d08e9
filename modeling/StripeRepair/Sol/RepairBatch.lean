import StripeRepair.Lib.Run
import StripeRepair.Sol.ChooseColor
import Mathlib

/-!
# The accounts of a batch

A batch keeps the sums of its stripes' tables in `_in` and `_out` and two numbers read off
them. `push` books the new stripe; `erase` and `pop` only shorten the list.

* `Books`: what the batch has booked, the stripes that left it included.
* `accurate_iff`: after any calls the accounts are those of the list if and only if every
  stripe that left has empty tables.
-/

namespace StripeRepair

/-- The maps a batch walks through. -/
inductive BatchWalk
  | stripeIn
  | stripeOut
  | batchIn
  | batchOut

/-- A batch of the stripes `σ`. -/
structure RepairBatch (σ : Type) where
  stripeList : List σ
  inMap : CountMap Int
  outMap : CountMap Int
  bdwt : Nat
  load : Nat

namespace RepairBatch

/-- The calls that change the list. -/
inductive Call (σ : Type)
  | push (stripe : σ)
  | erase (stripe : σ)
  | pop
  deriving DecidableEq

section
variable {σ : Type} (tables : σ → Traffic)

/-- The loop over the nodes: `_in.insert(nodeid, count)` or `_in[nodeid] += count`. -/
def bookNodes (stripeMap : CountMap Int) (numAgents : Nat) (m : CountMap Int) : CountMap Int :=
  (List.range numAgents).foldl (fun m (nodeid : Nat) =>
    let count := stripeMap.get nodeid
    if (nodeid : Int) ∉ m then m.insert nodeid count else m.add nodeid count) m

def evaluateBatch (numAgents : Nat) (b : RepairBatch σ) : RepairBatch σ :=
  let inMap := b.stripeList.foldl (fun m s => bookNodes (tables s).inMap numAgents m) ∅
  let outMap := b.stripeList.foldl (fun m s => bookNodes (tables s).outMap numAgents m) ∅
  let (bdwt, load) := (List.range numAgents).foldl (fun (acc : Nat × Nat) (nodeid : Nat) =>
    (acc.1 + inMap.get nodeid, CountMap.raise acc.2 (inMap.get nodeid))) (0, 0)
  { b with
    inMap := inMap
    outMap := outMap
    bdwt := bdwt
    load := (List.range numAgents).foldl
      (fun load (nodeid : Nat) => CountMap.raise load (outMap.get nodeid)) load }

variable (ord : HashOrder BatchWalk)

/-- Row `i` of the table: `OUT` before `IN`. -/
def getLoadTable (numAgents : Nat) (b : RepairBatch σ) : List (List Int) :=
  b.stripeList.foldl (fun ret s =>
    (ord.order .stripeOut (tables s).outMap.entries).foldl
      (fun ret it => ret.modify it.1.toNat fun row => row.modify 0 (· + (it.2 : Int)))
      ((ord.order .stripeIn (tables s).inMap.entries).foldl
        (fun ret it => ret.modify it.1.toNat fun row => row.modify 1 (· + (it.2 : Int))) ret))
    (List.replicate numAgents [0, 0])

def push (s : σ) (b : RepairBatch σ) : RepairBatch σ :=
  let inMap := b.inMap.addAll (ord.order .stripeIn (tables s).inMap.entries)
  let outMap := b.outMap.addAll (ord.order .stripeOut (tables s).outMap.entries)
  let (bdwt, load) := (ord.order .batchIn inMap.entries).foldl
    (fun (acc : Nat × Nat) it => (acc.1 + it.2, max acc.2 it.2)) (0, 0)
  { stripeList := b.stripeList ++ [s]
    inMap := inMap
    outMap := outMap
    bdwt := bdwt
    load := (ord.order .batchOut outMap.entries).foldl (fun load it => max load it.2) load }

/-- `remove` takes out every occurrence. -/
def erase [DecidableEq σ] (s : σ) (b : RepairBatch σ) : RepairBatch σ :=
  { b with stripeList := b.stripeList.filter fun t => t ≠ s }

def pop (b : RepairBatch σ) : RepairBatch σ := { b with stripeList := b.stripeList.dropLast }

/-- One call; `pop` needs a batch that is not empty. -/
def call [DecidableEq σ] (b : RepairBatch σ) : Call σ → Option (RepairBatch σ)
  | .push s => some (b.push tables ord s)
  | .erase s => some (b.erase s)
  | .pop => if b.stripeList = [] then none else some b.pop

/-- `table[nodeid][col]`, 0 where the table has no row. -/
def entry (table : List (List Int)) (nodeid : Int) (col : Nat) : Int :=
  if 0 ≤ nodeid then (table.getD nodeid.toNat []).getD col 0 else 0

/-- The accounts are those of the list. -/
structure Accurate (numAgents : Nat) (b : RepairBatch σ) : Prop where
  load : (b.getLoadTable tables ord numAgents).flatten.foldl max 0 = b.load
  bdwt : ((b.getLoadTable tables ord numAgents).map fun row => row.getD 1 0).sum = b.bdwt
  inMap : ∀ i : Int, (b.inMap.get i : Int) = entry (b.getLoadTable tables ord numAgents) i 1
  outMap : ∀ i : Int, (b.outMap.get i : Int) = entry (b.getLoadTable tables ord numAgents) i 0

/-- The stripes a call takes out of the list. -/
def taken [DecidableEq σ] (b : RepairBatch σ) : Call σ → List σ
  | .push _ => []
  | .erase s => b.stripeList.filter fun t => t = s
  | .pop => b.stripeList.getLast?.toList

/-- The stripe moves nothing. -/
def Idle (s : σ) : Prop := ∀ i, (tables s).inMap.get i = 0 ∧ (tables s).outMap.get i = 0

/-- The call takes out only stripes that move nothing. -/
def TakesIdle [DecidableEq σ] (b : RepairBatch σ) (c : Call σ) : Prop :=
  ∀ s ∈ b.taken c, Idle tables s

end

/-! ## Sums of tables -/

section
variable {σ : Type} (tables : σ → Traffic)

def sumIn (l : List σ) (i : Int) : Nat := (l.map fun s => (tables s).inMap.get i).sum

def sumOut (l : List σ) (i : Int) : Nat := (l.map fun s => (tables s).outMap.get i).sum

/-- The tables use only nodes in `[0, numAgents)`. -/
def Within (numAgents : Nat) : Prop :=
  ∀ s i, i ∈ (tables s).inMap ∨ i ∈ (tables s).outMap → 0 ≤ i ∧ i < numAgents

theorem sum_range_ite (f : Int → Nat) (n : Nat) (k : Int) :
    ((List.range n).map fun i : Nat => if (i : Int) = k then f i else 0).sum =
      if 0 ≤ k ∧ k < n then f k else 0 := by
  induction n with
  | zero =>
    rw [if_neg (by omega)]
    rfl
  | succ n ih =>
    rw [List.range_succ, List.map_append, List.sum_append, ih, List.map_singleton,
      List.sum_singleton]
    by_cases hk : (n : Int) = k
    · subst hk
      rw [if_neg (by omega), if_pos rfl, if_pos (by omega), Nat.zero_add]
    · rw [if_neg hk, Nat.add_zero]
      refine if_congr ?_ rfl rfl
      omega

theorem bookNodes_eq (stripeMap : CountMap Int) (numAgents : Nat) (m : CountMap Int) :
    bookNodes stripeMap numAgents m =
      m.addAll ((List.range numAgents).map fun i : Nat => ⟨(i : Int), stripeMap.get i⟩) := by
  rw [CountMap.addAll, List.foldl_map]
  unfold bookNodes
  congr 1
  funext m i
  dsimp only
  split
  · next h => rw [CountMap.add, CountMap.get_of_not_mem h, Nat.zero_add]
  · rfl

/-- A row for each node is enough for a map within the cluster. -/
theorem get_bookNodes {stripeMap : CountMap Int} {numAgents : Nat}
    (h : ∀ i ∈ stripeMap, 0 ≤ i ∧ i < numAgents) (m : CountMap Int) (i : Int) :
    (bookNodes stripeMap numAgents m).get i = m.get i + stripeMap.get i := by
  rw [bookNodes_eq, CountMap.get_addAll, List.map_map]
  show _ + ((List.range numAgents).map fun j : Nat =>
    if (j : Int) = i then stripeMap.get j else 0).sum = _
  rw [sum_range_ite]
  split
  · rfl
  · next hi => rw [CountMap.get_of_not_mem fun hm => hi (h i hm)]

theorem mem_bookNodes {stripeMap : CountMap Int} {numAgents : Nat} {m : CountMap Int} {i : Int}
    (h : i ∈ bookNodes stripeMap numAgents m) : i ∈ m ∨ 0 ≤ i ∧ i < numAgents := by
  rw [bookNodes_eq, CountMap.mem_addAll, List.map_map] at h
  refine h.imp_right fun h => ?_
  obtain ⟨j, hj, rfl⟩ := List.mem_map.1 h
  rw [List.mem_range] at hj
  show 0 ≤ (j : Int) ∧ (j : Int) < numAgents
  omega

/-- The loop over the stripes, for one of the two maps. -/
theorem foldl_bookNodes {numAgents : Nat} (f : σ → CountMap Int)
    (h : ∀ s, ∀ i ∈ f s, 0 ≤ i ∧ i < numAgents) (l : List σ) (m : CountMap Int)
    (hm : ∀ i ∈ m, 0 ≤ i ∧ i < numAgents) :
    (∀ i, (l.foldl (fun m s => bookNodes (f s) numAgents m) m).get i =
      m.get i + (l.map fun s => (f s).get i).sum) ∧
    ∀ i ∈ l.foldl (fun m s => bookNodes (f s) numAgents m) m, 0 ≤ i ∧ i < numAgents := by
  induction l generalizing m with
  | nil => exact ⟨fun _ => rfl, hm⟩
  | cons s l ih =>
    obtain ⟨h1, h2⟩ := ih (bookNodes (f s) numAgents m) fun i hi =>
      (mem_bookNodes hi).elim (hm i) id
    refine ⟨fun i => ?_, h2⟩
    rw [List.foldl_cons, h1, get_bookNodes (h s), List.map_cons, List.sum_cons, Nat.add_assoc]

end

/-! ## What is booked -/

section
variable {σ : Type} (tables : σ → Traffic)

/-- The batch has booked the stripes `l`. -/
structure Books (numAgents : Nat) (b : RepairBatch σ) (l : List σ) : Prop where
  inMap : ∀ i, b.inMap.get i = sumIn tables l i
  outMap : ∀ i, b.outMap.get i = sumOut tables l i
  within : ∀ i, i ∈ b.inMap ∨ i ∈ b.outMap → 0 ≤ i ∧ i < numAgents
  bdwt : b.bdwt = ((List.range numAgents).map fun i : Nat => b.inMap.get i).sum
  load : CountMap.IsPeak b.inMap.get b.outMap.get b.load

variable {tables} {numAgents : Nat} (hN : Within tables numAgents)

theorem foldl_stat {α : Type} (f : α → Nat) (l : List α) (acc : Nat × Nat) :
    l.foldl (fun (acc : Nat × Nat) a => (acc.1 + f a, CountMap.raise acc.2 (f a))) acc =
      (acc.1 + (l.map f).sum, (l.map f).foldl CountMap.raise acc.2) := by
  induction l generalizing acc with
  | nil => rfl
  | cons a l ih =>
    rw [List.foldl_cons, ih]
    simp only [List.map_cons, List.sum_cons, List.foldl_cons, Nat.add_assoc]

include hN in
theorem books_evaluateBatch (b : RepairBatch σ) :
    Books tables numAgents (b.evaluateBatch tables numAgents) b.stripeList := by
  have hempty : ∀ i ∈ (∅ : CountMap Int), 0 ≤ i ∧ i < numAgents := fun i hi => by
    exact absurd hi (AList.notMem_empty i)
  obtain ⟨hin, hinMem⟩ := foldl_bookNodes (fun s => (tables s).inMap)
    (fun s i hi => hN s i (Or.inl hi)) b.stripeList ∅ hempty
  obtain ⟨hout, houtMem⟩ := foldl_bookNodes (fun s => (tables s).outMap)
    (fun s i hi => hN s i (Or.inr hi)) b.stripeList ∅ hempty
  unfold evaluateBatch
  simp only [foldl_stat, Nat.zero_add]
  refine ⟨fun i => ?_, fun i => ?_, ?_, rfl, ?_⟩
  · rw [hin, CountMap.get_empty, Nat.zero_add]
    rfl
  · rw [hout, CountMap.get_empty, Nat.zero_add]
    rfl
  · rintro i (hi | hi)
    · exact hinMem i hi
    · exact houtMem i hi
  · -- outside the cluster both maps are empty
    have hval : ∀ m : CountMap Int, (∀ i ∈ m, 0 ≤ i ∧ i < numAgents) →
        (∀ n ∈ (List.range numAgents).map (fun i : Nat => m.get i), ∃ k, m.get k = n) ∧
        ∀ k, m.get k = 0 ∨ m.get k ∈ (List.range numAgents).map fun i : Nat => m.get i := by
      intro m hm
      refine ⟨fun n hn => ?_, fun k => ?_⟩
      · obtain ⟨i, -, hi⟩ := List.mem_map.1 hn
        exact ⟨i, hi⟩
      · by_cases hk : k ∈ m
        · obtain ⟨h0, hlt⟩ := hm k hk
          refine Or.inr (List.mem_map.2 ⟨k.toNat, List.mem_range.2 (by omega), ?_⟩)
          rw [Int.toNat_of_nonneg h0]
        · exact Or.inl (CountMap.get_of_not_mem hk)
    have hpeak := CountMap.isPeak_raise (hval _ hinMem).1 (hval _ hinMem).2 (hval _ houtMem).1
      (hval _ houtMem).2
    rw [List.foldl_map] at hpeak
    exact hpeak

variable (ord : HashOrder BatchWalk)

include hN in
theorem Books.push {b : RepairBatch σ} {l : List σ} (h : Books tables numAgents b l) (s : σ) :
    Books tables numAgents (b.push tables ord s) (l ++ [s]) := by
  unfold RepairBatch.push
  simp only [← CountMap.raise_eq_max, foldl_stat, Nat.zero_add]
  have hmem : ∀ i, i ∈ b.inMap.addAll (ord.order .stripeIn (tables s).inMap.entries) ∨
      i ∈ b.outMap.addAll (ord.order .stripeOut (tables s).outMap.entries) →
      0 ≤ i ∧ i < numAgents := by
    have hkey : ∀ (w : BatchWalk) (m : CountMap Int) (i : Int),
        i ∈ (ord.order w m.entries).map Sigma.fst → i ∈ m := by
      intro w m i hi
      exact ((ord.perm w m.entries).map Sigma.fst).mem_iff.1 hi
    rintro i (hi | hi)
    · rcases CountMap.mem_addAll.1 hi with hi | hi
      · exact h.within i (Or.inl hi)
      · exact hN s i (Or.inl (hkey _ _ i hi))
    · rcases CountMap.mem_addAll.1 hi with hi | hi
      · exact h.within i (Or.inr hi)
      · exact hN s i (Or.inr (hkey _ _ i hi))
  refine ⟨fun i => ?_, fun i => ?_, hmem, ?_, ?_⟩
  · rw [CountMap.get_foldl_add (ord.perm _ _), h.inMap, sumIn, sumIn, List.map_append,
      List.sum_append, List.map_singleton, List.sum_singleton]
  · rw [CountMap.get_foldl_add (ord.perm _ _), h.outMap, sumOut, sumOut, List.map_append,
      List.sum_append, List.map_singleton, List.sum_singleton]
  · -- every node that has an entry is met by the loop over the nodes
    rw [((ord.perm _ _).map _).sum_eq]
    have hnodup : ((List.range numAgents).map fun i : Nat => (i : Int)).Nodup :=
      List.nodup_range.map fun a b hab => by omega
    refine (CountMap.sum_counts_eq hnodup fun k hk => ?_).trans (by rw [List.map_map]; rfl)
    obtain ⟨h0, hlt⟩ := hmem k (Or.inl hk)
    exact List.mem_map.2 ⟨k.toNat, List.mem_range.2 (by omega), Int.toNat_of_nonneg h0⟩
  · have hwalk : ∀ (w : BatchWalk) (m : CountMap Int),
        ((ord.order w m.entries).map Sigma.snd).Perm m.counts := fun w m => (ord.perm w _).map _
    have hpeak : ∀ m m' : CountMap Int, CountMap.IsPeak m.get m'.get
        ((ord.order .batchOut m'.entries).foldl (fun load it => CountMap.raise load it.2)
          (((ord.order .batchIn m.entries).map Sigma.snd).foldl CountMap.raise 0)) := by
      intro m m'
      have hpeak := CountMap.isPeak_foldl_raise (hwalk .batchIn m) (hwalk .batchOut m')
      rw [List.foldl_map] at hpeak
      exact hpeak
    exact hpeak _ _

/-- What the list has lost stays booked. -/
theorem Books.perm {b b' : RepairBatch σ} {l l' : List σ} (h : Books tables numAgents b l)
    (hin : b'.inMap = b.inMap) (hout : b'.outMap = b.outMap) (hbdwt : b'.bdwt = b.bdwt)
    (hload : b'.load = b.load) (hl : l.Perm l') : Books tables numAgents b' l' where
  inMap i := by rw [hin, h.inMap, sumIn, sumIn, (hl.map _).sum_eq]
  outMap i := by rw [hout, h.outMap, sumOut, sumOut, (hl.map _).sum_eq]
  within := by rw [hin, hout]; exact h.within
  bdwt := by rw [hbdwt, hin]; exact h.bdwt
  load := by rw [hload, hin, hout]; exact h.load

include hN in
/-- **A call**: what it takes out of the list stays booked. -/
theorem Books.call [DecidableEq σ] {b b' : RepairBatch σ} {gone : List σ}
    (h : Books tables numAgents b (b.stripeList ++ gone)) {c : Call σ}
    (hc : b.call tables ord c = some b') :
    Books tables numAgents b' (b'.stripeList ++ (gone ++ b.taken c)) := by
  cases c with
  | push s =>
    obtain rfl : b.push tables ord s = b' := Option.some.inj hc
    have hperm : (b.stripeList ++ gone ++ [s]).Perm (b.stripeList ++ [s] ++ (gone ++ [])) := by
      rw [List.append_nil, List.append_assoc, List.append_assoc]
      exact List.perm_append_comm.append_left _
    exact (h.push hN ord s).perm rfl rfl rfl rfl hperm
  | erase s =>
    obtain rfl : b.erase s = b' := Option.some.inj hc
    have hsplit : b.stripeList.Perm
        (b.stripeList.filter (fun t => t ≠ s) ++ b.stripeList.filter fun t => t = s) := by
      have := List.filter_append_perm (fun t => decide (t ≠ s)) b.stripeList
      simpa using this.symm
    refine h.perm rfl rfl rfl rfl ((hsplit.append_right gone).trans ?_)
    rw [List.append_assoc]
    exact List.perm_append_comm.append_left _
  | pop =>
    unfold RepairBatch.call at hc
    dsimp only at hc
    split at hc
    · cases hc
    · next hne =>
      obtain rfl : b.pop = b' := Option.some.inj hc
      have hlast : b.stripeList = b.stripeList.dropLast ++ b.stripeList.getLast?.toList := by
        rw [List.getLast?_eq_some_getLast hne]
        exact (List.dropLast_append_getLast hne).symm
      refine h.perm rfl rfl rfl rfl ?_
      conv => lhs; rw [hlast]
      rw [List.append_assoc]
      exact List.perm_append_comm.append_left _

/-! ## The load table -/

theorem foldl_modify (col : Nat) (es : List (Σ _ : Int, Nat)) (h : ∀ e ∈ es, 0 ≤ e.1)
    (L : List (List Int)) :
    es.foldl (fun ret it => ret.modify it.1.toNat fun row => row.modify col (· + (it.2 : Int))) L =
      L.mapIdx fun i row => row.modify col
        (· + (((es.map fun e => if e.1 = (i : Int) then e.2 else 0).sum : Nat) : Int)) := by
  induction es generalizing L with
  | nil =>
    apply List.ext_getElem?
    intro i
    show L[i]? = _
    rw [List.getElem?_mapIdx]
    cases L[i]? <;> simp [Stripe.modify_self]
  | cons e es ih =>
    have h0 := h e (List.mem_cons_self ..)
    rw [List.foldl_cons, ih fun e he => h e (List.mem_cons_of_mem _ he)]
    apply List.ext_getElem?
    intro i
    have hi : e.1.toNat = i ↔ e.1 = i := by omega
    rw [List.getElem?_mapIdx, List.getElem?_mapIdx, List.getElem?_modify]
    cases L[i]? with
    | none => rfl
    | some row =>
      by_cases he : e.1 = i
      · simp [he, List.modify_modify_eq, Function.comp_def, add_assoc]
      · simp [hi, he]

theorem modify_comm (row : List Int) (f g : Int → Int) :
    (row.modify 1 g).modify 0 f = (row.modify 0 f).modify 1 g := by
  match row with
  | [] => rfl
  | [x] => rfl
  | x :: y :: row => rfl

omit hN in
/-- The two loops for one stripe add its tables. -/
theorem foldl_stripe {s : σ} (hs : ∀ i, i ∈ (tables s).inMap ∨ i ∈ (tables s).outMap → 0 ≤ i)
    (L : List (List Int)) :
    (ord.order .stripeOut (tables s).outMap.entries).foldl
      (fun ret it => ret.modify it.1.toNat fun row => row.modify 0 (· + (it.2 : Int)))
      ((ord.order .stripeIn (tables s).inMap.entries).foldl
        (fun ret it => ret.modify it.1.toNat fun row => row.modify 1 (· + (it.2 : Int))) L) =
      Stripe.plus L (tables s) := by
  have hkey : ∀ (w : BatchWalk) (m : CountMap Int), (∀ i ∈ m, 0 ≤ i) →
      ∀ e ∈ ord.order w m.entries, 0 ≤ e.1 := by
    intro w m hm e he
    rw [HashOrder.mem_order] at he
    exact hm _ (List.mem_map_of_mem he)
  rw [foldl_modify 1 _ (hkey _ _ fun i hi => hs i (Or.inl hi)),
    foldl_modify 0 _ (hkey _ _ fun i hi => hs i (Or.inr hi)), List.mapIdx_mapIdx]
  simp only [CountMap.sum_walk (ord.perm _ _), modify_comm, Function.comp_def]
  rfl

omit hN in
/-- The table is the sum of the stripes' tables. -/
theorem getLoadTable_eq_of_mem (b : RepairBatch σ) (h : ∀ s ∈ b.stripeList, ∀ i,
    i ∈ (tables s).inMap ∨ i ∈ (tables s).outMap → 0 ≤ i) :
    b.getLoadTable tables ord numAgents =
      Stripe.addTo (List.replicate numAgents [0, 0]) (sumOut tables b.stripeList)
        (sumIn tables b.stripeList) := by
  unfold getLoadTable
  generalize List.replicate numAgents [(0 : Int), 0] = L
  generalize b.stripeList = l at h
  induction l generalizing L with
  | nil => exact (@Stripe.foldl_bump L [] (by simp))
  | cons s l ih =>
    rw [List.foldl_cons, foldl_stripe ord (h s (List.mem_cons_self ..)),
      ih _ fun t ht => h t (List.mem_cons_of_mem _ ht), Stripe.plus, Stripe.addTo_addTo]
    rfl

include hN in
theorem getLoadTable_eq (b : RepairBatch σ) : b.getLoadTable tables ord numAgents =
    Stripe.addTo (List.replicate numAgents [0, 0]) (sumOut tables b.stripeList)
      (sumIn tables b.stripeList) :=
  getLoadTable_eq_of_mem ord b fun s _ i hi => (hN s i hi).1

include hN in
theorem rows_getLoadTable (b : RepairBatch σ) : b.getLoadTable tables ord numAgents =
    (List.range numAgents).map fun i : Nat =>
      [(sumOut tables b.stripeList i : Int), (sumIn tables b.stripeList i : Int)] := by
  rw [getLoadTable_eq hN, Stripe.addTo]
  apply List.ext_getElem
  · simp
  · intro i h1 h2
    simp

omit hN in
/-- Nodes outside the cluster send and receive nothing. -/
theorem sum_outside {l : List σ}
    (hl : ∀ s ∈ l, ∀ i, i ∈ (tables s).inMap ∨ i ∈ (tables s).outMap → 0 ≤ i ∧ i < numAgents)
    {i : Int} (hi : ¬(0 ≤ i ∧ i < numAgents)) :
    sumIn tables l i = 0 ∧ sumOut tables l i = 0 := by
  constructor
  · refine List.sum_eq_zero fun n hn => ?_
    obtain ⟨s, hs, rfl⟩ := List.mem_map.1 hn
    exact CountMap.get_of_not_mem fun hm => hi (hl s hs i (Or.inl hm))
  · refine List.sum_eq_zero fun n hn => ?_
    obtain ⟨s, hs, rfl⟩ := List.mem_map.1 hn
    exact CountMap.get_of_not_mem fun hm => hi (hl s hs i (Or.inr hm))

include hN in
theorem entry_getLoadTable (b : RepairBatch σ) (i : Int) :
    entry (b.getLoadTable tables ord numAgents) i 1 = sumIn tables b.stripeList i ∧
      entry (b.getLoadTable tables ord numAgents) i 0 = sumOut tables b.stripeList i := by
  rw [rows_getLoadTable hN]
  unfold entry
  by_cases hi : 0 ≤ i ∧ i < numAgents
  · obtain ⟨n, rfl⟩ := Int.eq_ofNat_of_zero_le hi.1
    have hn : n < numAgents := by omega
    simp [hn]
  · obtain ⟨h1, h2⟩ := sum_outside (fun s _ => hN s) hi
    rw [h1, h2]
    split
    · next h0 =>
      have hlen : numAgents ≤ i.toNat := by omega
      simp [hlen]
    · exact ⟨rfl, rfl⟩

/-- The largest entry is the peak of the sums. -/
theorem isPeak_flatten {f g : Int → Nat} {p : Nat} (hp : CountMap.IsPeak f g p) (n : Nat)
    (hf : ∀ i : Int, ¬(0 ≤ i ∧ i < n) → f i = 0 ∧ g i = 0) :
    (((List.range n).map fun i : Nat => [(f i : Int), (g i : Int)]).flatten).foldl max 0 = p := by
  obtain ⟨h0, hle, hmem⟩ := BestSoFar.foldl_max
    ((List.range n).map fun i : Nat => [(f i : Int), (g i : Int)]).flatten 0
  have hentry : ∀ x, x ∈ ((List.range n).map fun i : Nat => [(f i : Int), (g i : Int)]).flatten ↔
      ∃ i < n, x = f i ∨ x = g i := by
    intro x
    simp [List.mem_flatten]
  apply le_antisymm
  · rcases hmem with h | h
    · rw [h]
      omega
    · obtain ⟨i, -, h | h⟩ := (hentry _).1 h
      · rw [h]
        exact Int.ofNat_le.2 (hp.1 i).1
      · rw [h]
        exact Int.ofNat_le.2 (hp.1 i).2
  · rcases hp.2 with rfl | ⟨i, hi⟩
    · exact h0
    · by_cases hin : 0 ≤ i ∧ i < n
      · obtain ⟨m, rfl⟩ := Int.eq_ofNat_of_zero_le hin.1
        refine hle _ ((hentry _).2 ⟨m, by omega, ?_⟩)
        exact hi.imp (fun h => by rw [h]) fun h => by rw [h]
      · obtain ⟨h1, h2⟩ := hf i hin
        have hp0 : p = 0 := by omega
        rw [hp0]
        exact h0

include hN in
/-- **The accounts are right** when what has left the list moves nothing, and only then. -/
theorem Books.accurate_iff_idle {b : RepairBatch σ} {gone : List σ}
    (h : Books tables numAgents b (b.stripeList ++ gone)) :
    Accurate tables ord numAgents b ↔ ∀ s ∈ gone, Idle tables s := by
  have hin : ∀ i, b.inMap.get i = sumIn tables b.stripeList i + sumIn tables gone i := by
    intro i
    rw [h.inMap, sumIn, List.map_append, List.sum_append]
    rfl
  have hout : ∀ i, b.outMap.get i = sumOut tables b.stripeList i + sumOut tables gone i := by
    intro i
    rw [h.outMap, sumOut, List.map_append, List.sum_append]
    rfl
  have hentry := entry_getLoadTable hN ord b
  constructor
  · intro ha s hs i
    have h1 := ha.inMap i
    have h2 := ha.outMap i
    rw [(hentry i).1, hin] at h1
    rw [(hentry i).2, hout] at h2
    have h3 : (tables s).inMap.get i ≤ sumIn tables gone i :=
      List.single_le_sum (by simp) _ (List.mem_map.2 ⟨s, hs, rfl⟩)
    have h4 : (tables s).outMap.get i ≤ sumOut tables gone i :=
      List.single_le_sum (by simp) _ (List.mem_map.2 ⟨s, hs, rfl⟩)
    omega
  · intro hidle
    have hzero : ∀ i, sumIn tables gone i = 0 ∧ sumOut tables gone i = 0 := by
      intro i
      constructor
      · exact List.sum_eq_zero fun n hn => by
          obtain ⟨s, hs, rfl⟩ := List.mem_map.1 hn
          exact (hidle s hs i).1
      · exact List.sum_eq_zero fun n hn => by
          obtain ⟨s, hs, rfl⟩ := List.mem_map.1 hn
          exact (hidle s hs i).2
    have hin' : ∀ i, b.inMap.get i = sumIn tables b.stripeList i := fun i => by
      rw [hin, (hzero i).1, Nat.add_zero]
    have hout' : ∀ i, b.outMap.get i = sumOut tables b.stripeList i := fun i => by
      rw [hout, (hzero i).2, Nat.add_zero]
    refine ⟨?_, ?_, fun i => ?_, fun i => ?_⟩
    · have hpeak := h.load
      rw [funext hin', funext hout'] at hpeak
      obtain ⟨hle, hmem⟩ := hpeak
      rw [rows_getLoadTable hN]
      refine isPeak_flatten ⟨fun k => (hle k).symm, hmem.imp_right (Exists.imp fun _ => Or.symm)⟩ _
        fun i hi => (sum_outside (fun s _ => hN s) hi).symm
    · rw [rows_getLoadTable hN, h.bdwt, List.map_map]
      simp only [hin', Nat.cast_list_sum, List.map_map]
      rfl
    · rw [(hentry i).1, hin']
    · rw [(hentry i).2, hout']

end

/-! ## Runs -/

section
variable {σ : Type} [DecidableEq σ] {tables : σ → Traffic} {numAgents : Nat}
  (hN : Within tables numAgents) (ord : HashOrder BatchWalk)
include hN

theorem Books.run_accurate_iff {calls : List (Call σ)} {b b' : RepairBatch σ} {gone : List σ}
    (h : Books tables numAgents b (b.stripeList ++ gone))
    (hrun : Lts.run (RepairBatch.call tables ord) b calls = some b') :
    Accurate tables ord numAgents b' ↔
      (∀ s ∈ gone, Idle tables s) ∧ Lts.Meets (RepairBatch.call tables ord) (TakesIdle tables) b calls := by
  induction calls generalizing b gone with
  | nil =>
    obtain rfl : b = b' := Option.some.inj hrun
    rw [h.accurate_iff_idle hN ord]
    exact (and_iff_left trivial).symm
  | cons c calls ih =>
    obtain ⟨b1, h1, h2⟩ := Lts.run_cons hrun
    rw [ih (h.call hN ord h1) h2]
    simp only [Lts.Meets, h1, TakesIdle, List.mem_append]
    constructor
    · rintro ⟨hidle, hm⟩
      exact ⟨fun s hs => hidle s (Or.inl hs), fun s hs => hidle s (Or.inr hs), hm⟩
    · rintro ⟨hgone, htaken, hm⟩
      exact ⟨fun s hs => hs.elim (hgone s) (htaken s), hm⟩

/-- **Batch accounting**: after `evaluateBatch` and any calls the accounts are those of the
list exactly if each call took out only stripes that move nothing. -/
theorem accurate_iff {calls : List (Call σ)} {b b' : RepairBatch σ}
    (hrun : Lts.run (call tables ord) (b.evaluateBatch tables numAgents) calls = some b') :
    Accurate tables ord numAgents b' ↔
      Lts.Meets (call tables ord) (TakesIdle tables) (b.evaluateBatch tables numAgents) calls := by
  have h := books_evaluateBatch hN b
  have h' : Books tables numAgents (b.evaluateBatch tables numAgents)
      ((b.evaluateBatch tables numAgents).stripeList ++ []) := by
    rw [List.append_nil]
    exact h
  rw [h'.run_accurate_iff hN ord hrun]
  exact and_iff_right fun s hs => absurd hs List.not_mem_nil

end

/-- A stripe that moves a packet from node 0 to node 1 and one that moves nothing. -/
def oneMove (idle : Bool) : Traffic := if idle then .empty else Traffic.empty.move (0, 1)

def twoStripes : RepairBatch Bool := ⟨[false, true], ∅, ∅, 0, 0⟩

theorem oneMove_within : Within oneMove 2 := by
  intro s i hi
  cases s with
  | true => exact absurd hi (by simp [oneMove, Traffic.empty, AList.notMem_empty])
  | false =>
    have hi : i ∈ (∅ : CountMap Int).incr 1 ∨ i ∈ (∅ : CountMap Int).incr 0 := hi
    rw [CountMap.incr_eq, CountMap.incr_eq, AList.mem_insert, AList.mem_insert] at hi
    have hkeys : i = 1 ∨ i = 0 := by
      rcases hi with (h | h) | (h | h)
      · exact Or.inl h
      · exact absurd h (AList.notMem_empty i)
      · exact Or.inr h
      · exact absurd h (AList.notMem_empty i)
    omega

theorem accurate_twoStripes : ∃ b', Lts.run (call oneMove (.insertion _))
    (twoStripes.evaluateBatch oneMove 2) [.push false, .erase true] = some b' ∧
    Accurate oneMove (.insertion _) 2 b' := by
  have hrun : Lts.run (call oneMove (.insertion _)) (twoStripes.evaluateBatch oneMove 2)
      [.push false, .erase true] = some _ := rfl
  refine ⟨_, hrun, (accurate_iff oneMove_within (.insertion _) hrun).2 ?_⟩
  refine ⟨fun s hs => absurd hs List.not_mem_nil, fun s hs i => ?_, trivial⟩
  obtain rfl : s = true := by simpa using (List.mem_filter.1 hs).2
  exact ⟨CountMap.get_empty i, CountMap.get_empty i⟩

/-- Without the stripe that moved the packet the batch keeps its load. -/
theorem erase_not_accurate : ¬ ∀ (calls : List (Call Bool)) (b' : RepairBatch Bool),
    Lts.run (call oneMove (.insertion _)) (twoStripes.evaluateBatch oneMove 2) calls = some b' →
      Accurate oneMove (.insertion _) 2 b' := by
  intro h
  have hacc := (h [.erase false] _ rfl).load
  revert hacc
  decide +kernel

end RepairBatch

end StripeRepair

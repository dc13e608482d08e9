import StripeRepair.Common.TaskContents

/-!
# `Worker`: what an agent does for a task

Each task runs in a thread of its own, which does the same in each packet round: it takes
packets from a block, from a queue or from the local redis, and puts packets into queues,
into the redis of another agent or into a file.  `round` is what it does in one round.

A queue has a packet id as its key when the packets are used on the node (the local
queue), and the negated id when they are sent (the cache queue).

* `Task.pushes`, `Task.pops`: the keys of the queues that one round fills and empties.
* `Task.queues`: the keys of the queues that `prepareDataMap` creates for a task.
-/

namespace StripeRepair

/-- The cache queue of packet 0, which has no negated id. -/
def KEY0 : Int := -32767

/-- The key of the local queue. -/
def localKey (dagidx : Nat) : Int := dagidx

/-- The key of the cache queue. -/
def cacheKey (dagidx : Nat) : Int := if dagidx ≠ 0 then -1 * dagidx else KEY0

/-- A step of a thread. It keeps its packets in buffers named by packet ids. -/
inductive Op
  /-- Read sub-packet `j` of the round from a block. -/
  | pread (blkName : Option String) (j dagidx : Nat)
  /-- A new packet, all zero. -/
  | zero (dagidx : Nat)
  | pop (key : Int) (dagidx : Nat)
  | push (key : Int) (dagidx : Nat)
  /-- Pop from the local redis. -/
  | blpop (dagidx : Nat)
  /-- Push to the redis of another node. -/
  | rpush (sendto : Int) (dagidx : Nat)
  | multi (dst : Nat) (srclist : List Nat) (coefs : List Int)
  | write (blkName : Option String) (dagidx : Nat)
  deriving DecidableEq, Repr

namespace Worker

def pushLocal (usage : Bool × Bool) (dagidx : Nat) : List Op :=
  if usage.1 then [.push (localKey dagidx) dagidx] else []

def pushCache (usage : Bool × Bool) (dagidx : Nat) : List Op :=
  if usage.2 then [.push (cacheKey dagidx) dagidx] else []

/-- The sub-packets are read in the order of their offsets in the block. -/
def readRealBlock (ecw : Nat) (blkName : Option String) (dagidxList : List Nat)
    (usageList : List (Bool × Bool)) : List Op :=
  (List.range ecw).flatMap fun j =>
    match (dagidxList.zip usageList).find? fun e => e.1 % ecw = j with
    | none => []
    | some e => .pread blkName j e.1 :: (pushLocal e.2 e.1 ++ pushCache e.2 e.1)

def readVirtBlock (dagidxList : List Nat) : List Op :=
  dagidxList.flatMap fun dagidx => [.zero dagidx, .push (localKey dagidx) dagidx]

def sendOneByOne (dagidxList : List Nat) (sendToList : List (List Int)) : List Op :=
  (dagidxList.zip sendToList).flatMap fun e =>
    .pop (cacheKey e.1) e.1 :: e.2.map fun sendto => .rpush sendto e.1

def recvList (dagidxList : List Nat) : List Op :=
  dagidxList.flatMap fun dagidx => [.blpop dagidx, .push (localKey dagidx) dagidx]

/-- `input_list`: the sources of all items, each once. -/
def inputList (computeList : List ComputeItem) : List Nat :=
  (computeList.flatMap ComputeItem.srclist).foldl (fun l v => if v ∈ l then l else l ++ [v]) []

/-- Pop each input once, then compute item by item. -/
def computeOneByOne (computeList : List ComputeItem) : List Op :=
  ((inputList computeList).map fun dagidx => .pop (localKey dagidx) dagidx) ++
    computeList.flatMap fun ci => .multi ci.dstidx ci.srclist ci.coefs ::
      (pushCache ci.usage ci.dstidx ++ pushLocal ci.usage ci.dstidx)

def persist (collectList : List Nat) (repairedBlock : Option String) : List Op :=
  collectList.flatMap fun dagidx => [.pop (localKey dagidx) dagidx, .write repairedBlock dagidx]

end Worker

namespace Task

/-- One packet round of the thread of a task. -/
def round (ecw : Nat) : Task → List Op
  | .read blkName dagidxList usageList =>
    if blkName = some "ZERO" then Worker.readVirtBlock dagidxList
    else Worker.readRealBlock ecw blkName dagidxList usageList
  | .send dagidxList sendToList => Worker.sendOneByOne dagidxList sendToList
  | .recv dagidxList => Worker.recvList dagidxList
  | .compute computeList => Worker.computeOneByOne computeList
  | .persist collectList repairedBlock => Worker.persist collectList repairedBlock

/-- `prepareDataMap` for the output of a packet. -/
def usageQueues (usage : Bool × Bool) (dagidx : Nat) : List Int :=
  (if usage.1 then [localKey dagidx] else []) ++ if usage.2 then [cacheKey dagidx] else []

/-- The queues `prepareDataMap` creates. -/
def queues : Task → List Int
  | .read blkName dagidxList usageList =>
    if blkName = some "ZERO" then dagidxList.map localKey
    else (dagidxList.zip usageList).flatMap fun e => usageQueues e.2 e.1
  | .recv dagidxList => dagidxList.map localKey
  | .compute computeList => computeList.flatMap fun ci => usageQueues ci.usage ci.dstidx
  | _ => []

end Task

def Op.pushKey : Op → Option Int
  | .push key _ => some key
  | _ => none

def Op.popKey : Op → Option Int
  | .pop key _ => some key
  | _ => none

namespace Task

/-- The queues a round pushes to, once for each packet. -/
def pushes (ecw : Nat) (t : Task) : List Int := (t.round ecw).filterMap Op.pushKey

/-- The queues a round pops from, once for each packet. -/
def pops (ecw : Nat) (t : Task) : List Int := (t.round ecw).filterMap Op.popKey

end Task

/-! ## Pushes and pops of each kind of task -/

theorem localKey_injective : Function.Injective localKey := fun _ _ h => Int.ofNat.inj h

theorem cacheKey_neg (v : Nat) : cacheKey v < 0 := by
  unfold cacheKey KEY0
  split <;> omega

theorem cacheKey_inj {u v : Nat} (hu : u ≠ REQUESTOR) (hv : v ≠ REQUESTOR)
    (h : cacheKey u = cacheKey v) : u = v := by
  unfold cacheKey KEY0 at h
  unfold REQUESTOR at hu hv
  split at h <;> split at h <;> omega

namespace Worker

theorem pushKey_pushLocal (usage : Bool × Bool) (v : Nat) :
    (pushLocal usage v).filterMap Op.pushKey = if usage.1 then [localKey v] else [] := by
  unfold pushLocal
  split <;> rfl

theorem pushKey_pushCache (usage : Bool × Bool) (v : Nat) :
    (pushCache usage v).filterMap Op.pushKey = if usage.2 then [cacheKey v] else [] := by
  unfold pushCache
  split <;> rfl

theorem popKey_pushLocal (usage : Bool × Bool) (v : Nat) :
    (pushLocal usage v).filterMap Op.popKey = [] := by
  unfold pushLocal
  split <;> rfl

theorem popKey_pushCache (usage : Bool × Bool) (v : Nat) :
    (pushCache usage v).filterMap Op.popKey = [] := by
  unfold pushCache
  split <;> rfl

/-- The inputs are the sources, each once. -/
theorem foldl_inputList (vs l : List Nat) (hl : l.Nodup) :
    (vs.foldl (fun l v => if v ∈ l then l else l ++ [v]) l).Nodup ∧
      ∀ u, u ∈ vs.foldl (fun l v => if v ∈ l then l else l ++ [v]) l ↔ u ∈ l ∨ u ∈ vs := by
  induction vs generalizing l with
  | nil => exact ⟨hl, by simp⟩
  | cons v vs ih =>
    rw [List.foldl_cons]
    split
    · next h =>
      refine ⟨(ih l hl).1, fun u => ?_⟩
      rw [(ih l hl).2 u, List.mem_cons]
      constructor
      · exact fun h1 => h1.imp_right Or.inr
      · rintro (h1 | rfl | h1)
        · exact Or.inl h1
        · exact Or.inl h
        · exact Or.inr h1
    · next h =>
      have hl' : (l ++ [v]).Nodup := by
        rw [← List.concat_eq_append]
        exact hl.concat h
      refine ⟨(ih _ hl').1, fun u => ?_⟩
      rw [(ih _ hl').2 u, List.mem_append, List.mem_singleton, List.mem_cons, or_assoc]

theorem inputList_nodup (cl : List ComputeItem) : (inputList cl).Nodup :=
  (foldl_inputList _ [] List.nodup_nil).1

theorem mem_inputList {cl : List ComputeItem} {u : Nat} :
    u ∈ inputList cl ↔ ∃ ci ∈ cl, u ∈ ci.srclist := by
  rw [inputList, (foldl_inputList _ [] List.nodup_nil).2 u, List.mem_flatMap]
  simp

end Worker

namespace Task

open Worker

section
variable (ecw : Nat)

theorem pushes_zero (vs : List Nat) (us : List (Bool × Bool)) :
    (Task.read (some "ZERO") vs us).pushes ecw = vs.map localKey := by
  rw [pushes, round, if_pos rfl, readVirtBlock, List.filterMap_flatMap]
  exact List.flatMap_pure_eq_map localKey vs

theorem pops_read (b : Option String) (vs : List Nat) (us : List (Bool × Bool)) :
    (Task.read b vs us).pops ecw = [] := by
  rw [pops, round]
  split
  · rw [readVirtBlock, List.filterMap_flatMap]
    exact List.flatMap_eq_nil_iff.2 fun v _ => rfl
  · rw [readRealBlock, List.filterMap_flatMap]
    refine List.flatMap_eq_nil_iff.2 fun j _ => ?_
    split
    · rfl
    · next e _ =>
      rw [List.filterMap_cons, List.filterMap_append, popKey_pushLocal, popKey_pushCache]
      rfl

theorem pushes_send (vs : List Nat) (tos : List (List Int)) :
    (Task.send vs tos).pushes ecw = [] := by
  rw [pushes, round, sendOneByOne, List.filterMap_flatMap]
  refine List.flatMap_eq_nil_iff.2 fun e _ => ?_
  rw [List.filterMap_cons, List.filterMap_map]
  show List.filterMap _ e.2 = []
  exact List.filterMap_eq_nil_iff.2 fun _ _ => rfl

theorem pops_send (vs : List Nat) (f : Nat → List Int) :
    (Task.send vs (vs.map f)).pops ecw = vs.map cacheKey := by
  rw [pops, round, sendOneByOne, List.filterMap_flatMap]
  induction vs with
  | nil => rfl
  | cons v vs ih =>
    rw [List.map_cons, List.zip_cons_cons, List.flatMap_cons, ih, List.filterMap_cons,
      List.filterMap_map, List.map_cons]
    have hto : (f v).filterMap (Op.popKey ∘ fun sendto => Op.rpush sendto v) = [] :=
      List.filterMap_eq_nil_iff.2 fun _ _ => rfl
    show cacheKey v :: List.filterMap _ (f v) ++ _ = _
    rw [hto]
    rfl

theorem pushes_recv (vs : List Nat) : (Task.recv vs).pushes ecw = vs.map localKey := by
  rw [pushes, round, recvList, List.filterMap_flatMap]
  exact List.flatMap_pure_eq_map localKey vs

theorem pops_recv (vs : List Nat) : (Task.recv vs).pops ecw = [] := by
  rw [pops, round, recvList, List.filterMap_flatMap]
  exact List.flatMap_eq_nil_iff.2 fun v _ => rfl

theorem pushes_persist (vs : List Nat) (b : Option String) :
    (Task.persist vs b).pushes ecw = [] := by
  rw [pushes, round, Worker.persist, List.filterMap_flatMap]
  exact List.flatMap_eq_nil_iff.2 fun v _ => rfl

theorem pops_persist (vs : List Nat) (b : Option String) :
    (Task.persist vs b).pops ecw = vs.map localKey := by
  rw [pops, round, Worker.persist, List.filterMap_flatMap]
  exact List.flatMap_pure_eq_map localKey vs

theorem pushes_compute (cl : List ComputeItem) :
    ((Task.compute cl).pushes ecw).Perm (Task.compute cl).queues := by
  rw [pushes, round, computeOneByOne, List.filterMap_append, List.filterMap_flatMap, List.filterMap_map]
  have hpops : (inputList cl).filterMap (Op.pushKey ∘ fun v => Op.pop (localKey v) v) = [] :=
    List.filterMap_eq_nil_iff.2 fun _ _ => rfl
  rw [hpops, List.nil_append, queues]
  refine List.Perm.flatMap_left _ fun ci _ => ?_
  rw [List.filterMap_cons, List.filterMap_append, pushKey_pushCache, pushKey_pushLocal]
  exact List.perm_append_comm

theorem pops_compute (cl : List ComputeItem) :
    (Task.compute cl).pops ecw = (inputList cl).map localKey := by
  rw [pops, round, computeOneByOne, List.filterMap_append, List.filterMap_flatMap, List.filterMap_map]
  have hitems : (cl.flatMap fun ci => List.filterMap Op.popKey
      (Op.multi ci.dstidx ci.srclist ci.coefs ::
        (pushCache ci.usage ci.dstidx ++ pushLocal ci.usage ci.dstidx))) = [] := by
    refine List.flatMap_eq_nil_iff.2 fun ci _ => ?_
    rw [List.filterMap_cons, List.filterMap_append, popKey_pushCache, popKey_pushLocal]
    rfl
  rw [hitems, List.append_nil]
  exact congrFun (List.filterMap_eq_map (f := localKey)) (inputList cl)

end

end Task

/-! ## Real blocks -/

/-- Looking for the packet at each offset finds each packet once, when the offsets differ. -/
theorem flatMap_offsets {α : Type} {ecw : Nat} (hw : 0 < ecw) {vs : List Nat}
    (hvs : (vs.map fun v => v % ecw).Nodup) (g : Nat → List α) :
    ((List.range ecw).flatMap fun j =>
      match vs.find? fun v => v % ecw = j with
      | none => []
      | some v => g v).Perm (vs.flatMap g) := by
  let h : Nat → List α := fun j =>
    match vs.find? fun v => v % ecw = j with
    | none => []
    | some v => g v
  have hfind : ∀ v ∈ vs, h (v % ecw) = g v := by
    intro v hv
    obtain ⟨u, hu⟩ := Option.isSome_iff_exists.1
      (List.find?_isSome (p := fun u => u % ecw = v % ecw).2 ⟨v, hv, by simp⟩)
    have huv : u = v := List.inj_on_of_nodup_map hvs (List.mem_of_find?_eq_some hu) hv
      (by simpa using List.find?_some hu)
    simp only [h, hu, huv]
  have hnone : ∀ j ∉ vs.map fun v => v % ecw, h j = [] := by
    intro j hj
    have hn : vs.find? (fun v => v % ecw = j) = none := by
      refine List.find?_eq_none.2 fun v hv he => hj ?_
      exact List.mem_map.2 ⟨v, hv, of_decide_eq_true he⟩
    simp only [h, hn]
  -- the offsets that occur, then the others
  have hsplit := List.filter_append_perm (fun j => decide (j ∈ vs.map fun v => v % ecw))
    (List.range ecw)
  have hoccur : ((List.range ecw).filter fun j => j ∈ vs.map fun v => v % ecw).Perm
      (vs.map fun v => v % ecw) := by
    refine (List.perm_ext_iff_of_nodup (List.nodup_range.filter _) hvs).2 fun j => ?_
    rw [List.mem_filter, decide_eq_true_iff, and_iff_right_iff_imp, List.mem_range]
    intro hj
    obtain ⟨v, -, rfl⟩ := List.mem_map.1 hj
    exact Nat.mod_lt _ hw
  show ((List.range ecw).flatMap h).Perm (vs.flatMap g)
  refine (hsplit.symm.flatMap_right h).trans ?_
  have hrest : (List.filter (fun j => !decide (j ∈ vs.map fun v => v % ecw))
      (List.range ecw)).flatMap h = [] := by
    refine List.flatMap_eq_nil_iff.2 fun j hj => hnone j ?_
    simpa using (List.mem_filter.1 hj).2
  rw [List.flatMap_append, hrest, List.append_nil]
  refine (hoccur.flatMap_right h).trans (List.Perm.of_eq ?_)
  rw [List.flatMap_map]
  exact List.flatMap_congr hfind

/-- **A round reads each packet of the task**, when their offsets in the block differ. -/
theorem filterMap_readRealBlock {α : Type} {b : Option String} {ecw : Nat} (hw : 0 < ecw)
    {vs : List Nat} (f : Nat → Bool × Bool) (hvs : (vs.map fun v => v % ecw).Nodup)
    (e : Op → Option α) (he : ∀ j v, e (.pread b j v) = none) :
    ((Worker.readRealBlock ecw b vs (vs.map f)).filterMap e).Perm
      (vs.flatMap fun v => (Worker.pushLocal (f v) v ++ Worker.pushCache (f v) v).filterMap e) := by
  have hzip : vs.zip (vs.map f) = vs.map fun v => (v, f v) := by
    have := List.zip_map' (l := vs) (f := id) (g := f)
    rwa [List.map_id] at this
  rw [Worker.readRealBlock, List.filterMap_flatMap]
  refine List.Perm.trans (List.Perm.of_eq ?_) (flatMap_offsets hw hvs _)
  refine List.flatMap_congr fun j _ => ?_
  have hcomp : ((fun e : Nat × Bool × Bool => decide (e.1 % ecw = j)) ∘ fun v => (v, f v)) =
      fun v => decide (v % ecw = j) := rfl
  rw [hzip, List.find?_map, hcomp]
  cases vs.find? fun v => v % ecw = j with
  | none => rfl
  | some v => rw [Option.map_some, List.filterMap_cons, he]

namespace Task

theorem pushes_real {b : Option String} (hb : b ≠ some "ZERO") {ecw : Nat} (hw : 0 < ecw)
    {vs : List Nat} (f : Nat → Bool × Bool) (hvs : (vs.map fun v => v % ecw).Nodup) :
    ((Task.read b vs (vs.map f)).pushes ecw).Perm (vs.flatMap fun v => usageQueues (f v) v) := by
  rw [pushes, round, if_neg hb]
  refine (filterMap_readRealBlock hw f hvs _ fun _ _ => rfl).trans (List.Perm.of_eq ?_)
  refine List.flatMap_congr fun v _ => ?_
  rw [List.filterMap_append, Worker.pushKey_pushLocal, Worker.pushKey_pushCache]
  rfl

theorem queues_real {b : Option String} (hb : b ≠ some "ZERO") (vs : List Nat)
    (f : Nat → Bool × Bool) :
    (Task.read b vs (vs.map f)).queues = vs.flatMap fun v => usageQueues (f v) v := by
  have hzip : vs.zip (vs.map f) = vs.map fun v => (v, f v) := by
    have := List.zip_map' (l := vs) (f := id) (g := f)
    rwa [List.map_id] at this
  rw [queues, if_neg hb, hzip, List.flatMap_map]

end Task

end StripeRepair

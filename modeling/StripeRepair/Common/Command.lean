import StripeRepair.Lib.GrowBuffer
import StripeRepair.Lib.Decoder

/-!
# The commands

Tasks, the items of a compute task and the request to an agent travel as bytes: an integer is
four bytes, the most significant first, and a name is its length and its characters. A list is
its length and its elements, but the length of the usages and of the lists of targets is the
one of the packets.

* `Task.buildTaskCommand`, `ComputeItem.buildCommand`, `AGCommand.buildAGCommand`: the writers.
* `Task.parse`, `ComputeItem.parse`, `AGCommand.parse`: the parsing constructors.
* `neverOver_commands`: when the copies stay in the buffers.
-/

namespace StripeRepair.Command

/-- An `int` -/
abbrev Word := BitVec 32

abbrev Byte := BitVec 8

/-- The largest `int` -/
def INT_MAX : Nat := 2 ^ 31 - 1

def TASK_COMMAND_LEN : Nat := 1024

def COMPUTE_COMMAND_LEN : Nat := 128

def AGENT_COMMAND_LEN : Nat := 128

/-! ## Integers and names -/

/-- The four bytes of `htonl(value)` -/
def writeInt (value : Word) : List Byte :=
  [value.extractLsb' 24 8, value.extractLsb' 16 8, value.extractLsb' 8 8, value.extractLsb' 0 8]

/-- `s.length()` as an `int` -/
def slen (s : List Byte) : Word := BitVec.ofNat 32 s.length

/-- `memcpy` takes the length as a `size_t`. A length that is negative as an `int` is beyond
every buffer, and so are the characters that are then left. -/
def writeString (s : List Byte) : List Byte :=
  writeInt (slen s) ++ s.take ((slen s).signExtend 64).toNat

/-- `vector::size()` as an `int` -/
def writeSize {α : Type} (l : List α) : List Byte := writeInt (BitVec.ofNat 32 l.length)

def writeBool (b : Bool) : List Byte := writeInt (if b then 1 else 0)

def readInt : Decoder Byte Word := fun bytes =>
  match bytes with
  | a :: b :: c :: d :: rest => some (a ++ b ++ c ++ d, rest)
  | _ => none

/-- The name ends at the first NUL. -/
def readString : Decoder Byte (List Byte) := do
  let slen ← readInt
  fun bytes =>
    if 0 ≤ slen.toInt ∧ slen.toInt.toNat ≤ bytes.length then
      some ((bytes.take slen.toInt.toNat).takeWhile (· ≠ 0), bytes.drop slen.toInt.toNat)
    else none

/-- `for (int i=0; i<num; i++)` -/
def readTimes {α : Type} (r : Decoder Byte α) (num : Word) : Decoder Byte (List α) :=
  Decoder.times r num.toInt.toNat

/-! ## Compute items -/

structure ComputeItem where
  dstidx : Word
  srclist : List Word
  coefs : List Word
  usage : Bool × Bool
  deriving DecidableEq

namespace ComputeItem

/-- The writes of `buildCommand` -/
def writes (ci : ComputeItem) : List (List Byte) :=
  [writeInt ci.dstidx, writeSize ci.srclist] ++ ci.srclist.map writeInt ++ ci.coefs.map writeInt ++
    [writeBool ci.usage.1, writeBool ci.usage.2]

def buildCommand (ci : ComputeItem) : List (GrowBuffer.Op Byte) := .alloc :: ci.writes.map .write

def parse : Decoder Byte ComputeItem := do
  let dstidx ← readInt
  let numsrc ← readInt
  let srclist ← readTimes readInt numsrc
  let coefs ← readTimes readInt numsrc
  let same ← readInt
  let diff ← readInt
  return ⟨dstidx, srclist, coefs, same ≠ 0, diff ≠ 0⟩

/-- What both constructors leave: there is no buffer. -/
def empty : GrowBuffer Byte := ⟨[], 0, COMPUTE_COMMAND_LEN⟩

end ComputeItem

/-! ## Tasks -/

structure Task where
  type : Word
  blkName : List Byte := []
  dagidxList : List Word := []
  usageList : List (Bool × Bool) := []
  sendToList : List (List Word) := []
  computeList : List ComputeItem := []
  collectList : List Word := []
  repairedBlock : List Byte := []
  deriving DecidableEq

namespace Task

/-- `"ZERO"` -/
def zero : List Byte := [0x5A, 0x45, 0x52, 0x4F]

def buildReadTask (type : Word) (blkName : List Byte) (dagidxList : List Word)
    (usageList : List (Bool × Bool)) : Task := { type, blkName, dagidxList, usageList }

def buildSendTask (type : Word) (dagidxList : List Word) (sendToList : List (List Word)) : Task :=
  { type, dagidxList, sendToList }

def buildRecvTask (type : Word) (dagidxList : List Word) : Task := { type, dagidxList }

def buildComputeTask (type : Word) (computeList : List ComputeItem) : Task := { type, computeList }

def buildPersistTask (type : Word) (collectList : List Word) (repairedBlock : List Byte) : Task :=
  { type, collectList, repairedBlock }

def writeUsage (usage : Bool × Bool) : List (List Byte) := [writeBool usage.1, writeBool usage.2]

def writeSendTos (sendtos : List Word) : List (List Byte) :=
  writeSize sendtos :: sendtos.map writeInt

def buildReadTaskCommand (t : Task) : List (List Byte) :=
  [writeInt t.type, writeString t.blkName, writeSize t.dagidxList] ++ t.dagidxList.map writeInt ++
    if t.blkName ≠ zero then t.usageList.flatMap writeUsage else []

def buildSendTaskCommand (t : Task) : List (List Byte) :=
  [writeInt t.type, writeSize t.dagidxList] ++ t.dagidxList.map writeInt ++
    (t.sendToList.take t.dagidxList.length).flatMap writeSendTos

def buildRecvTaskCommand (t : Task) : List (List Byte) :=
  [writeInt t.type, writeSize t.dagidxList] ++ t.dagidxList.map writeInt

/-- Each item has a command of its own, see `ComputeItem.buildCommand`. -/
def buildComputeTaskCommand (t : Task) : List (List Byte) :=
  [writeInt t.type, writeSize t.computeList] ++ t.computeList.map fun ci => writeInt ci.dstidx

def buildPersistTaskCommand (t : Task) : List (List Byte) :=
  [writeInt t.type, writeSize t.collectList] ++ t.collectList.map writeInt ++
    [writeString t.repairedBlock]

def writes (t : Task) : List (List Byte) :=
  if t.type = 0 then t.buildReadTaskCommand
  else if t.type = 1 then t.buildSendTaskCommand
  else if t.type = 2 then t.buildRecvTaskCommand
  else if t.type = 3 then t.buildComputeTaskCommand
  else if t.type = 4 then t.buildPersistTaskCommand
  else []

/-- The buffer is a new one of `TASK_COMMAND_LEN`, and `_maxLen` stays. -/
def buildTaskCommand (t : Task) : List (GrowBuffer.Op Byte) := .alloc :: t.writes.map .write

/-- What both constructors leave: there is no buffer. -/
def empty : GrowBuffer Byte := ⟨[], 0, TASK_COMMAND_LEN⟩

def readUsage : Decoder Byte (Bool × Bool) := do
  let sameint ← readInt
  let diffint ← readInt
  return (sameint = 1, diffint = 1)

def resolveReadTask (t : Task) : Decoder Byte Task := do
  let blkName ← readString
  let num ← readInt
  let dagidxList ← readTimes readInt num
  let usageList ← if blkName ≠ zero then readTimes readUsage num else pure []
  return { t with blkName, dagidxList, usageList }

def readSendTos : Decoder Byte (List Word) := do
  let nodenum ← readInt
  readTimes readInt nodenum

def resolveSendTask (t : Task) : Decoder Byte Task := do
  let num ← readInt
  let dagidxList ← readTimes readInt num
  let sendToList ← readTimes readSendTos num
  return { t with dagidxList, sendToList }

def resolveRecvTask (t : Task) : Decoder Byte Task := do
  let num ← readInt
  let dagidxList ← readTimes readInt num
  return { t with dagidxList }

/-- What `blpop` gives for the key of a packet is parsed on its own. -/
def readComputeItem (blpop : Word → Option (List Byte)) : Decoder Byte ComputeItem := do
  let dagidx ← readInt
  let reqStr ← StateT.lift (blpop dagidx)
  let (ci, _) ← StateT.lift (ComputeItem.parse.run reqStr)
  return ci

def resolveComputeTask (blpop : Word → Option (List Byte)) (t : Task) : Decoder Byte Task := do
  let num ← readInt
  let computeList ← readTimes (readComputeItem blpop) num
  return { t with computeList }

def resolvePersistTask (t : Task) : Decoder Byte Task := do
  let num ← readInt
  let collectList ← readTimes readInt num
  let repairedBlock ← readString
  return { t with collectList, repairedBlock }

/-- The constructor that takes `reqStr` -/
def parse (blpop : Word → Option (List Byte)) : Decoder Byte Task := do
  let type ← readInt
  let t : Task := { type }
  if type = 0 then resolveReadTask t
  else if type = 1 then resolveSendTask t
  else if type = 2 then resolveRecvTask t
  else if type = 3 then resolveComputeTask blpop t
  else if type = 4 then resolvePersistTask t
  else return t

end Task

/-! ## Requests to the agents -/

structure AGCommand where
  batchId : Word
  numStripes : Word
  stripeIdList : List Word
  stripeTaskNum : List Word
  deriving DecidableEq

namespace AGCommand

/-- The writes of `buildAGCommand` -/
def buildAGCommand (batchid nstripes : Word) (stripelist numlist : List Word) :
    List (List Byte) :=
  [writeInt batchid, writeInt nstripes] ++
    ((stripelist.zip numlist).take nstripes.toInt.toNat).flatMap fun e =>
      [writeInt e.1, writeInt e.2]

def readStripe : Decoder Byte (Word × Word) := do
  let stripeid ← readInt
  let numtasks ← readInt
  return (stripeid, numtasks)

def parse : Decoder Byte AGCommand := do
  let batchId ← readInt
  let numStripes ← readInt
  let stripes ← readTimes readStripe numStripes
  return ⟨batchId, numStripes, stripes.map Prod.fst, stripes.map Prod.snd⟩

/-- The constructor without an argument allocates the buffer. -/
def new : GrowBuffer Byte := ⟨[], AGENT_COMMAND_LEN, AGENT_COMMAND_LEN⟩

/-- What the constructor that takes `reqStr` leaves -/
def parsed : GrowBuffer Byte := ⟨[], 0, AGENT_COMMAND_LEN⟩

end AGCommand

/-! ## The calls -/

/-- What writes to the buffer of a task. -/
inductive Task.Call
  | writeInt (value : Word)
  | writeString (s : List Byte)
  | buildTaskCommand (t : Task)

def Task.Call.ops : Task.Call → List (GrowBuffer.Op Byte)
  | .writeInt value => [.write (Command.writeInt value)]
  | .writeString s => [.write (Command.writeString s)]
  | .buildTaskCommand t => t.buildTaskCommand

/-- What writes to the buffer of a compute item. -/
inductive ComputeItem.Call
  | writeInt (value : Word)
  | buildCommand (ci : ComputeItem)

def ComputeItem.Call.ops : ComputeItem.Call → List (GrowBuffer.Op Byte)
  | .writeInt value => [.write (Command.writeInt value)]
  | .buildCommand ci => ci.buildCommand

/-- What writes to the buffer of a request. -/
inductive AGCommand.Call
  | writeInt (value : Word)
  | writeString (s : List Byte)
  | buildAGCommand (batchid nstripes : Word) (stripelist numlist : List Word)

def AGCommand.Call.ops : AGCommand.Call → List (GrowBuffer.Op Byte)
  | .writeInt value => [.write (Command.writeInt value)]
  | .writeString s => [.write (Command.writeString s)]
  | .buildAGCommand batchid nstripes stripelist numlist =>
    (AGCommand.buildAGCommand batchid nstripes stripelist numlist).map .write

@[simp] theorem length_writeInt (value : Word) : (writeInt value).length = 4 := rfl

@[simp] theorem length_writeSize {α : Type} (l : List α) : (writeSize l).length = 4 := rfl

@[simp] theorem length_writeBool (b : Bool) : (writeBool b).length = 4 := rfl

theorem toNat_slen {s : List Byte} (h : s.length < 2 ^ 31) : (slen s).toNat = s.length := by
  rw [slen, BitVec.toNat_ofNat]
  omega

theorem toInt_slen {s : List Byte} (h : s.length < 2 ^ 31) : (slen s).toInt = s.length := by
  rw [BitVec.toInt_eq_toNat_of_lt (by rw [toNat_slen h]; omega), toNat_slen h]

theorem writeString_eq {s : List Byte} (h : s.length < 2 ^ 31) :
    writeString s = writeInt (slen s) ++ s := by
  have hmsb : (slen s).msb = false := by
    rw [BitVec.msb_eq_false_iff_two_mul_lt, toNat_slen h]
    omega
  rw [writeString, BitVec.signExtend_eq_setWidth_of_msb_false hmsb,
    BitVec.toNat_setWidth_of_le (by omega), toNat_slen h, List.take_length]

theorem length_writeString {s : List Byte} (h : s.length < 2 ^ 31) :
    (writeString s).length = 4 + s.length := by
  rw [writeString_eq h, List.length_append, length_writeInt]

theorem four_le_writeString (s : List Byte) : 4 ≤ (writeString s).length := by
  rw [writeString, List.length_append, length_writeInt]
  exact Nat.le_add_right _ _

theorem ComputeItem.length_of_mem_writes {ci : ComputeItem} {w : List Byte} (hw : w ∈ ci.writes) :
    w.length = 4 := by
  unfold ComputeItem.writes at hw
  simp only [List.mem_append, List.mem_cons, List.mem_map, List.not_mem_nil, or_false] at hw
  rcases hw with (((rfl | rfl) | ⟨v, -, rfl⟩) | ⟨v, -, rfl⟩) | rfl | rfl <;> rfl

theorem AGCommand.length_of_mem_build {batchid nstripes : Word} {stripelist numlist : List Word}
    {w : List Byte} (hw : w ∈ AGCommand.buildAGCommand batchid nstripes stripelist numlist) :
    w.length = 4 := by
  unfold AGCommand.buildAGCommand at hw
  simp only [List.mem_append, List.mem_cons, List.mem_flatMap, List.not_mem_nil, or_false] at hw
  rcases hw with (rfl | rfl) | ⟨e, -, rfl | rfl⟩ <;> rfl

theorem length_of_mem_map_writeInt {l : List Word} {w : List Byte} (hw : w ∈ l.map writeInt) :
    w.length = 4 := by
  obtain ⟨v, -, rfl⟩ := List.mem_map.1 hw
  rfl

namespace Task

variable {t : Task} {w : List Byte}

theorem length_of_mem_writeUsage {usageList : List (Bool × Bool)}
    (hw : w ∈ usageList.flatMap writeUsage) : w.length = 4 := by
  obtain ⟨usage, -, hw⟩ := List.mem_flatMap.1 hw
  simp only [writeUsage, List.mem_cons, List.not_mem_nil, or_false] at hw
  rcases hw with rfl | rfl <;> rfl

theorem length_of_mem_writeSendTos {sendToList : List (List Word)}
    (hw : w ∈ sendToList.flatMap writeSendTos) : w.length = 4 := by
  obtain ⟨sendtos, -, hw⟩ := List.mem_flatMap.1 hw
  rcases List.mem_cons.1 hw with rfl | hw
  · rfl
  · exact length_of_mem_map_writeInt hw

/-- All but the names are integers. -/
theorem length_of_mem_writes (hw : w ∈ t.writes) :
    w.length = 4 ∨ w = writeString t.blkName ∨ w = writeString t.repairedBlock := by
  unfold writes at hw
  split at hw
  next =>
    unfold buildReadTaskCommand at hw
    rcases List.mem_append.1 hw with hw | hw
    · rcases List.mem_append.1 hw with hw | hw
      · simp only [List.mem_cons, List.not_mem_nil, or_false] at hw
        rcases hw with rfl | rfl | rfl
        · exact .inl rfl
        · exact .inr (.inl rfl)
        · exact .inl rfl
      · exact .inl (length_of_mem_map_writeInt hw)
    · split at hw
      next => exact .inl (length_of_mem_writeUsage hw)
      next => exact absurd hw List.not_mem_nil
  split at hw
  next =>
    unfold buildSendTaskCommand at hw
    rcases List.mem_append.1 hw with hw | hw
    · rcases List.mem_append.1 hw with hw | hw
      · simp only [List.mem_cons, List.not_mem_nil, or_false] at hw
        rcases hw with rfl | rfl <;> exact .inl rfl
      · exact .inl (length_of_mem_map_writeInt hw)
    · exact .inl (length_of_mem_writeSendTos hw)
  split at hw
  next =>
    unfold buildRecvTaskCommand at hw
    rcases List.mem_append.1 hw with hw | hw
    · simp only [List.mem_cons, List.not_mem_nil, or_false] at hw
      rcases hw with rfl | rfl <;> exact .inl rfl
    · exact .inl (length_of_mem_map_writeInt hw)
  split at hw
  next =>
    unfold buildComputeTaskCommand at hw
    rcases List.mem_append.1 hw with hw | hw
    · simp only [List.mem_cons, List.not_mem_nil, or_false] at hw
      rcases hw with rfl | rfl <;> exact .inl rfl
    · obtain ⟨ci, -, rfl⟩ := List.mem_map.1 hw
      exact .inl rfl
  split at hw
  next =>
    unfold buildPersistTaskCommand at hw
    rcases List.mem_append.1 hw with hw | hw
    · rcases List.mem_append.1 hw with hw | hw
      · simp only [List.mem_cons, List.not_mem_nil, or_false] at hw
        rcases hw with rfl | rfl <;> exact .inl rfl
      · exact .inl (length_of_mem_map_writeInt hw)
    · exact .inr (.inr (List.mem_singleton.1 hw))
  next => exact absurd hw List.not_mem_nil

theorem four_le_of_mem_writes (hw : w ∈ t.writes) : 4 ≤ w.length := by
  rcases length_of_mem_writes hw with h | rfl | rfl
  · exact h.ge
  · exact four_le_writeString _
  · exact four_le_writeString _

theorem Call.four_le {calls : List Task.Call} {data : List Byte}
    (h : .write data ∈ calls.flatMap Call.ops) : 4 ≤ data.length := by
  obtain ⟨call, -, h⟩ := List.mem_flatMap.1 h
  cases call with
  | writeInt value =>
    cases List.mem_singleton.1 h
    exact Nat.le_refl 4
  | writeString s =>
    cases List.mem_singleton.1 h
    exact four_le_writeString s
  | buildTaskCommand t =>
    rcases List.mem_cons.1 h with h | h
    · cases h
    · obtain ⟨w, hw, hdata⟩ := List.mem_map.1 h
      cases hdata
      exact four_le_of_mem_writes hw

end Task

theorem ComputeItem.Call.four_le {calls : List ComputeItem.Call} {data : List Byte}
    (h : .write data ∈ calls.flatMap ComputeItem.Call.ops) : 4 ≤ data.length := by
  obtain ⟨call, -, h⟩ := List.mem_flatMap.1 h
  cases call with
  | writeInt value =>
    cases List.mem_singleton.1 h
    exact Nat.le_refl 4
  | buildCommand ci =>
    rcases List.mem_cons.1 h with h | h
    · cases h
    · obtain ⟨w, hw, hdata⟩ := List.mem_map.1 h
      cases hdata
      exact (ComputeItem.length_of_mem_writes hw).ge

theorem AGCommand.Call.four_le {calls : List AGCommand.Call} {data : List Byte}
    (h : .write data ∈ calls.flatMap AGCommand.Call.ops) : 4 ≤ data.length := by
  obtain ⟨call, -, h⟩ := List.mem_flatMap.1 h
  cases call with
  | writeInt value =>
    cases List.mem_singleton.1 h
    exact Nat.le_refl 4
  | writeString s =>
    cases List.mem_singleton.1 h
    exact four_le_writeString s
  | buildAGCommand batchid nstripes stripelist numlist =>
    obtain ⟨w, hw, hdata⟩ := List.mem_map.1 h
    cases hdata
    exact (AGCommand.length_of_mem_build hw).ge

/-- **The buffers of the commands**: whatever the calls are, no copy goes beyond the buffer
exactly when every write is safe in the state that it finds. -/
theorem neverOver_commands (tasks : List Task.Call) (items : List ComputeItem.Call)
    (requests : List AGCommand.Call) :
    (GrowBuffer.NeverOver INT_MAX TASK_COMMAND_LEN Task.empty (tasks.flatMap Task.Call.ops) ↔
      GrowBuffer.StepsSafe INT_MAX TASK_COMMAND_LEN Task.empty (tasks.flatMap Task.Call.ops)) ∧
    (GrowBuffer.NeverOver INT_MAX COMPUTE_COMMAND_LEN ComputeItem.empty
        (items.flatMap ComputeItem.Call.ops) ↔
      GrowBuffer.StepsSafe INT_MAX COMPUTE_COMMAND_LEN ComputeItem.empty
        (items.flatMap ComputeItem.Call.ops)) ∧
    ∀ start ∈ [AGCommand.new, AGCommand.parsed],
      GrowBuffer.NeverOver INT_MAX AGENT_COMMAND_LEN start (requests.flatMap AGCommand.Call.ops) ↔
        GrowBuffer.StepsSafe INT_MAX AGENT_COMMAND_LEN start
          (requests.flatMap AGCommand.Call.ops) := by
  refine ⟨?_, ?_, fun start hstart => ?_⟩
  · refine GrowBuffer.neverOver_iff (by decide) _ (fun data h => ?_) ⟨.inl rfl, by decide, by decide⟩
    exact Nat.lt_of_lt_of_le (by decide) (Task.Call.four_le h)
  · refine GrowBuffer.neverOver_iff (by decide) _ (fun data h => ?_) ⟨.inl rfl, by decide, by decide⟩
    exact Nat.lt_of_lt_of_le (by decide) (ComputeItem.Call.four_le h)
  · have hinv : GrowBuffer.Inv INT_MAX AGENT_COMMAND_LEN start := by
      simp only [List.mem_cons, List.not_mem_nil, or_false] at hstart
      rcases hstart with rfl | rfl
      · exact ⟨.inr (.inl rfl), by decide, by decide⟩
      · exact ⟨.inl rfl, by decide, by decide⟩
    refine GrowBuffer.neverOver_iff (by decide) _ (fun data h => ?_) hinv
    exact Nat.lt_of_lt_of_le (by decide) (AGCommand.Call.four_le h)

/-- A name of 2041 characters is not held by one doubling. -/
theorem longName_overruns :
    ¬ GrowBuffer.NeverOver INT_MAX TASK_COMMAND_LEN Task.empty
      ([.buildTaskCommand (Task.buildReadTask 0 (List.replicate 2041 0x41) [0] [(true, false)])].flatMap
        Task.Call.ops) := by
  intro h
  have hlen : (writeString (List.replicate 2041 0x41)).length = 2045 := by
    rw [length_writeString (by rw [List.length_replicate]; decide), List.length_replicate]
  -- the third step, after the allocation and the type
  have hin : GrowBuffer.Op.InBounds INT_MAX ⟨writeInt 0, TASK_COMMAND_LEN, TASK_COMMAND_LEN⟩
      (.write (writeString (List.replicate 2041 0x41))) := h.2.2.1
  have hcap := hin.2
  rw [hlen] at hcap
  exact absurd hcap (by decide)

end StripeRepair.Command

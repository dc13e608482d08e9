import StripeRepair.Common.Command

/-!
# Parsing the commands

What the writers write is what the parsing constructors read, as long as the buffer holds it
and the lengths are `int`s.

* `roundTrip_read`, `roundTrip_send`, `roundTrip_recv`, `roundTrip_persist`: the tasks.
* `roundTrip_computeItem`, `roundTrip_agCommand`: the items and the requests.
* `commands_roundTrip`: all of them.
-/

namespace StripeRepair.Command

open Decoder (Consumes)

/-! ## What the readers consume -/

theorem consumes_readInt (value : Word) : Consumes readInt (writeInt value) value := by
  intro rest
  have h : value.extractLsb' 24 8 ++ value.extractLsb' 16 8 ++ value.extractLsb' 8 8 ++
      value.extractLsb' 0 8 = value := by
    ext i hi
    have hbit : ∀ j, j = i → value.getLsbD j = value[i] := by
      rintro _ rfl
      exact BitVec.getLsbD_eq_getElem hi
    simp only [BitVec.getElem_append, BitVec.getElem_extractLsb']
    split
    · exact hbit _ (by omega)
    split
    · exact hbit _ (by omega)
    split
    · exact hbit _ (by omega)
    · exact hbit _ (by omega)
  show some (_, rest) = some (value, rest)
  rw [h]

theorem consumes_readString {s : List Byte} (h : s.length < 2 ^ 31) (hnul : 0 ∉ s) :
    Consumes readString (writeString s) s := by
  rw [writeString_eq h]
  refine (consumes_readInt _).bind fun rest => ?_
  have htake : s.takeWhile (· ≠ 0) = s := by
    rw [List.takeWhile_eq_self_iff]
    intro c hc
    exact decide_eq_true fun h0 => hnul (h0 ▸ hc)
  show (if _ ∧ _ then _ else _) = _
  rw [toInt_slen h, Int.toNat_natCast, if_pos ⟨Int.natCast_nonneg _, by simp⟩,
    List.take_left, List.drop_left, htake]

theorem consumes_readTimes {α δ : Type} {r : Decoder Byte α} (xs : List δ) (enc : δ → List Byte)
    (dec : δ → α) (hlen : xs.length < 2 ^ 31) (h : ∀ x ∈ xs, Consumes r (enc x) (dec x)) :
    Consumes (readTimes r (BitVec.ofNat 32 xs.length)) (xs.flatMap enc) (xs.map dec) := by
  have hnum : (BitVec.ofNat 32 xs.length).toInt.toNat = xs.length := by
    have hnat : (BitVec.ofNat 32 xs.length).toNat = xs.length := by
      rw [BitVec.toNat_ofNat]
      omega
    rw [BitVec.toInt_eq_toNat_of_lt (by rw [hnat]; omega), hnat, Int.toNat_natCast]
  rw [readTimes, hnum]
  exact Consumes.times xs enc dec h

theorem consumes_readInts (l : List Word) (hlen : l.length < 2 ^ 31) :
    Consumes (readTimes readInt (BitVec.ofNat 32 l.length)) (l.flatMap writeInt) l := by
  have h := consumes_readTimes l writeInt id hlen fun v _ => consumes_readInt v
  rwa [List.map_id] at h

/-! ## The bytes of a command -/

theorem consumes_two {α : Type} (f : Word → Word → α) (v w : Word) :
    Consumes (do let x ← readInt; let y ← readInt; return f x y) (writeInt v ++ writeInt w)
      (f v w) :=
  (consumes_readInt v).bind ((consumes_readInt w).bind_pure (f := f v))

theorem consumes_readUsage (usage : Bool × Bool) :
    Consumes Task.readUsage (Task.writeUsage usage).flatten usage := by
  obtain ⟨same, diff⟩ := usage
  have h := consumes_two (fun x y => (decide (x = 1), decide (y = 1)))
    (if same then 1 else 0) (if diff then 1 else 0)
  cases same <;> cases diff <;> exact h

theorem consumes_readSendTos (sendtos : List Word) (hlen : sendtos.length < 2 ^ 31) :
    Consumes Task.readSendTos (Task.writeSendTos sendtos).flatten sendtos :=
  (consumes_readInt _).bind (consumes_readInts sendtos hlen)

theorem consumes_readStripe (e : Word × Word) :
    Consumes AGCommand.readStripe (writeInt e.1 ++ writeInt e.2) e :=
  consumes_two Prod.mk e.1 e.2

theorem consumes_computeItem {ci : ComputeItem} (hcoefs : ci.coefs.length = ci.srclist.length)
    (hlen : ci.srclist.length < 2 ^ 31) : Consumes ComputeItem.parse ci.writes.flatten ci := by
  obtain ⟨dstidx, srclist, coefs, same, diff⟩ := ci
  have hbytes : (ComputeItem.writes ⟨dstidx, srclist, coefs, same, diff⟩).flatten =
      writeInt dstidx ++ (writeSize srclist ++ (srclist.flatMap writeInt ++
        (coefs.flatMap writeInt ++ (writeBool same ++ writeBool diff)))) := by
    simp [ComputeItem.writes, List.flatMap_def]
  have hbool : ∀ b : Bool, decide ((if b then 1 else 0 : Word) ≠ 0) = b := by decide
  have hcoefs' : Consumes (readTimes readInt (BitVec.ofNat 32 srclist.length))
      (coefs.flatMap writeInt) coefs := by
    rw [← show coefs.length = srclist.length from hcoefs] at hlen ⊢
    exact consumes_readInts coefs hlen
  rw [hbytes]
  refine (consumes_readInt _).bind <| (consumes_readInt _).bind <|
    (consumes_readInts srclist hlen).bind <| hcoefs'.bind ?_
  have h := consumes_two (fun x y => ComputeItem.mk dstidx srclist coefs (x ≠ 0, y ≠ 0))
    (if same then 1 else 0) (if diff then 1 else 0)
  rwa [hbool, hbool] at h

theorem buildAGCommand_eq {batchid nstripes : Word} {stripelist numlist : List Word}
    (hstripes : (stripelist.length : Int) = nstripes.toInt)
    (hnums : numlist.length = stripelist.length) :
    AGCommand.buildAGCommand batchid nstripes stripelist numlist =
      [writeInt batchid, writeInt nstripes] ++
        (stripelist.zip numlist).flatMap fun e => [writeInt e.1, writeInt e.2] := by
  have hle : (stripelist.zip numlist).length ≤ nstripes.toInt.toNat := by
    rw [List.length_zip]
    omega
  rw [AGCommand.buildAGCommand, List.take_of_length_le hle]

theorem consumes_agCommand {batchid nstripes : Word} {stripelist numlist : List Word}
    (hstripes : (stripelist.length : Int) = nstripes.toInt)
    (hnums : numlist.length = stripelist.length) :
    Consumes AGCommand.parse (AGCommand.buildAGCommand batchid nstripes stripelist numlist).flatten
      ⟨batchid, nstripes, stripelist, numlist⟩ := by
  have hn : nstripes.toInt.toNat = (stripelist.zip numlist).length := by
    rw [List.length_zip, hnums, Nat.min_self]
    omega
  have hbytes : (AGCommand.buildAGCommand batchid nstripes stripelist numlist).flatten =
      writeInt batchid ++ (writeInt nstripes ++
        (stripelist.zip numlist).flatMap fun e => writeInt e.1 ++ writeInt e.2) := by
    rw [buildAGCommand_eq hstripes hnums]
    simp [List.flatMap_def, List.flatten_flatten, Function.comp_def]
  rw [hbytes]
  refine (consumes_readInt _).bind <| (consumes_readInt _).bind ?_
  have h : Consumes (readTimes AGCommand.readStripe nstripes)
      ((stripelist.zip numlist).flatMap fun e => writeInt e.1 ++ writeInt e.2)
      (stripelist.zip numlist) := by
    have htimes := Consumes.times (stripelist.zip numlist)
      (fun e => writeInt e.1 ++ writeInt e.2) id fun e _ => consumes_readStripe e
    rwa [List.map_id, ← hn] at htimes
  have hparse := h.bind_pure (f := fun stripes => AGCommand.mk batchid nstripes
    (stripes.map Prod.fst) (stripes.map Prod.snd))
  rwa [List.map_fst_zip hnums.ge, List.map_snd_zip hnums.le] at hparse

theorem writes_read (blkName : List Byte) (dagidxList : List Word)
    (usageList : List (Bool × Bool)) :
    (Task.buildReadTask 0 blkName dagidxList usageList).writes =
      [writeInt 0, writeString blkName, writeSize dagidxList] ++ dagidxList.map writeInt ++
        if blkName ≠ Task.zero then usageList.flatMap Task.writeUsage else [] := rfl

theorem writes_send {dagidxList : List Word} {sendToList : List (List Word)}
    (hsend : sendToList.length = dagidxList.length) :
    (Task.buildSendTask 1 dagidxList sendToList).writes =
      [writeInt 1, writeSize dagidxList] ++ dagidxList.map writeInt ++
        sendToList.flatMap Task.writeSendTos := by
  show [writeInt 1, writeSize dagidxList] ++ dagidxList.map writeInt ++
    (sendToList.take dagidxList.length).flatMap Task.writeSendTos = _
  rw [← hsend, List.take_length]

theorem writes_recv (dagidxList : List Word) : (Task.buildRecvTask 2 dagidxList).writes =
    [writeInt 2, writeSize dagidxList] ++ dagidxList.map writeInt := rfl

theorem writes_persist (collectList : List Word) (repairedBlock : List Byte) :
    (Task.buildPersistTask 4 collectList repairedBlock).writes =
      [writeInt 4, writeSize collectList] ++ collectList.map writeInt ++
        [writeString repairedBlock] := rfl

section
variable {blpop : Word → Option (List Byte)}

theorem consumes_parse {type : Word} {bs : List Byte} {t : Task}
    (h : Consumes (if type = 0 then Task.resolveReadTask { type }
      else if type = 1 then Task.resolveSendTask { type }
      else if type = 2 then Task.resolveRecvTask { type }
      else if type = 3 then Task.resolveComputeTask blpop { type }
      else if type = 4 then Task.resolvePersistTask { type }
      else return { type }) bs t) : Consumes (Task.parse blpop) (writeInt type ++ bs) t :=
  (consumes_readInt type).bind h

theorem consumes_read {blkName : List Byte} {dagidxList : List Word}
    {usageList : List (Bool × Bool)} (hname : blkName.length < 2 ^ 31) (hnul : 0 ∉ blkName)
    (hzero : blkName = Task.zero → usageList = [])
    (husage : blkName ≠ Task.zero → usageList.length = dagidxList.length)
    (hlen : dagidxList.length < 2 ^ 31) :
    Consumes (Task.parse blpop) (Task.buildReadTask 0 blkName dagidxList usageList).writes.flatten
      (Task.buildReadTask 0 blkName dagidxList usageList) := by
  have hbytes : (Task.buildReadTask 0 blkName dagidxList usageList).writes.flatten =
      writeInt 0 ++ (writeString blkName ++ (writeSize dagidxList ++
        (dagidxList.flatMap writeInt ++
          usageList.flatMap fun usage => (Task.writeUsage usage).flatten))) := by
    rw [writes_read]
    by_cases h : blkName = Task.zero
    · simp [h, hzero h, List.flatMap_def]
    · simp [h, List.flatMap_def, List.flatten_flatten, Function.comp_def]
  rw [hbytes]
  refine consumes_parse ?_
  rw [if_pos rfl]
  refine (consumes_readString hname hnul).bind <| (consumes_readInt _).bind <|
    (consumes_readInts dagidxList hlen).bind ?_
  by_cases h : blkName = Task.zero
  · rw [if_neg (not_not.2 h), hzero h]
    exact Consumes.pure _
  · rw [if_pos h]
    have husages := consumes_readTimes usageList (fun usage => (Task.writeUsage usage).flatten) id
      (husage h ▸ hlen) fun usage _ => consumes_readUsage usage
    rw [List.map_id, husage h] at husages
    exact husages.bind_pure

theorem consumes_send {dagidxList : List Word} {sendToList : List (List Word)}
    (hsend : sendToList.length = dagidxList.length) (hlen : dagidxList.length < 2 ^ 31)
    (hlens : ∀ sendtos ∈ sendToList, sendtos.length < 2 ^ 31) :
    Consumes (Task.parse blpop) (Task.buildSendTask 1 dagidxList sendToList).writes.flatten
      (Task.buildSendTask 1 dagidxList sendToList) := by
  have hbytes : (Task.buildSendTask 1 dagidxList sendToList).writes.flatten =
      writeInt 1 ++ (writeSize dagidxList ++ (dagidxList.flatMap writeInt ++
        sendToList.flatMap fun sendtos => (Task.writeSendTos sendtos).flatten)) := by
    rw [writes_send hsend]
    simp [List.flatMap_def, List.flatten_flatten, Function.comp_def]
  rw [hbytes]
  refine consumes_parse ?_
  rw [if_neg (show (1 : Word) ≠ 0 by decide), if_pos rfl]
  refine (consumes_readInt _).bind <| (consumes_readInts dagidxList hlen).bind ?_
  have hsends := consumes_readTimes sendToList
    (fun sendtos => (Task.writeSendTos sendtos).flatten) id (hsend ▸ hlen)
    fun sendtos hmem => consumes_readSendTos sendtos (hlens sendtos hmem)
  rw [List.map_id, hsend] at hsends
  exact hsends.bind_pure

theorem consumes_recv {dagidxList : List Word} (hlen : dagidxList.length < 2 ^ 31) :
    Consumes (Task.parse blpop) (Task.buildRecvTask 2 dagidxList).writes.flatten
      (Task.buildRecvTask 2 dagidxList) := by
  have hbytes : (Task.buildRecvTask 2 dagidxList).writes.flatten =
      writeInt 2 ++ (writeSize dagidxList ++ dagidxList.flatMap writeInt) := by
    rw [writes_recv]
    simp [List.flatMap_def]
  rw [hbytes]
  refine consumes_parse ?_
  rw [if_neg (show (2 : Word) ≠ 0 by decide), if_neg (show (2 : Word) ≠ 1 by decide), if_pos rfl]
  exact (consumes_readInt _).bind (consumes_readInts dagidxList hlen).bind_pure

theorem consumes_persist {collectList : List Word} {repairedBlock : List Byte}
    (hname : repairedBlock.length < 2 ^ 31) (hnul : 0 ∉ repairedBlock)
    (hlen : collectList.length < 2 ^ 31) :
    Consumes (Task.parse blpop) (Task.buildPersistTask 4 collectList repairedBlock).writes.flatten
      (Task.buildPersistTask 4 collectList repairedBlock) := by
  have hbytes : (Task.buildPersistTask 4 collectList repairedBlock).writes.flatten =
      writeInt 4 ++ (writeSize collectList ++ (collectList.flatMap writeInt ++
        writeString repairedBlock)) := by
    rw [writes_persist]
    simp [List.flatMap_def]
  rw [hbytes]
  refine consumes_parse ?_
  rw [if_neg (show (4 : Word) ≠ 0 by decide), if_neg (show (4 : Word) ≠ 1 by decide),
    if_neg (show (4 : Word) ≠ 2 by decide), if_neg (show (4 : Word) ≠ 3 by decide), if_pos rfl]
  exact (consumes_readInt _).bind <| (consumes_readInts collectList hlen).bind
    (consumes_readString hname hnul).bind_pure

/-- A name that was read has a length that is an `int`. -/
theorem length_readString_lt {bytes rest s : List Byte}
    (h : readString.run bytes = some (s, rest)) : s.length < 2 ^ 31 := by
  unfold readString at h
  rw [StateT.run_bind] at h
  obtain ⟨⟨slen, bytes'⟩, -, h⟩ := Option.bind_eq_some_iff.1 h
  have hlt := slen.toInt_lt
  change (if _ ∧ _ then _ else _) = _ at h
  split at h
  next =>
    cases h
    refine (List.takeWhile_sublist _).length_le.trans_lt ?_
    show (bytes'.take slen.toInt.toNat).length < _
    rw [List.length_take]
    omega
  next => exact absurd h (by simp)

theorem names_lt {bytes rest : List Byte} {t : Task}
    (h : (Task.parse blpop).run bytes = some (t, rest)) :
    t.blkName.length < 2 ^ 31 ∧ t.repairedBlock.length < 2 ^ 31 := by
  have hnil : ([] : List Byte).length < 2 ^ 31 := by decide
  unfold Task.parse at h
  rw [StateT.run_bind] at h
  obtain ⟨⟨type, bytes'⟩, -, h⟩ := Option.bind_eq_some_iff.1 h
  dsimp only at h
  split at h
  next =>
    simp only [Task.resolveReadTask, StateT.run_bind, Option.bind_eq_bind,
      Option.bind_eq_some_iff] at h
    obtain ⟨⟨name, _⟩, hname, _, -, _, -, h⟩ := h
    have hname' := length_readString_lt hname
    split at h <;>
    · rw [StateT.run_bind] at h
      obtain ⟨_, -, h⟩ := Option.bind_eq_some_iff.1 h
      cases h
      exact ⟨hname', hnil⟩
  split at h
  next =>
    simp only [Task.resolveSendTask, StateT.run_bind, Option.bind_eq_bind,
      Option.bind_eq_some_iff] at h
    obtain ⟨_, -, _, -, _, -, h⟩ := h
    cases h
    exact ⟨hnil, hnil⟩
  split at h
  next =>
    simp only [Task.resolveRecvTask, StateT.run_bind, Option.bind_eq_bind,
      Option.bind_eq_some_iff] at h
    obtain ⟨_, -, _, -, h⟩ := h
    cases h
    exact ⟨hnil, hnil⟩
  split at h
  next =>
    simp only [Task.resolveComputeTask, StateT.run_bind, Option.bind_eq_bind,
      Option.bind_eq_some_iff] at h
    obtain ⟨_, -, _, -, h⟩ := h
    cases h
    exact ⟨hnil, hnil⟩
  split at h
  next =>
    simp only [Task.resolvePersistTask, StateT.run_bind, Option.bind_eq_bind,
      Option.bind_eq_some_iff] at h
    obtain ⟨_, -, _, -, ⟨name, _⟩, hname, h⟩ := h
    cases h
    exact ⟨hnil, length_readString_lt hname⟩
  next =>
    cases h
    exact ⟨hnil, hnil⟩

end

/-! ## Round trips -/

/-- The command is built, and the constructor reads exactly its bytes. -/
def RoundTrip {α : Type} (built : Option (GrowBuffer Byte)) (parse : Decoder Byte α) (a : α) :
    Prop := ∃ b, built = some b ∧ Consumes parse b.written a

theorem roundTrip_iff_of_ite {α : Type} {built : Option (GrowBuffer Byte)} {b : GrowBuffer Byte}
    {parse : Decoder Byte α} {a : α} {fits : Prop} [Decidable fits]
    (hbuilt : built = if fits then some b else none) :
    RoundTrip built parse a ↔ fits ∧ Consumes parse b.written a := by
  subst hbuilt
  unfold RoundTrip
  split
  next h => simp [h]
  next h => simp [h]

theorem length_flatten_of_four {ws : List (List Byte)} (h : ∀ w ∈ ws, w.length = 4) :
    ws.flatten.length = 4 * ws.length := by
  induction ws with
  | nil => rfl
  | cons w ws ih =>
    rw [List.flatten_cons, List.length_append, h w List.mem_cons_self,
      ih fun w' hw' => h w' (List.mem_cons_of_mem _ hw'), List.length_cons]
    omega

/-- The command of a task on which nothing was called before. -/
def Task.built (t : Task) : Option (GrowBuffer Byte) :=
  GrowBuffer.run INT_MAX TASK_COMMAND_LEN Task.empty t.buildTaskCommand

theorem Task.built_eq (t : Task) : t.built =
    GrowBuffer.run INT_MAX TASK_COMMAND_LEN (GrowBuffer.full 10 []) (t.writes.map .write) := by
  rw [GrowBuffer.full_nil]
  rfl

/-- The command of a compute item on which nothing was called before. -/
def ComputeItem.built (ci : ComputeItem) : Option (GrowBuffer Byte) :=
  GrowBuffer.run INT_MAX COMPUTE_COMMAND_LEN ComputeItem.empty ci.buildCommand

theorem ComputeItem.built_eq (ci : ComputeItem) : ci.built =
    GrowBuffer.run INT_MAX COMPUTE_COMMAND_LEN (GrowBuffer.full 7 []) (ci.writes.map .write) := by
  rw [GrowBuffer.full_nil]
  rfl

/-- The request of an `AGCommand` that is new. -/
def AGCommand.built (batchid nstripes : Word) (stripelist numlist : List Word) :
    Option (GrowBuffer Byte) :=
  GrowBuffer.run INT_MAX AGENT_COMMAND_LEN AGCommand.new
    ((AGCommand.buildAGCommand batchid nstripes stripelist numlist).map .write)

theorem AGCommand.new_eq : AGCommand.new = GrowBuffer.full 7 [] := by
  rw [GrowBuffer.full_nil]
  rfl

/-- A command of integers only has to end within `2 ^ 30`, the largest length that is an
`int` and comes from the first one by doubling. -/
theorem roundTrip_ints {α : Type} {init m : Nat} (hm : 2 ≤ m) (hm' : m ≤ 30)
    {ws : List (List Byte)} (h : ∀ w ∈ ws, w.length = 4) {parse : Decoder Byte α} {a : α}
    (hparse : 4 * ws.length ≤ 2 ^ 30 → Consumes parse ws.flatten a) :
    RoundTrip (GrowBuffer.run INT_MAX init (GrowBuffer.full m []) (ws.map .write)) parse a ↔
      4 * ws.length ≤ 2 ^ 30 := by
  have hsmall : ∀ w ∈ ws, w.length ≤ 2 ^ m := fun w hw =>
    (h w hw).le.trans (Nat.pow_le_pow_right Nat.two_pos hm)
  rw [roundTrip_iff_of_ite (GrowBuffer.run_small (p := 30) (by decide) (by decide) hm' ws hsmall []
    (Nat.zero_le _)), List.nil_append, length_flatten_of_four h]
  exact and_iff_left_of_imp hparse

/-- A command with one name. The name is held by one doubling of what held the integers
before it. -/
theorem roundTrip_name {α : Type} {init m : Nat} (hm : 2 ≤ m) (hm' : m ≤ 30)
    {ws ws' : List (List Byte)} (h : ∀ w ∈ ws ++ ws', w.length = 4) {s : List Byte}
    (hs : s.length < 2 ^ 31) {parse : Decoder Byte α} {a : α}
    (hparse : 4 * ws.length + 4 + s.length + 4 * ws'.length ≤ 2 ^ 30 →
      Consumes parse (ws ++ writeString s :: ws').flatten a) :
    RoundTrip (GrowBuffer.run INT_MAX init (GrowBuffer.full m [])
        ((ws ++ writeString s :: ws').map .write)) parse a ↔
      4 * ws.length + 4 + s.length ≤ 2 * GrowBuffer.room m (4 * ws.length) ∧
        4 * ws.length + 4 + s.length + 4 * ws'.length ≤ 2 ^ 30 := by
  have hsmall : ∀ w ∈ ws ++ ws', w.length ≤ 2 ^ m := fun w hw =>
    (h w hw).le.trans (Nat.pow_le_pow_right Nat.two_pos hm)
  have hws := length_flatten_of_four fun w hw => h w (List.mem_append_left _ hw)
  have hws' := length_flatten_of_four fun w hw => h w (List.mem_append_right _ hw)
  have hone : (ws.flatten ++ writeString s).length = 4 * ws.length + 4 + s.length := by
    rw [List.length_append, hws, length_writeString hs]
    omega
  have hall : (ws ++ writeString s :: ws').flatten.length =
      4 * ws.length + 4 + s.length + 4 * ws'.length := by
    rw [List.flatten_append, List.flatten_cons, ← List.append_assoc, List.length_append, hone, hws']
  rw [roundTrip_iff_of_ite (GrowBuffer.run_one (p := 30) (by decide) (by decide) hm' ws ws' hsmall _),
    hone, hall, hws]
  exact and_iff_left_of_imp fun hfit => hparse hfit.2

theorem length_flatMap_two {α β : Type} {f : α → List β} (h : ∀ x, (f x).length = 2)
    (xs : List α) : (xs.flatMap f).length = 2 * xs.length := by
  induction xs with
  | nil => rfl
  | cons x xs ih =>
    rw [List.flatMap_cons, List.length_append, h, ih, List.length_cons]
    omega

theorem length_flatMap_writeSendTos (sendToList : List (List Word)) :
    (sendToList.flatMap Task.writeSendTos).length =
      sendToList.length + sendToList.flatten.length := by
  induction sendToList with
  | nil => rfl
  | cons sendtos sendToList ih =>
    rw [List.flatMap_cons, List.length_append, ih, List.length_cons, List.flatten_cons,
      List.length_append, Task.writeSendTos, List.length_cons, List.length_map]
    omega

section
variable (blpop : Word → Option (List Byte))

/-- **A read task**: the name follows one integer. -/
theorem roundTrip_read {blkName : List Byte} {dagidxList : List Word}
    {usageList : List (Bool × Bool)} (hnul : 0 ∉ blkName)
    (hzero : blkName = Task.zero → usageList = [])
    (husage : blkName ≠ Task.zero → usageList.length = dagidxList.length) :
    RoundTrip (Task.buildReadTask 0 blkName dagidxList usageList).built (Task.parse blpop)
        (Task.buildReadTask 0 blkName dagidxList usageList) ↔
      8 + blkName.length ≤ 2 * TASK_COMMAND_LEN ∧
        12 + blkName.length + 4 * dagidxList.length + 8 * usageList.length ≤ 2 ^ 30 := by
  by_cases hname : blkName.length < 2 ^ 31
  · let ws' := writeSize dagidxList :: (dagidxList.map writeInt ++
      if blkName ≠ Task.zero then usageList.flatMap Task.writeUsage else [])
    have hwrites : (Task.buildReadTask 0 blkName dagidxList usageList).writes =
        [writeInt 0] ++ writeString blkName :: ws' := writes_read blkName dagidxList usageList
    have hfour : ∀ w ∈ [writeInt 0] ++ ws', w.length = 4 := by
      intro w hw
      rcases List.mem_append.1 hw with hw | hw
      · cases List.mem_singleton.1 hw
        rfl
      rcases List.mem_cons.1 hw with rfl | hw
      · rfl
      rcases List.mem_append.1 hw with hw | hw
      · exact length_of_mem_map_writeInt hw
      split at hw
      next => exact Task.length_of_mem_writeUsage hw
      next => exact absurd hw List.not_mem_nil
    have hlen : ws'.length = 1 + dagidxList.length + 2 * usageList.length := by
      rw [List.length_cons, List.length_append, List.length_map]
      split
      next =>
        rw [length_flatMap_two fun _ => rfl]
        omega
      next h =>
        rw [hzero (not_not.1 h)]
        simp only [List.length_nil]
        omega
    have hroom : GrowBuffer.room 10 (4 * [writeInt 0].length) = TASK_COMMAND_LEN :=
      GrowBuffer.room_of_le_pow (by decide)
    rw [Task.built_eq, hwrites, roundTrip_name (by decide) (by decide) hfour hname ?_, hroom, hlen]
    · show 4 + 4 + _ ≤ _ ∧ 4 + 4 + _ + _ ≤ _ ↔ _
      omega
    · intro hfit
      rw [← hwrites]
      exact consumes_read hname hnul hzero husage (by omega)
  · refine iff_of_false ?_ (by omega)
    rintro ⟨b, -, hparse⟩
    exact hname (names_lt (hparse [])).1

/-- **A send task** -/
theorem roundTrip_send {dagidxList : List Word} {sendToList : List (List Word)}
    (hsend : sendToList.length = dagidxList.length) :
    RoundTrip (Task.buildSendTask 1 dagidxList sendToList).built (Task.parse blpop)
        (Task.buildSendTask 1 dagidxList sendToList) ↔
      8 + 8 * dagidxList.length + 4 * sendToList.flatten.length ≤ 2 ^ 30 := by
  have hfour : ∀ w ∈ (Task.buildSendTask 1 dagidxList sendToList).writes, w.length = 4 := by
    intro w hw
    rw [writes_send hsend] at hw
    rcases List.mem_append.1 hw with hw | hw
    · rcases List.mem_append.1 hw with hw | hw
      · simp only [List.mem_cons, List.not_mem_nil, or_false] at hw
        rcases hw with rfl | rfl <;> rfl
      · exact length_of_mem_map_writeInt hw
    · exact Task.length_of_mem_writeSendTos hw
  have hlen : (Task.buildSendTask 1 dagidxList sendToList).writes.length =
      2 + 2 * dagidxList.length + sendToList.flatten.length := by
    rw [writes_send hsend, List.length_append, List.length_append, length_flatMap_writeSendTos,
      List.length_map, hsend]
    show 2 + _ + _ = _
    omega
  rw [Task.built_eq, roundTrip_ints (by decide) (by decide) hfour ?_, hlen]
  · omega
  · intro hfit
    refine consumes_send hsend (by omega) fun sendtos hmem => ?_
    have hle : sendtos.length ≤ sendToList.flatten.length :=
      (List.sublist_flatten_of_mem hmem).length_le
    omega

/-- **A receive task** -/
theorem roundTrip_recv (dagidxList : List Word) :
    RoundTrip (Task.buildRecvTask 2 dagidxList).built (Task.parse blpop)
        (Task.buildRecvTask 2 dagidxList) ↔ 8 + 4 * dagidxList.length ≤ 2 ^ 30 := by
  have hfour : ∀ w ∈ (Task.buildRecvTask 2 dagidxList).writes, w.length = 4 := by
    intro w hw
    rw [writes_recv] at hw
    rcases List.mem_append.1 hw with hw | hw
    · simp only [List.mem_cons, List.not_mem_nil, or_false] at hw
      rcases hw with rfl | rfl <;> rfl
    · exact length_of_mem_map_writeInt hw
  have hlen : (Task.buildRecvTask 2 dagidxList).writes.length = 2 + dagidxList.length := by
    rw [writes_recv, List.length_append, List.length_map]
    rfl
  rw [Task.built_eq, roundTrip_ints (by decide) (by decide) hfour ?_, hlen]
  · omega
  · intro hfit
    exact consumes_recv (by omega)

/-- **A persist task**: the name comes last. -/
theorem roundTrip_persist {collectList : List Word} {repairedBlock : List Byte}
    (hnul : 0 ∉ repairedBlock) :
    RoundTrip (Task.buildPersistTask 4 collectList repairedBlock).built (Task.parse blpop)
        (Task.buildPersistTask 4 collectList repairedBlock) ↔
      12 + 4 * collectList.length + repairedBlock.length ≤
          2 * GrowBuffer.room 10 (8 + 4 * collectList.length) ∧
        12 + 4 * collectList.length + repairedBlock.length ≤ 2 ^ 30 := by
  by_cases hname : repairedBlock.length < 2 ^ 31
  · let ws := [writeInt 4, writeSize collectList] ++ collectList.map writeInt
    have hwrites : (Task.buildPersistTask 4 collectList repairedBlock).writes =
        ws ++ writeString repairedBlock :: [] := writes_persist collectList repairedBlock
    have hfour : ∀ w ∈ ws ++ [], w.length = 4 := by
      intro w hw
      rw [List.append_nil] at hw
      rcases List.mem_append.1 hw with hw | hw
      · simp only [List.mem_cons, List.not_mem_nil, or_false] at hw
        rcases hw with rfl | rfl <;> rfl
      · exact length_of_mem_map_writeInt hw
    have hlen : 4 * ws.length = 8 + 4 * collectList.length := by
      rw [List.length_append, List.length_map]
      show 4 * (2 + _) = _
      omega
    rw [Task.built_eq, hwrites, roundTrip_name (by decide) (by decide) hfour hname ?_, hlen,
      List.length_nil]
    · omega
    · intro hfit
      rw [← hwrites]
      exact consumes_persist hname hnul (by omega)
  · refine iff_of_false ?_ (by omega)
    rintro ⟨b, -, hparse⟩
    exact hname (names_lt (hparse [])).2

end

/-- **A compute item** -/
theorem roundTrip_computeItem {ci : ComputeItem} (hcoefs : ci.coefs.length = ci.srclist.length) :
    RoundTrip ci.built ComputeItem.parse ci ↔ 16 + 8 * ci.srclist.length ≤ 2 ^ 30 := by
  have hlen : ci.writes.length = 4 + 2 * ci.srclist.length := by
    rw [ComputeItem.writes, List.length_append, List.length_append, List.length_append,
      List.length_map, List.length_map, hcoefs]
    show 2 + _ + _ + 2 = _
    omega
  rw [ComputeItem.built_eq, roundTrip_ints (by decide) (by decide)
    (fun w hw => ComputeItem.length_of_mem_writes hw) ?_, hlen]
  · omega
  · intro hfit
    exact consumes_computeItem hcoefs (by omega)

/-- **A request** -/
theorem roundTrip_agCommand {batchid nstripes : Word} {stripelist numlist : List Word}
    (hstripes : (stripelist.length : Int) = nstripes.toInt)
    (hnums : numlist.length = stripelist.length) :
    RoundTrip (AGCommand.built batchid nstripes stripelist numlist) AGCommand.parse
        ⟨batchid, nstripes, stripelist, numlist⟩ ↔ 8 + 8 * stripelist.length ≤ 2 ^ 30 := by
  have hlen : (AGCommand.buildAGCommand batchid nstripes stripelist numlist).length =
      2 + 2 * stripelist.length := by
    rw [buildAGCommand_eq hstripes hnums, List.length_append, length_flatMap_two fun _ => rfl,
      List.length_zip, hnums, Nat.min_self]
    rfl
  rw [AGCommand.built, AGCommand.new_eq, roundTrip_ints (by decide) (by decide)
    (fun w hw => AGCommand.length_of_mem_build hw) ?_, hlen]
  · omega
  · intro hfit
    exact consumes_agCommand hstripes hnums

/-- **The commands**: what the planner can build is parsed to what it was, and nothing else is
read, exactly as long as the buffer holds the command. -/
theorem commands_roundTrip (blpop : Word → Option (List Byte)) :
    (∀ (blkName : List Byte) (dagidxList : List Word) (usageList : List (Bool × Bool)),
      0 ∉ blkName → (blkName = Task.zero → usageList = []) →
      (blkName ≠ Task.zero → usageList.length = dagidxList.length) →
      (RoundTrip (Task.buildReadTask 0 blkName dagidxList usageList).built (Task.parse blpop)
          (Task.buildReadTask 0 blkName dagidxList usageList) ↔
        8 + blkName.length ≤ 2 * TASK_COMMAND_LEN ∧
          12 + blkName.length + 4 * dagidxList.length + 8 * usageList.length ≤ 2 ^ 30)) ∧
    (∀ (dagidxList : List Word) (sendToList : List (List Word)),
      sendToList.length = dagidxList.length →
      (RoundTrip (Task.buildSendTask 1 dagidxList sendToList).built (Task.parse blpop)
          (Task.buildSendTask 1 dagidxList sendToList) ↔
        8 + 8 * dagidxList.length + 4 * sendToList.flatten.length ≤ 2 ^ 30)) ∧
    (∀ dagidxList : List Word,
      RoundTrip (Task.buildRecvTask 2 dagidxList).built (Task.parse blpop)
          (Task.buildRecvTask 2 dagidxList) ↔ 8 + 4 * dagidxList.length ≤ 2 ^ 30) ∧
    (∀ (collectList : List Word) (repairedBlock : List Byte), 0 ∉ repairedBlock →
      (RoundTrip (Task.buildPersistTask 4 collectList repairedBlock).built (Task.parse blpop)
          (Task.buildPersistTask 4 collectList repairedBlock) ↔
        12 + 4 * collectList.length + repairedBlock.length ≤
            2 * GrowBuffer.room 10 (8 + 4 * collectList.length) ∧
          12 + 4 * collectList.length + repairedBlock.length ≤ 2 ^ 30)) ∧
    (∀ ci : ComputeItem, ci.coefs.length = ci.srclist.length →
      (RoundTrip ci.built ComputeItem.parse ci ↔ 16 + 8 * ci.srclist.length ≤ 2 ^ 30)) ∧
    ∀ (batchid nstripes : Word) (stripelist numlist : List Word),
      (stripelist.length : Int) = nstripes.toInt → numlist.length = stripelist.length →
      (RoundTrip (AGCommand.built batchid nstripes stripelist numlist) AGCommand.parse
          ⟨batchid, nstripes, stripelist, numlist⟩ ↔ 8 + 8 * stripelist.length ≤ 2 ^ 30) :=
  ⟨fun _ _ _ hnul hzero husage => roundTrip_read blpop hnul hzero husage,
    fun _ _ hsend => roundTrip_send blpop hsend, fun dagidxList => roundTrip_recv blpop dagidxList,
    fun _ _ hnul => roundTrip_persist blpop hnul, fun _ hcoefs => roundTrip_computeItem hcoefs,
    fun _ _ _ _ hstripes hnums => roundTrip_agCommand hstripes hnums⟩

theorem commands_roundTrip_read :
    RoundTrip (Task.buildReadTask 0 [0x62, 0x31] [4, 5] [(true, false), (true, true)]).built
      (Task.parse fun _ => none)
      (Task.buildReadTask 0 [0x62, 0x31] [4, 5] [(true, false), (true, true)]) :=
  ((commands_roundTrip fun _ => none).1 _ _ _ (by decide) (by decide) fun _ => rfl).2 (by decide)

/-- A name of 2041 characters is not parsed again: the command cannot be built. -/
theorem longName_not_parsed :
    ¬ RoundTrip (Task.buildReadTask 0 (List.replicate 2041 0x41) [0] [(true, false)]).built
      (Task.parse fun _ => none)
      (Task.buildReadTask 0 (List.replicate 2041 0x41) [0] [(true, false)]) := by
  have hlen : (List.replicate 2041 (0x41 : Byte)).length = 2041 := List.length_replicate
  have hnul : (0 : Byte) ∉ List.replicate 2041 (0x41 : Byte) := by
    rw [List.mem_replicate]
    decide
  rw [roundTrip_read _ hnul (fun h => absurd (congrArg List.length h) (by rw [hlen]; decide))
    fun _ => rfl, hlen]
  decide

end StripeRepair.Command

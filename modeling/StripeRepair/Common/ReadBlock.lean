import StripeRepair.Common.Worker

/-!
# Reading a block, byte by byte

`readRealBlock` reads the selected sub-packets of each packet of a block with `pread`, which
may return fewer bytes than it is asked for. The loop goes on in the packet, but not in the
block: each further call reads from the start of the sub-packet again.

* `readRealBlock_iff`: when the packets are those of the block.
* `keys_readRealBlock`: the queues are those of the rounds of the thread.
-/

namespace StripeRepair

namespace BlockRead

section
variable {α : Type} (block : Nat → α)

/-- The bytes of the block from an offset on. -/
def bytes (start len : Nat) : List α := (List.range len).map fun t => block (start + t)

/-- A sub-packet to read. -/
structure Subpacket where
  start : Nat
  dagidx : Nat
  /-- `same` and `diff` -/
  usage : Bool × Bool

/-- The sub-packets in the order of the loops: packet `i`, offset `j` of the pattern. Of the
packets with one offset the first is read. -/
def subpackets (blkbytes pktBytes ecw : Nat) (dagidxList : List Nat)
    (usageList : List (Bool × Bool)) : List Subpacket :=
  let pktbytes := pktBytes * ecw
  let subpktbytes := pktbytes / ecw
  (List.range (blkbytes / pktbytes)).flatMap fun i => (List.range ecw).filterMap fun j =>
    ((dagidxList.zip usageList).find? fun e => e.1 % ecw = j).map fun e =>
      ⟨i * pktbytes + j * subpktbytes, e.1, e.2⟩

/-- What is pushed, with the key of the queue. -/
def pushPacket (p : Subpacket) (curpkt : List α) : List (Int × List α) :=
  (if p.usage.1 then [(localKey p.dagidx, curpkt)] else []) ++
    if p.usage.2 then [(cacheKey p.dagidx, curpkt)] else []

/-- `pread call len` is what call number `call` returns when it is asked for `len` bytes. -/
abbrev Pread := Nat → Nat → Nat

/-- `while (readLen < subpktbytes)`; `data` is what the packet holds so far. -/
def readLoop (pread : Pread) (start subpktbytes : Nat) :
    Nat → Nat → List α → Option (List α × Nat)
  | 0, call, data => if data.length < subpktbytes then none else some (data, call)
  | fuel + 1, call, data =>
    if data.length < subpktbytes then
      let readl := pread call (subpktbytes - data.length)
      readLoop pread start subpktbytes fuel (call + 1) (data ++ bytes block start readl)
    else some (data, call)

def readPackets (pread : Pread) (subpktbytes : Nat) :
    Nat → List Subpacket → Option (List (Int × List α))
  | _, [] => some []
  | call, p :: ps => do
    let (curpkt, call) ← readLoop block pread p.start subpktbytes subpktbytes call []
    let rest ← readPackets pread subpktbytes call ps
    return pushPacket p curpkt ++ rest

def readRealBlock (pread : Pread) (blkbytes pktBytes ecw : Nat) (dagidxList : List Nat)
    (usageList : List (Bool × Bool)) : Option (List (Int × List α)) :=
  readPackets block pread (pktBytes * ecw / ecw) 0
    (subpackets blkbytes pktBytes ecw dagidxList usageList)

end

/-! ## The calls of `pread` -/

section
variable (pread : Pread) (len : Nat)

/-- The calls for one sub-packet: how many bytes there are already, and how many come. -/
def calls : Nat → Nat → Nat → List (Nat × Nat)
  | 0, _, _ => []
  | fuel + 1, call, readLen =>
    if readLen < len then
      (readLen, pread call (len - readLen)) ::
        calls fuel (call + 1) (readLen + pread call (len - readLen))
    else []

/-- The calls for all sub-packets. -/
def allCalls : Nat → List Subpacket → List (Subpacket × Nat × Nat)
  | _, [] => []
  | call, p :: ps => (calls pread len len call 0).map (fun e => (p, e)) ++
      allCalls (call + (calls pread len len call 0).length) ps

variable {pread} (hpread : ∀ call len, 0 < len → 0 < pread call len ∧ pread call len ≤ len)
  {α : Type} (block : Nat → α)

@[simp] theorem length_bytes (start n : Nat) : (bytes block start n).length = n := by
  rw [bytes, List.length_map, List.length_range]

theorem bytes_append (start m n : Nat) :
    bytes block start m ++ bytes block (start + m) n = bytes block start (m + n) := by
  unfold bytes
  rw [List.range_add, List.map_append, List.map_map]
  refine congrArg (_ ++ ·) (List.map_congr_left fun t _ => ?_)
  rw [Function.comp_apply, Nat.add_assoc]

theorem bytes_eq_iff (start start' n : Nat) :
    bytes block start n = bytes block start' n ↔ ∀ t < n, block (start + t) = block (start' + t) := by
  unfold bytes
  rw [List.map_inj_left]
  exact forall_congr' fun t => by rw [List.mem_range]

include hpread

/-- **The loop ends**, and the packet holds what the calls read, each from the start. -/
theorem readLoop_eq (start : Nat) {fuel : Nat} (call : Nat) (data : List α)
    (hlen : data.length ≤ len) (hfuel : len ≤ data.length + fuel) :
    readLoop block pread start len fuel call data =
      some (data ++ (calls pread len fuel call data.length).flatMap fun e => bytes block start e.2,
        call + (calls pread len fuel call data.length).length) := by
  induction fuel generalizing call data with
  | zero =>
    rw [readLoop, if_neg (by omega), calls]
    simp
  | succ fuel ih =>
    rw [readLoop, calls]
    by_cases h : data.length < len
    · obtain ⟨hpos, hle⟩ := hpread call (len - data.length) (by omega)
      have hnext : (data ++ bytes block start (pread call (len - data.length))).length =
          data.length + pread call (len - data.length) := by
        rw [List.length_append, length_bytes]
      rw [if_pos h, if_pos h]
      show readLoop block pread start len fuel (call + 1) _ = _
      rw [ih _ _ (by omega) (by omega), hnext, List.flatMap_cons, List.append_assoc,
        List.length_cons, Nat.add_assoc, Nat.add_comm 1]
    · rw [if_neg h, if_neg h]
      simp

/-- Read each at its place, the calls would give the packet. -/
theorem bytes_calls (start : Nat) {fuel : Nat} (call readLen : Nat) (hlen : readLen ≤ len)
    (hfuel : len ≤ readLen + fuel) :
    ((calls pread len fuel call readLen).flatMap fun e => bytes block (start + e.1) e.2) =
      bytes block (start + readLen) (len - readLen) := by
  induction fuel generalizing call readLen with
  | zero =>
    obtain rfl : readLen = len := by omega
    rw [calls, Nat.sub_self]
    rfl
  | succ fuel ih =>
    rw [calls]
    by_cases h : readLen < len
    · obtain ⟨hpos, hle⟩ := hpread call (len - readLen) (by omega)
      rw [if_pos h, List.flatMap_cons, ih _ _ (by omega) (by omega), ← Nat.add_assoc,
        bytes_append]
      congr 1
      omega
    · obtain rfl : readLen = len := by omega
      rw [if_neg h, Nat.sub_self]
      rfl

omit hpread in
/-- Two lists of pieces of the same lengths are equal when the pieces are. -/
theorem flatMap_eq_iff {ι β : Type} {f g : ι → List β} (hlen : ∀ e, (f e).length = (g e).length)
    (l : List ι) : l.flatMap f = l.flatMap g ↔ ∀ e ∈ l, f e = g e := by
  induction l with
  | nil => simp
  | cons e l ih =>
    rw [List.flatMap_cons, List.flatMap_cons, List.forall_mem_cons, ← ih]
    constructor
    · exact fun h => List.append_inj h (hlen e)
    · rintro ⟨h1, h2⟩
      rw [h1, h2]

/-- The packet is right when each call finds the bytes of its place at the start too. -/
theorem packet_iff (start call : Nat) :
    ((calls pread len len call 0).flatMap fun e => bytes block start e.2) = bytes block start len ↔
      ∀ e ∈ calls pread len len call 0, ∀ t < e.2, block (start + t) = block (start + e.1 + t) := by
  have hfull := bytes_calls len hpread block start call 0 (Nat.zero_le _)
    (show len ≤ 0 + len by omega)
  rw [Nat.add_zero, Nat.sub_zero] at hfull
  rw [← hfull, flatMap_eq_iff fun e => by rw [length_bytes, length_bytes]]
  exact forall_congr' fun e => imp_congr_right fun _ => bytes_eq_iff block _ _ _

/-- The packet is used on the node or sent. -/
def Subpacket.Used (p : Subpacket) : Prop := p.usage.1 = true ∨ p.usage.2 = true

/-- The queues a packet is pushed to. -/
def Subpacket.keys (p : Subpacket) : List Int :=
  (if p.usage.1 then [localKey p.dagidx] else []) ++ if p.usage.2 then [cacheKey p.dagidx] else []

omit hpread in
theorem keys_pushPacket (p : Subpacket) (x : List α) : (pushPacket p x).map Prod.fst = p.keys := by
  unfold pushPacket Subpacket.keys
  cases p.usage.1 <;> cases p.usage.2 <;> rfl

omit hpread in
theorem pushPacket_eq_iff (p : Subpacket) (x y : List α) :
    pushPacket p x = pushPacket p y ↔ (p.Used → x = y) := by
  unfold pushPacket Subpacket.Used
  cases p.usage.1 <;> cases p.usage.2 <;> simp

theorem readPackets_iff (call : Nat) (ps : List Subpacket) :
    ∃ pushed, readPackets block pread len call ps = some pushed ∧
      pushed.map Prod.fst = ps.flatMap Subpacket.keys ∧
      (pushed = (ps.flatMap fun p => pushPacket p (bytes block p.start len)) ↔
        ∀ e ∈ allCalls pread len call ps, e.1.Used → ∀ t < e.2.2,
          block (e.1.start + t) = block (e.1.start + e.2.1 + t)) := by
  induction ps generalizing call with
  | nil => exact ⟨[], rfl, rfl, by simp [allCalls]⟩
  | cons p ps ih =>
    have hloop := readLoop_eq len hpread block p.start call [] (Nat.zero_le _)
      (show len ≤ ([] : List α).length + len by simp)
    rw [List.length_nil, List.nil_append] at hloop
    obtain ⟨rest, hrest, hkeys, hiff⟩ := ih (call + (calls pread len len call 0).length)
    have hrun : readPackets block pread len call (p :: ps) = some (pushPacket p
        ((calls pread len len call 0).flatMap fun e => bytes block p.start e.2) ++ rest) := by
      rw [readPackets, hloop]
      show (readPackets block pread len _ ps >>= _) = _
      rw [hrest]
      rfl
    refine ⟨_, hrun, by rw [List.map_append, keys_pushPacket, hkeys, List.flatMap_cons], ?_⟩
    have hlength : ∀ x y : List α, (pushPacket p x).length = (pushPacket p y).length := by
      intro x y
      rw [← List.length_map Prod.fst, keys_pushPacket, ← keys_pushPacket p y, List.length_map]
    have hsplit : ∀ x : List α, pushPacket p x ++ rest =
        pushPacket p (bytes block p.start len) ++
          ps.flatMap (fun p => pushPacket p (bytes block p.start len)) ↔
        pushPacket p x = pushPacket p (bytes block p.start len) ∧
          rest = ps.flatMap fun p => pushPacket p (bytes block p.start len) := by
      intro x
      constructor
      · exact fun h => List.append_inj h (hlength _ _)
      · rintro ⟨h1, h2⟩
        rw [h1, h2]
    rw [List.flatMap_cons, hsplit, hiff, pushPacket_eq_iff, packet_iff len hpread, allCalls,
      List.forall_mem_append, List.forall_mem_map]
    exact and_congr_left' ⟨fun h e he hu => h hu e he, fun h hu e he => h e he hu⟩

end

/-! ## The block -/

section
variable {α : Type} (block : Nat → α)

/-- **What should be pushed**: sub-packet `j` of packet `i` is at
`[i * pktBytes * ecw + j * pktBytes, + pktBytes)`. -/
def wholePackets (blkbytes pktBytes ecw : Nat) (dagidxList : List Nat)
    (usageList : List (Bool × Bool)) : List (Int × List α) :=
  (List.range (blkbytes / (pktBytes * ecw))).flatMap fun i => (List.range ecw).flatMap fun j =>
    match (dagidxList.zip usageList).find? fun e => e.1 % ecw = j with
    | none => []
    | some e =>
      let curpkt := bytes block (i * pktBytes * ecw + j * pktBytes) pktBytes
      (if e.2.1 then [(localKey e.1, curpkt)] else []) ++
        if e.2.2 then [(cacheKey e.1, curpkt)] else []

theorem wholePackets_eq {pktBytes ecw : Nat} (blkbytes : Nat) (dagidxList : List Nat)
    (usageList : List (Bool × Bool)) :
    wholePackets block blkbytes pktBytes ecw dagidxList usageList =
      (subpackets blkbytes pktBytes ecw dagidxList usageList).flatMap fun p =>
        pushPacket p (bytes block p.start (pktBytes * ecw / ecw)) := by
  unfold wholePackets subpackets
  dsimp only
  rw [List.flatMap_assoc]
  refine List.flatMap_congr fun i _ => ?_
  rw [List.filterMap_eq_flatMap_toList, List.flatMap_assoc]
  refine List.flatMap_congr fun j hj => ?_
  have hecw : 0 < ecw := Nat.zero_lt_of_lt (List.mem_range.1 hj)
  rw [Nat.mul_div_cancel _ hecw, ← Nat.mul_assoc]
  cases (dagidxList.zip usageList).find? fun e => e.1 % ecw = j with
  | none => rfl
  | some e => exact (List.flatMap_singleton _ _).symm

/-- **When the packets are right**: each call that goes on with a used sub-packet finds at the
start of it the bytes of the place it goes on from. -/
theorem readRealBlock_iff {pread : Pread}
    (hpread : ∀ call len, 0 < len → 0 < pread call len ∧ pread call len ≤ len)
    (blkbytes pktBytes ecw : Nat) (dagidxList : List Nat) (usageList : List (Bool × Bool)) :
    readRealBlock block pread blkbytes pktBytes ecw dagidxList usageList =
        some (wholePackets block blkbytes pktBytes ecw dagidxList usageList) ↔
      ∀ e ∈ allCalls pread (pktBytes * ecw / ecw) 0
        (subpackets blkbytes pktBytes ecw dagidxList usageList), e.1.Used → ∀ t < e.2.2,
        block (e.1.start + t) = block (e.1.start + e.2.1 + t) := by
  obtain ⟨pushed, hrun, -, hiff⟩ := readPackets_iff (pktBytes * ecw / ecw) hpread block 0
    (subpackets blkbytes pktBytes ecw dagidxList usageList)
  rw [readRealBlock, hrun, wholePackets_eq, Option.some.injEq, hiff]

/-- Two sub-packets of two bytes, each read by one call. -/
theorem readRealBlock_iff_full :
    readRealBlock (fun t => t) (fun _ len => len) 4 2 2 [4, 5] [(true, true), (false, true)] =
      some (wholePackets (fun t => t) 4 2 2 [4, 5] [(true, true), (false, true)]) :=
  (readRealBlock_iff (fun t => t) (fun _ _ h => ⟨h, le_rfl⟩) 4 2 2 [4, 5]
    [(true, true), (false, true)]).2 fun e he _ t ht => by
      have hstart : ∀ e ∈ allCalls (fun _ len => len) 2 0
        (subpackets 4 2 2 [4, 5] [(true, true), (false, true)]), e.2.1 = 0 := by decide
      rw [hstart e he, Nat.add_zero]

/-- Read by two calls, the first byte comes twice. -/
theorem shortRead_repeats : readRealBlock (fun t => t) (fun _ _ => 1) 2 2 1 [0] [(true, false)] ≠
    some (wholePackets (fun t => t) 2 2 1 [0] [(true, false)]) := by decide

/-- **The queues** are those of the rounds of the thread, whatever the calls return. -/
theorem keys_readRealBlock {pread : Pread}
    (hpread : ∀ call len, 0 < len → 0 < pread call len ∧ pread call len ≤ len)
    (blkbytes pktBytes ecw : Nat) (blkName : Option String) (dagidxList : List Nat)
    (usageList : List (Bool × Bool)) :
    (readRealBlock block pread blkbytes pktBytes ecw dagidxList usageList).map (·.map Prod.fst) =
      some ((List.range (blkbytes / (pktBytes * ecw))).flatMap fun _ =>
        (Worker.readRealBlock ecw blkName dagidxList usageList).filterMap Op.pushKey) := by
  obtain ⟨pushed, hrun, hkeys, -⟩ := readPackets_iff (pktBytes * ecw / ecw) hpread block 0
    (subpackets blkbytes pktBytes ecw dagidxList usageList)
  rw [readRealBlock, hrun, Option.map_some, hkeys, subpackets, List.flatMap_assoc]
  refine congrArg some (List.flatMap_congr fun i _ => ?_)
  rw [List.filterMap_eq_flatMap_toList, List.flatMap_assoc, Worker.readRealBlock,
    List.filterMap_flatMap]
  refine List.flatMap_congr fun j _ => ?_
  cases (dagidxList.zip usageList).find? fun e => e.1 % ecw = j with
  | none => rfl
  | some e =>
    show List.flatMap _ [_] = _
    rw [List.flatMap_singleton, List.filterMap_cons, List.filterMap_append,
      Worker.pushKey_pushLocal, Worker.pushKey_pushCache]
    rfl

end

end BlockRead

end StripeRepair

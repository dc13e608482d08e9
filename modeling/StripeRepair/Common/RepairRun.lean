import StripeRepair.Common.Network

/-!
# A finished repair has written the right blocks

* `repair_refines`: when the vertices of the failed blocks are the last level of the DAG and
  all tasks have finished, each repaired block holds the value of the DAG on the source
  blocks, packet by packet, whatever the schedule was.
-/

namespace StripeRepair

namespace Stripe

/-! ## The packets of a round -/

section
variable (s : Stripe) (ecn ecw : Nat) (placement : Nat → Int)
  (disk : Int → Option String → Nat → GF256) {pktbytes : Nat}

/-- Packet `r` of the source blocks; the packets of virtual blocks are zero. -/
def sourcePacket (r v : Nat) : Packet pktbytes :=
  if v / ecw < ecn then
    readPacket ecw (disk (placement (v / ecw)) (s.blkAt (v / ecw : Nat))) r (v % ecw)
  else 0

/-- The value of the DAG in packet round `r`. -/
def packetOf (r : Nat) : Nat → Packet pktbytes :=
  s.ecdag.eval (s.sourcePacket ecn ecw placement disk r)

end

section
variable {s : Stripe} {ecn ecw : Nat} {placement : Nat → Int} (hd : s.ecdag.WellFormed)
  (hl : s.Legal ecn ecw placement) (disk : Int → Option String → Nat → GF256) {pktbytes : Nat}
  (r : Nat)
include hd hl

/-- What is coloured -1 is zero. -/
theorem packetOf_zero : ∀ v ∈ s.ecdag.nodeIds, s.coloring v = -1 →
    (s.packetOf ecn ecw placement disk r v : Packet pktbytes) = 0 := by
  refine hd.eval_induction fun v hv ih hc => ?_
  by_cases hnil : s.ecdag.childIndices v = []
  · rw [packetOf, hd.eval_leaf _ hnil, sourcePacket, if_neg]
    intro hlt
    rw [hl.leaf v hv hnil, if_pos hlt] at hc
    exact hl.placed _ hlt hc
  · have hzero : ∀ u ∈ s.ecdag.childIndices v,
        (s.packetOf ecn ecw placement disk r u : Packet pktbytes) = 0 :=
      fun u hu => ih u hu (hl.zero v hv hnil hc u hu)
    rw [packetOf, hd.eval_inner _ hnil, LinearProgram.combine]
    refine List.sum_eq_zero fun p hp => ?_
    obtain ⟨a, ha, rfl⟩ := List.mem_map.1 hp
    have h0 := hzero a.2 (List.of_mem_zip ha).2
    rw [packetOf] at h0
    rw [h0, smul_zero]

omit hd hl in
theorem computes_pushes {val : Nat → Packet pktbytes} {known : Nat → Prop} (c : Int)
    (u : Bool × Bool) {v : Nat} (hv : known v) : FifoNet.Computes val known
      ((Worker.pushLocal u v ++ Worker.pushCache u v).map (Op.instr ecw disk c r)) := by
  unfold Worker.pushLocal Worker.pushCache
  cases u.1 <;> cases u.2 <;> simp [Op.instr, FifoNet.Computes, hv]

/-- **A packet round computes the packets of the round.** -/
theorem computes_body {c : Int} {t : Task} (ht : s.TaskOf ecn ecw placement c t) :
    FifoNet.Computes (s.packetOf ecn ecw placement disk r : Nat → Packet pktbytes)
      (fun _ => False) (t.body ecw disk c r) := by
  cases ht with
  | read _ b vs h =>
    rw [Task.body, Task.round, if_neg (s.blkAt_ne_zero b), Worker.readRealBlock, List.map_flatMap]
    refine FifoNet.Computes.flatMap fun j _ => ?_
    split
    · trivial
    · next e he =>
      have hmem := List.mem_of_find?_eq_some he
      have hj : e.1 % ecw = j := by simpa using List.find?_some he
      obtain ⟨hb, hlt, hnil, hc⟩ := h e.1 (List.of_mem_zip hmem).1
      refine ⟨fun regs _ => ?_, computes_pushes disk r c e.2 (Or.inr rfl)⟩
      rw [packetOf, hd.eval_leaf _ hnil, sourcePacket, hb, if_pos hlt, hc, hj]
  | zero _ vs h =>
    rw [Task.body, Task.round, if_pos rfl, Worker.readVirtBlock, List.map_flatMap]
    refine FifoNet.Computes.flatMap fun v hv => ⟨fun regs _ => ?_, Or.inr rfl, trivial⟩
    exact (packetOf_zero hd hl disk r v (h v hv).1 (h v hv).2).symm
  | send _ vs h =>
    rw [Task.body, Task.round, Worker.sendOneByOne, List.map_flatMap]
    refine FifoNet.Computes.flatMap fun e _ => ?_
    show FifoNet.Computes _ _ (List.map _ (e.2.map _))
    induction e.2 with
    | nil => trivial
    | cons c' l ih => exact ⟨Or.inr rfl, ih⟩
  | recv _ vs =>
    rw [Task.body, Task.round, Worker.recvList, List.map_flatMap]
    exact FifoNet.Computes.flatMap fun v _ => ⟨Or.inr rfl, trivial⟩
  | compute _ vs h =>
    rw [Task.body, Task.round, Worker.computeOneByOne, List.map_append, List.map_map]
    -- the inputs are known before the first item is computed
    have hpops : ∀ (l : List Nat) (known : Nat → Prop) {k : List (FifoNet.Instr Chan Nat _)},
        FifoNet.Computes (s.packetOf ecn ecw placement disk r : Nat → Packet pktbytes)
          (fun y => known y ∨ y ∈ l) k →
        FifoNet.Computes (s.packetOf ecn ecw placement disk r : Nat → Packet pktbytes) known
          (l.map (Op.instr ecw disk c r ∘ fun v => .pop (localKey v) v) ++ k) := by
      intro l
      induction l with
      | nil => exact fun known k hk => hk.mono fun y hy => hy.resolve_right List.not_mem_nil
      | cons v l ih =>
        intro known k hk
        refine ih (fun y => known y ∨ y = v) (hk.mono fun y hy => ?_)
        rw [List.mem_cons] at hy
        tauto
    refine hpops _ _ ?_
    rw [List.map_flatMap, List.flatMap_map]
    refine FifoNet.Computes.flatMap fun v hv => ?_
    have hsrc : ∀ u ∈ s.ecdag.childIndices v,
        u ∈ Worker.inputList (vs.map s.computeItem) := by
      intro u hu
      exact Worker.mem_inputList.2 ⟨_, List.mem_map_of_mem hv, hu⟩
    refine ⟨fun regs hregs => ?_, ?_⟩
    · refine Eq.trans ?_ (hd.eval_inner _ (h v hv)).symm
      refine LinearProgram.combine_congr fun a ha => hregs a.2 (Or.inr (hsrc _ ?_))
      exact (List.of_mem_zip ha).2
    · unfold Worker.pushLocal Worker.pushCache
      cases (s.computeItem v).usage.1 <;> cases (s.computeItem v).usage.2 <;>
        simp [Op.instr, FifoNet.Computes]
  | persist v hv h =>
    rw [Task.body, Task.round, Worker.persist, List.map_flatMap]
    exact FifoNet.Computes.flatMap fun v _ => ⟨Or.inr rfl, trivial⟩

end

/-! ## The streams -/

/-- The id whose negation is `KEY0`, the key of the queue of packet 0, is no packet. -/
def KeysFree (s : Stripe) : Prop := ∀ nd ∈ s.ecdag.ecNodeMap, REQUESTOR ∉ nd.childNodes

instance (s : Stripe) : Decidable s.KeysFree := by
  unfold KeysFree
  infer_instance

theorem KeysFree.childIndices {s : Stripe} (hd : s.ecdag.WellFormed) (hkey : s.KeysFree)
    (v : Nat) : REQUESTOR ∉ s.ecdag.childIndices v := by
  intro hv
  obtain ⟨nd, hnd, -, hc⟩ := hd.mem_childIndices.1 hv
  exact hkey nd hnd hc

end Stripe

/-- The packet that a queue carries in each round. -/
def Chan.vertex : Chan → Nat
  | .queue _ key => keyVertex key
  | .wire _ _ dagidx => dagidx
  | .redis _ dagidx => dagidx
  | .file _ _ => 0

/-- A packet is in a queue of its own. -/
def Op.Keyed : Op → Prop
  | .pop key dagidx => keyVertex key = dagidx
  | .push key dagidx => keyVertex key = dagidx
  | _ => True

namespace Stripe

section
variable {s : Stripe} {ecn ecw : Nat} {placement : Nat → Int}

theorem keyed_pushes {u : Bool × Bool} {v : Nat} (hv : u.2 = true → v ≠ REQUESTOR) :
    ∀ op ∈ Worker.pushLocal u v ++ Worker.pushCache u v, op.Keyed := by
  intro op hop
  unfold Worker.pushLocal Worker.pushCache at hop
  rcases List.mem_append.1 hop with hop | hop
  · split at hop
    · rw [List.mem_singleton.1 hop]
      exact keyVertex_localKey v
    · cases hop
  · split at hop
    · next h =>
      rw [List.mem_singleton.1 hop]
      exact keyVertex_cacheKey (hv h)
    · cases hop

theorem KeysFree.usage (hd : s.ecdag.WellFormed) (hkey : s.KeysFree) {v : Nat}
    (h : (s.usage v).2 = true) : v ≠ REQUESTOR := by
  rintro rfl
  obtain ⟨c, -, p, hp, -⟩ := s.usage_snd.1 h
  exact hkey.childIndices hd p (hd.mem_parentIds.1 hp)

/-- **A task uses the queues of its packets.** -/
theorem keyed_round (hd : s.ecdag.WellFormed) (hkey : s.KeysFree) {c : Int} {t : Task}
    (ht : s.TaskOf ecn ecw placement c t) : ∀ op ∈ t.round ecw, op.Keyed := by
  intro op hop
  cases ht with
  | read _ b vs h =>
    rw [Task.round, if_neg (s.blkAt_ne_zero b), Worker.readRealBlock] at hop
    obtain ⟨j, -, hop⟩ := List.mem_flatMap.1 hop
    split at hop
    · cases hop
    · next e he =>
      have hzip : e ∈ vs.zip (vs.map s.usage) := List.mem_of_find?_eq_some he
      have hu : e.2 = s.usage e.1 := by
        have hmap := List.zip_map' (l := vs) (f := id) (g := s.usage)
        rw [List.map_id] at hmap
        rw [hmap] at hzip
        obtain ⟨v, -, rfl⟩ := List.mem_map.1 hzip
        rfl
      rcases List.mem_cons.1 hop with rfl | hop
      · trivial
      · exact keyed_pushes (fun h2 => hkey.usage hd (hu ▸ h2)) op hop
  | zero _ vs h =>
    rw [Task.round, if_pos rfl] at hop
    obtain ⟨v, -, hop⟩ := List.mem_flatMap.1 hop
    rcases List.mem_pair.1 hop with rfl | rfl
    · trivial
    · exact keyVertex_localKey v
  | send _ vs h =>
    obtain ⟨e, he, hop⟩ := List.mem_flatMap.1 hop
    rcases List.mem_cons.1 hop with rfl | hop
    · refine keyVertex_cacheKey (hkey.usage hd ?_)
      exact s.sendto_ne_nil.1 (h _ (List.of_mem_zip he).1)
    · obtain ⟨c', -, rfl⟩ := List.mem_map.1 hop
      trivial
  | recv _ vs =>
    obtain ⟨v, -, hop⟩ := List.mem_flatMap.1 hop
    rcases List.mem_pair.1 hop with rfl | rfl
    · trivial
    · exact keyVertex_localKey v
  | compute _ vs h =>
    rcases List.mem_append.1 hop with hop | hop
    · obtain ⟨v, -, rfl⟩ := List.mem_map.1 hop
      exact keyVertex_localKey v
    · obtain ⟨ci, hci, hop⟩ := List.mem_flatMap.1 hop
      obtain ⟨v, -, rfl⟩ := List.mem_map.1 hci
      rcases List.mem_cons.1 hop with rfl | hop
      · trivial
      · refine keyed_pushes (u := s.usage v) (fun h2 => hkey.usage hd h2) op ?_
        rw [List.mem_append] at hop ⊢
        exact hop.symm
  | persist v hv h =>
    obtain ⟨u, -, hop⟩ := List.mem_flatMap.1 hop
    rcases List.mem_pair.1 hop with rfl | rfl
    · exact keyVertex_localKey u
    · trivial

end

/-- The block of a name. -/
def blkidx (s : Stripe) (b : Option String) : Nat := s.blklist.idxOf (b.getD "")

theorem blkidx_blkAt (s : Stripe) {i : Nat} (hi : i < s.blklist.length) :
    s.blkidx (s.blkAt i) = i := by
  have hblk : s.blkAt i = some s.blklist[i] := by
    unfold blkAt
    rw [if_pos (by omega)]
    exact List.getElem?_eq_getElem hi
  rw [blkidx, hblk, Option.getD_some]
  exact s.distinct.idxOf_getElem i hi

section
variable (s : Stripe) (ecn ecw : Nat) (placement : Nat → Int)
  (disk : Int → Option String → Nat → GF256) {pktbytes : Nat}

/-- What ought to go through each queue, and into each repaired block. -/
def stream : Chan → Nat → Packet pktbytes
  | .file _ b, n => s.packetOf ecn ecw placement disk (n / ecw) (s.blkidx b * ecw + n % ecw)
  | ch, n => s.packetOf ecn ecw placement disk n ch.vertex

end

/-- The packets that a task writes to a file. -/
theorem pushRegs_file {pktbytes : Nat} (ecw : Nat) (disk : Int → Option String → Nat → GF256)
    (c : Int) (t : Task) (r : Nat) (b : Option String) :
    FifoNet.pushRegs (.file c b)
        (t.body ecw disk c r : List (FifoNet.Instr Chan Nat (Packet pktbytes))) =
      match t with
      | .persist vs b' => if b' = b then vs else []
      | _ => [] := by
  rw [FifoNet.pushRegs, Task.body, List.filterMap_map,
    Task.filterMap_round fun op h => by cases op <;> first | rfl | cases h]
  cases t with
  | send vs tos => simp [Op.instr, FifoNet.Instr.pushReg, List.flatMap_eq_nil_iff.2]
  | persist vs b' =>
    by_cases h : b' = b
    · simp [Op.instr, FifoNet.Instr.pushReg, h]
    · simp [Op.instr, FifoNet.Instr.pushReg, h]
  | _ => simp [Op.instr, FifoNet.Instr.pushReg]

section
variable {s : Stripe} {ecn ecw : Nat} {placement : Nat → Int} (hd : s.ecdag.WellFormed)
  (hl : s.Legal ecn ecw placement) (hkey : s.KeysFree)
  (disk : Int → Option String → Nat → GF256) {pktbytes : Nat}

/-- A persist task collects the packets of the block it is named after. -/
def Persists (s : Stripe) (ecw : Nat) (t : Task) : Prop :=
  ∀ vs b, t = .persist vs b →
    ∃ i < s.blklist.length, vs = blockPackets ecw i ∧ b = s.blkAt i

theorem stream_file {c : Int} {i r j : Nat} (hi : i < s.blklist.length) (hj : j < ecw) :
    (s.stream ecn ecw placement disk (.file c (s.blkAt i)) (r * ecw + j) : Packet pktbytes) =
      s.packetOf ecn ecw placement disk r (i * ecw + j) := by
  have hdiv : (r * ecw + j) / ecw = r := by
    rw [Nat.mul_comm, Nat.mul_add_div (by omega), Nat.div_eq_of_lt hj, Nat.add_zero]
  have hmod : (r * ecw + j) % ecw = j := by
    rw [Nat.mul_comm, Nat.mul_add_mod, Nat.mod_eq_of_lt hj]
  rw [stream, s.blkidx_blkAt hi, hdiv, hmod]

include hd hl hkey

/-- **A packet round obeys the streams**, when the task uses each queue once. -/
theorem obeys_body {c : Int} {t : Task} (ht : s.TaskOf ecn ecw placement c t)
    (hpop : ∀ ch, (t.popChans ecw c).count ch ≤ 1)
    (hpush : ∀ ch, (∀ b, ch ≠ .file c b) → (t.pushChans ecw c).count ch ≤ 1)
    (hpersist : s.Persists ecw t) (r : Nat) (regs : Nat → Packet pktbytes) :
    FifoNet.Obeys (s.stream ecn ecw placement disk) (t.body ecw disk c r)
      (fun ch => r * (t.popChans ecw c).count ch) (fun ch => r * (t.pushChans ecw c).count ch)
      regs := by
  refine (computes_body hd hl disk r ht).obeys (fun _ h => h.elim) ?_ ?_
  · intro ch n x hx
    have hlen : (FifoNet.popRegs ch (t.body ecw disk c r :
        List (FifoNet.Instr _ _ (Packet pktbytes)))).length = _ :=
      Task.length_popRegs_body ecw disk c t r ch
    obtain ⟨hn, hget⟩ := List.getElem?_eq_some_iff.1 hx
    have hle := hpop ch
    obtain rfl : n = 0 := by omega
    have hone : (t.popChans ecw c).count ch = 1 := by omega
    obtain ⟨ins, hins, hreg⟩ := List.mem_filterMap.1 (hget ▸ List.getElem_mem hn)
    obtain ⟨op, hop, rfl⟩ := List.mem_map.1 hins
    have hk := keyed_round hd hkey ht op hop
    rw [hone, Nat.mul_one, Nat.add_zero]
    cases op with
    | pop key v =>
      obtain ⟨rfl, rfl⟩ : Chan.queue c key = ch ∧ v = x := by
        simpa [Op.instr, FifoNet.Instr.popReg] using hreg
      show s.packetOf ecn ecw placement disk r (keyVertex key) = _
      rw [show keyVertex key = v from hk]
    | blpop v =>
      obtain ⟨rfl, rfl⟩ : Chan.redis c v = ch ∧ v = x := by
        simpa [Op.instr, FifoNet.Instr.popReg] using hreg
      rfl
    | _ => simp [Op.instr, FifoNet.Instr.popReg] at hreg
  · intro ch n x hx
    have hlen : (FifoNet.pushRegs ch (t.body ecw disk c r :
        List (FifoNet.Instr _ _ (Packet pktbytes)))).length = _ :=
      Task.length_pushRegs_body ecw disk c t r ch
    obtain ⟨hn, hget⟩ := List.getElem?_eq_some_iff.1 hx
    by_cases hfile : ∃ b, ch = .file c b
    · obtain ⟨b, rfl⟩ := hfile
      rw [pushRegs_file] at hx hlen
      cases t with
      | persist vs b' =>
        obtain ⟨i, hi, rfl, rfl⟩ := hpersist vs b' rfl
        by_cases hb : s.blkAt i = b
        · subst hb
          simp only [if_pos] at hx hlen
          obtain ⟨hn', rfl⟩ := List.getElem?_eq_some_iff.1 hx
          have hw : n < ecw := by simpa [blockPackets] using hn'
          have hx' : (blockPackets ecw i)[n] = i * ecw + n := by simp [blockPackets]
          have hw' : (blockPackets ecw i).length = ecw := by simp [blockPackets]
          simp only [← hlen, hw', hx']
          exact stream_file disk hi hw
        · simp [hb] at hx
      | _ => simp at hx
    · have hle := hpush ch fun b hb => hfile ⟨b, hb⟩
      obtain rfl : n = 0 := by omega
      have hone : (t.pushChans ecw c).count ch = 1 := by omega
      obtain ⟨ins, hins, hreg⟩ := List.mem_filterMap.1 (hget ▸ List.getElem_mem hn)
      obtain ⟨op, hop, rfl⟩ := List.mem_map.1 hins
      have hk := keyed_round hd hkey ht op hop
      rw [hone, Nat.mul_one, Nat.add_zero]
      cases op with
      | push key v =>
        obtain ⟨rfl, rfl⟩ : Chan.queue c key = ch ∧ v = x := by
          simpa [Op.instr, FifoNet.Instr.pushReg] using hreg
        show s.packetOf ecn ecw placement disk r (keyVertex key) = _
        rw [show keyVertex key = v from hk]
      | rpush sendto v =>
        obtain ⟨rfl, rfl⟩ : Chan.wire c sendto v = ch ∧ v = x := by
          simpa [Op.instr, FifoNet.Instr.pushReg] using hreg
        rfl
      | write b v =>
        obtain ⟨rfl, -⟩ : Chan.file c b = ch ∧ v = x := by
          simpa [Op.instr, FifoNet.Instr.pushReg] using hreg
        exact absurd ⟨b, rfl⟩ hfile
      | _ => simp [Op.instr, FifoNet.Instr.pushReg] at hreg

end

/-! ## Which thread uses a queue -/

theorem index_unique {α : Type} {ts : List α} {P : α → Bool} (h : ts.countP P ≤ 1) {i j : Nat}
    {t t' : α} (hi : ts[i]? = some t) (hj : ts[j]? = some t') (ht : P t = true)
    (ht' : P t' = true) : i = j := by
  induction ts generalizing i j with
  | nil => cases hi
  | cons a ts ih =>
    have hrest : ∀ {k : Nat} {u : α}, ts[k]? = some u → P u = true → 0 < ts.countP P :=
      fun hk hu => List.countP_pos_iff.2 ⟨_, List.mem_of_getElem? hk, hu⟩
    rw [List.countP_cons] at h
    cases i with
    | zero =>
      cases j with
      | zero => rfl
      | succ j =>
        obtain rfl : a = t := by simpa using hi
        have := hrest (by simpa using hj) ht'
        rw [if_pos ht] at h
        omega
    | succ i =>
      cases j with
      | zero =>
        obtain rfl : a = t' := by simpa using hj
        have := hrest (by simpa using hi) ht
        rw [if_pos ht'] at h
        omega
      | succ j =>
        have := ih (by omega) (by simpa using hi) (by simpa using hj)
        omega

theorem countP_mem_le_count {α β : Type} [DecidableEq β] (ts : List α) (f : α → List β) (b : β) :
    (ts.countP fun t => b ∈ f t) ≤ (ts.flatMap f).count b := by
  induction ts with
  | nil => simp
  | cons t ts ih =>
    rw [List.countP_cons, List.flatMap_cons, List.count_append]
    by_cases h : b ∈ f t
    · have := List.count_pos_iff.2 h
      rw [if_pos (by simpa using h)]
      omega
    · rw [if_neg (by simpa using h)]
      omega

theorem count_le_count_flatMap {α β : Type} [DecidableEq β] {ts : List α} {t : α} (ht : t ∈ ts)
    (f : α → List β) (b : β) : (f t).count b ≤ (ts.flatMap f).count b := by
  obtain ⟨pre, post, rfl⟩ := List.append_of_mem ht
  rw [List.flatMap_append, List.flatMap_cons, List.count_append, List.count_append]
  omega

end Stripe

/-- The agent whose threads alone use a queue. -/
def Chan.agent : Chan → Option Int
  | .queue c _ => some c
  | .file c _ => some c
  | _ => none

namespace Task

section
variable {ecw : Nat} {c : Int} {t : Task} {ch : Chan}

theorem of_mem_popChans (h : ch ∈ t.popChans ecw c) :
    (∃ key, ch = .queue c key) ∨ ∃ v, ch = .redis c v := by
  obtain ⟨op, -, hop⟩ := List.mem_filterMap.1 h
  cases op with
  | pop key v => exact Or.inl ⟨key, (Option.some.inj hop).symm⟩
  | blpop v => exact Or.inr ⟨v, (Option.some.inj hop).symm⟩
  | _ => cases hop

theorem of_mem_pushChans (h : ch ∈ t.pushChans ecw c) :
    (∃ key, ch = .queue c key) ∨ (∃ sendto v, ch = .wire c sendto v) ∨
      ∃ b, ch = .file c b := by
  obtain ⟨op, -, hop⟩ := List.mem_filterMap.1 h
  cases op with
  | push key v => exact Or.inl ⟨key, (Option.some.inj hop).symm⟩
  | rpush sendto v => exact Or.inr (Or.inl ⟨sendto, v, (Option.some.inj hop).symm⟩)
  | write b v => exact Or.inr (Or.inr ⟨b, (Option.some.inj hop).symm⟩)
  | _ => cases hop

end

end Task

section
variable {pktbytes : Nat} {tasks : Int → List Task} {ecw pktnum : Nat}
  {disk : Int → Option String → Nat → GF256}

theorem program_none {c : Int} {i : Nat} (h : (tasks c)[i]? = none) :
    (program tasks ecw pktnum disk (.task c i) : List (FifoNet.Instr _ _ (Packet pktbytes))) =
      [] := by
  simp only [program, h]

theorem program_some {c : Int} {i : Nat} {t : Task} (h : (tasks c)[i]? = some t) :
    (program tasks ecw pktnum disk (.task c i) : List (FifoNet.Instr _ _ (Packet pktbytes))) =
      (List.range pktnum).flatMap (t.body ecw disk c) := by
  simp only [program, h]

/-- The uses of a queue by a task, in all rounds. -/
theorem uses_task {c : Int} {i : Nat} {t : Task} (h : (tasks c)[i]? = some t) (ch : Chan) :
    (FifoNet.popRegs ch (program tasks ecw pktnum disk (.task c i) :
      List (FifoNet.Instr _ _ (Packet pktbytes)))).length =
        pktnum * (t.popChans ecw c).count ch ∧
    (FifoNet.pushRegs ch (program tasks ecw pktnum disk (.task c i) :
      List (FifoNet.Instr _ _ (Packet pktbytes)))).length =
        pktnum * (t.pushChans ecw c).count ch := by
  rw [program_some h]
  constructor
  · exact FifoNet.length_popRegs_rounds (fun r ch => Task.length_popRegs_body ecw disk c t r ch) _ _
  · exact FifoNet.length_pushRegs_rounds (fun r ch => Task.length_pushRegs_body ecw disk c t r ch)
      _ _

theorem length_popRegs_deliver (c sendto : Int) (v : Nat) (ch : Chan) :
    (FifoNet.popRegs ch (deliver c sendto v :
      List (FifoNet.Instr _ _ (Packet pktbytes)))).length =
        if Chan.wire c sendto v = ch then 1 else 0 := by
  rw [deliver, FifoNet.popRegs_pop]
  split <;> rfl

theorem length_pushRegs_deliver (c sendto : Int) (v : Nat) (ch : Chan) :
    (FifoNet.pushRegs ch (deliver c sendto v :
      List (FifoNet.Instr _ _ (Packet pktbytes)))).length =
        if Chan.redis sendto v = ch then 1 else 0 := by
  rw [deliver, FifoNet.pushRegs_pop, FifoNet.pushRegs_push]
  split <;> rfl

/-- The uses of a queue by a connection. -/
theorem uses_net (c sendto : Int) (v : Nat) (ch : Chan) :
    (FifoNet.popRegs ch (program tasks ecw pktnum disk (.net c sendto v) :
      List (FifoNet.Instr _ _ (Packet pktbytes)))).length =
        pktnum * ((tasks c).flatMap Task.sendEntries).count (v, sendto) *
          (if Chan.wire c sendto v = ch then 1 else 0) ∧
    (FifoNet.pushRegs ch (program tasks ecw pktnum disk (.net c sendto v) :
      List (FifoNet.Instr _ _ (Packet pktbytes)))).length =
        pktnum * ((tasks c).flatMap Task.sendEntries).count (v, sendto) *
          (if Chan.redis sendto v = ch then 1 else 0) := by
  constructor
  · exact FifoNet.length_popRegs_rounds (fun _ ch => length_popRegs_deliver c sendto v ch) _ ch
  · exact FifoNet.length_pushRegs_rounds (fun _ ch => length_pushRegs_deliver c sendto v ch) _ ch

end

/-- In a packet round of all agents, each queue is filled by one step and emptied by one step;
a packet is sent from one agent, and a repaired block is written by one task. -/
structure OncePerRound (ecw : Nat) (tasks : Int → List Task) : Prop where
  pops : ∀ c ch, ((tasks c).flatMap (Task.popChans ecw c)).count ch ≤ 1
  pushes : ∀ c ch, (∀ b, ch ≠ .file c b) →
    ((tasks c).flatMap (Task.pushChans ecw c)).count ch ≤ 1
  files : ∀ c b, (tasks c).countP (Task.persistsTo b) ≤ 1
  sender : ∀ c c' e, e ∈ (tasks c).flatMap Task.sendEntries →
    e ∈ (tasks c').flatMap Task.sendEntries → c = c'

section
variable {pktbytes : Nat} {tasks : Int → List Task} {ecw pktnum : Nat}
  {disk : Int → Option String → Nat → GF256}

theorem of_popRegs_program {ch : Chan} {i : ThreadId}
    (h : FifoNet.popRegs ch (program tasks ecw pktnum disk i :
      List (FifoNet.Instr _ _ (Packet pktbytes))) ≠ []) :
    (∃ c k t, i = .task c k ∧ (tasks c)[k]? = some t ∧ ch ∈ t.popChans ecw c) ∨
      ∃ c sendto v, i = .net c sendto v ∧ ch = .wire c sendto v := by
  have hlen := List.length_pos_iff.2 h
  cases i with
  | task c k =>
    cases ht : (tasks c)[k]? with
    | none =>
      rw [program_none ht] at h
      exact absurd rfl h
    | some t =>
      rw [(uses_task ht ch).1] at hlen
      exact Or.inl ⟨c, k, t, rfl, ht, List.count_pos_iff.1 (Nat.pos_of_mul_pos_left hlen)⟩
  | net c sendto v =>
    rw [(uses_net c sendto v ch).1] at hlen
    by_cases he : Chan.wire c sendto v = ch
    · exact Or.inr ⟨c, sendto, v, rfl, he.symm⟩
    · rw [if_neg he] at hlen
      omega

theorem of_pushRegs_program {ch : Chan} {i : ThreadId}
    (h : FifoNet.pushRegs ch (program tasks ecw pktnum disk i :
      List (FifoNet.Instr _ _ (Packet pktbytes))) ≠ []) :
    (∃ c k t, i = .task c k ∧ (tasks c)[k]? = some t ∧ ch ∈ t.pushChans ecw c) ∨
      ∃ c sendto v, i = .net c sendto v ∧ ch = .redis sendto v ∧
        (v, sendto) ∈ (tasks c).flatMap Task.sendEntries := by
  have hlen := List.length_pos_iff.2 h
  cases i with
  | task c k =>
    cases ht : (tasks c)[k]? with
    | none =>
      rw [program_none ht] at h
      exact absurd rfl h
    | some t =>
      rw [(uses_task ht ch).2] at hlen
      exact Or.inl ⟨c, k, t, rfl, ht, List.count_pos_iff.1 (Nat.pos_of_mul_pos_left hlen)⟩
  | net c sendto v =>
    rw [(uses_net c sendto v ch).2] at hlen
    by_cases he : Chan.redis sendto v = ch
    · rw [if_pos he, Nat.mul_one] at hlen
      refine Or.inr ⟨c, sendto, v, rfl, he.symm, ?_⟩
      exact List.count_pos_iff.1 (Nat.pos_of_mul_pos_left hlen)
    · rw [if_neg he] at hlen
      omega

theorem persistsTo_of_mem_pushChans {t : Task} {c : Int} {b : Option String}
    (h : .file c b ∈ t.pushChans ecw c) : t.persistsTo b = true := by
  have hlen : (FifoNet.pushRegs (.file c b) (t.body ecw (fun _ _ _ => 0) c 0 :
      List (FifoNet.Instr _ _ (Packet 0)))).length = _ :=
    Task.length_pushRegs_body ecw (fun _ _ _ => 0) c t 0 (.file c b)
  have hpos := List.count_pos_iff.2 h
  rw [Stripe.pushRegs_file] at hlen
  cases t with
  | persist vs b' =>
    by_cases he : b' = b
    · exact decide_eq_true he
    · simp only [if_neg he, List.length_nil] at hlen
      omega
  | _ =>
    simp only [List.length_nil] at hlen
    omega

/-- **No two threads pop from, or push to, one queue.** -/
theorem apart_program (h : OncePerRound ecw tasks) :
    FifoNet.Apart (program tasks ecw pktnum disk :
      ThreadId → List (FifoNet.Instr _ _ (Packet pktbytes))) := by
  intro i j hij ch
  constructor
  · by_contra hno
    rw [not_or] at hno
    rcases of_popRegs_program hno.1 with ⟨c, k, t, rfl, ht, hch⟩ | ⟨c, dst, v, rfl, rfl⟩
    · rcases of_popRegs_program hno.2 with ⟨c', k', t', rfl, ht', hch'⟩ | ⟨c', dst', v', rfl, rfl⟩
      · have hc : c = c' := by
          rcases Task.of_mem_popChans hch with ⟨key, rfl⟩ | ⟨v, rfl⟩
          · rcases Task.of_mem_popChans hch' with ⟨key', he⟩ | ⟨v', he⟩ <;> cases he
            rfl
          · rcases Task.of_mem_popChans hch' with ⟨key', he⟩ | ⟨v', he⟩ <;> cases he
            rfl
        subst hc
        have hone := (Stripe.countP_mem_le_count (tasks c) (Task.popChans ecw c) ch).trans
          (h.pops c ch)
        exact hij (by rw [Stripe.index_unique hone ht ht' (by simpa using hch) (by simpa using hch')])
      · rcases Task.of_mem_popChans hch with ⟨key, he⟩ | ⟨v, he⟩ <;> cases he
    · rcases of_popRegs_program hno.2 with ⟨c', k', t', rfl, ht', hch'⟩ | ⟨c', dst', v', rfl, he⟩
      · rcases Task.of_mem_popChans hch' with ⟨key, he⟩ | ⟨v, he⟩ <;> cases he
      · cases he
        exact hij rfl
  · by_contra hno
    rw [not_or] at hno
    rcases of_pushRegs_program hno.1 with ⟨c, k, t, rfl, ht, hch⟩ | ⟨c, dst, v, rfl, rfl, hs⟩
    · rcases of_pushRegs_program hno.2 with ⟨c', k', t', rfl, ht', hch'⟩ | ⟨c', dst', v', rfl, rfl, -⟩
      · have hc : c = c' := by
          rcases Task.of_mem_pushChans hch with ⟨key, rfl⟩ | ⟨dst, v, rfl⟩ | ⟨b, rfl⟩ <;>
            rcases Task.of_mem_pushChans hch' with ⟨key', he⟩ | ⟨dst', v', he⟩ | ⟨b', he⟩ <;>
              cases he <;> rfl
        subst hc
        by_cases hfile : ∃ b, ch = .file c b
        · obtain ⟨b, rfl⟩ := hfile
          exact hij (by rw [Stripe.index_unique (h.files c b) ht ht'
            (persistsTo_of_mem_pushChans hch) (persistsTo_of_mem_pushChans hch')])
        · have hone := (Stripe.countP_mem_le_count (tasks c) (Task.pushChans ecw c) ch).trans
            (h.pushes c ch fun b hb => hfile ⟨b, hb⟩)
          exact hij (by rw [Stripe.index_unique hone ht ht' (by simpa using hch) (by simpa using hch')])
      · rcases Task.of_mem_pushChans hch with ⟨key, he⟩ | ⟨dst, v, he⟩ | ⟨b, he⟩ <;> cases he
    · rcases of_pushRegs_program hno.2 with ⟨c', k', t', rfl, ht', hch'⟩ | ⟨c', dst', v', rfl, he, hs'⟩
      · rcases Task.of_mem_pushChans hch' with ⟨key, he⟩ | ⟨dst, v, he⟩ | ⟨b, he⟩ <;> cases he
      · cases he
        exact hij (by rw [h.sender c c' _ hs hs'])

end

namespace Stripe

section
variable {s : Stripe} {ecn ecw : Nat} {placement : Nat → Int} (hd : s.ecdag.WellFormed)
  (hl : s.Legal ecn ecw placement) (hkey : s.KeysFree)
  (disk : Int → Option String → Nat → GF256) {pktbytes : Nat} (pktnum : Nat)

omit hd hl hkey in
theorem obeys_deliver (c sendto : Int) (v r : Nat) (regs : Nat → Packet pktbytes) :
    FifoNet.Obeys (s.stream ecn ecw placement disk) (deliver c sendto v)
      (fun ch => r * if Chan.wire c sendto v = ch then 1 else 0)
      (fun ch => r * if Chan.redis sendto v = ch then 1 else 0) regs := by
  refine ⟨?_, trivial⟩
  simp only [Function.update_self, if_pos]
  rfl

include hd hl hkey

/-- **The network starts with all programs obeying the streams.** -/
theorem inv_start {tasks : Int → List Task} (h : OncePerRound ecw tasks)
    (htask : ∀ c, ∀ t ∈ tasks c, s.TaskOf ecn ecw placement c t)
    (hpersist : ∀ c, ∀ t ∈ tasks c, s.Persists ecw t) (regs : ThreadId → Nat → Packet pktbytes) :
    FifoNet.Inv (s.stream ecn ecw placement disk)
      (FifoNet.Net.start (program tasks ecw pktnum disk) regs) := by
  refine FifoNet.inv_start (apart_program h) fun i => ?_
  cases i with
  | task c k =>
    cases ht : (tasks c)[k]? with
    | none =>
      rw [program_none ht]
      trivial
    | some t =>
      have hmem := List.mem_of_getElem? ht
      rw [program_some ht]
      refine FifoNet.obeys_rounds (fun r ch => Task.length_popRegs_body ecw disk c t r ch)
        (fun r ch => Task.length_pushRegs_body ecw disk c t r ch) _ (fun r _ => ?_) _
      refine obeys_body hd hl hkey disk (htask c t hmem) (fun ch => ?_) (fun ch hch => ?_)
        (hpersist c t hmem) r
      · exact (count_le_count_flatMap hmem _ ch).trans (h.pops c ch)
      · exact (count_le_count_flatMap hmem _ ch).trans (h.pushes c ch hch)
  | net c sendto v =>
    exact FifoNet.obeys_rounds (fun _ ch => length_popRegs_deliver c sendto v ch)
      (fun _ ch => length_pushRegs_deliver c sendto v ch) _
      (fun r _ => obeys_deliver disk c sendto v r) _

end

/-! ## The tasks of a stripe -/

section
variable {s : Stripe} {ecn ecw : Nat} {placement : Nat → Int} (hd : s.ecdag.WellFormed)
  (hl : s.Legal ecn ecw placement) (hkey : s.KeysFree) (ord : HashOrder Walk)

omit hd hl hkey in
theorem count_flatMap_congr {α β γ : Type} [BEq β] [BEq γ] {ts : List α}
    {f : α → List β} {g : α → List γ} {b : β} {b' : γ}
    (h : ∀ t ∈ ts, (f t).count b = (g t).count b') :
    (ts.flatMap f).count b = (ts.flatMap g).count b' := by
  rw [List.count_flatMap, List.count_flatMap]
  congr 1
  exact List.map_congr_left h

include hd hl hkey

/-- The queues are filled once per round. -/
theorem count_pushChans_le (hw : 0 < ecw) (c : Int) (ch : Chan) (hch : ∀ b, ch ≠ .file c b) :
    ((s.nodeTasks ecn ecw ord c).flatMap (Task.pushChans ecw c)).count ch ≤ 1 := by
  by_cases hmem : ch ∈ (s.nodeTasks ecn ecw ord c).flatMap (Task.pushChans ecw c)
  · obtain ⟨t, ht, hin⟩ := List.mem_flatMap.1 hmem
    rcases Task.of_mem_pushChans hin with ⟨key, rfl⟩ | ⟨dst, v, rfl⟩ | ⟨b, rfl⟩
    · rw [count_flatMap_congr fun t _ => Task.count_pushChans_queue ecw c t key]
      by_cases hc : c = -1
      · -- node -1 only persists
        have hnone : (s.nodeTasks ecn ecw ord c).flatMap (Task.pushes ecw) = [] := by
          refine List.flatMap_eq_nil_iff.2 fun t ht => ?_
          cases taskOf_nodeTasks hd hl ord ht with
          | persist v hv h => exact Task.pushes_persist ecw _ _
          | _ => contradiction
        rw [hnone]
        exact Nat.zero_le 1
      · exact List.nodup_iff_count_le_one.1 (nodup_pushes hd ord hl hw hc (hkey.childIndices hd)) key
    · rw [count_flatMap_congr fun t _ => Task.count_pushChans_wire ecw c t dst v]
      exact List.nodup_iff_count_le_one.1 (nodup_sends hd ord c) (v, dst)
    · exact absurd rfl (hch b)
  · rw [List.count_eq_zero.2 hmem]
    exact Nat.zero_le 1

omit hkey in
/-- A packet is sent from the node of its colour. -/
theorem color_of_mem_sends {c : Int} {e : Nat × Int}
    (h : e ∈ (s.nodeTasks ecn ecw ord c).flatMap Task.sendEntries) : s.coloring e.1 = c :=
  ((mem_sends hd ord hl).1 h).2.2.1

/-- The queues are emptied once per round, when they are emptied no more often than filled. -/
theorem oncePerRound (hw : 0 < ecw)
    (hle : ∀ c key, ((s.nodeTasks ecn ecw ord c).flatMap (Task.popChans ecw c)).count (.queue c key) ≤
      ((s.nodeTasks ecn ecw ord c).flatMap (Task.pushChans ecw c)).count (.queue c key))
    (hpersist : ∀ c, ∀ t ∈ s.nodeTasks ecn ecw ord c, s.Persists ecw t)
    (hR : s.blklist.length ≤ REQUESTOR) : OncePerRound ecw (s.nodeTasks ecn ecw ord) := by
  refine ⟨fun c ch => ?_, count_pushChans_le hd hl hkey ord hw, fun c b => ?_, ?_⟩
  · by_cases hmem : ch ∈ (s.nodeTasks ecn ecw ord c).flatMap (Task.popChans ecw c)
    · obtain ⟨t, ht, hin⟩ := List.mem_flatMap.1 hmem
      rcases Task.of_mem_popChans hin with ⟨key, rfl⟩ | ⟨v, rfl⟩
      · exact (hle c key).trans (count_pushChans_le hd hl hkey ord hw c _ fun b h => by cases h)
      · rw [count_flatMap_congr fun t _ => Task.count_popChans_redis ecw c t v]
        exact List.nodup_iff_count_le_one.1 (nodup_recvs hd ord c) v
    · rw [List.count_eq_zero.2 hmem]
      exact Nat.zero_le 1
  · by_cases hnone : (s.nodeTasks ecn ecw ord c).countP (Task.persistsTo b) = 0
    · omega
    · obtain ⟨t, ht, hb⟩ := List.countP_pos_iff.1 (Nat.pos_of_ne_zero hnone)
      cases t with
      | persist vs b' =>
        obtain rfl : b' = b := of_decide_eq_true hb
        obtain ⟨i, hi, rfl, rfl⟩ := hpersist c _ ht vs b' rfl
        rw [List.countP_eq_length_filter, persists_eq hd ord ecn ecw c hi (by omega)]
        split
        · exact Nat.le_refl 1
        · exact Nat.zero_le 1
      | _ => exact absurd hb Bool.false_ne_true
  · intro c c' e he he'
    rw [← color_of_mem_sends hd hl ord he, color_of_mem_sends hd hl ord he']

end

end Stripe

/-! ## Finished runs -/

section
variable {pktbytes : Nat} {tasks : Int → List Task} {ecw pktnum : Nat}
  {disk : Int → Option String → Nat → GF256} {regs : ThreadId → Nat → Packet pktbytes}
  {schedule : List ThreadId} {net : FifoNet.Net ThreadId Chan Nat (Packet pktbytes)}

theorem sum_tasks {f : ThreadId → Nat} {c : Int} {g : Task → Nat}
    (h : ∀ {k t}, (tasks c)[k]? = some t → f (.task c k) = pktnum * g t) :
    (((List.range (tasks c).length).map (ThreadId.task c)).map f).sum =
      pktnum * ((tasks c).map g).sum := by
  rw [List.map_map, ← List.sum_map_mul_left]
  congr 1
  refine List.ext_getElem (by simp) fun k h1 h2 => ?_
  have hk : k < (tasks c).length := by simpa using h1
  simp only [List.getElem_map, List.getElem_range, Function.comp_apply]
  exact h (List.getElem?_eq_getElem hk)

/-- The tasks of an agent are all that uses its queues and its repaired blocks. -/
theorem counted_tasks {c : Int} {ch : Chan} (hch : ch.agent = some c)
    (hrun : Lts.run FifoNet.step (FifoNet.Net.start (program tasks ecw pktnum disk) regs) schedule =
      some net) :
    FifoNet.Counted ((List.range (tasks c).length).map (ThreadId.task c)) ch
      (pktnum * ((tasks c).flatMap (Task.popChans ecw c)).count ch)
      (pktnum * ((tasks c).flatMap (Task.pushChans ecw c)).count ch) net := by
  have hnodup : ((List.range (tasks c).length).map (ThreadId.task c)).Nodup :=
    List.nodup_range.map fun _ _ h => (ThreadId.task.inj h).2
  have hmem : ∀ {k t}, (tasks c)[k]? = some t →
      ThreadId.task c k ∈ (List.range (tasks c).length).map (ThreadId.task c) := fun h =>
    List.mem_map_of_mem (List.mem_range.2 (List.getElem?_eq_some_iff.1 h).1)
  have hothers : ∀ i ∉ (List.range (tasks c).length).map (ThreadId.task c),
      FifoNet.popRegs ch (program tasks ecw pktnum disk i :
        List (FifoNet.Instr _ _ (Packet pktbytes))) = [] ∧
      FifoNet.pushRegs ch (program tasks ecw pktnum disk i :
        List (FifoNet.Instr _ _ (Packet pktbytes))) = [] := by
    intro i hi
    constructor
    · by_contra hne
      rcases of_popRegs_program hne with ⟨c', k, t, rfl, ht, hin⟩ | ⟨c', dst, v, rfl, rfl⟩
      · rcases Task.of_mem_popChans hin with ⟨key, rfl⟩ | ⟨v, rfl⟩ <;> cases hch
        exact hi (hmem ht)
      · cases hch
    · by_contra hne
      rcases of_pushRegs_program hne with ⟨c', k, t, rfl, ht, hin⟩ | ⟨c', dst, v, rfl, rfl, -⟩
      · rcases Task.of_mem_pushChans hin with ⟨key, rfl⟩ | ⟨dst, v, rfl⟩ | ⟨b, rfl⟩ <;> cases hch
        · exact hi (hmem ht)
        · exact hi (hmem ht)
      · cases hch
  have hcount := FifoNet.counted_run hnodup hothers hrun
  rw [sum_tasks fun h => (uses_task h ch).1, sum_tasks fun h => (uses_task h ch).2] at hcount
  rw [List.count_flatMap, List.count_flatMap]
  exact hcount

/-- In a finished run a queue was emptied no more often than filled. -/
theorem count_le_of_done (hpk : 0 < pktnum) {c : Int} {ch : Chan} (hch : ch.agent = some c)
    (hrun : Lts.run FifoNet.step (FifoNet.Net.start (program tasks ecw pktnum disk) regs) schedule =
      some net) (hdone : ∀ c k, (net.threads (.task c k)).prog = []) :
    ((tasks c).flatMap (Task.popChans ecw c)).count ch ≤
      ((tasks c).flatMap (Task.pushChans ecw c)).count ch := by
  refine Nat.le_of_mul_le_mul_left ((counted_tasks hch hrun).le_of_done fun i hi => ?_) hpk
  obtain ⟨k, -, rfl⟩ := List.mem_map.1 hi
  exact hdone c k

/-- Blocks without packets need no step. -/
theorem run_eq_start_of_no_packets
    (hrun : Lts.run FifoNet.step (FifoNet.Net.start (program tasks ecw 0 disk) regs) schedule =
      some net) : net = FifoNet.Net.start (program tasks ecw 0 disk) regs := by
  cases schedule with
  | nil => exact (Option.some.inj hrun).symm
  | cons i schedule =>
    obtain ⟨s1, h1, -⟩ := Lts.run_cons hrun
    have hnil : (program tasks ecw 0 disk i : List (FifoNet.Instr _ _ (Packet pktbytes))) = [] := by
      cases i with
      | task c k =>
        cases ht : (tasks c)[k]? with
        | none => exact program_none ht
        | some t => exact program_some ht
      | net c dst v =>
        rw [program, Nat.zero_mul]
        rfl
    unfold FifoNet.step at h1
    rw [show ((FifoNet.Net.start (program tasks ecw 0 disk) regs).threads i).prog = [] from hnil] at h1
    cases h1

theorem map_range_mul {α : Type} (f : Nat → α) (R w : Nat) :
    (List.range (R * w)).map f =
      (List.range R).flatMap fun r => (List.range w).map fun j => f (r * w + j) := by
  induction R with
  | zero => simp
  | succ R ih =>
    rw [Nat.succ_mul, List.range_add, List.map_append, ih, List.range_succ, List.flatMap_append,
      List.flatMap_singleton, List.map_map]
    rfl

end

namespace Stripe

section
variable {s : Stripe} {ecn ecw : Nat} {placement : Nat → Int} (hd : s.ecdag.WellFormed)
  (ord : HashOrder Walk)

theorem count_flatMap_filter {α β : Type} [BEq β] {ts : List α} {P : α → Bool} {f : α → List β}
    {b : β} (h : ∀ t, P t = false → (f t).count b = 0) :
    (ts.flatMap f).count b = ((ts.filter P).flatMap f).count b := by
  induction ts with
  | nil => rfl
  | cons t ts ih =>
    rw [List.flatMap_cons, List.count_append, ih, List.filter_cons]
    cases hP : P t with
    | true => rw [if_pos rfl, List.flatMap_cons, List.count_append]
    | false =>
      rw [h t hP, if_neg Bool.false_ne_true]
      omega

/-- A round writes `w` packets of a block. -/
theorem count_pushChans_file {i : Nat} (hi : i < s.blklist.length) (hR : i ≤ REQUESTOR)
    (hlast : REQUESTOR - i ∈ s.handledByLast ord)
    (hch : s.ecdag.childIndices (REQUESTOR - i) = blockPackets ecw i) {c : Int}
    (hc : s.coloring (REQUESTOR - i) = c) (hd : s.ecdag.WellFormed) :
    ((s.nodeTasks ecn ecw ord c).flatMap (Task.pushChans ecw c)).count (.file c (s.blkAt i)) =
      ecw := by
  rw [count_flatMap_filter (P := Task.persistsTo (s.blkAt i)) fun t ht => ?_,
    persists_eq hd ord ecn ecw c hi hR, if_pos ⟨hlast, hc⟩, List.flatMap_singleton]
  · have hlen : (FifoNet.pushRegs (.file c (s.blkAt i)) (Task.body ecw (fun _ _ _ => 0) c
        (.persist (s.ecdag.childIndices (REQUESTOR - i)) (s.blkAt i)) 0 :
        List (FifoNet.Instr _ _ (Packet 0)))).length = _ :=
      Task.length_pushRegs_body ecw (fun _ _ _ => 0) c _ 0 (.file c (s.blkAt i))
    rw [← hlen, pushRegs_file, hch]
    simp [blockPackets]
  · refine List.count_eq_zero.2 fun hmem => ?_
    rw [persistsTo_of_mem_pushChans hmem] at ht
    cases ht

end

/-! ## The repaired blocks -/

section
variable (s : Stripe) (decode : List Nat → List Nat → ECDAG) (n w : Nat) (failed : Finset Nat)
  (hn : s.blklist.length = n) (hR : n ≤ REQUESTOR) (hw : 0 < w) (js : List Join)
  (hdec : decode (packets w (survivors n failed)) (packets w (losses n failed)) = .build js)
  (hdag : s.ecdag = genRepairECDAG decode n w failed ∨
    s.ecdag = (genRepairECDAG decode n w failed).refreshECDAG)
  (hlast : ConcactsLast s.ecdag w failed)
include hn hR hw hdec hdag hlast

/-- All persist tasks are for failed blocks. -/
theorem persists_of_concactsLast (ord : HashOrder Walk) {placement : Nat → Int}
    (hl : s.Legal n w placement) (c : Int) {t : Task} (ht : t ∈ s.nodeTasks n w ord c) :
    s.Persists w t := by
  obtain ⟨hbuilt, hconcacts⟩ := genRepairECDAG_spec hw hdec hdag
  rintro vs b rfl
  cases taskOf_nodeTasks hbuilt.wellFormed hl ord ht with
  | persist v hv h =>
    have hv := hlast.only v hv h
    rw [hconcacts] at hv
    obtain ⟨i, hi, rfl⟩ := List.mem_map.1 hv
    have hlt := (mem_losses.1 hi).1
    refine ⟨i, by omega, hlast.children i (mem_losses.1 hi).2, ?_⟩
    congr 1
    omega

/-- **A finished repair has written the right blocks**: whatever the schedule was, each
repaired block holds the value of the DAG on the source blocks, packet by packet. -/
theorem repair_refines (hsub : failed ⊆ Finset.range n) (hkey : s.KeysFree) (ord : HashOrder Walk)
    (fail2repair : Int → Option Int) (placement : Nat → Int)
    (hl : (s.remap fail2repair).Legal n w placement) {pktbytes : Nat} (pktnum : Nat)
    (disk : Int → Option String → Nat → GF256) (regs : ThreadId → Nat → Packet pktbytes)
    (schedule : List ThreadId) (net : FifoNet.Net ThreadId Chan Nat (Packet pktbytes))
    (hrun : Lts.run FifoNet.step (FifoNet.Net.start
      (program (s.tasksOf ord n w fail2repair) w pktnum disk) regs) schedule = some net)
    (hdone : ∀ c k, (net.threads (.task c k)).prog = []) :
    ∀ i ∈ failed, net.pushed (.file ((s.remap fail2repair).coloring (REQUESTOR - i)) (s.blkAt i)) =
      (List.range pktnum).flatMap fun r => (blockPackets w i).map
        (s.ecdag.eval ((s.remap fail2repair).sourcePacket n w placement disk r)) := by
  intro i hi
  obtain ⟨hbuilt, -⟩ := genRepairECDAG_spec hw hdec hdag
  have hd : (s.remap fail2repair).ecdag.WellFormed := hbuilt.wellFormed
  have hilt : i < n := Finset.mem_range.1 (hsub hi)
  have htasks : s.tasksOf ord n w fail2repair = (s.remap fail2repair).nodeTasks n w ord :=
    funext fun c => tasksOf_eq_nodeTasks hbuilt.wellFormed n w ord c fail2repair
  rw [htasks] at hrun
  have hpersist : ∀ c, ∀ t ∈ (s.remap fail2repair).nodeTasks n w ord c,
      (s.remap fail2repair).Persists w t := fun c t ht =>
    persists_of_concactsLast (s.remap fail2repair) decode n w failed hn hR hw js hdec hdag
      hlast ord hl c ht
  by_cases hpk : pktnum = 0
  · subst hpk
    rw [run_eq_start_of_no_packets hrun]
    rfl
  have honce := oncePerRound hd hl hkey ord hw (fun c key => count_le_of_done (by omega)
    (show Chan.agent (.queue c key) = some c from rfl) hrun hdone) hpersist (hn.trans_le hR)
  have hinv := FifoNet.inv_run (inv_start hd hl hkey disk pktnum honce
    (fun c t ht => taskOf_nodeTasks hd hl ord ht) hpersist regs) hrun
  -- the block is on the last level, so all its packets are written
  have hon : REQUESTOR - i ∈ (s.remap fail2repair).handledByLast ord := by
    have hne : blockPackets w i ≠ [] := fun h => by
      have := congrArg List.length h
      simp [blockPackets] at this
      omega
    obtain ⟨v, hv⟩ := List.exists_mem_of_ne_nil _ (hlast.children i hi ▸ hne)
    have hlow := hbuilt.wellFormed.height_lt hv
    exact (mem_handledByLast hd ord).2 ⟨(hbuilt.wellFormed.childIndices_nodeIds hv).2,
      hlast.last i hi, by show s.ecdag.height _ ≠ 0; omega⟩
  let c := (s.remap fail2repair).coloring (REQUESTOR - i)
  have hlen : (net.pushed (.file c (s.blkAt i))).length = pktnum * w := by
    have hcount := (counted_tasks (show Chan.agent (.file c (s.blkAt i)) = some c from rfl)
      hrun).of_done fun j hj => by
        obtain ⟨k, -, rfl⟩ := List.mem_map.1 hj
        exact hdone c k
    rw [hcount.2]
    congr 1
    exact count_pushChans_file (s := s.remap fail2repair) ord (hn.symm ▸ hilt) (by omega) hon
      (hlast.children i hi) rfl hd
  rw [hinv.pushed_eq, hlen, map_range_mul]
  refine List.flatMap_congr fun r _ => ?_
  rw [blockPackets, List.map_map]
  refine List.map_congr_left fun j hj => ?_
  exact stream_file (s := s.remap fail2repair) disk (hn.symm ▸ hilt) (List.mem_range.1 hj)

end

/-- Each thread in turn, so many steps each. -/
def inTurn (l : List (ThreadId × Nat)) : List ThreadId := l.flatMap fun e => List.replicate e.2 e.1

/-- A schedule that ends the threads of all tasks. -/
theorem done_of_schedule {pktbytes : Nat} {m : TaskMap} {ecw pktnum : Nat}
    {disk : Int → Option String → Nat → GF256} {regs : ThreadId → Nat → Packet pktbytes}
    {schedule : List ThreadId} {net : FifoNet.Net ThreadId Chan Nat (Packet pktbytes)}
    (hrun : Lts.run FifoNet.step (FifoNet.Net.start (program m.get ecw pktnum disk) regs) schedule =
      some net)
    (hall : ∀ c ∈ m.keys, ∀ k < (m.get c).length, ThreadId.task c k ∈ schedule)
    (hend : ∀ i ∈ schedule, (net.threads i).prog.isEmpty = true) :
    ∀ c k, (net.threads (.task c k)).prog = [] := by
  intro c k
  by_cases hmem : ThreadId.task c k ∈ schedule
  · exact List.isEmpty_iff.1 (hend _ hmem)
  · rw [FifoNet.run_threads hrun hmem]
    refine program_none (List.getElem?_eq_none_iff.2 (Nat.le_of_not_lt fun hk => ?_))
    refine hmem (hall c ?_ k hk)
    by_contra hno
    rw [PushMap.get, AList.lookup_eq_none.2 fun h => hno (AList.mem_keys.1 h)] at hk
    exact absurd hk (Nat.not_lt_zero k)

/-- One packet of block 2 of the (3, 2) stripe: the agents run in turn. -/
def sumSchedule : List ThreadId := inTurn
  [(.task 0 0, 2), (.task 0 1, 2), (.net 0 5 0, 2), (.task 1 0, 2), (.task 1 1, 2), (.net 1 5 1, 2),
    (.task 5 0, 4), (.task 5 1, 2), (.task 5 2, 5), (.task 5 3, 2)]

theorem sumStripe_repaired : ∃ net : FifoNet.Net ThreadId Chan Nat (Packet 1),
    Lts.run FifoNet.step (FifoNet.Net.start
      (program (sumStripe.tasksOf (HashOrder.insertion Walk) 3 1 fun _ => none) 1 1
        fun c _ _ => ⟨BitVec.ofInt 8 c⟩) fun _ _ => 0) sumSchedule = some net ∧
    net.pushed (.file 5 (some "b2")) = (List.range 1).flatMap fun r => (blockPackets 1 2).map
      (sumStripe.ecdag.eval
        (sumStripe.sourcePacket 3 1 (fun i => i) (fun c _ _ => ⟨BitVec.ofInt 8 c⟩) r)) := by
  let start : FifoNet.Net ThreadId Chan Nat (Packet 1) := FifoNet.Net.start
    (program (sumStripe.tasksOf (HashOrder.insertion Walk) 3 1 fun _ => none) 1 1
      fun c _ _ => ⟨BitVec.ofInt 8 c⟩) fun _ _ => 0
  have hends : (Lts.run FifoNet.step start sumSchedule).any (fun net =>
      sumSchedule.all fun i => (net.threads i).prog.isEmpty) = true := by decide +kernel
  obtain ⟨net, hrun, hend⟩ := (Option.any_eq_true _ _).1 hends
  refine ⟨net, hrun, repair_refines sumStripe (fun _ _ => .build [⟨2, [0, 1, 3], [1, 1, 1]⟩]) 3 1 {2} rfl
    (by decide) (by decide) _ rfl (Or.inl (by decide)) ⟨by decide, by decide, by decide⟩
    (by decide) (by decide) _ (fun _ => none) (fun i => i)
    ⟨by decide, by decide, by decide⟩ 1 _ _ sumSchedule net hrun ?_ 2 (by decide)⟩
  exact done_of_schedule hrun (by decide +kernel) (List.all_eq_true.1 hend)

/-- One packet of each failed block of the Hitchhiker-XOR+ stripe. -/
def paritySchedule : List ThreadId := inTurn
  ([0, 1, 2, 3].flatMap (fun b : Nat => [(.task b 0, 4), (.task b 1, 4), (.net b 7 (2 * b), 2),
    (.net b 7 (2 * b + 1), 2)]) ++
  [(.task 7 0, 16), (.task 7 1, 18), (.task 7 2, 10), (.task 7 3, 4), (.net 7 8 10, 2),
    (.net 7 8 11, 2), (.task 8 0, 4), (.task 8 1, 4)])

/-- All tasks finish, and nothing was written for block 4. -/
theorem parityStripe_not_repaired : parityStripe.Legal 7 2 (fun i => i) ∧
    ∃ net : FifoNet.Net ThreadId Chan Nat (Packet 1),
      Lts.run FifoNet.step (FifoNet.Net.start
        (program (parityStripe.tasksOf (HashOrder.insertion Walk) 7 2 fun _ => none) 2 1
          fun _ _ _ => 0) fun _ _ => 0) paritySchedule = some net ∧
      (∀ c k, (net.threads (.task c k)).prog = []) ∧
      net.pushed (.file (parityStripe.coloring (REQUESTOR - 4)) (parityStripe.blkAt 4)) ≠
        (List.range 1).flatMap fun r => (blockPackets 2 4).map
          (parityStripe.ecdag.eval
            (parityStripe.sourcePacket 7 2 (fun i => i) (fun _ _ _ => 0) r)) := by
  refine ⟨⟨by decide +kernel, by decide, by decide +kernel⟩, ?_⟩
  let start : FifoNet.Net ThreadId Chan Nat (Packet 1) := FifoNet.Net.start
    (program (parityStripe.tasksOf (HashOrder.insertion Walk) 7 2 fun _ => none) 2 1
      fun _ _ _ => 0) fun _ _ => 0
  have hends : (Lts.run FifoNet.step start paritySchedule).any (fun net =>
      (paritySchedule.all fun i => (net.threads i).prog.isEmpty) &&
        (net.pushed (.file 7 (some "b4"))).isEmpty) = true := by decide +kernel
  obtain ⟨net, hrun, hend⟩ := (Option.any_eq_true _ _).1 hends
  rw [Bool.and_eq_true] at hend
  refine ⟨net, hrun, done_of_schedule hrun (by decide +kernel) (List.all_eq_true.1 hend.1), ?_⟩
  intro h
  have hlen := congrArg List.length h
  rw [List.isEmpty_iff.1 (show (net.pushed (.file (parityStripe.coloring (REQUESTOR - 4))
    (parityStripe.blkAt 4))).isEmpty = true from hend.2)] at hlen
  simp [blockPackets] at hlen

end Stripe

end StripeRepair

import StripeRepair.Common.StripeThreads

/-!
# The repair of all batches

The coordinator, the agents, their threads and the connections take steps in any order.

* `repair_completes`: they never block each other, and all runs end after the same number of
  steps.
* `repair_all_writes`: at any time the repaired blocks of all batches are right as far as they
  are written, and in the end they are complete.
* `repair_in_order`: no agent is asked to repair a batch before all blocks of the earlier batches
  are completely written.
-/

namespace StripeRepair

/-- The DAG of the stripe repairs its failed blocks, its colours are legal and it is well
planned. -/
structure BatchStripe.Ready (cl : Cluster) (st : BatchStripe) : Prop where
  blocks : st.stripe.blklist.length = cl.ecn
  decodes : ∃ decode js, decode (packets cl.ecw (survivors cl.ecn st.failed))
      (packets cl.ecw (losses cl.ecn st.failed)) = ECDAG.build js ∧
    (st.stripe.ecdag = genRepairECDAG decode cl.ecn cl.ecw st.failed ∨
      st.stripe.ecdag = (genRepairECDAG decode cl.ecn cl.ecw st.failed).refreshECDAG)
  last : Stripe.ConcactsLast st.stripe.ecdag cl.ecw st.failed
  failed_subset : st.failed ⊆ Finset.range cl.ecn
  keysFree : st.stripe.KeysFree
  legal : (st.stripe.remap cl.fail2repair).Legal cl.ecn cl.ecw st.placement
  planned : (st.stripe.remap cl.fail2repair).WellPlanned

/-- All stripes of all batches are ready, and ids and addresses are distinct. -/
structure Cluster.Ready (cl : Cluster) (batches : List Batch) : Prop extends
    cl.Addressed batches where
  ecn_le : cl.ecn ≤ REQUESTOR
  ecw_pos : 0 < cl.ecw
  stripes : ∀ b ∈ batches, ∀ st ∈ b.stripeList, st.Ready cl

namespace BatchStripe

section
variable {cl : Cluster} {pktbytes : Nat} {st : BatchStripe}

variable (cl pktbytes st) in
/-- The packets of a repaired block. -/
def repaired (i : Nat) : List (Packet pktbytes) :=
  (List.range cl.pktnum).flatMap fun r => (blockPackets cl.ecw i).map
    (st.stripe.ecdag.eval
      ((st.stripe.remap cl.fail2repair).sourcePacket cl.ecn cl.ecw st.placement cl.disk r))

variable (cl st) in
/-- Where a repaired block is written. -/
def file (i : Nat) : Chan :=
  .file ((st.stripe.remap cl.fail2repair).coloring (REQUESTOR - i)) (st.stripe.blkAt i)

variable (hR : cl.ecn ≤ REQUESTOR) (hw : 0 < cl.ecw) (h : st.Ready cl)
include hw h

theorem Ready.built : st.stripe.ecdag.Built := by
  obtain ⟨decode, js, hdec, hdag⟩ := h.decodes
  exact (genRepairECDAG_spec hw hdec hdag).1

theorem Ready.tasks_eq :
    st.tasks cl = (st.stripe.remap cl.fail2repair).nodeTasks cl.ecn cl.ecw st.walks :=
  funext fun c => Stripe.tasksOf_eq_nodeTasks (h.built hw).wellFormed cl.ecn cl.ecw st.walks c
    cl.fail2repair

theorem Ready.color_of_mem_sends (c : Int) : ∀ e ∈ (st.tasks cl c).flatMap Task.sendEntries,
    (st.stripe.remap cl.fail2repair).coloring e.1 = c := by
  have hd : (st.stripe.remap cl.fail2repair).ecdag.WellFormed := (h.built hw).wellFormed
  intro e he
  rw [h.tasks_eq hw] at he
  exact Stripe.color_of_mem_sends hd h.legal st.walks he

theorem Ready.counted (ch : Chan) : ∃ ts : List ThreadId, ts.Nodup ∧ FifoNet.Counted ts ch
    (cl.pktnum * (usesOf (st.tasks cl) cl.ecw (st.stripe.remap cl.fail2repair).coloring ch).1)
    (cl.pktnum * (usesOf (st.tasks cl) cl.ecw (st.stripe.remap cl.fail2repair).coloring ch).2)
    (FifoNet.Net.start (st.programs cl pktbytes) fun _ _ => 0) :=
  counted_program _ _ (h.color_of_mem_sends hw) ch

include hR

theorem Ready.persists (c : Int) : ∀ t ∈ st.tasks cl c,
    (st.stripe.remap cl.fail2repair).Persists cl.ecw t := by
  obtain ⟨decode, js, hdec, hdag⟩ := h.decodes
  intro t ht
  rw [h.tasks_eq hw] at ht
  exact Stripe.persists_of_concactsLast (st.stripe.remap cl.fail2repair) decode cl.ecn cl.ecw
    st.failed h.blocks hR hw js hdec hdag h.last st.walks h.legal c ht

/-- **The packets of a stripe that is ready** go through its queues as they ought to. -/
theorem Ready.flows : st.Flows cl pktbytes := by
  have hd : (st.stripe.remap cl.fail2repair).ecdag.WellFormed := (h.built hw).wellFormed
  have hle : ∀ c key, ((st.tasks cl c).flatMap (Task.popChans cl.ecw c)).count (.queue c key) ≤
      ((st.tasks cl c).flatMap (Task.pushChans cl.ecw c)).count (.queue c key) := by
    rw [h.tasks_eq hw]
    exact fun c key => (h.planned.even hd h.legal st.walks hw c key).le
  have honce : OncePerRound cl.ecw (st.tasks cl) := by
    have hpersists := h.persists hR hw
    rw [h.tasks_eq hw] at hle hpersists ⊢
    exact Stripe.oncePerRound hd h.legal h.keysFree st.walks hw hle hpersists
      (h.blocks.trans_le hR)
  have hstart : ∀ regs, FifoNet.Inv (Batch.streamOf cl st : Chan → Nat → Packet pktbytes)
      (FifoNet.Net.start (st.programs cl pktbytes) regs) := by
    refine fun regs => Stripe.inv_start hd h.legal h.keysFree cl.disk cl.pktnum honce
      (fun c t ht => ?_) (h.persists hR hw) regs
    rw [h.tasks_eq hw] at ht
    exact Stripe.taskOf_nodeTasks hd h.legal st.walks ht
  have hapart : FifoNet.Apart (st.programs cl pktbytes) := apart_program honce
  refine ⟨fun i regs => (hstart fun _ => regs).obeys i, ?_, hapart, fun ch hch => ?_⟩
  · rw [BatchStripe.programs, h.tasks_eq hw]
    exact Stripe.staged_program hd h.legal h.keysFree st.walks cl.pktnum cl.disk hw h.planned
  · obtain ⟨ts, hts, hc⟩ := h.counted hw ch
    obtain ⟨hpops, hpushes⟩ := hapart.length_uses hts hc
    rw [hpops, hpushes, h.tasks_eq hw, h.planned.usesOf_eq hd h.legal st.walks hw hch]

/-- **What the programs write to a failed block**: the repaired block. -/
theorem Ready.written {i : Nat} (hi : i ∈ st.failed) :
    (List.range' 0 (FifoNet.pushRegs (st.file cl i) (st.programs cl pktbytes (FifoNet.pusher
      (st.programs cl pktbytes) (st.file cl i)))).length).map (Batch.streamOf cl st (st.file cl i)) =
      st.repaired cl pktbytes i := by
  obtain ⟨decode, js, hdec, hdag⟩ := h.decodes
  obtain ⟨ts, hts, hc⟩ := h.counted hw (st.file cl i)
  have hcount : (usesOf (st.tasks cl) cl.ecw (st.stripe.remap cl.fail2repair).coloring
      (st.file cl i)).2 = cl.ecw := by
    rw [h.tasks_eq hw]
    exact Stripe.count_pushChans_failed (st.stripe.remap cl.fail2repair) decode cl.ecn
      cl.ecw st.failed h.blocks hR hw js hdec hdag h.last h.failed_subset st.walks hi
  rw [((h.flows hR hw).apart.length_uses hts hc).2, hcount, ← List.range_eq_range']
  exact Stripe.map_stream_file (st.stripe.remap cl.fail2repair) cl.ecn cl.ecw h.blocks
    (Finset.mem_range.1 (h.failed_subset hi)) cl.pktnum cl.disk _ st.placement

end

end BatchStripe

/-! ## What is written in all -/

namespace Batch

section
variable {cl : Cluster} {batches : List Batch} {pktbytes : Nat} {b : Batch} {i : Actor}
  {batchid stripeid : Int} {ch : Chan}

theorem sent_control {l : List (Message pktbytes)} (hl : ∀ e ∈ l, Control e) :
    Proc.sent (cl.writer batches pktbytes) (cl.reader batches pktbytes) i
      (.data batchid stripeid ch) (Proc.say l) = [] :=
  List.eq_nil_iff_forall_not_mem.2 fun _ hv =>
    hl _ (Proc.mem_sent_say hv) batchid stripeid ch rfl

/-- A batch, for a queue of a stripe. -/
theorem sent_choreography :
    Proc.sent (cl.writer batches pktbytes) (cl.reader batches pktbytes) i
        (.data batchid stripeid ch) (b.choreography cl) =
      b.stripeList.flatMap fun st => (Proc.pushesAt (.data batchid stripeid ch)
        (b.packetEvents cl st i : List (Act Port (Port.Value pktbytes) × Nat))).map Prod.fst := by
  rw [choreography_eq, Proc.sent_append, Proc.sent_append, sent_control (control_opening cl b),
    sent_control (control_closing cl b), List.nil_append, List.append_nil]
  exact List.flatMap_map ..

theorem sent_of_ne (hid : b.batchId ≠ batchid) :
    Proc.sent (cl.writer batches pktbytes) (cl.reader batches pktbytes) i
      (.data batchid stripeid ch)
      (b.choreography cl : List (Proc.Item _ _ (Port.Value pktbytes))) = [] := by
  rw [sent_choreography, List.flatMap_eq_nil_iff]
  intro st _
  rw [(uses_packetEvents fun ch' he => hid (Port.data.inj he).1.symm).1]
  rfl

/-- **All that is pushed to a queue of a stripe.** -/
theorem sent_all (hA : cl.Addressed batches) (hb : b ∈ batches) {st : BatchStripe}
    (hst : st ∈ b.stripeList) :
    Proc.sent (cl.writer batches pktbytes) (cl.reader batches pktbytes) i
        (.data b.batchId st.stripeId ch) (cl.choreography batches pktbytes) =
      (Proc.pushesAt (.data b.batchId st.stripeId ch) (b.packetEvents cl st i)).map Prod.fst := by
  rw [Cluster.choreography, Proc.sent_flatMap,
    Proc.flatMap_of_key hA.batchIds hb fun b' _ hne => sent_of_ne hne, sent_choreography]
  refine Proc.flatMap_of_key (hA.stripeIds b hb) hst fun st' _ hne => ?_
  rw [(uses_packetEvents fun ch' he => hne (Port.data.inj he).2.1.symm).1]
  rfl

/-- **A repaired block, as its thread writes it.** -/
theorem sent_file (hR : cl.Ready batches) (hb : b ∈ batches) {st : BatchStripe}
    (hst : st ∈ b.stripeList) {blk : Nat} (hblk : blk ∈ st.failed) :
    Proc.sent (cl.writer batches pktbytes) (cl.reader batches pktbytes)
        (cl.writer batches pktbytes (.data b.batchId st.stripeId (st.file cl blk)))
        (.data b.batchId st.stripeId (st.file cl blk)) (cl.choreography batches pktbytes) =
      st.repaired cl pktbytes blk := by
  have hready := hR.stripes b hb st hst
  have hF : st.Flows cl pktbytes := hready.flows hR.ecn_le hR.ecw_pos
  rw [sent_all hR.toAddressed hb hst, ← hready.written hR.ecn_le hR.ecw_pos hblk]
  let progs := st.programs cl pktbytes
  by_cases hnone : FifoNet.pushRegs (st.file cl blk)
      (progs (FifoNet.pusher progs (st.file cl blk))) = []
  · rw [hnone]
    refine List.map_eq_nil_iff.2 ?_
    by_contra hne
    obtain ⟨j, -, hj⟩ := of_pushesAt_packetEvents hne
    exact hj (hF.apart.pusher_eq hj ▸ hnone)
  · rw [writer_of_pushRegs hR.toAddressed hb hst hF hnone, pushesAt_packetEvents
      (threadOf_actorOf hR.toAddressed hb hst (ne_nil_of_pushRegs hnone)), List.map_map]
    rfl

/-! ## What comes first -/

variable (cl) in
/-- If the message is a request, it is for batch `b` and for a node with tasks in it. -/
def RequestFor (b : Batch) (e : Message pktbytes) : Prop :=
  ∀ ip cmd, e = ⟨.agRequest ip, cmd⟩ → AGCommand.batchId cmd = b.batchId ∧
    ∃ c ∈ b.waiters cl, cl.conf.ip c = ip

theorem requestFor_opening : ∀ e ∈ (b.opening cl : List (Message pktbytes)), b.RequestFor cl e := by
  unfold opening
  simp only [List.forall_mem_append, List.forall_mem_flatMap]
  refine ⟨⟨⟨⟨⟨fun c _ => ?_, fun c hc => ?_⟩, fun c _ => ?_⟩, fun c _ => ?_⟩, fun c _ => ?_⟩,
    fun c _ => ?_⟩
  · exact List.forall_mem_singleton.2 fun _ _ h => by cases h
  · unfold requests NodeBatchTask.sendCommands NodeBatchTask.sendTaskCommands Task.messages
    refine List.forall_mem_cons.2 ⟨fun ip cmd he => ?_, ?_⟩
    · rw [NodeBatchTask.sendAGCommand, taskOf_eq] at he
      cases he
      exact ⟨rfl, c, (b.senders_perm cl).mem_iff.1 hc, rfl⟩
    · refine List.forall_mem_flatMap.2 fun x _ => List.forall_mem_flatMap.2 fun t _ => ?_
      refine List.forall_mem_cons.2 ⟨(fun _ _ h => by cases h), ?_⟩
      exact List.forall_mem_map.2 fun ci _ _ _ h => by cases h
  · exact List.forall_mem_singleton.2 fun _ _ h => by cases h
  · exact List.forall_mem_singleton.2 fun _ _ h => by cases h
  · exact forStripes_forall fun st _ => List.forall_mem_singleton.2 fun _ _ h => by cases h
  · exact forStripes_forall fun st _ => startTasks_forall fun t _ =>
      List.forall_mem_singleton.2 fun _ _ h => by cases h

theorem requestFor_closing : ∀ e ∈ (b.closing cl : List (Message pktbytes)), b.RequestFor cl e := by
  unfold closing
  simp only [List.forall_mem_append, List.forall_mem_flatMap]
  refine ⟨⟨⟨fun c _ => ?_, fun c _ => ?_⟩, fun c _ => ?_⟩, fun c _ => ?_⟩
  · exact forStripes_forall fun st _ => joinTasks_forall fun t _ =>
      List.forall_mem_singleton.2 fun _ _ h => by cases h
  · exact forStripes_forall fun st _ => List.forall_mem_singleton.2 fun _ _ h => by cases h
  · exact List.forall_mem_singleton.2 fun _ _ h => by cases h
  · exact List.forall_mem_singleton.2 fun _ _ h => by cases h

/-- **A request that is sent in a batch** is for this batch. -/
theorem request_of_mem_sent {ip : Nat} {cmd : AGCommand}
    (h : cmd ∈ Proc.sent (cl.writer batches pktbytes) (cl.reader batches pktbytes) i (.agRequest ip)
      (b.choreography cl : List (Proc.Item _ _ (Port.Value pktbytes)))) :
    cmd.batchId = b.batchId ∧ ∃ c ∈ b.waiters cl, cl.conf.ip c = ip := by
  rw [choreography_eq, Proc.sent_append, Proc.sent_append, List.append_assoc] at h
  rcases List.mem_append.1 h with h | h
  · exact requestFor_opening _ (Proc.mem_sent_say h) _ _ rfl
  rcases List.mem_append.1 h with h | h
  · obtain ⟨it, hit, hv⟩ := List.mem_flatMap.1 h
    obtain ⟨st, -, rfl⟩ := List.mem_map.1 hit
    have hnone : Proc.pushesAt (.agRequest ip)
        (b.packetEvents cl st i : List (Act Port (Port.Value pktbytes) × Nat)) = [] :=
      (uses_packetEvents fun ch he => by cases he).1
    change cmd ∈ (Proc.pushesAt (.agRequest ip) (b.packetEvents cl st i)).map Prod.fst at hv
    rw [hnone] at hv
    cases hv
  · exact requestFor_closing _ (Proc.mem_sent_say h) _ _ rfl

end

end Batch

/-! ## All runs -/

namespace Cluster

section
variable {cl : Cluster} {batches : List Batch} {pktbytes : Nat}

theorem Ready.flows (h : cl.Ready batches) :
    ∀ b ∈ batches, ∀ st ∈ b.stripeList, st.Flows cl pktbytes :=
  fun b hb st hst => (h.stripes b hb st hst).flows h.ecn_le h.ecw_pos

variable (pktbytes) in
/-- **No deadlock**: a run of the coordinator, the agents, their threads and the connections is
stuck exactly when it has `N` steps, under every schedule.  Then the coordinator has ended, and
all that was sent has been received; what is written to a file stays there. -/
theorem repair_completes (h : cl.Ready batches) : ∃ N, ∀ schedule s,
    Lts.run (Proc.step (cl.code batches)) (Proc.Net.start (cl.code batches)) schedule = some s →
    schedule.length ≤ N ∧
    (Lts.Stuck (Proc.step (cl.code batches)) s ↔ schedule.length = N) ∧
    (Lts.Stuck (Proc.step (cl.code batches)) s →
      Proc.head (cl.code batches .coordinator) (s.code .coordinator) = .done ∧
      ∀ port, (∀ batchid stripeid c f, port ≠ .data batchid stripeid (.file c f)) →
        s.popped port = (s.pushed port : List (Port.Value pktbytes port)).length) := by
  let S := script batches pktbytes h.toAddressed h.flows
  refine ⟨S.length, fun schedule s hrun => ⟨S.length_le hrun, S.stuck_iff hrun, fun hstuck => ?_⟩⟩
  have hend := S.at_end hrun hstuck
  refine ⟨(hend.does .coordinator).nil_inv rfl, fun port hport => ?_⟩
  obtain ⟨r, hr⟩ : ∃ r, cl.reader batches pktbytes port = some r := by
    cases port with
    | data batchid stripeid ch =>
      cases ch with
      | file c f => exact absurd rfl (hport batchid stripeid c f)
      | _ => exact ⟨_, rfl⟩
    | _ => exact ⟨_, rfl⟩
  exact Proc.At.popped_of_end hend hr

/-- **All batches are repaired**: at any time each failed block of each stripe is right as far as it
is written, and when nothing more can be done it is written to its end. -/
theorem repair_all_writes (h : cl.Ready batches) (b : Batch) (hb : b ∈ batches) (st : BatchStripe)
    (hst : st ∈ b.stripeList) (i : Nat) (hi : i ∈ st.failed) (schedule : List Actor)
    (s : Proc.Net Actor Port (Port.Value pktbytes))
    (hrun : Lts.run (Proc.step (cl.code batches)) (Proc.Net.start (cl.code batches)) schedule =
      some s) :
    s.pushed (.data b.batchId st.stripeId (st.file cl i)) <+: st.repaired cl pktbytes i ∧
    (Lts.Stuck (Proc.step (cl.code batches)) s →
      s.pushed (.data b.batchId st.stripeId (st.file cl i)) = st.repaired cl pktbytes i) := by
  let S := script batches pktbytes h.toAddressed h.flows
  obtain ⟨left, hat, -⟩ := S.followed hrun
  rw [← Batch.sent_file h hb hst hi]
  exact ⟨Proc.At.pushed_isPrefix hat _, fun hstuck => Proc.At.pushed_of_end (S.at_end hrun hstuck) _⟩

/-- The thread of a task of a batch that the coordinator has gone past is at its end: it was
joined, as were the thread of its stripe and the one that waits for the flag of its agent. -/
theorem task_reached (h : cl.Ready batches) {b : Batch}
    {G1 G2 : List (Proc.Item Actor Port (Port.Value pktbytes))}
    (hG : cl.choreography batches pktbytes = G1 ++ Proc.say (b.closing cl) ++ G2)
    {s : Proc.Net Actor Port (Port.Value pktbytes)}
    {left : Actor → List (Act Port (Port.Value pktbytes) × ℕ ×ₗ ℕ)}
    (hat : (script batches pktbytes h.toAddressed h.flows).At s left)
    (hreached : Proc.Reached left .coordinator (G1 ++ Proc.say (b.closing cl)).length)
    {c : Int} {st : BatchStripe} (hst : st ∈ b.stripesOf cl c) {t : Task} {k : Nat}
    (hget : (st.tasks cl c)[k]? = some t) :
    Proc.Reached left (.thread (.task (cl.conf.ip c) b.batchId st.stripeId k)) G1.length := by
  let l1 : List (Message pktbytes) :=
    (b.waiters cl).flatMap fun c => b.forStripes cl c (b.joinTasks cl c)
  let l2 : List (Message pktbytes) :=
    (b.waiters cl).flatMap fun c => b.forStripes cl c (b.joinStripe cl c)
  let l3 : List (Message pktbytes) := (b.waiters cl).flatMap b.flag
  let l4 : List (Message pktbytes) := (b.waiters cl).flatMap Batch.waiterDone
  have hclosing : G1 ++ Proc.say (b.closing cl) =
      G1 ++ Proc.say l1 ++ Proc.say l2 ++ Proc.say l3 ++ Proc.say l4 := by
    rw [Batch.closing]
    simp only [Proc.say_append, List.append_assoc, l1, l2, l3, l4]
  rw [hclosing] at hreached hG
  have hc : c ∈ b.waiters cl := (Batch.mem_waiters cl b).2
    ⟨st, List.mem_of_mem_filter hst, of_decide_eq_true (List.mem_filter.1 hst).2⟩
  have hlaunched : (t, k) ∈ launched (st.tasks cl c) :=
    (launched_perm _).mem_iff.2 (List.mem_zipIdx_iff_getElem?.2 hget)
  have hG3 : cl.choreography batches pktbytes =
      G1 ++ Proc.say l1 ++ Proc.say l2 ++ Proc.say l3 ++ (Proc.say l4 ++ G2) := by
    simp only [hG, List.append_assoc]
  have hG2 : cl.choreography batches pktbytes =
      G1 ++ Proc.say l1 ++ Proc.say l2 ++ (Proc.say l3 ++ Proc.say l4 ++ G2) := by
    simp only [hG, List.append_assoc]
  have hG1 : cl.choreography batches pktbytes =
      G1 ++ Proc.say l1 ++ (Proc.say l2 ++ Proc.say l3 ++ Proc.say l4 ++ G2) := by
    simp only [hG, List.append_assoc]
  -- back from each phase to the one before it
  have h4 : Proc.Reached left (.thread (.waitFinishFlag c))
      (G1 ++ Proc.say l1 ++ Proc.say l2 ++ Proc.say l3).length :=
    Proc.At.reached_phase hat hG (e := ⟨.join (.waitFinishFlag c), ()⟩)
      (List.mem_flatMap.2 ⟨c, hc, List.mem_singleton_self _⟩) rfl hreached
  have h3 : Proc.Reached left (.agent (cl.conf.ip c))
      (G1 ++ Proc.say l1 ++ Proc.say l2).length :=
    Proc.At.reached_phase hat hG3 (e := ⟨.finish b.batchId c, ()⟩)
      (List.mem_flatMap.2 ⟨c, hc, List.mem_singleton_self _⟩) rfl h4
  have h2 : Proc.Reached left (.thread (.repairStripe (cl.conf.ip c) b.batchId st.stripeId))
      (G1 ++ Proc.say l1).length :=
    Proc.At.reached_phase hat hG2 (e := ⟨.join (.repairStripe (cl.conf.ip c) b.batchId st.stripeId), ()⟩)
      (List.mem_flatMap.2 ⟨c, hc, List.mem_flatMap.2 ⟨st, hst, List.mem_singleton_self _⟩⟩) rfl h3
  exact Proc.At.reached_phase hat hG1 (e := b.joinTask cl c st (t, k))
    (List.mem_flatMap.2 ⟨c, hc, List.mem_flatMap.2 ⟨st, hst, List.mem_map_of_mem hlaunched⟩⟩) rfl h2

/-- **When the coordinator has gone past a batch**, all its blocks are written. -/
theorem written_of_reached (h : cl.Ready batches) {earlier later : List Batch} {b : Batch}
    (hsplit : batches = earlier ++ b :: later) {s : Proc.Net Actor Port (Port.Value pktbytes)}
    {left : Actor → List (Act Port (Port.Value pktbytes) × ℕ ×ₗ ℕ)}
    (hat : (script batches pktbytes h.toAddressed h.flows).At s left)
    (hreached : Proc.Reached left .coordinator
      ((earlier ++ [b]).flatMap (Batch.choreography cl) : List (Proc.Item Actor Port
        (Port.Value pktbytes))).length)
    {st : BatchStripe} (hst : st ∈ b.stripeList) {i : Nat} (hi : i ∈ st.failed) :
    s.pushed (.data b.batchId st.stripeId (st.file cl i)) = st.repaired cl pktbytes i := by
  have hb : b ∈ batches := hsplit ▸ List.mem_append_right _ List.mem_cons_self
  have hF : st.Flows cl pktbytes := h.flows b hb st hst
  let port : Port := .data b.batchId st.stripeId (st.file cl i)
  let G1 : List (Proc.Item Actor Port (Port.Value pktbytes)) :=
    earlier.flatMap (Batch.choreography cl) ++
      (Proc.say (b.opening cl) ++ b.stripeList.map (b.packets cl))
  let G2 : List (Proc.Item Actor Port (Port.Value pktbytes)) :=
    later.flatMap (Batch.choreography cl)
  have hpast : ((earlier ++ [b]).flatMap (Batch.choreography cl) : List (Proc.Item Actor Port
      (Port.Value pktbytes))) = G1 ++ Proc.say (b.closing cl) := by
    rw [List.flatMap_append, List.flatMap_singleton, Batch.choreography_eq cl b]
    simp only [List.append_assoc, G1]
  have hG : cl.choreography batches pktbytes = G1 ++ Proc.say (b.closing cl) ++ G2 := by
    rw [← hpast, choreography, hsplit, ← List.flatMap_append, List.append_assoc,
      List.singleton_append]
  rw [hpast] at hreached
  have hprefix := Proc.At.pushed_isPrefix hat port
  rw [Batch.sent_file h hb hst hi] at hprefix
  let progs := st.programs cl pktbytes
  by_cases hnone : FifoNet.pushRegs (st.file cl i)
      (progs (FifoNet.pusher progs (st.file cl i))) = []
  · -- there is nothing to write
    have hnil : st.repaired cl pktbytes i = [] := by
      rw [← (h.stripes b hb st hst).written h.ecn_le h.ecw_pos hi, hnone]
      rfl
    rw [hnil] at hprefix ⊢
    exact List.prefix_nil.1 hprefix
  · -- the thread that writes the block has been joined
    have hwriter := Batch.writer_of_pushRegs h.toAddressed hb hst hF hnone
    rcases of_pushRegs_program hnone with ⟨c, k, t, hj, hget, -⟩ | ⟨c, sendto, v, -, he, -⟩
    · rw [hj] at hwriter
      have hmem : st ∈ b.stripesOf cl c := by
        by_contra hno
        have hget' : (st.tasks cl c)[k]? = some t := hget
        rw [Batch.tasks_of_not_mem hst hno] at hget'
        cases hget'
      have hreach : Proc.Reached left (cl.writer batches pktbytes port) G1.length := by
        rw [hwriter]
        exact task_reached h hG hat hreached hmem hget
      have hsent := Proc.At.pushed_of_reached hat (hG.trans (List.append_assoc _ _ _)) hreach
      -- nothing is written after the packets of the batch
      have hids : (batches.map Batch.batchId).Nodup := h.batchIds
      rw [hsplit, List.map_append, List.map_cons, List.nodup_append, List.nodup_cons] at hids
      have hlater : Proc.sent (cl.writer batches pktbytes) (cl.reader batches pktbytes)
          (cl.writer batches pktbytes port) port G2 = [] := by
        rw [Proc.sent_flatMap, List.flatMap_eq_nil_iff]
        exact fun b' hb' => Batch.sent_of_ne fun he => hids.2.1.1 (he ▸ List.mem_map_of_mem hb')
      have hall : Proc.sent (cl.writer batches pktbytes) (cl.reader batches pktbytes)
          (cl.writer batches pktbytes port) port (cl.choreography batches pktbytes) =
          st.repaired cl pktbytes i := Batch.sent_file h hb hst hi
      rw [hG, Proc.sent_append, Proc.sent_append, Batch.sent_control (Batch.control_closing cl b),
        hlater, List.append_nil, List.append_nil] at hall
      rw [hall] at hsent
      exact hprefix.eq_of_length_le hsent.length_le
    · cases he

/-- **Batch after batch**: a request in the queue of an agent is for a batch of the list, and all
failed blocks of the batches before it have been written to their ends. -/
theorem repair_in_order (h : cl.Ready batches) (schedule : List Actor)
    (s : Proc.Net Actor Port (Port.Value pktbytes))
    (hrun : Lts.run (Proc.step (cl.code batches)) (Proc.Net.start (cl.code batches)) schedule =
      some s)
    (ip : Nat) (cmd : AGCommand) (hcmd : cmd ∈ s.pushed (.agRequest ip)) :
    ∃ earlier b later, batches = earlier ++ b :: later ∧ cmd.batchId = b.batchId ∧
      ∀ b' ∈ earlier, ∀ st ∈ b'.stripeList, ∀ i ∈ st.failed,
        s.pushed (.data b'.batchId st.stripeId (st.file cl i)) = st.repaired cl pktbytes i := by
  obtain ⟨left, hat, -⟩ := (script batches pktbytes h.toAddressed h.flows).followed hrun
  -- the batch of the request
  have hsent := (Proc.At.pushed_isPrefix hat (.agRequest ip)).subset hcmd
  rw [choreography, Proc.sent_flatMap] at hsent
  obtain ⟨b, hb, hsent⟩ := List.mem_flatMap.1 hsent
  obtain ⟨hid, c, hc, rfl⟩ := Batch.request_of_mem_sent hsent
  obtain ⟨earlier, later, hsplit⟩ := List.append_of_mem hb
  refine ⟨earlier, b, later, hsplit, hid, fun b' hb' st hst i hi => ?_⟩
  have hids : (batches.map Batch.batchId).Nodup := h.batchIds
  rw [hsplit, List.map_append, List.map_cons, List.nodup_append] at hids
  let G1 : List (Proc.Item Actor Port (Port.Value pktbytes)) :=
    earlier.flatMap (Batch.choreography cl)
  let l : List (Message pktbytes) := (b.senders cl).flatMap (b.askSender cl)
  obtain ⟨G2, hG2⟩ : G1 ++ Proc.say l <+: cl.choreography batches pktbytes := by
    rw [choreography, hsplit, List.flatMap_append, List.flatMap_cons, Batch.choreography]
    simp only [List.append_assoc]
    exact (List.prefix_append_right_inj _).2 (List.prefix_append _ _)
  -- the request has not been sent before the sender was asked
  have hno : cmd ∉ Proc.sent (cl.writer batches pktbytes) (cl.reader batches pktbytes)
      (cl.writer batches pktbytes (.agRequest (cl.conf.ip c))) (.agRequest (cl.conf.ip c))
      (G1 ++ Proc.say l : List (Proc.Item _ _ (Port.Value pktbytes))) := by
    intro hmem
    rw [Proc.sent_append] at hmem
    rcases List.mem_append.1 hmem with hmem | hmem
    · rw [Proc.sent_flatMap] at hmem
      obtain ⟨b'', hb'', hmem⟩ := List.mem_flatMap.1 hmem
      refine hids.2.2 _ (List.mem_map_of_mem hb'') _ List.mem_cons_self ?_
      rw [← hid, (Batch.request_of_mem_sent hmem).1]
    · obtain ⟨c', -, he⟩ := List.mem_flatMap.1 (Proc.mem_sent_say hmem)
      cases List.mem_singleton.1 he
  have hnode : cl.conf.nodeid (cl.conf.ip c) = c := Batch.nodeid_ip h.toAddressed hb hc
  have hsender : Proc.Reached left (.thread (.sendCommands c)) (G1 ++ Proc.say l).length := by
    have hreached := Proc.At.reached_of_mem hat hG2.symm hcmd hno
    change Proc.Reached left (.thread (.sendCommands (cl.conf.nodeid (cl.conf.ip c)))) _ at hreached
    rwa [hnode] at hreached
  -- it was asked after the batches before it
  have hcoordinator : Proc.Reached left .coordinator G1.length :=
    Proc.At.reached_phase hat hG2.symm (e := ⟨.start (.sendCommands c), b.taskOf cl c⟩)
      (List.mem_flatMap.2 ⟨c, (b.senders_perm cl).mem_iff.2 hc, List.mem_singleton_self _⟩) rfl
      hsender
  obtain ⟨earlier1, earlier2, hsplit'⟩ := List.append_of_mem hb'
  have hsplit1 : batches = earlier1 ++ b' :: (earlier2 ++ b :: later) := by
    rw [hsplit, hsplit', List.append_assoc]
    rfl
  refine written_of_reached h hsplit1 hat (hcoordinator.mono ?_) hst hi
  have hG1 : G1 = (earlier1 ++ [b']).flatMap (Batch.choreography cl) ++
      earlier2.flatMap (Batch.choreography cl) := by
    rw [← List.flatMap_append, List.append_assoc, List.singleton_append, ← hsplit']
  rw [hG1, List.length_append]
  exact Nat.le_add_right _ _

end

/-! ## Two batches of a stripe -/

/-- Six agents under the addresses 10 to 15. -/
def sumCluster : Cluster where
  conf := ⟨[10, 11, 12, 13, 14, 15], []⟩
  ecn := 3
  ecw := 1
  pktnum := 2
  fail2repair := fun _ => none
  disk := fun c _ _ => ⟨BitVec.ofInt 8 c⟩
  walks := HashOrder.insertion NodeWalk

def sumBatch (batchId : Int) : Batch where
  batchId := batchId
  stripeList := [⟨7, Stripe.sumStripe, fun i => i, {2}, HashOrder.insertion Walk⟩]

theorem sumCluster_ready : sumCluster.Ready [sumBatch 0, sumBatch 1] where
  ips := by decide
  batchIds := by decide
  stripeIds := by decide
  nodes := by decide
  ecn_le := by decide
  ecw_pos := by decide
  stripes := by
    have hstripe : BatchStripe.Ready sumCluster
        ⟨7, Stripe.sumStripe, fun i => i, {2}, HashOrder.insertion Walk⟩ :=
      { blocks := rfl
        decodes := ⟨fun _ _ => .build [⟨2, [0, 1, 3], [1, 1, 1]⟩], _, rfl, Or.inl (by decide)⟩
        last := ⟨by decide, by decide, by decide⟩
        failed_subset := by decide
        keysFree := by decide
        legal := ⟨by decide, by decide, by decide⟩
        planned := Stripe.sumStripe_wellPlanned }
    intro b hb st hst
    rcases List.mem_cons.1 hb with rfl | hb
    · exact List.mem_singleton.1 hst ▸ hstripe
    · obtain rfl := List.mem_singleton.1 hb
      exact List.mem_singleton.1 hst ▸ hstripe

/-- Some run goes on to the end. -/
theorem Ready.exists_stuck {cl : Cluster} {batches : List Batch} (pktbytes : Nat)
    (h : cl.Ready batches) : ∃ schedule s, Lts.run (Proc.step (cl.code batches))
      (Proc.Net.start (cl.code batches : Actor → Code pktbytes)) schedule = some s ∧
        Lts.Stuck (Proc.step (cl.code batches)) s :=
  (script batches pktbytes h.toAddressed h.flows).exists_stuck

theorem sumCluster_completes : ∃ schedule s, Lts.run
    (Proc.step (sumCluster.code [sumBatch 0, sumBatch 1])) (Proc.Net.start
      (sumCluster.code [sumBatch 0, sumBatch 1])) schedule = some s ∧
    s.popped (.finish 1 5) = (s.pushed (.finish 1 5) : List (Port.Value 1 (.finish 1 5))).length := by
  obtain ⟨schedule, s, hrun, hstuck⟩ := sumCluster_ready.exists_stuck 1
  obtain ⟨N, h⟩ := repair_completes 1 sumCluster_ready
  exact ⟨schedule, s, hrun, ((h schedule s hrun).2.2 hstuck).2 (.finish 1 5) fun _ _ _ _ he => by
    cases he⟩

theorem sumCluster_writes : ∃ schedule s, Lts.run
    (Proc.step (sumCluster.code [sumBatch 0, sumBatch 1])) (Proc.Net.start
      (sumCluster.code [sumBatch 0, sumBatch 1])) schedule = some s ∧
    s.pushed (.data 1 7 (.file 5 (some "b2"))) = BatchStripe.repaired sumCluster 1
      ⟨7, Stripe.sumStripe, fun i => i, {2}, HashOrder.insertion Walk⟩ 2 := by
  obtain ⟨schedule, s, hrun, hstuck⟩ := sumCluster_ready.exists_stuck 1
  exact ⟨schedule, s, hrun, (repair_all_writes sumCluster_ready (sumBatch 1) (by simp)
    ⟨7, Stripe.sumStripe, fun i => i, {2}, HashOrder.insertion Walk⟩ (List.mem_singleton_self _) 2
    (by decide) schedule s hrun).2 hstuck⟩

/-- In the end the agent of node 5 has been sent the request of the second batch. -/
theorem sumCluster_in_order : ∃ schedule s, Lts.run
    (Proc.step (sumCluster.code [sumBatch 0, sumBatch 1])) (Proc.Net.start
      (sumCluster.code [sumBatch 0, sumBatch 1] : Actor → Code 1)) schedule = some s ∧
    ∃ earlier b later, [sumBatch 0, sumBatch 1] = earlier ++ b :: later ∧ 1 = b.batchId ∧
      ∀ b' ∈ earlier, ∀ st ∈ b'.stripeList, ∀ i ∈ st.failed,
        s.pushed (.data b'.batchId st.stripeId (st.file sumCluster i)) =
          st.repaired sumCluster 1 i := by
  obtain ⟨schedule, s, hrun, hstuck⟩ := sumCluster_ready.exists_stuck 1
  let nb : NodeBatchTask := (sumBatch 1).taskOf sumCluster 5
  have hmem : Proc.Item.msg (.agRequest 15) (⟨nb.batchId, nb.stripeIdList, nb.numList⟩ : AGCommand) ∈
      sumCluster.choreography [sumBatch 0, sumBatch 1] 1 := by
    refine List.mem_flatMap.2 ⟨sumBatch 1, by simp, ?_⟩
    rw [Batch.choreography]
    simp only [List.append_assoc]
    refine List.mem_append_right _ (List.mem_append_left _ (List.mem_map.2 ⟨nb.sendAGCommand, ?_, rfl⟩))
    exact List.mem_flatMap.2 ⟨5, by decide, List.mem_cons_self⟩
  refine ⟨schedule, s, hrun, repair_in_order sumCluster_ready schedule s hrun 15
    ⟨nb.batchId, nb.stripeIdList, nb.numList⟩ ?_⟩
  rw [Proc.At.pushed_of_end ((script _ 1 sumCluster_ready.toAddressed
    sumCluster_ready.flows).at_end hrun hstuck)]
  exact Proc.mem_sent hmem

end Cluster

end StripeRepair

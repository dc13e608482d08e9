import StripeRepair.Common.IdSpaces
import StripeRepair.Common.AnyColoring
import StripeRepair.Ec.BUTTERFLYDecode
import StripeRepair.Ec.HHXORPlusDecode
import StripeRepair.Ec.RDPDecode
import StripeRepair.Ec.RSPIPEDecode

/-!
# Which codes have DAGs in layers

* `Layers.of_ordered`: heights for `Join`s that are computed one after the other.
* `Layers.flat`: codes that compute a lost packet from packets of other blocks only.
* `RSPIPE.layers`: the pipelines, which meet each packet at the same place.
* `repair_any_coloring`: the repairs of these codes end, whatever the colouring.
* `any_coloring_repairs`: the same for the coordinator and all agents, over several batches.
-/

namespace StripeRepair

/-- A `Join` is on a vertex that is new when what is read is there before it is joined. -/
theorem pairwise_new_of_ordered {avail : Nat → Prop} {js : List Join}
    (hord : JoinsOrdered avail js) (hfresh : ∀ j ∈ js, ¬ avail j.pidx)
    (hnodup : (js.map Join.pidx).Nodup) :
    js.Pairwise fun i j => j.pidx ≠ i.pidx ∧ j.pidx ∉ i.cidx := by
  induction js generalizing avail with
  | nil => exact List.Pairwise.nil
  | cons i js ih =>
    rw [List.map_cons, List.nodup_cons] at hnodup
    obtain ⟨hi, hjs⟩ := hord
    have hne : ∀ j ∈ js, j.pidx ≠ i.pidx := fun j hj he =>
      hnodup.1 (he ▸ List.mem_map_of_mem hj)
    refine List.pairwise_cons.2 ⟨fun j hj => ⟨hne j hj, fun hm => ?_⟩, ?_⟩
    · exact hfresh j (List.mem_cons_of_mem _ hj) (hi _ hm)
    · refine ih hjs (fun j hj h => ?_) hnodup.2
      rcases h with h | h
      · exact hfresh j (List.mem_cons_of_mem _ hj) h
      · exact hne j hj h

theorem nodup_packets {w : Nat} {blks : List Nat} (h : blks.Nodup) : (packets w blks).Nodup := by
  refine List.nodup_flatMap.2 ⟨fun i _ => nodup_blockPackets w i, h.imp ?_⟩
  intro i i' hne v hv hv'
  exact hne ((div_of_mem_blockPackets hv).symm.trans (div_of_mem_blockPackets hv'))

theorem nodup_losses (n : Nat) (failed : Finset Nat) : (losses n failed).Nodup :=
  List.nodup_range.filter _

namespace Layers

section
variable {js : List Join} {n w : Nat} {failed : Finset Nat} {height : Nat → Nat} {top : Nat}

/-- **Layers from the order** in which the packets are computed; `use` is the height at which a
packet is used. -/
theorem of_ordered {avail : Nat → Prop} {use : Nat → Nat} (hne : ∀ j ∈ js, j.cidx ≠ [])
    (hord : JoinsOrdered avail js) (hfresh : ∀ j ∈ js, ¬ avail j.pidx)
    (hnodup : (js.map Join.pidx).Nodup) (havail : ∀ v, avail v → v / w ∉ failed)
    (hjoin : ∀ j ∈ js, height j.pidx = LinearProgram.above height j.cidx)
    (hleaf : ∀ v ∉ js.map Join.pidx, height v = 0)
    (huse : ∀ j ∈ js, ∀ c ∈ j.cidx, height j.pidx = use c)
    (hjoined : ∀ v ∈ packets w (losses n failed), v ∈ js.map Join.pidx)
    (hunread : ∀ v ∈ packets w (losses n failed), ∀ j ∈ js, v ∉ j.cidx)
    (hused : ∀ j ∈ js, j.pidx ∈ packets w (losses n failed) ∨ ∃ i ∈ js, j.pidx ∈ i.cidx)
    (hfree : ∀ v ∈ (ECDAG.build js).nodeIds, ∀ i < n, v ≠ REQUESTOR - i)
    (htop : ∀ i ∈ losses n failed, LinearProgram.above height (blockPackets w i) = top) :
    Layers js n w failed height top where
  nonempty := hne
  new := pairwise_new_of_ordered hord hfresh hnodup
  join := hjoin
  leaf := hleaf
  level i hi j hj c hci hcj := (huse i hi c hci).trans (huse j hj c hcj).symm
  surviving j hj c hc := (hord.srcs_mem j hj c hc).symm.imp_right (havail c)
  joined := hjoined
  unread := hunread
  used := hused
  free j hj i hi := by
    refine ⟨hfree _ ((ECDAG.mem_nodeIds_build _ _).2 ⟨j, hj, Or.inl rfl⟩) i hi, fun hc => ?_⟩
    exact hfree _ ((ECDAG.mem_nodeIds_build _ _).2 ⟨j, hj, Or.inr hc⟩) i hi rfl
  top := htop

/-- **Two layers**: every lost packet is computed from packets of other blocks. -/
theorem flat (hw : 0 < w) (hne : ∀ j ∈ js, j.cidx ≠ [])
    (hpidx : js.map Join.pidx = packets w (losses n failed))
    (hcidx : ∀ j ∈ js, ∀ c ∈ j.cidx, c / w ∉ failed)
    (hfree : ∀ v ∈ (ECDAG.build js).nodeIds, ∀ i < n, v ≠ REQUESTOR - i) :
    Layers js n w failed (fun v => if v ∈ packets w (losses n failed) then 1 else 0) 2 := by
  have hlost : ∀ j ∈ js, j.pidx ∈ packets w (losses n failed) := fun j hj =>
    hpidx ▸ List.mem_map_of_mem hj
  have hother : ∀ v, v / w ∉ failed → v ∉ packets w (losses n failed) := fun v hv hm =>
    hv (mem_losses.1 ((mem_packets hw).1 hm)).2
  refine @of_ordered js n w failed _ _ (fun v => v / w ∉ failed) (fun _ => 1) hne
    (LinearProgram.ordered_of_forall hcidx) (fun j hj h => hother _ h (hlost j hj))
    (hpidx ▸ nodup_packets (nodup_losses n failed)) (fun _ h => h) (fun j hj => ?_) (fun v hv => ?_)
    (fun j hj _ _ => if_pos (hlost j hj)) (fun v hv => hpidx ▸ hv)
    (fun v hv j hj hc => hother v (hcidx j hj v hc) hv) (fun j hj => Or.inl (hlost j hj)) hfree
    fun i hi => ?_
  · obtain ⟨c, hc⟩ := List.exists_mem_of_ne_nil _ (hne j hj)
    have hzero : ∀ c ∈ j.cidx, (if c ∈ packets w (losses n failed) then 1 else 0) = 0 :=
      fun c hc => if_neg (hother c (hcidx j hj c hc))
    rw [if_pos (hlost j hj), LinearProgram.above_eq (fun c hc => (hzero c hc).le) hc (hzero c hc)]
  · exact if_neg (hpidx ▸ hv)
  · have hone : ∀ c ∈ blockPackets w i, (if c ∈ packets w (losses n failed) then 1 else 0) = 1 :=
      fun c hc => if_pos (mem_packets_of_block hi hc)
    have hfirst : i * w + 0 ∈ blockPackets w i := List.mem_map_of_mem (List.mem_range.2 hw)
    rw [LinearProgram.above_eq (fun c hc => (hone c hc).le) hfirst (hone _ hfirst)]

end

end Layers

/-! ## The codes -/

section
variable {n k w : Nat} {failed : Finset Nat}

theorem RSCONV.layers (invert : InvertMatrix) (hk : 1 ≤ k) (hkn : k ≤ n) (hw : 0 < w)
    (hsub : failed ⊆ Finset.range n) (hm : failed.card ≤ n - k)
    (hfree : ∀ v ∈ (RSCONV.decode invert n k (packets w (survivors n failed))
      (packets w (losses n failed))).nodeIds, ∀ i < n, v ≠ REQUESTOR - i) :
    Layers (RSCONV.decodeJoins invert n k (packets w (survivors n failed))
      (packets w (losses n failed))) n w failed
      (fun v => if v ∈ packets w (losses n failed) then 1 else 0) 2 := by
  have hlen : k ≤ (packets w (survivors n failed)).length := by
    rw [length_packets, length_survivors hsub]
    exact (show k ≤ n - failed.card by omega).trans (Nat.le_mul_of_pos_right _ hw)
  refine Layers.flat hw (fun j hj => ?_) ?_ (fun j hj c hc => ?_) hfree
  · obtain ⟨ridx, -, rfl⟩ := List.mem_map.1 hj
    have hfirst : (⟨0, hk⟩ : Fin k) ∈ List.finRange k := List.mem_finRange _
    exact List.ne_nil_of_mem (List.mem_map_of_mem hfirst)
  · rw [RSCONV.decodeJoins, List.map_map]
    exact List.map_id _
  · obtain ⟨ridx, -, rfl⟩ := List.mem_map.1 hj
    obtain ⟨i, -, rfl⟩ := List.mem_map.1 hc
    have hi : i.1 < (packets w (survivors n failed)).length := i.2.trans_le hlen
    rw [List.getD_eq_getElem _ _ hi]
    exact (mem_survivors.1 ((mem_packets hw).1 (List.getElem_mem hi))).2

theorem RDP.layers (hk : 2 ≤ k) {f : Nat} (hf : f < k + 2) {js : List Join}
    (hjs : RDP.decodeJoins (k + 2) k k (packets k (losses (k + 2) {f})) = some js)
    (hfree : ∀ v ∈ (ECDAG.build js).nodeIds, ∀ i < k + 2, v ≠ REQUESTOR - i) :
    Layers js (k + 2) k {f} (fun v => if v ∈ packets k (losses (k + 2) {f}) then 1 else 0) 2 := by
  have hk0 : 0 < k := by omega
  have hdst : packets k (losses (k + 2) {f}) = (List.range k).map fun i => f * k + i := by
    rw [losses_singleton hf]
    exact List.flatMap_singleton _ f
  have hnode : ∀ v ∈ packets k (losses (k + 2) {f}), v / k = f := by
    intro v hv
    have hmem := (mem_packets hk0).1 hv
    rwa [losses_singleton hf, List.mem_singleton] at hmem
  have hfirst : (packets k (losses (k + 2) {f})).getD 0 0 / k = f := by
    have hpos : 0 < (packets k (losses (k + 2) {f})).length := by
      rw [hdst, List.length_map, List.length_range]
      exact hk0
    rw [List.getD_eq_getElem _ _ hpos]
    exact hnode _ (List.getElem_mem hpos)
  have hsame : ¬ ∃ v ∈ packets k (losses (k + 2) {f}), v / k ≠ f := fun ⟨v, hv, hne⟩ =>
    hne (hnode v hv)
  unfold RDP.decodeJoins at hjs
  dsimp only at hjs
  rw [hfirst, if_neg hsame] at hjs
  split at hjs
  · obtain rfl := Option.some.inj hjs
    refine Layers.flat hk0 (fun j hj => ?_) ?_ (fun j hj c hc => ?_) hfree
    · obtain ⟨i, -, rfl⟩ := List.mem_map.1 hj
      -- node 0 or node 1 is left
      have hb : (if f = 0 then 1 else 0) ∈ (List.range (RDP.p k)).filter (· ≠ f) := by
        refine List.mem_filter.2 ⟨List.mem_range.2 ?_, decide_eq_true ?_⟩
        · show (if f = 0 then 1 else 0) < k + 1
          split <;> omega
        · split <;> omega
      exact List.ne_nil_of_mem (List.mem_map_of_mem hb)
    · rw [hdst, List.map_map]
      rfl
    · obtain ⟨i, hi, rfl⟩ := List.mem_map.1 hj
      obtain ⟨b, hb, rfl⟩ := List.mem_map.1 hc
      rw [Finset.mem_singleton]
      show RDP.idxOf k (i, b) / k ≠ f
      rw [RDP.idxOf_div (List.mem_range.1 hi)]
      exact of_decide_eq_true (List.mem_filter.1 hb).2
  · next hlast =>
    obtain rfl : f = k + 1 := not_not.1 hlast
    obtain rfl := Option.some.inj hjs
    have hdiag : ∀ i < k, (k + 2 - 1 + i) % RDP.p k = i := by
      intro i hi
      show (k + 1 + i) % (k + 1) = i
      rw [Nat.add_mod_left, Nat.mod_eq_of_lt (Nat.lt_succ_of_lt hi)]
    refine Layers.flat hk0 (fun j hj => ?_) ?_ (fun j hj c hc => ?_) hfree
    · obtain ⟨i, hi, rfl⟩ := List.mem_map.1 hj
      have hi := List.mem_range.1 hi
      rw [hdiag i hi]
      exact RDP.diag2data_ne_nil hk hi
    · rw [hdst, List.map_map]
      rfl
    · obtain ⟨i, hi, rfl⟩ := List.mem_map.1 hj
      have hi := List.mem_range.1 hi
      rw [hdiag i hi] at hc
      have hlt := ((RDP.mem_diag2data_iff hk0 hi).1 hc).1
      rw [Finset.mem_singleton]
      omega

/-- The last node is the one that `Decode` does not rebuild. -/
theorem BUTTERFLY.layers {m r : Nat} (hr : r < m + 3)
    (hfree : ∀ v ∈ (BUTTERFLY.decode (m + 4) (m + 2) (2 ^ (m + 1))
      (packets (2 ^ (m + 1)) (survivors (m + 4) {r}))
      (packets (2 ^ (m + 1)) (losses (m + 4) {r}))).nodeIds, ∀ i < m + 4, v ≠ REQUESTOR - i) :
    Layers (BUTTERFLY.decodeJoins (m + 4) (m + 2) (2 ^ (m + 1))
      (packets (2 ^ (m + 1)) (losses (m + 4) {r}))) (m + 4) (2 ^ (m + 1)) {r}
      (fun v => if v ∈ packets (2 ^ (m + 1)) (losses (m + 4) {r}) then 1 else 0) 2 := by
  obtain ⟨P, rows, -, h, hjoins⟩ := BUTTERFLY.decodeJoins_eq hr
  have hlosses : losses (m + 4) {r} = [r] := losses_singleton (by omega)
  unfold BUTTERFLY.decode at hfree
  rw [hlosses, hjoins] at hfree ⊢
  rw [← hlosses]
  refine Layers.flat (Nat.two_pow_pos _) (fun j hj => ?_) ?_ (fun j hj c hc => ?_) hfree
  · obtain ⟨i, hi, rfl⟩ := BUTTERFLY.mem_rebuiltJoins.1 hj
    obtain ⟨v, hv⟩ := List.exists_mem_of_ne_nil _ (h.ne_nil i hi)
    exact List.ne_nil_of_mem (List.mem_filter.2 ⟨h.sub i hi v hv, by simpa using hv⟩)
  · rw [hlosses, BUTTERFLY.rebuiltJoins, List.map_map, packets, List.flatMap_singleton]
    rfl
  · obtain ⟨i, -, rfl⟩ := BUTTERFLY.mem_rebuiltJoins.1 hj
    have hne := ((BUTTERFLY.mem_dataOf P c).1 (List.mem_of_mem_filter hc)).2.1
    rwa [Finset.mem_singleton]

end

/-! ## The pipelines -/

namespace RSPIPE

/-- **Along a chain** each `Join` is one higher than the one before it; `use` is the height at which
a packet of the chain is used. -/
theorem heights_pipe {height use : Nat → Nat} (ridx : Nat) (rest : List (Nat × Int))
    (tmpname : Nat) (front : Nat × Int) (s : Nat)
    (hfront : height front.1 = s ∧ use front.1 = s + 1)
    (hrest : ∀ i (hi : i < rest.length), height (rest[i]).1 = 0 ∧ use (rest[i]).1 = s + i + 1)
    (htmp : ∀ i, i + 1 < rest.length →
      height (tmpname + i) = s + i + 1 ∧ use (tmpname + i) = s + i + 2)
    (hridx : height ridx = s + rest.length) :
    ∀ j ∈ (pipe ridx tmpname front rest).1, j.cidx ≠ [] ∧
      height j.pidx = LinearProgram.above height j.cidx ∧ ∀ c ∈ j.cidx, height j.pidx = use c := by
  induction rest generalizing tmpname front s with
  | nil => exact fun j hj => absurd hj List.not_mem_nil
  | cons e rest ih =>
    obtain ⟨he, hue⟩ := hrest 0 (Nat.succ_pos _)
    simp only [List.getElem_cons_zero, Nat.add_zero] at he hue
    have hadd : height (if rest = [] then ridx else tmpname) = s + 1 := by
      split
      · next hnil =>
        rw [hridx, hnil]
        rfl
      · next hne =>
        have hpos := List.length_pos_of_ne_nil hne
        exact (htmp 0 (by rw [List.length_cons]; omega)).1
    intro j hj
    rw [pipe] at hj
    rcases List.mem_cons.1 hj with rfl | hj
    · refine ⟨List.cons_ne_nil _ _, ?_, fun c hc => ?_⟩
      · show height _ = max (height front.1 + 1) (max (height e.1 + 1) 0)
        rw [hadd, hfront.1, he]
        omega
      · rw [hadd]
        rcases List.mem_pair.1 hc with rfl | rfl
        · exact hfront.2.symm
        · exact hue.symm
    · by_cases hne : rest = []
      · subst hne
        cases hj
      · have hpos := List.length_pos_of_ne_nil hne
        rw [if_neg hne, if_neg hne] at hj
        rw [if_neg hne] at hadd
        obtain ⟨-, huse⟩ := htmp 0 (by rw [List.length_cons]; omega)
        refine ih (tmpname + 1) (tmpname, 1) (s + 1) ⟨hadd, huse⟩ (fun i hi => ?_) (fun i hi => ?_)
          ?_ j hj
        · have h := hrest (i + 1) (by rw [List.length_cons]; omega)
          rw [List.getElem_cons_succ] at h
          rw [h.1, h.2]
          omega
        · have h := htmp (i + 1) (by rw [List.length_cons]; omega)
          rw [show tmpname + 1 + i = tmpname + (i + 1) by omega, h.1, h.2]
          omega
        · rw [hridx, List.length_cons]
          omega

section
variable {n : Nat} {data : List Nat} {coefs : Nat → List Int} (hdata : ∀ v ∈ data, v < n)
  (hlen : 2 ≤ data.length) (hcoefs : ∀ r, (coefs r).length = data.length)
include hdata hlen hcoefs

theorem heights_decodeFrom {height use : Nat → Nat} (dst : List Nat) (r : Nat)
    (hblock : ∀ i (hi : i < data.length), height data[i] = 0 ∧ use data[i] = max 1 i)
    (htmp : ∀ r' < r + dst.length, ∀ i < data.length - 2,
      height (n + r' * (data.length - 2) + i) = i + 1 ∧ use (n + r' * (data.length - 2) + i) = i + 2)
    (hlost : ∀ v ∈ dst, height v = data.length - 1) :
    ∀ j ∈ decodeFrom data coefs (n + r * (data.length - 2)) dst, j.cidx ≠ [] ∧
      height j.pidx = LinearProgram.above height j.cidx ∧ ∀ c ∈ j.cidx, height j.pidx = use c := by
  induction dst generalizing r with
  | nil => exact fun j hj => absurd hj List.not_mem_nil
  | cons ridx dst ih =>
    obtain ⟨front, e, rest, hq, hrest, hfst, -⟩ := queue_spec hdata hlen hcoefs ridx
    obtain ⟨-, hnext⟩ := pipe_spec ridx e rest (n + r * (data.length - 2)) front
    have hget : ∀ i (hi : i < (front :: e :: rest).length),
        ∃ h : i < data.length, ((front :: e :: rest)[i]).1 = data[i] := by
      intro i hi
      have hi' : i < ((front :: e :: rest).map Prod.fst).length := by rwa [List.length_map]
      refine ⟨hfst ▸ hi', ?_⟩
      have hsame : ((front :: e :: rest).map Prod.fst)[i] = ((front :: e :: rest)[i]).1 :=
        List.getElem_map ..
      rw [← hsame]
      exact List.getElem_of_eq hfst hi'
    intro j hj
    rw [decodeFrom, hq, pipeQueue, hnext] at hj
    rcases List.mem_append.1 hj with hj | hj
    · refine heights_pipe ridx (e :: rest) _ front 0 ?_ (fun i hi => ?_) (fun i hi => ?_) ?_ j hj
      · obtain ⟨h, hv⟩ := hget 0 (Nat.succ_pos _)
        rw [List.getElem_cons_zero] at hv
        rw [hv]
        exact hblock 0 h
      · obtain ⟨h, hv⟩ := hget (i + 1) (Nat.succ_lt_succ hi)
        rw [List.getElem_cons_succ] at hv
        rw [hv, (hblock (i + 1) h).1, (hblock (i + 1) h).2]
        omega
      · rw [List.length_cons] at hi
        have h := htmp r (by rw [List.length_cons]; omega) i (by omega)
        rw [h.1, h.2]
        omega
      · rw [hlost ridx List.mem_cons_self, List.length_cons]
        omega
    · rw [hrest, show n + r * (data.length - 2) + (data.length - 2) =
        n + (r + 1) * (data.length - 2) by rw [Nat.succ_mul, Nat.add_assoc]] at hj
      exact ih (r + 1) (fun r' hr' => htmp r' (by rw [List.length_cons]; omega))
        (fun v hv => hlost v (List.mem_cons_of_mem _ hv)) j hj

theorem nodup_decodeFrom {dst : List Nat} (hnodup : dst.Nodup) (hdst : ∀ v ∈ dst, v < n)
    {tmpname : Nat} (ht : n ≤ tmpname) :
    ((decodeFrom data coefs tmpname dst).map Join.pidx).Nodup := by
  induction dst generalizing tmpname with
  | nil => exact List.nodup_nil
  | cons ridx dst ih =>
    obtain ⟨front, e, rest, hq, hrest, -, -⟩ := queue_spec hdata hlen hcoefs ridx
    obtain ⟨hpidx, hnext⟩ := pipe_spec ridx e rest tmpname front
    obtain ⟨hnew, hnodup⟩ := List.nodup_cons.1 hnodup
    have hridx : ridx < n := hdst ridx List.mem_cons_self
    rw [decodeFrom, hq, pipeQueue, hnext, List.map_append, hpidx]
    refine List.nodup_append.2 ⟨List.nodup_append.2 ⟨List.nodup_range', List.nodup_singleton _,
      fun v hv u hu => ?_⟩,
      ih hnodup (fun v hv => hdst v (List.mem_cons_of_mem _ hv)) (by omega), fun v hv u hu => ?_⟩
    · rw [List.mem_range'_1] at hv
      rw [List.mem_singleton] at hu
      omega
    · rw [pidx_decodeFrom hlen hcoefs] at hu
      rw [List.mem_append, List.mem_range'_1, List.mem_singleton] at hv
      rintro rfl
      rcases hv with hv | rfl
      · rcases hu with hu | hu
        · have := hdst v (List.mem_cons_of_mem _ hu)
          omega
        · omega
      · rcases hu with hu | hu
        · exact hnew hu
        · omega

end

/-- The place of a packet in its chain: the lost packets are at the ends of chains. -/
def heightOf (n k : Nat) (dst : List Nat) (v : Nat) : Nat :=
  if v ∈ dst then k - 1
  else if n ≤ v ∧ v < n + dst.length * (k - 2) then (v - n) % (k - 2) + 1 else 0

/-- The height at which a packet is used. -/
def useOf (n k : Nat) (data : List Nat) (v : Nat) : Nat :=
  if n ≤ v then (v - n) % (k - 2) + 2 else max 1 (data.idxOf v)

theorem packets_one (blks : List Nat) : packets 1 blks = blks := by
  simp [packets]

/-- **Pipelines in layers**: what is joined for the blocks `dst` from those of `data`. -/
theorem layers_decodeFrom {n k : Nat} {failed : Finset Nat} {data : List Nat}
    {coefs : Nat → List Int} (hk : 2 ≤ k) (hlen : data.length = k) (hnodup : data.Nodup)
    (hdata : ∀ v ∈ data, v < n ∧ v ∉ failed) (hcoefs : ∀ r, (coefs r).length = data.length)
    (hfree : ∀ v ∈ (ECDAG.build (decodeFrom data coefs n (losses n failed))).nodeIds,
      ∀ i < n, v ≠ REQUESTOR - i) :
    Layers (decodeFrom data coefs n (losses n failed)) n 1 failed
      (heightOf n k (losses n failed)) k := by
  have hlt : ∀ v ∈ data, v < n := fun v hv => (hdata v hv).1
  have hlen2 : 2 ≤ data.length := hlen ▸ hk
  have hlost : ∀ v ∈ losses n failed, v < n ∧ v ∈ failed := fun v hv => mem_losses.1 hv
  have hend : ∀ v ∈ losses n failed, heightOf n k (losses n failed) v = k - 1 := fun v hv =>
    if_pos hv
  -- the temporary ids tell the chain and the place in it
  have htmp : ∀ r' < 0 + (losses n failed).length, ∀ i < data.length - 2,
      heightOf n k (losses n failed) (n + r' * (data.length - 2) + i) = i + 1 ∧
        useOf n k data (n + r' * (data.length - 2) + i) = i + 2 := by
    rw [hlen]
    intro r' hr' i hi
    have hnew : n + r' * (k - 2) + i ∉ losses n failed := fun hm => by
      have := (hlost _ hm).1
      omega
    have hbound : (r' + 1) * (k - 2) ≤ (losses n failed).length * (k - 2) :=
      Nat.mul_le_mul_right _ (by omega)
    rw [Nat.succ_mul] at hbound
    have hmod : (n + r' * (k - 2) + i - n) % (k - 2) = i := by
      rw [Nat.add_assoc, Nat.add_sub_cancel_left, Nat.mul_comm, Nat.mul_add_mod,
        Nat.mod_eq_of_lt hi]
    constructor
    · rw [heightOf, if_neg hnew, if_pos (by omega), hmod]
    · rw [useOf, if_pos (by omega), hmod]
  have hblock : ∀ i (hi : i < data.length), heightOf n k (losses n failed) data[i] = 0 ∧
      useOf n k data data[i] = max 1 i := by
    intro i hi
    obtain ⟨h1, h2⟩ := hdata _ (List.getElem_mem hi)
    constructor
    · rw [heightOf, if_neg fun hm => h2 (hlost _ hm).2, if_neg (by omega)]
    · rw [useOf, if_neg (by omega), hnodup.idxOf_getElem i hi]
  have hheights := heights_decodeFrom hlt hlen2 hcoefs (losses n failed) 0 hblock htmp
    fun v hv => hlen.symm ▸ hend v hv
  rw [Nat.zero_mul, Nat.add_zero] at hheights
  have hpidx := @pidx_decodeFrom data coefs hlen2 hcoefs (losses n failed) n
  obtain ⟨-, htmps⟩ := temporary_decodeFrom hlt hlen2 hcoefs
    (fun v hv => (hlost v hv).1) (Nat.le_refl n)
  rw [hlen] at hpidx htmps
  -- nothing is higher than the lost packets
  have hle : ∀ v, heightOf n k (losses n failed) v ≤ k - 1 := by
    intro v
    unfold heightOf
    split
    · exact Nat.le_refl _
    · split
      · next h =>
        have hpos : 0 < k - 2 := by
          rcases Nat.eq_zero_or_pos (k - 2) with h0 | h0
          · rw [h0, Nat.mul_zero] at h
            omega
          · exact h0
        have := Nat.mod_lt (v - n) hpos
        omega
      · exact Nat.zero_le _
  refine Layers.of_ordered (fun j hj => (hheights j hj).1)
    (ordered_decodeFrom hlt hlen2 hcoefs (losses n failed) n) (fun j hj hd => ?_)
    (nodup_decodeFrom hlt hlen2 hcoefs (nodup_losses n failed) (fun v hv => (hlost v hv).1)
      (Nat.le_refl n))
    (fun v hv => by rw [Nat.div_one]; exact (hdata v hv).2) (fun j hj => (hheights j hj).2.1)
    (fun v hv => ?_) (fun j hj => (hheights j hj).2.2) (fun v hv => ?_) (fun v hv j hj hc => ?_)
    (fun j hj => ?_) hfree fun i hi => ?_
  · obtain ⟨h1, h2⟩ := hdata _ hd
    rcases hpidx.1 (List.mem_map_of_mem hj) with h | h
    · exact h2 (hlost _ h).2
    · omega
  · rw [hpidx, not_or] at hv
    rw [heightOf, if_neg hv.1, if_neg hv.2]
  · rw [packets_one] at hv
    exact hpidx.2 (Or.inl hv)
  · rw [packets_one] at hv
    have hlow := LinearProgram.lt_above (h := heightOf n k (losses n failed)) hc
    rw [← (hheights j hj).2.1, hend v hv] at hlow
    have := hle j.pidx
    omega
  · rw [packets_one]
    refine (hpidx.1 (List.mem_map_of_mem hj)).imp_right fun h => ?_
    have hread : j.pidx ∈ ((decodeFrom data coefs n (losses n failed)).flatMap Join.cidx).filter
        (n ≤ ·) := by
      rw [htmps, List.mem_range'_1]
      exact h
    exact List.mem_flatMap.1 (List.mem_of_mem_filter hread)
  · show LinearProgram.above _ [i * 1 + 0] = k
    rw [LinearProgram.above_eq (m := k - 1) (fun c hc => hle c) (List.mem_singleton_self _)]
    · omega
    · rw [Nat.mul_one, Nat.add_zero]
      exact hend i hi

theorem layers {n k : Nat} {failed : Finset Nat} (invert : InvertMatrix) (hk : 2 ≤ k) (hkn : k ≤ n)
    (hsub : failed ⊆ Finset.range n) (hm : failed.card ≤ n - k)
    (hfree : ∀ v ∈ (decode n k invert (packets 1 (survivors n failed))
      (packets 1 (losses n failed))).nodeIds, ∀ i < n, v ≠ REQUESTOR - i) :
    Layers (decodeJoins n k invert (packets 1 (survivors n failed)) (packets 1 (losses n failed)))
      n 1 failed (heightOf n k (losses n failed)) k := by
  rw [packets_one, packets_one] at hfree ⊢
  unfold decode at hfree
  unfold decodeJoins at hfree ⊢
  have hksrc : k ≤ (survivors n failed).length := by
    rw [length_survivors hsub]
    omega
  have htake : (List.range k).map (fun j => (survivors n failed).getD j 0) =
      (survivors n failed).take k := by
    refine List.ext_getElem (by simp [hksrc]) fun i h1 h2 => ?_
    rw [List.length_map, List.length_range] at h1
    rw [List.getElem_map, List.getElem_range, List.getElem_take,
      List.getD_eq_getElem _ _ (h1.trans_le hksrc)]
  have htlen : ((survivors n failed).take k).length = k := by simp [hksrc]
  dsimp only at hfree ⊢
  rw [htake] at hfree ⊢
  have hsnodup : (survivors n failed).Nodup := List.nodup_range.filter _
  refine layers_decodeFrom hk htlen (hsnodup.sublist (List.take_sublist _ _))
    (fun v hv => mem_survivors.1 (List.mem_of_mem_take hv)) (fun r => ?_) hfree
  rw [List.length_map, List.length_finRange, htlen]

end RSPIPE

/-! ## Repairs under any colouring -/

namespace SupportedCode

/-- Parameters and losses for which `Decode` computes in layers; those of `Clay` and `HHXORPlus`
are left out. -/
def InLayers (failed : Finset Nat) : SupportedCode → Prop
  | .clay _ => False
  | .rdp n k w => n = k + 2 ∧ w = k ∧ 2 ≤ k ∧ failed.card = 1
  | .hhxorPlus _ _ => False
  | .butterfly k w => 2 ≤ k ∧ w = 2 ^ (k - 1) ∧ failed.card = 1 ∧ k + 1 ∉ failed
  | .rsconv _ k _ => 1 ≤ k
  | .rspipe _ k w => 2 ≤ k ∧ w = 1

section
variable {calls : CodeCalls} {code : SupportedCode} {failed : Finset Nat} {d : ECDAG}

theorem n_le_requestor (h : code.Admits) (hfree : code.ReservedFree) : code.n ≤ REQUESTOR :=
  (Nat.le_mul_of_pos_right code.n h.w_pos).trans (hfree.blocks_le h)

/-- **What `Decode` returns is in layers.** -/
theorem exists_layers (h : code.Admits) (hfree : code.ReservedFree)
    (hdec : code.Decoded calls failed d) (hin : code.InLayers failed) :
    ∃ js height top, d = ECDAG.build js ∧ Layers js code.n code.w failed height top := by
  have hids : ∀ v ∈ d.nodeIds, ∀ i < code.n, v ≠ REQUESTOR - i := fun v hv =>
    (idsApart_iff h).2 hfree v (Or.inr ⟨failed, d, hdec, hv⟩)
  obtain ⟨⟨hsub, -, hcard⟩, hd⟩ := hdec
  cases code with
  | clay c => exact hin.elim
  | hhxorPlus n k => exact hin.elim
  | rdp n k w =>
    obtain ⟨rfl, rfl, hk, hone⟩ := hin
    obtain ⟨f, rfl⟩ := Finset.card_eq_one.1 hone
    have hf : f < w + 2 := Finset.mem_range.1 (hsub (Finset.mem_singleton_self f))
    obtain ⟨js, hjs, rfl⟩ := Option.map_eq_some_iff.1 hd
    exact ⟨js, _, _, rfl, RDP.layers hk hf hjs hids⟩
  | butterfly k w =>
    obtain ⟨hk, rfl, hone, hlast⟩ := hin
    obtain ⟨f, rfl⟩ := Finset.card_eq_one.1 hone
    obtain ⟨m, rfl⟩ : ∃ m, k = m + 2 := ⟨k - 2, by omega⟩
    have hf : f < m + 4 := Finset.mem_range.1 (hsub (Finset.mem_singleton_self f))
    have hne : f ≠ m + 3 := fun he => hlast (Finset.mem_singleton.2 he.symm)
    obtain rfl := Option.some.inj hd
    exact ⟨_, _, _, rfl, BUTTERFLY.layers (by omega) hids⟩
  | rsconv n k w =>
    obtain rfl := Option.some.inj hd
    exact ⟨_, _, _, rfl, RSCONV.layers calls.invert hin h.1.le h.2 hsub hcard hids⟩
  | rspipe n k w =>
    obtain ⟨hk, rfl⟩ := hin
    obtain rfl := Option.some.inj hd
    exact ⟨_, _, _, rfl, RSPIPE.layers calls.invert hk h.1.le hsub hcard hids⟩

end

/-- **Repairs under any colouring**: for these codes the threads end under every schedule, however
the vertices are coloured, so long as each repaired block has a node. -/
theorem repair_any_coloring (calls : CodeCalls) (code : SupportedCode) (h : code.Admits)
    (hfree : code.ReservedFree) (failed : Finset Nat) (d : ECDAG)
    (hdec : code.Decoded calls failed d) (hin : code.InLayers failed) (s : Stripe)
    (hdag : s.ecdag = genRepairECDAG (fun _ _ => d) code.n code.w failed ∨
      s.ecdag = (genRepairECDAG (fun _ _ => d) code.n code.w failed).refreshECDAG)
    (ord : HashOrder Walk) (fail2repair : Int → Option Int) (placement : Nat → Int)
    (hl : (s.remap fail2repair).Legal code.n code.w placement)
    (hplaced : ∀ i ∈ failed, (s.remap fail2repair).coloring (REQUESTOR - i) ≠ -1) {pktbytes : Nat}
    (pktnum : Nat) (hpk : 0 < pktnum) (disk : Int → Option String → Nat → GF256)
    (regs : ThreadId → Nat → Packet pktbytes) :
    let start := FifoNet.Net.start
      (program (s.tasksOf ord code.n code.w fail2repair) code.w pktnum disk) regs
    ∀ schedule net, Lts.run FifoNet.step start schedule = some net →
      schedule.length ≤ s.steps ord code.n code.w fail2repair pktnum ∧
      (Lts.Stuck FifoNet.step net → net.Done ∧
        schedule.length = s.steps ord code.n code.w fail2repair pktnum) := by
  intro start schedule net hrun
  have hw : 0 < code.w := h.w_pos
  have hR := SupportedCode.n_le_requestor h hfree
  obtain ⟨js, height, top, rfl, hlayers⟩ := exists_layers h hfree hdec hin
  obtain ⟨⟨hsub, hne, -⟩, -⟩ := hdec
  have hgen : s.ecdag = genRepairECDAG (fun _ _ => ECDAG.build js) code.n code.w failed :=
    hdag.elim id fun he => he.trans (hlayers.refreshECDAG_eq hw hR rfl)
  have hbuilt : s.ecdag.Built := hgen ▸ .concact _ _ _ (ECDAG.built_build js)
  have hkey := hlayers.keysFree hR hw rfl hgen hsub hne
  have hplan := hlayers.wellPlanned hR hw rfl hgen hsub hne hplaced
  obtain ⟨hlength, hdone⟩ := s.run_steps ord code.n code.w fail2repair hrun
  refine ⟨hlength, fun hstuck => ?_⟩
  have hends : (s.remap fail2repair).WellPlanned ↔ ∀ schedule net,
      Lts.run FifoNet.step start schedule = some net → Lts.Stuck FifoNet.step net → net.Done :=
    (s.ends_tfae hbuilt ord code.n code.w hw fail2repair placement hl hkey pktnum hpk disk
      regs).out 0 1
  have hend := hends.1 hplan schedule net hrun hstuck
  exact ⟨hend, hdone.2 hend⟩

def pairCalls : CodeCalls where
  invert _ _ _ := fun _ _ => 0
  invert8 _ _ := fun _ _ => 0
  hash := HashOrder.insertion Unit

/-- Block 2 of a (3, 2) stripe is computed on node 4 and put together on node 5. -/
def pairStripe : Stripe :=
  { Stripe.sumStripe with
    ecdag := genRepairECDAG (RSCONV.decode pairCalls.invert 3 2) 3 1 {2}
    coloring := fun v => if v < 2 then v else if v = 2 then 4 else 5 }

theorem decoded_pair : (rsconv 3 2 1).Decoded pairCalls {2} (RSCONV.decode pairCalls.invert 3 2
    (packets 1 (survivors 3 {2})) (packets 1 (losses 3 {2}))) :=
  ⟨⟨by decide, by decide, by decide⟩, rfl⟩

theorem reservedFree_pair : (rsconv 3 2 1).ReservedFree := by
  show 3 * 1 + 3 ≤ REQUESTOR + 1
  decide

theorem legal_pair : (pairStripe.remap fun _ => none).Legal 3 1 fun i => i :=
  ⟨by decide, by decide, by decide⟩

theorem pair_ends : ∃ schedule net, Lts.run FifoNet.step (FifoNet.Net.start
    (program (pairStripe.tasksOf (HashOrder.insertion Walk) 3 1 fun _ => none) 1 4
      fun c _ _ => ⟨BitVec.ofInt 8 c⟩) fun _ _ => (0 : Packet 1)) schedule = some net ∧
    net.Done := by
  obtain ⟨schedule, net, hrun, hstuck⟩ := pairStripe.exists_stuck (HashOrder.insertion Walk) 3 1
    (fun _ => none) 4 (fun c _ _ => ⟨BitVec.ofInt 8 c⟩) fun _ _ => (0 : Packet 1)
  have hends := repair_any_coloring pairCalls (rsconv 3 2 1) ⟨by decide, by decide⟩
    reservedFree_pair {2} _ decoded_pair (show 1 ≤ 2 by decide) pairStripe (Or.inl rfl) (HashOrder.insertion Walk)
    (fun _ => none) (fun i => i) legal_pair (by decide) 4 (by decide)
    (fun c _ _ => ⟨BitVec.ofInt 8 c⟩) (fun _ _ => (0 : Packet 1)) schedule net hrun
  exact ⟨schedule, net, hrun, (hends.2 hstuck).1⟩

end SupportedCode

/-! ## Batches of one code -/

/-- A stripe of a batch: its DAG is that of the lost blocks, which are computed in layers, and its
colours are nodes of the cluster. -/
structure BatchStripe.Coded (calls : CodeCalls) (code : SupportedCode) (cl : Cluster)
    (st : BatchStripe) : Prop where
  blocks : st.stripe.blklist.length = code.n
  decoded : ∃ d, code.Decoded calls st.failed d ∧
    (st.stripe.ecdag = genRepairECDAG (fun _ _ => d) code.n code.w st.failed ∨
      st.stripe.ecdag = (genRepairECDAG (fun _ _ => d) code.n code.w st.failed).refreshECDAG)
  layers : code.InLayers st.failed
  legal : (st.stripe.remap cl.fail2repair).Legal code.n code.w st.placement
  placed : ∀ i ∈ st.failed, (st.stripe.remap cl.fail2repair).coloring (REQUESTOR - i) ≠ -1
  onNodes : ∀ v ∈ st.stripe.ecdag.nodeIds, (st.stripe.remap cl.fail2repair).coloring v = -1 ∨
    cl.conf.HasNode ((st.stripe.remap cl.fail2repair).coloring v)

/-- Batches of stripes of one code, with distinct ids and addresses. -/
structure Cluster.Serves (calls : CodeCalls) (code : SupportedCode) (cl : Cluster)
    (batches : List Batch) : Prop where
  ecn : cl.ecn = code.n
  ecw : cl.ecw = code.w
  ips : (cl.conf.agentsIPs ++ cl.conf.repairIPs).Nodup
  batchIds : (batches.map Batch.batchId).Nodup
  stripeIds : ∀ b ∈ batches, (b.stripeList.map BatchStripe.stripeId).Nodup
  stripes : ∀ b ∈ batches, ∀ st ∈ b.stripeList, st.Coded calls code cl

section
variable {calls : CodeCalls} {code : SupportedCode} {cl : Cluster} {batches : List Batch}
  (h : code.Admits) (hfree : code.ReservedFree)
include h hfree

/-- Any legal colouring will do. -/
theorem BatchStripe.Coded.ready {st : BatchStripe} (hst : st.Coded calls code cl)
    (hn : cl.ecn = code.n) (hw : cl.ecw = code.w) : st.Ready cl := by
  obtain ⟨d, hdec, hdag⟩ := hst.decoded
  obtain ⟨js, height, top, rfl, hlayers⟩ := SupportedCode.exists_layers h hfree hdec hst.layers
  obtain ⟨⟨hsub, hne, -⟩, -⟩ := hdec
  have hpos : 0 < code.w := h.w_pos
  have hR := SupportedCode.n_le_requestor h hfree
  have hblocks := hst.blocks
  have hlegal := hst.legal
  rw [← hn] at hlayers hdag hsub hblocks hlegal hR
  rw [← hw] at hlayers hdag hlegal hpos
  exact hlayers.ready hR hpos rfl hdag hsub hne hblocks hlegal hst.placed

theorem Cluster.Serves.ready (hs : cl.Serves calls code batches) : cl.Ready batches where
  ips := hs.ips
  batchIds := hs.batchIds
  stripeIds := hs.stripeIds
  nodes b hb st hst := by
    have hcoded := hs.stripes b hb st hst
    have hready := hcoded.ready h hfree hs.ecn hs.ecw
    obtain ⟨d, hdec, hdag⟩ := hcoded.decoded
    have hwf : d.WellFormed := (SupportedCode.built_decode hdec.2).wellFormed
    have hd : st.stripe.ecdag.WellFormed := by
      rcases hdag with he | he
      · exact he ▸ hwf.concact _ _ _
      · exact he ▸ (hwf.concact _ _ _).refreshECDAG
    exact BatchStripe.hasNode hd hready.legal hready.planned hcoded.onNodes
  ecn_le := hs.ecn.symm ▸ SupportedCode.n_le_requestor h hfree
  ecw_pos := hs.ecw.symm ▸ h.w_pos
  stripes b hb st hst := (hs.stripes b hb st hst).ready h hfree hs.ecn hs.ecw

end

/-- **The whole repair under any colouring**: the coordinator, the agents and their threads end
after `N` steps under every schedule, and each lost block of each stripe is written then. -/
theorem Cluster.any_coloring_repairs (calls : CodeCalls) (code : SupportedCode) (h : code.Admits)
    (hfree : code.ReservedFree) (cl : Cluster) (batches : List Batch)
    (hs : cl.Serves calls code batches) (pktbytes : Nat) : ∃ N, ∀ schedule s,
    Lts.run (Proc.step (cl.code batches)) (Proc.Net.start (cl.code batches)) schedule = some s →
    schedule.length ≤ N ∧
    (Lts.Stuck (Proc.step (cl.code batches)) s ↔ schedule.length = N) ∧
    (Lts.Stuck (Proc.step (cl.code batches)) s →
      Proc.head (cl.code batches .coordinator) (s.code .coordinator) = .done ∧
      ∀ b ∈ batches, ∀ st ∈ b.stripeList, ∀ i ∈ st.failed,
        s.pushed (.data b.batchId st.stripeId (st.file cl i)) = st.repaired cl pktbytes i) := by
  have hready := hs.ready h hfree
  let S := script batches pktbytes hready.toAddressed hready.flows
  refine ⟨S.length, fun schedule s hrun => ⟨S.length_le hrun, S.stuck_iff hrun, fun hstuck => ?_⟩⟩
  have hend := S.at_end hrun hstuck
  refine ⟨(hend.does .coordinator).nil_inv rfl, fun b hb st hst i hi => ?_⟩
  rw [← Batch.sent_file hready hb hst hi]
  exact Proc.At.pushed_of_end hend _

def pairBatch (batchId : Int) : Batch where
  batchId := batchId
  stripeList := [⟨7, SupportedCode.pairStripe, fun i => i, {2}, HashOrder.insertion Walk⟩]

theorem serves_pair : Cluster.sumCluster.Serves SupportedCode.pairCalls (.rsconv 3 2 1)
    [pairBatch 0, pairBatch 1] where
  ecn := rfl
  ecw := rfl
  ips := by decide
  batchIds := by decide
  stripeIds := by decide
  stripes := by
    have hcoded : BatchStripe.Coded SupportedCode.pairCalls (.rsconv 3 2 1) Cluster.sumCluster
        ⟨7, SupportedCode.pairStripe, fun i => i, {2}, HashOrder.insertion Walk⟩ :=
      { blocks := rfl
        decoded := ⟨_, SupportedCode.decoded_pair, Or.inl rfl⟩
        layers := (show 1 ≤ 2 by decide)
        legal := SupportedCode.legal_pair
        placed := by decide
        onNodes := by decide }
    intro b hb st hst
    rcases List.mem_cons.1 hb with rfl | hb
    · exact List.mem_singleton.1 hst ▸ hcoded
    · obtain rfl := List.mem_singleton.1 hb
      exact List.mem_singleton.1 hst ▸ hcoded

theorem pairCluster_repairs : ∃ schedule s, Lts.run
    (Proc.step (Cluster.sumCluster.code [pairBatch 0, pairBatch 1])) (Proc.Net.start
      (Cluster.sumCluster.code [pairBatch 0, pairBatch 1])) schedule = some s ∧
    s.pushed (.data 1 7 (.file 5 (some "b2"))) = BatchStripe.repaired Cluster.sumCluster 1
      ⟨7, SupportedCode.pairStripe, fun i => i, {2}, HashOrder.insertion Walk⟩ 2 := by
  have hadmits : (SupportedCode.rsconv 3 2 1).Admits := ⟨by decide, by decide⟩
  obtain ⟨schedule, s, hrun, hstuck⟩ := (serves_pair.ready hadmits
    SupportedCode.reservedFree_pair).exists_stuck 1
  obtain ⟨N, hN⟩ := Cluster.any_coloring_repairs SupportedCode.pairCalls (.rsconv 3 2 1) hadmits
    SupportedCode.reservedFree_pair Cluster.sumCluster [pairBatch 0, pairBatch 1] serves_pair 1
  exact ⟨schedule, s, hrun, ((hN schedule s hrun).2.2 hstuck).2 (pairBatch 1) (by simp)
    ⟨7, SupportedCode.pairStripe, fun i => i, {2}, HashOrder.insertion Walk⟩
    (List.mem_singleton_self _) 2 (by decide)⟩

end StripeRepair

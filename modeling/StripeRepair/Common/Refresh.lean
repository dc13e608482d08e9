import StripeRepair.Common.RepairDag
import StripeRepair.Ec.BUTTERFLY

/-!
# What `refreshECDAG` prunes

`refreshECDAG` drops the headers that are no concatenation, once: a vertex that only they
read stays behind without a parent.

* `program_foldl_removeHeader`: the pruning as dropped assignments, so that no value changes.
* `refresh_prunes_iff`: everything that is left leads to a concatenation exactly if each
  vertex has a parent that stays.
-/

namespace StripeRepair

namespace ECDAG

/-- A header that is no concatenation. -/
def Dangling (d : ECDAG) (v : Nat) : Prop := v ∈ d.ecHeaders ∧ v ∉ d.ecConcacts

instance (d : ECDAG) : DecidablePred d.Dangling := fun v => by
  unfold Dangling
  infer_instance

/-- `d'` is what `d` should be pruned to: only what leads to a concatenation is left, the lists
agree, and the concatenations are what they were. -/
structure Pruned (d d' : ECDAG) : Prop where
  leads : ∀ v ∈ d'.nodeIds, ∃ r ∈ d'.ecConcacts,
    Relation.ReflTransGen (fun c p => c ∈ d'.childIndices p) v r
  headers : ∀ v, v ∈ d'.ecHeaders ↔ v ∈ d'.ecConcacts
  roots : ∀ v ∈ d'.nodeIds, d'.parentIds v = [] → v ∈ d'.ecConcacts
  edges : ∀ u v, (d'.parentIds v).count u = (d'.childIndices u).count v
  kept : ∀ u ∈ d'.nodeIds, d'.childIndices u = d.childIndices u ∧
    ∀ c ∈ d'.childIndices u, c ∈ d'.nodeIds
  value : ∀ (M : Type) [AddCommMonoid M] [Module GF256 M] (x : Nat → M), ∀ v ∈ d'.ecConcacts,
    d'.eval x v = d.eval x v

/-- Each concatenation is a header, and each other vertex that is no header has a parent that
is not dangling. -/
structure NoneExposed (d : ECDAG) : Prop where
  concacts : ∀ v ∈ d.ecConcacts, v ∈ d.ecHeaders
  parent : ∀ v ∈ d.nodeIds, v ∉ d.ecHeaders → v ∉ d.ecConcacts →
    ∃ p ∈ d.parentIds v, ¬ d.Dangling p

/-! ## The pruning as a filter -/

theorem program_removeHeader (d : ECDAG) (h : Nat) : (d.removeHeader h).program =
    d.program.filter fun i => ¬ (i.dst = h ∧ h ∉ d.ecConcacts) := by
  unfold removeHeader
  split
  · next hc => simp [hc]
  · next hc =>
    let f : ECNode → ECNode := fun nd =>
      if nd.nodeId ∈ d.childIndices h then
        { nd with parentNodes := nd.parentNodes.filter fun p => p ≠ h }
      else nd
    have hf : ∀ nd, (f nd).childNodes = nd.childNodes ∧
        (⟨(f nd).nodeId, (f nd).args⟩ : LinearProgram.Instr GF256 Nat) = ⟨nd.nodeId, nd.args⟩ := by
      intro nd
      simp only [f]
      split <;> exact ⟨rfl, rfl⟩
    show (((d.ecNodeMap.filter fun nd => nd.nodeId ≠ h).map f).filter
      fun nd => nd.childNodes ≠ []).map
        (fun nd => (⟨nd.nodeId, nd.args⟩ : LinearProgram.Instr GF256 Nat)) = _
    rw [program, List.filter_map, List.filter_map, List.map_map, List.filter_filter,
      List.filter_filter]
    have hmap : ((fun nd : ECNode => (⟨nd.nodeId, nd.args⟩ : LinearProgram.Instr GF256 Nat)) ∘ f) =
        fun nd => ⟨nd.nodeId, nd.args⟩ := funext fun nd => (hf nd).2
    rw [hmap]
    congr 1
    refine List.filter_congr fun nd _ => ?_
    simp only [Function.comp_apply, (hf nd).1, hc, not_false_eq_true, and_true]
    exact Bool.and_comm _ _

theorem program_foldl_removeHeader (hs : List Nat) (d : ECDAG) :
    (hs.foldl removeHeader d).program =
      d.program.filter fun i => ¬ (i.dst ∈ hs ∧ i.dst ∉ d.ecConcacts) := by
  induction hs generalizing d with
  | nil => simp
  | cons h hs ih =>
    have hconcacts : (d.removeHeader h).ecConcacts = d.ecConcacts := by
      unfold removeHeader
      split <;> rfl
    rw [List.foldl_cons, ih, program_removeHeader, List.filter_filter, hconcacts]
    refine List.filter_congr fun i _ => ?_
    by_cases hi : i.dst = h
    · subst hi
      by_cases hc : i.dst ∈ d.ecConcacts <;> simp [hc]
    · simp [hi]

theorem childIndices_removeHeader {d : ECDAG} {h v : Nat} (hv : v ≠ h ∨ h ∈ d.ecConcacts) :
    (d.removeHeader h).childIndices v = d.childIndices v := by
  unfold removeHeader
  split
  · rfl
  · next hc =>
    let f : ECNode → ECNode := fun nd =>
      if nd.nodeId ∈ d.childIndices h then
        { nd with parentNodes := nd.parentNodes.filter fun p => p ≠ h }
      else nd
    have hf : ∀ nd, (f nd).nodeId = nd.nodeId ∧ (f nd).childNodes = nd.childNodes := by
      intro nd
      simp only [f]
      split <;> exact ⟨rfl, rfl⟩
    have hne := hv.resolve_right hc
    show ((((d.ecNodeMap.filter fun nd => nd.nodeId ≠ h).map f).find?
      fun nd => nd.nodeId = v).map ECNode.childNodes).getD [] =
        ((d.ecNodeMap.find? fun nd => nd.nodeId = v).map ECNode.childNodes).getD []
    have hfind : (((d.ecNodeMap.filter fun nd => nd.nodeId ≠ h).map f).find?
        fun nd => nd.nodeId = v) = (d.ecNodeMap.find? fun nd => nd.nodeId = v).map f := by
      rw [List.find?_map, List.find?_filter]
      congr 2
      funext nd
      simp only [Function.comp_apply, (hf nd).1]
      by_cases he : nd.nodeId = v
      · simp [he, hne]
      · simp [he]
    have hmap : ECNode.childNodes ∘ f = ECNode.childNodes := funext fun nd => (hf nd).2
    rw [hfind, Option.map_map, hmap]

theorem childIndices_foldl_removeHeader {hs : List Nat} {d : ECDAG} {v : Nat}
    (hv : v ∈ hs → v ∈ d.ecConcacts) :
    (hs.foldl removeHeader d).childIndices v = d.childIndices v := by
  induction hs generalizing d with
  | nil => rfl
  | cons h hs ih =>
    have hconcacts : (d.removeHeader h).ecConcacts = d.ecConcacts := by
      unfold removeHeader
      split <;> rfl
    rw [List.foldl_cons, ih fun hm => hconcacts ▸ hv (List.mem_cons_of_mem _ hm)]
    refine childIndices_removeHeader ?_
    by_cases h1 : v = h
    · exact Or.inr (h1 ▸ hv (h1 ▸ List.mem_cons_self ..))
    · exact Or.inl h1

section
variable {d : ECDAG} (hd : d.WellFormed)
include hd

/-- **No value changes.** -/
theorem WellFormed.eval_foldl_removeHeader {M : Type} [AddCommMonoid M] [Module GF256 M]
    (x : Nat → M) : ∀ v, ¬ d.Dangling v →
      (d.ecHeaders.foldl ECDAG.removeHeader d).eval x v = d.eval x v := by
  unfold eval
  rw [program_foldl_removeHeader]
  refine LinearProgram.run_filter d.Dangling ?_ fun _ _ => rfl
  intro i hi hdst a ha hdead
  obtain ⟨nd, hnd, rfl⟩ := List.mem_map.1 hi
  have hnd := List.mem_of_mem_filter hnd
  -- a header is nobody's child
  exact hd.headers a.2 hdead.1 nd hnd (List.of_mem_zip ha).2

/-- **What is left**: the vertices that do not dangle, with their children. -/
theorem WellFormed.refresh_left (hnd : d.ecConcacts.Nodup)
    (hcon : ∀ v ∈ d.ecConcacts, v ∈ d.ecHeaders) :
    (∀ v, v ∈ d.refreshECDAG.nodeIds ↔ v ∈ d.nodeIds ∧ ¬ d.Dangling v) ∧
    (∀ v, v ∈ d.refreshECDAG.ecHeaders ↔ v ∈ d.ecHeaders ∧ ¬ d.Dangling v) ∧
    (∀ v, ¬ d.Dangling v → d.refreshECDAG.childIndices v = d.childIndices v) ∧
    ∀ (M : Type) [AddCommMonoid M] [Module GF256 M] (x : Nat → M) (v : Nat), ¬ d.Dangling v →
      d.refreshECDAG.eval x v = d.eval x v := by
  unfold ECDAG.refreshECDAG
  split
  · have hspec := foldl_removeHeader_spec (d := d) d.ecHeaders
    have hdang : ∀ v, ¬ d.Dangling v ↔ (v ∈ d.ecHeaders → v ∈ d.ecConcacts) := fun v => by
      unfold Dangling
      tauto
    refine ⟨fun v => ?_, fun v => ?_, fun v hv => ?_, fun M _ _ x v hv => ?_⟩
    · rw [(hspec v).1, hdang]
    · rw [(hspec v).2.1, hdang]
    · exact childIndices_foldl_removeHeader ((hdang v).1 hv)
    · exact hd.eval_foldl_removeHeader x v hv
  · next hlen =>
    have hperm := (List.subperm_of_subset hnd hcon).perm_of_length_le (not_not.1 hlen).le
    have hnone : ∀ v, ¬ d.Dangling v := fun v hv => hv.2 (hperm.mem_iff.2 hv.1)
    exact ⟨fun v => (and_iff_left (hnone v)).symm, fun v => (and_iff_left (hnone v)).symm,
      fun _ _ => rfl, fun _ _ _ _ _ _ => rfl⟩

/-- A vertex that is left leads to a root that is left. -/
theorem WellFormed.exists_root (v : Nat) (hv : v ∈ d.nodeIds) : ∃ r ∈ d.nodeIds,
    d.parentIds r = [] ∧ Relation.ReflTransGen (fun c p => c ∈ d.childIndices p) v r := by
  -- the parents are higher, and there is a highest vertex
  obtain ⟨B, hB⟩ : ∃ B, ∀ u ∈ d.nodeIds, d.height u ≤ B :=
    ⟨(d.nodeIds.map d.height).sum, fun u hu =>
      List.single_le_sum (by simp) _ (List.mem_map_of_mem hu)⟩
  induction hn : B - d.height v using Nat.strong_induction_on generalizing v with
  | _ n ih =>
    by_cases hp : d.parentIds v = []
    · exact ⟨v, hv, hp, .refl⟩
    · obtain ⟨p, hpm⟩ := List.exists_mem_of_ne_nil _ hp
      have hc := hd.mem_parentIds.1 hpm
      have hpn := (hd.childIndices_nodeIds hc).2
      have hlt := hd.height_lt hc
      have hle := hB p hpn
      obtain ⟨r, hr, hroot, hpath⟩ := ih (B - d.height p) (by omega) p hpn rfl
      exact ⟨r, hr, hroot, .head hc hpath⟩

/-- **The pruning is complete** exactly if no vertex is exposed. -/
theorem WellFormed.refresh_pruned_iff (hnd : d.ecConcacts.Nodup) :
    d.Pruned d.refreshECDAG ↔ d.NoneExposed := by
  have hcc := ecConcacts_refreshECDAG d
  have hwf := hd.refreshECDAG
  constructor
  · intro h
    have hcon : ∀ v ∈ d.ecConcacts, v ∈ d.ecHeaders := by
      intro v hv
      have hv' := (h.headers v).2 (hcc ▸ hv)
      unfold ECDAG.refreshECDAG at hv'
      split at hv'
      · exact ((foldl_removeHeader_spec (d := d) d.ecHeaders v).2.1.1 hv').1
      · exact hv'
    obtain ⟨hnodes, -, hch, -⟩ := hd.refresh_left hnd hcon
    refine ⟨hcon, fun v hv hh hc => ?_⟩
    have hleft := (hnodes v).2 ⟨hv, fun hdang => hh hdang.1⟩
    have hne : d.refreshECDAG.parentIds v ≠ [] := fun h0 => hc (hcc ▸ h.roots v hleft h0)
    obtain ⟨p, hp⟩ := List.exists_mem_of_ne_nil _ hne
    have hc' := hwf.mem_parentIds.1 hp
    have hpd := ((hnodes p).1 (hwf.childIndices_nodeIds hc').2).2
    rw [hch p hpd] at hc'
    exact ⟨p, hd.mem_parentIds.2 hc', hpd⟩
  · rintro ⟨hcon, hparent⟩
    obtain ⟨hnodes, hheaders, hch, heval⟩ := hd.refresh_left hnd hcon
    have hroots : ∀ v ∈ d.refreshECDAG.nodeIds, d.refreshECDAG.parentIds v = [] →
        v ∈ d.refreshECDAG.ecConcacts := by
      intro v hv h0
      rw [hcc]
      obtain ⟨hv, hvd⟩ := (hnodes v).1 hv
      by_contra hc
      obtain ⟨p, hp, hpd⟩ := hparent v hv (fun hh => hvd ⟨hh, hc⟩) hc
      have hp' : p ∈ d.refreshECDAG.parentIds v := by
        rw [hwf.mem_parentIds, hch p hpd]
        exact hd.mem_parentIds.1 hp
      rw [h0] at hp'
      cases hp'
    refine ⟨fun v hv => ?_, fun v => ?_, hroots, hwf.count_edges, fun u hu => ?_,
      fun M _ _ x v hv => ?_⟩
    · obtain ⟨r, hr, hr0, hpath⟩ := hwf.exists_root v hv
      exact ⟨r, hroots r hr hr0, hpath⟩
    · rw [hheaders, hcc]
      constructor
      · rintro ⟨h1, h2⟩
        by_contra hc
        exact h2 ⟨h1, hc⟩
      · exact fun hc => ⟨hcon v hc, fun hdang => hdang.2 hc⟩
    · exact ⟨hch u ((hnodes u).1 hu).2, fun c hc => (hwf.childIndices_nodeIds hc).1⟩
    · exact heval M x v fun hdang => hdang.2 (hcc ▸ hv)

end

end ECDAG

/-- **`refreshECDAG` prunes exactly the useless vertices** of the DAG of a repair, when no
vertex is exposed. -/
theorem refresh_prunes_iff {decode : List Nat → List Nat → ECDAG} {n w : Nat}
    {failed : Finset Nat} (hR : n ≤ REQUESTOR) (hw : 0 < w) {js : List Join}
    (hdec : decode (packets w (survivors n failed)) (packets w (losses n failed)) = .build js) :
    (genRepairECDAG decode n w failed).Pruned (genRepairECDAG decode n w failed).refreshECDAG ↔
      (genRepairECDAG decode n w failed).NoneExposed := by
  have hbuilt : (genRepairECDAG decode n w failed).Built := by
    rw [genRepairECDAG, hdec]
    exact .concact _ _ _ (ECDAG.built_build js)
  refine hbuilt.wellFormed.refresh_pruned_iff ?_
  rw [ecConcacts_genRepairECDAG hw hdec]
  exact nodup_concacts hR failed

/-- The DAG of a repair of the Butterfly code with two data nodes. -/
def butterflyRepair (failed : Finset Nat) : ECDAG :=
  genRepairECDAG (BUTTERFLY.decode 4 2 2) 4 2 failed

theorem refresh_prunes_butterfly :
    (butterflyRepair {0}).Pruned (butterflyRepair {0}).refreshECDAG := by
  have hdec : BUTTERFLY.decode 4 2 2 (packets 2 (survivors 4 {0})) (packets 2 (losses 4 {0})) =
      .build (BUTTERFLY.decodeJoins 4 2 2 (packets 2 (losses 4 {0}))) := rfl
  refine (refresh_prunes_iff (by decide) (by decide) hdec).2 ⟨?_, ?_⟩
  · decide +kernel
  · decide +kernel

/-- Node 3 lost: the sum of two packets is dropped, and the packets stay without a parent. -/
theorem butterfly_not_pruned : ¬ (butterflyRepair {3}).Pruned (butterflyRepair {3}).refreshECDAG := by
  intro h
  have hroots := h.roots
  revert hroots
  decide +kernel

end StripeRepair

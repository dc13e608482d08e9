import StripeRepair.Lib.Height
import StripeRepair.Ec.ECDAG

/-!
# What every `ECDAG` satisfies

`WellFormed` holds of each DAG that calls of `Join`, `Concact` and `refreshECDAG` build:
the vertices are distinct, children stand before their parents, `_parentNodes` lists
the edges backwards, and a header is nobody's child.

* `Built.wellFormed`: whatever the calls and their arguments are.
* `ECDAG.height`: the length of the longest path down from a vertex.
-/

namespace StripeRepair

namespace ECDAG

/-! ## Looking up a vertex -/

/-- `_ecNodeMap[v]`. -/
def node? (d : ECDAG) (v : Nat) : Option ECNode := d.ecNodeMap.find? fun nd => nd.nodeId = v

def childIndices (d : ECDAG) (v : Nat) : List Nat := ((d.node? v).map ECNode.childNodes).getD []

def getCoefs (d : ECDAG) (v : Nat) : List Int := ((d.node? v).map ECNode.coefs).getD []

def parentIds (d : ECDAG) (v : Nat) : List Nat := ((d.node? v).map ECNode.parentNodes).getD []

/-! ## `refreshECDAG` -/

/-- Drop the header `h` if it is not a concatenation: its children lose it as a parent. -/
def removeHeader (d : ECDAG) (h : Nat) : ECDAG :=
  if h ∈ d.ecConcacts then d
  else { d with
    ecNodeMap := (d.ecNodeMap.filter fun nd => nd.nodeId ≠ h).map fun nd =>
      if nd.nodeId ∈ d.childIndices h then
        { nd with parentNodes := nd.parentNodes.filter fun p => p ≠ h }
      else nd
    ecHeaders := d.ecHeaders.filter fun v => v ≠ h }

/-- One pass over the headers there are: a vertex that becomes parentless stays. -/
def refreshECDAG (d : ECDAG) : ECDAG :=
  if d.ecHeaders.length ≠ d.ecConcacts.length then d.ecHeaders.foldl removeHeader d else d

/-- The DAGs that calls of `Join`, `Concact` and `refreshECDAG` build. -/
inductive Built : ECDAG → Prop
  | empty : Built .empty
  | join {d : ECDAG} (p : Nat) (cs : List Nat) (co : List Int) : Built d → Built (d.join p cs co)
  | concact {d : ECDAG} (cs : List Nat) (n w : Nat) : Built d → Built (d.concact cs n w)
  | refresh {d : ECDAG} : Built d → Built d.refreshECDAG

theorem built_build (js : List Join) : Built (build js) := by
  induction js using List.reverseRecOn with
  | nil => exact .empty
  | append_singleton js j ih =>
    rw [build_concat]
    exact .join _ _ _ ih

/-! ## The invariant -/

/-- The parents of `v` among the vertices `l`, once for each edge. -/
def parentsIn (l : List ECNode) (v : Nat) : List Nat :=
  l.flatMap fun q => List.replicate (q.childNodes.count v) q.nodeId

structure WellFormed (d : ECDAG) : Prop where
  nodup : d.nodeIds.Nodup
  ordered : LinearProgram.Ordered ECNode.nodeId ECNode.childNodes (fun _ => False) d.ecNodeMap
  parents : ∀ nd ∈ d.ecNodeMap, nd.parentNodes = parentsIn d.ecNodeMap nd.nodeId
  headersNodup : d.ecHeaders.Nodup
  headersMem : ∀ v ∈ d.ecHeaders, v ∈ d.nodeIds
  headers : ∀ v ∈ d.ecHeaders, ∀ nd ∈ d.ecNodeMap, v ∉ nd.childNodes

theorem mem_parentsIn {l : List ECNode} {v p : Nat} :
    p ∈ parentsIn l v ↔ ∃ q ∈ l, v ∈ q.childNodes ∧ q.nodeId = p := by
  simp only [parentsIn, List.mem_flatMap, List.mem_replicate, ne_eq, List.count_eq_zero,
    not_not]
  exact exists_congr fun q => and_congr_right fun _ => and_congr_right fun _ => eq_comm

theorem count_parentsIn {l : List ECNode} (hl : (l.map ECNode.nodeId).Nodup) {q : ECNode}
    (hq : q ∈ l) (v : Nat) : (parentsIn l v).count q.nodeId = q.childNodes.count v := by
  induction l with
  | nil => cases hq
  | cons a l ih =>
    rw [List.map_cons, List.nodup_cons] at hl
    rw [parentsIn, List.flatMap_cons, List.count_append, List.count_replicate]
    show _ + (parentsIn l v).count q.nodeId = _
    rcases List.mem_cons.1 hq with rfl | hq
    · have h0 : (parentsIn l v).count q.nodeId = 0 := by
        refine List.count_eq_zero.2 fun hm => hl.1 ?_
        obtain ⟨b, hb, -, he⟩ := mem_parentsIn.1 hm
        exact he ▸ List.mem_map_of_mem hb
      rw [h0]
      simp
    · have hne : a.nodeId ≠ q.nodeId := fun he => hl.1 (he ▸ List.mem_map_of_mem hq)
      rw [ih hl.2 hq]
      simp [hne]

theorem parentsIn_append (l l' : List ECNode) (v : Nat) :
    parentsIn (l ++ l') v = parentsIn l v ++ parentsIn l' v := List.flatMap_append

theorem parentsIn_filter (l : List ECNode) (h v : Nat) :
    parentsIn (l.filter fun nd => nd.nodeId ≠ h) v = (parentsIn l v).filter fun p => p ≠ h := by
  induction l with
  | nil => rfl
  | cons a l ih =>
    rw [← List.singleton_append, List.filter_append, parentsIn_append, parentsIn_append,
      List.filter_append, ih]
    by_cases ha : a.nodeId = h <;> simp [parentsIn, ha]

/-- A map over the vertices that keeps names and children keeps the parents. -/
theorem parentsIn_map {l : List ECNode} {f : ECNode → ECNode}
    (hid : ∀ nd, (f nd).nodeId = nd.nodeId) (hch : ∀ nd, (f nd).childNodes = nd.childNodes)
    (v : Nat) : parentsIn (l.map f) v = parentsIn l v := by
  rw [parentsIn, List.flatMap_map]
  exact List.flatMap_congr fun q _ => by rw [hid, hch]

theorem ordered_map {l : List ECNode} {f : ECNode → ECNode} {S : Nat → Prop}
    (hid : ∀ nd, (f nd).nodeId = nd.nodeId) (hch : ∀ nd, (f nd).childNodes = nd.childNodes)
    (h : LinearProgram.Ordered ECNode.nodeId ECNode.childNodes S l) :
    LinearProgram.Ordered ECNode.nodeId ECNode.childNodes S (l.map f) := by
  induction l generalizing S with
  | nil => trivial
  | cons a l ih =>
    refine ⟨?_, ?_⟩
    · rw [hch]
      exact h.1
    · rw [hid]
      exact ih h.2

theorem nodup_snoc {l : List Nat} {v : Nat} (hl : l.Nodup) (hv : v ∉ l) : (l ++ [v]).Nodup := by
  rw [← List.concat_eq_append]
  exact hl.concat hv

theorem wellFormed_empty : WellFormed .empty := by
  refine ⟨List.nodup_nil, trivial, ?_, List.nodup_nil, ?_, ?_⟩ <;> simp [empty]

section
variable {d : ECDAG} (hd : d.WellFormed)
include hd

theorem WellFormed.childNodes_mem {nd : ECNode} (hnd : nd ∈ d.ecNodeMap) :
    ∀ c ∈ nd.childNodes, c ∈ d.nodeIds :=
  fun c hc => (hd.ordered.srcs_mem nd hnd c hc).resolve_left id

/-- A vertex that is not there yet has no parents. -/
theorem WellFormed.parentsIn_of_not_mem {v : Nat} (hv : v ∉ d.nodeIds) :
    parentsIn d.ecNodeMap v = [] := by
  refine List.eq_nil_iff_forall_not_mem.2 fun p hp => hv ?_
  obtain ⟨q, hq, hc, -⟩ := mem_parentsIn.1 hp
  exact hd.childNodes_mem hq v hc

/-! ## `Join` keeps it -/

theorem WellFormed.addChild (c : Nat) : (d.addChild c).WellFormed := by
  unfold ECDAG.addChild
  split
  · exact ⟨hd.nodup, hd.ordered, hd.parents, hd.headersNodup.erase c,
      fun v hv => hd.headersMem v (List.mem_of_mem_erase hv),
      fun v hv => hd.headers v (List.mem_of_mem_erase hv)⟩
  · next hc =>
    have hleaf : ∀ v, parentsIn (d.ecNodeMap ++ [⟨c, [], [], []⟩]) v = parentsIn d.ecNodeMap v := by
      intro v
      rw [parentsIn_append]
      simp [parentsIn]
    refine ⟨?_, ?_, ?_, hd.headersNodup, ?_, ?_⟩
    · simp only [nodeIds, List.map_append, List.map_cons, List.map_nil]
      exact nodup_snoc hd.nodup hc
    · exact LinearProgram.ordered_append.2 ⟨hd.ordered, by simp, trivial⟩
    · intro nd hnd
      rw [hleaf]
      rcases List.mem_append.1 hnd with hnd | hnd
      · exact hd.parents nd hnd
      · rw [List.mem_singleton.1 hnd]
        exact (hd.parentsIn_of_not_mem hc).symm
    · intro v hv
      simp only [nodeIds, List.map_append, List.mem_append]
      exact Or.inl (hd.headersMem v hv)
    · intro v hv nd hnd
      rcases List.mem_append.1 hnd with hnd | hnd
      · exact hd.headers v hv nd hnd
      · rw [List.mem_singleton.1 hnd]
        exact List.not_mem_nil

theorem WellFormed.foldl_addChild (cs : List Nat) : (cs.foldl ECDAG.addChild d).WellFormed := by
  induction cs generalizing d with
  | nil => exact hd
  | cons c cs ih => exact ih (hd.addChild c)

omit hd in
theorem mem_ecHeaders_addChild {c v : Nat} (h : v ∈ (d.addChild c).ecHeaders) :
    v ∈ d.ecHeaders := by
  unfold ECDAG.addChild at h
  split at h
  · exact List.mem_of_mem_erase h
  · exact h

theorem WellFormed.not_mem_ecHeaders_addChild (c : Nat) : c ∉ (d.addChild c).ecHeaders := by
  unfold ECDAG.addChild
  split
  · exact hd.headersNodup.not_mem_erase
  · next hc => exact fun h => hc (hd.headersMem c h)

/-- A child is no header any more. -/
theorem WellFormed.ecHeaders_foldl_addChild (cs : List Nat) :
    ∀ v ∈ (cs.foldl ECDAG.addChild d).ecHeaders, v ∈ d.ecHeaders ∧ v ∉ cs := by
  induction cs generalizing d with
  | nil => exact fun v hv => ⟨hv, List.not_mem_nil⟩
  | cons c cs ih =>
    intro v hv
    obtain ⟨h1, h2⟩ := ih (hd.addChild c) v hv
    refine ⟨mem_ecHeaders_addChild h1, fun hm => ?_⟩
    rcases List.mem_cons.1 hm with rfl | hm
    · exact hd.not_mem_ecHeaders_addChild v h1
    · exact h2 hm

theorem WellFormed.addVertex {p : Nat} {cs : List Nat} (co : List Int)
    (hcs : ∀ c ∈ cs, c ∈ d.nodeIds) (hh : ∀ v ∈ d.ecHeaders, v ∉ cs) :
    (d.addVertex p cs co).WellFormed := by
  unfold ECDAG.addVertex
  split
  · exact hd
  · next hp =>
    have hid : ∀ nd, (addParents p cs nd).nodeId = nd.nodeId := fun nd => rfl
    have hch : ∀ nd, (addParents p cs nd).childNodes = nd.childNodes := fun nd => rfl
    have hmap : (d.ecNodeMap.map (addParents p cs)).map ECNode.nodeId = d.nodeIds := by
      rw [List.map_map]
      rfl
    have hpar : ∀ v, parentsIn (d.ecNodeMap.map (addParents p cs) ++ [⟨p, cs, co, []⟩]) v =
        parentsIn d.ecNodeMap v ++ List.replicate (cs.count v) p := by
      intro v
      rw [parentsIn_append, parentsIn_map hid hch]
      simp [parentsIn]
    refine ⟨?_, ?_, ?_, ?_, ?_, ?_⟩
    · show (List.map ECNode.nodeId _).Nodup
      rw [List.map_append, hmap]
      exact nodup_snoc hd.nodup hp
    · refine LinearProgram.ordered_append.2 ⟨ordered_map hid hch hd.ordered, ?_, trivial⟩
      intro c hc
      rw [hmap]
      exact Or.inr (hcs c hc)
    · intro nd hnd
      rw [hpar]
      rcases List.mem_append.1 hnd with hnd | hnd
      · obtain ⟨nd', hnd', rfl⟩ := List.mem_map.1 hnd
        show nd'.parentNodes ++ _ = _
        rw [hd.parents nd' hnd']
        rfl
      · rw [List.mem_singleton.1 hnd]
        show [] = parentsIn d.ecNodeMap p ++ List.replicate (cs.count p) p
        rw [hd.parentsIn_of_not_mem hp, List.count_eq_zero.2 fun h => hp (hcs p h)]
        rfl
    · exact nodup_snoc hd.headersNodup fun h => hp (hd.headersMem p h)
    · intro v hv
      show v ∈ List.map ECNode.nodeId _
      rw [List.map_append, hmap, List.mem_append]
      rcases List.mem_append.1 hv with hv | hv
      · exact Or.inl (hd.headersMem v hv)
      · exact Or.inr (by simpa using hv)
    · intro v hv nd hnd
      rcases List.mem_append.1 hnd with hnd | hnd
      · obtain ⟨nd', hnd', rfl⟩ := List.mem_map.1 hnd
        rcases List.mem_append.1 hv with hv | hv
        · exact hd.headers v hv nd' hnd'
        · rw [List.mem_singleton.1 hv]
          exact fun h => hp (hd.childNodes_mem hnd' p h)
      · rw [List.mem_singleton.1 hnd]
        rcases List.mem_append.1 hv with hv | hv
        · exact hh v hv
        · rw [List.mem_singleton.1 hv]
          exact fun h => hp (hcs p h)

theorem WellFormed.join (p : Nat) (cs : List Nat) (co : List Int) :
    (d.join p cs co).WellFormed := by
  refine (hd.foldl_addChild cs).addVertex co ?_ ?_
  · exact fun c hc => (mem_nodeIds_foldl_addChild cs d c).2 (Or.inr hc)
  · exact fun v hv => (hd.ecHeaders_foldl_addChild cs v hv).2

theorem WellFormed.concact (cs : List Nat) (n w : Nat) : (d.concact cs n w).WellFormed := by
  unfold ECDAG.concact
  induction List.range n generalizing d with
  | nil => exact hd
  | cons i l ih =>
    refine ih ?_
    unfold concactStep
    split
    · exact hd
    · obtain ⟨h1, h2, h3, h4, h5, h6⟩ := hd.join (REQUESTOR - i) (concactBlock cs w i)
        (List.replicate cs.length (-1))
      exact ⟨h1, h2, h3, h4, h5, h6⟩

/-! ## `refreshECDAG` keeps it -/

theorem WellFormed.node?_eq {nd : ECNode} (hnd : nd ∈ d.ecNodeMap) :
    d.node? nd.nodeId = some nd := by
  unfold node?
  obtain ⟨b, hb⟩ := Option.isSome_iff_exists.1
    (List.find?_isSome (p := fun q : ECNode => q.nodeId = nd.nodeId).2 ⟨nd, hnd, by simp⟩)
  have hid : b.nodeId = nd.nodeId := by simpa using List.find?_some hb
  rw [hb, List.inj_on_of_nodup_map hd.nodup (List.mem_of_find?_eq_some hb) hnd hid]

theorem WellFormed.childIndices_eq {nd : ECNode} (hnd : nd ∈ d.ecNodeMap) :
    d.childIndices nd.nodeId = nd.childNodes := by
  rw [childIndices, hd.node?_eq hnd]
  rfl

theorem WellFormed.parentIds_eq {nd : ECNode} (hnd : nd ∈ d.ecNodeMap) :
    d.parentIds nd.nodeId = parentsIn d.ecNodeMap nd.nodeId := by
  rw [parentIds, hd.node?_eq hnd, ← hd.parents nd hnd]
  rfl

/-- Dropping a vertex that is nobody's child. -/
theorem WellFormed.removeHeader {h : Nat} (hh : ∀ nd ∈ d.ecNodeMap, h ∉ nd.childNodes) :
    (d.removeHeader h).WellFormed := by
  unfold ECDAG.removeHeader
  split
  · exact hd
  · let f : ECNode → ECNode := fun nd =>
      if nd.nodeId ∈ d.childIndices h then
        { nd with parentNodes := nd.parentNodes.filter fun p => p ≠ h }
      else nd
    have hid : ∀ nd, (f nd).nodeId = nd.nodeId := by
      intro nd
      simp only [f]
      split <;> rfl
    have hch : ∀ nd, (f nd).childNodes = nd.childNodes := by
      intro nd
      simp only [f]
      split <;> rfl
    have hids : (List.map f (d.ecNodeMap.filter fun nd => nd.nodeId ≠ h)).map ECNode.nodeId =
        d.nodeIds.filter fun v => v ≠ h := by
      rw [List.map_map, nodeIds, List.filter_map]
      exact List.map_congr_left fun nd _ => hid nd
    refine ⟨?_, ?_, ?_, hd.headersNodup.filter _, ?_, ?_⟩
    · show (List.map ECNode.nodeId (List.map f _)).Nodup
      rw [hids]
      exact hd.nodup.filter _
    · exact ordered_map hid hch (hd.ordered.filter_ne hh fun _ _ => id)
    · intro nd hnd
      obtain ⟨nd', hnd', rfl⟩ := List.mem_map.1 hnd
      show (f nd').parentNodes = parentsIn (List.map f _) (f nd').nodeId
      rw [parentsIn_map hid hch, parentsIn_filter, hid,
        ← hd.parents nd' (List.mem_of_mem_filter hnd')]
      simp only [f]
      split
      · rfl
      · next hc =>
        -- who is not a child of `h` does not have it as a parent
        refine (List.filter_eq_self.2 fun p hp => ?_).symm
        rw [decide_eq_true_iff]
        rintro rfl
        rw [hd.parents nd' (List.mem_of_mem_filter hnd')] at hp
        obtain ⟨q, hq, hqc, rfl⟩ := mem_parentsIn.1 hp
        exact hc (hd.childIndices_eq hq ▸ hqc)
    · intro v hv
      obtain ⟨hv, hne⟩ := List.mem_filter.1 hv
      show v ∈ List.map ECNode.nodeId (List.map f _)
      rw [hids]
      exact List.mem_filter.2 ⟨hd.headersMem v hv, hne⟩
    · intro v hv nd hnd
      obtain ⟨nd', hnd', rfl⟩ := List.mem_map.1 hnd
      rw [show (f nd').childNodes = nd'.childNodes from hch nd']
      exact hd.headers v (List.mem_of_mem_filter hv) nd' (List.mem_of_mem_filter hnd')

omit hd in
theorem childNodes_removeHeader {h : Nat} {nd : ECNode} (hnd : nd ∈ (d.removeHeader h).ecNodeMap) :
    ∃ nd' ∈ d.ecNodeMap, nd'.nodeId = nd.nodeId ∧ nd'.childNodes = nd.childNodes := by
  unfold ECDAG.removeHeader at hnd
  split at hnd
  · exact ⟨nd, hnd, rfl, rfl⟩
  · obtain ⟨nd', hnd', rfl⟩ := List.mem_map.1 hnd
    refine ⟨nd', List.mem_of_mem_filter hnd', ?_, ?_⟩ <;> split <;> rfl

theorem WellFormed.foldl_removeHeader {hs : List Nat}
    (hh : ∀ h ∈ hs, ∀ nd ∈ d.ecNodeMap, h ∉ nd.childNodes) :
    (hs.foldl ECDAG.removeHeader d).WellFormed := by
  induction hs generalizing d with
  | nil => exact hd
  | cons h hs ih =>
    refine ih (hd.removeHeader (hh h (List.mem_cons_self ..))) ?_
    intro k hk nd hnd
    obtain ⟨nd', hnd', -, hc⟩ := childNodes_removeHeader hnd
    rw [← hc]
    exact hh k (List.mem_cons_of_mem _ hk) nd' hnd'

theorem WellFormed.refreshECDAG : d.refreshECDAG.WellFormed := by
  unfold ECDAG.refreshECDAG
  split
  · exact hd.foldl_removeHeader hd.headers
  · exact hd

end

/-- **Every DAG the calls build is well formed.** -/
theorem Built.wellFormed {d : ECDAG} (hd : d.Built) : d.WellFormed := by
  induction hd with
  | empty => exact wellFormed_empty
  | join p cs co _ ih => exact ih.join p cs co
  | concact cs n w _ ih => exact ih.concact cs n w
  | refresh _ ih => exact ih.refreshECDAG

/-! ## Edges and heights -/

/-- The length of the longest path down from a vertex. -/
def height (d : ECDAG) : Nat → Nat :=
  LinearProgram.height ECNode.nodeId ECNode.childNodes d.ecNodeMap

section
variable {d : ECDAG} (hd : d.WellFormed)
include hd

theorem WellFormed.mem_childIndices {c v : Nat} :
    c ∈ d.childIndices v ↔ ∃ q ∈ d.ecNodeMap, q.nodeId = v ∧ c ∈ q.childNodes := by
  constructor
  · intro h
    unfold childIndices node? at h
    cases hf : d.ecNodeMap.find? fun nd => nd.nodeId = v with
    | none =>
      rw [hf] at h
      cases h
    | some q =>
      rw [hf] at h
      exact ⟨q, List.mem_of_find?_eq_some hf, by simpa using List.find?_some hf, h⟩
  · rintro ⟨q, hq, rfl, hc⟩
    rwa [hd.childIndices_eq hq]

theorem WellFormed.childIndices_nodeIds {c v : Nat} (hc : c ∈ d.childIndices v) :
    c ∈ d.nodeIds ∧ v ∈ d.nodeIds := by
  obtain ⟨q, hq, rfl, hqc⟩ := hd.mem_childIndices.1 hc
  exact ⟨hd.childNodes_mem hq c hqc, List.mem_map_of_mem hq⟩

theorem WellFormed.mem_parentIds {v p : Nat} : p ∈ d.parentIds v ↔ v ∈ d.childIndices p := by
  by_cases hv : v ∈ d.nodeIds
  · obtain ⟨nd, hnd, rfl⟩ := List.mem_map.1 hv
    rw [hd.parentIds_eq hnd, mem_parentsIn, hd.mem_childIndices]
    exact exists_congr fun q => and_congr_right fun _ => and_comm
  · have hnone : d.node? v = none := by
      refine List.find?_eq_none.2 fun nd hnd he => hv ?_
      exact of_decide_eq_true he ▸ List.mem_map_of_mem hnd
    refine iff_of_false ?_ fun h => hv (hd.childIndices_nodeIds h).1
    rw [parentIds, hnone]
    exact List.not_mem_nil

theorem WellFormed.count_parentIds {v p : Nat} (hv : v ∈ d.nodeIds) (hp : p ∈ d.nodeIds) :
    (d.parentIds v).count p = (d.childIndices p).count v := by
  obtain ⟨nd, hnd, rfl⟩ := List.mem_map.1 hv
  obtain ⟨q, hq, rfl⟩ := List.mem_map.1 hp
  rw [hd.parentIds_eq hnd, hd.childIndices_eq hq, count_parentsIn hd.nodup hq]

theorem WellFormed.count_edges (u v : Nat) :
    (d.parentIds v).count u = (d.childIndices u).count v := by
  by_cases h : v ∈ d.childIndices u
  · obtain ⟨hv, hu⟩ := hd.childIndices_nodeIds h
    exact hd.count_parentIds hv hu
  · rw [List.count_eq_zero.2 h, List.count_eq_zero]
    exact fun hm => h (hd.mem_parentIds.1 hm)

theorem WellFormed.height_lt {c v : Nat} (hc : c ∈ d.childIndices v) : d.height c < d.height v := by
  obtain ⟨q, hq, rfl, hqc⟩ := hd.mem_childIndices.1 hc
  exact LinearProgram.height_lt hd.ordered hd.nodup hq hqc

theorem WellFormed.height_eq_zero {v : Nat} (hv : v ∈ d.nodeIds) :
    d.height v = 0 ↔ d.childIndices v = [] := by
  obtain ⟨nd, hnd, rfl⟩ := List.mem_map.1 hv
  rw [hd.childIndices_eq hnd]
  exact LinearProgram.height_eq_zero hd.ordered hd.nodup hnd

theorem WellFormed.exists_height_eq {v m : Nat} (hv : v ∈ d.nodeIds) (hm : m ≤ d.height v) :
    ∃ u ∈ d.nodeIds, d.height u = m := by
  obtain ⟨nd, hnd, rfl⟩ := List.mem_map.1 hv
  obtain ⟨q, hq, he⟩ := LinearProgram.exists_height_eq hd.ordered hd.nodup hnd hm
  exact ⟨q.nodeId, List.mem_map_of_mem hq, he⟩

end

end ECDAG

end StripeRepair

import StripeRepair.Ec.WellFormed

/-!
# What the lists of an `ECDAG` are meant to say

`_ecHeaders` should hold the vertices with children and no parent, `_ecLeaves` the
vertices without children, the parent lists the child lists backwards, and a vertex
should have an edge (`Represents`).

`Join` registers its children before it looks at the parent.  When the parent is there
already no edge is added, so a child that was new stays alone, and a child that was a
header is none any more although it got no parent.

* `represents_iff`: the lists are right after every call exactly when each `Join` is on
  a new vertex, or on an old one with children that are there and are no headers.
* `represents_join_repeated`: a repeated `Join` after which they are wrong.
-/

namespace StripeRepair

namespace ECDAG

structure Represents (d : ECDAG) : Prop where
  headersNodup : d.ecHeaders.Nodup
  headers : ∀ v, v ∈ d.ecHeaders ↔ v ∈ d.nodeIds ∧ d.childIndices v ≠ [] ∧ d.parentIds v = []
  leavesNodup : d.ecLeaves.Nodup
  leaves : ∀ v, v ∈ d.ecLeaves ↔ v ∈ d.nodeIds ∧ d.childIndices v = []
  edges : ∀ u v, (d.parentIds v).count u = (d.childIndices u).count v
  edge : ∀ v ∈ d.nodeIds, d.childIndices v ≠ [] ∨ d.parentIds v ≠ []

/-- What a `Join` on `pidx` needs. -/
def JoinMeets (d : ECDAG) (pidx : Nat) (cidx : List Nat) : Prop :=
  if pidx ∈ d.nodeIds then ∀ c ∈ cidx, c ∈ d.nodeIds ∧ c ∉ d.ecHeaders
  else cidx ≠ [] ∧ pidx ∉ cidx

/-- What the `Join`s of a `Concact` need, each in the DAG the ones before it leave. -/
def ConcactMeets (cidx : List Nat) (w : Nat) : ECDAG → List Nat → Prop
  | _, [] => True
  | d, i :: l =>
    (concactBlock cidx w i ≠ [] → d.JoinMeets (REQUESTOR - i) (concactBlock cidx w i)) ∧
      ConcactMeets cidx w (concactStep cidx w d i) l

/-- A call of `Join` or of one of the two `Concact`s. -/
inductive Call
  | join (pidx : Nat) (cidx : List Nat) (coefs : List Int)
  | concactAll (cidx : List Nat)
  | concact (cidx : List Nat) (n w : Nat)
  deriving DecidableEq, Repr

def perform (d : ECDAG) : Call → ECDAG
  | .join pidx cidx coefs => d.join pidx cidx coefs
  | .concactAll cidx => d.join REQUESTOR cidx (List.replicate cidx.length (-1))
  | .concact cidx n w => d.concact cidx n w

/-- The DAG after a sequence of calls. -/
def after (calls : List Call) : ECDAG := calls.foldl perform .empty

def Meets (d : ECDAG) : Call → Prop
  | .join pidx cidx _ => d.JoinMeets pidx cidx
  | .concactAll cidx => d.JoinMeets REQUESTOR cidx
  | .concact cidx n w => ConcactMeets cidx w d (List.range n)

/-! ## The lists after a `Join` -/

theorem edge_foldl_addChild (cs : List Nat) (d : ECDAG) (v c : Nat) :
    (∃ q ∈ (cs.foldl addChild d).ecNodeMap, q.nodeId = v ∧ c ∈ q.childNodes) ↔
      ∃ q ∈ d.ecNodeMap, q.nodeId = v ∧ c ∈ q.childNodes := by
  induction cs generalizing d with
  | nil => exact Iff.rfl
  | cons a cs ih =>
    rw [List.foldl_cons, ih]
    unfold addChild
    split
    · exact Iff.rfl
    · -- the new vertex has no children
      constructor
      · rintro ⟨q, hq, hv, hc⟩
        rcases List.mem_append.1 hq with hq | hq
        · exact ⟨q, hq, hv, hc⟩
        · rw [List.mem_singleton.1 hq] at hc
          cases hc
      · rintro ⟨q, hq, hv, hc⟩
        exact ⟨q, List.mem_append_left _ hq, hv, hc⟩

section
variable {d : ECDAG} (hd : d.WellFormed)
include hd

theorem WellFormed.mem_childIndices_join (p : Nat) (cs : List Nat) (co : List Int) (v c : Nat) :
    c ∈ (d.join p cs co).childIndices v ↔
      c ∈ d.childIndices v ∨ (p ∉ d.nodeIds ∧ p ∉ cs ∧ v = p ∧ c ∈ cs) := by
  rw [(hd.join p cs co).mem_childIndices, hd.mem_childIndices,
    ← edge_foldl_addChild cs d v c]
  have hmem := mem_nodeIds_foldl_addChild cs d p
  unfold ECDAG.join ECDAG.addVertex
  split
  · next hp =>
    refine (or_iff_left ?_).symm
    rintro ⟨h1, h2, -⟩
    exact (hmem.1 hp).elim h1 h2
  · next hp =>
    rw [hmem, not_or] at hp
    constructor
    · rintro ⟨q, hq, hv, hc⟩
      rcases List.mem_append.1 hq with hq | hq
      · obtain ⟨q', hq', rfl⟩ := List.mem_map.1 hq
        exact Or.inl ⟨q', hq', hv, hc⟩
      · rw [List.mem_singleton.1 hq] at hv hc
        exact Or.inr ⟨hp.1, hp.2, hv.symm, hc⟩
    · rintro (⟨q, hq, hv, hc⟩ | ⟨-, -, hv, hc⟩)
      · exact ⟨addParents p cs q, List.mem_append_left _ (List.mem_map_of_mem hq), hv, hc⟩
      · exact ⟨⟨p, cs, co, []⟩, List.mem_append_right _ (List.mem_singleton_self _), hv.symm, hc⟩

theorem WellFormed.mem_ecHeaders_foldl_addChild (cs : List Nat) (v : Nat) :
    v ∈ (cs.foldl ECDAG.addChild d).ecHeaders ↔ v ∈ d.ecHeaders ∧ v ∉ cs := by
  refine ⟨hd.ecHeaders_foldl_addChild cs v, ?_⟩
  rintro ⟨hv, hcs⟩
  induction cs generalizing d with
  | nil => exact hv
  | cons c cs ih =>
    refine ih (hd.addChild c) ?_ fun h => hcs (List.mem_cons_of_mem _ h)
    have hne : v ≠ c := fun he => hcs (he ▸ List.mem_cons_self ..)
    unfold ECDAG.addChild
    split
    · exact (List.mem_erase_of_ne hne).2 hv
    · exact hv

theorem WellFormed.mem_ecHeaders_join (p : Nat) (cs : List Nat) (co : List Int) (v : Nat) :
    v ∈ (d.join p cs co).ecHeaders ↔
      (v ∈ d.ecHeaders ∧ v ∉ cs) ∨ (p ∉ d.nodeIds ∧ p ∉ cs ∧ v = p) := by
  rw [← hd.mem_ecHeaders_foldl_addChild cs v]
  have hmem := mem_nodeIds_foldl_addChild cs d p
  unfold ECDAG.join ECDAG.addVertex
  split
  · next hp =>
    refine (or_iff_left ?_).symm
    rintro ⟨h1, h2, -⟩
    exact (hmem.1 hp).elim h1 h2
  · next hp =>
    rw [hmem, not_or] at hp
    simp [hp.1, hp.2]

omit hd in
theorem mem_ecLeaves_foldl_addChild_iff (cs : List Nat) (v : Nat) :
    v ∈ (cs.foldl addChild d).ecLeaves ↔ v ∈ d.ecLeaves ∨ (v ∈ cs ∧ v ∉ d.nodeIds) := by
  refine ⟨mem_ecLeaves_foldl_addChild cs d v, ?_⟩
  intro h
  induction cs generalizing d with
  | nil => exact h.elim id fun h => absurd h.1 List.not_mem_nil
  | cons c cs ih =>
    apply ih
    rw [nodeIds_addChild]
    unfold addChild
    rcases h with h | ⟨h, hnew⟩
    · left
      split
      · exact h
      · exact List.mem_append_left _ h
    · by_cases hvc : v = c
      · subst hvc
        rw [if_neg hnew]
        exact Or.inl (List.mem_append_right _ (List.mem_singleton_self _))
      · refine Or.inr ⟨(List.mem_cons.1 h).resolve_left hvc, ?_⟩
        split
        · exact hnew
        · simpa [hvc] using hnew

omit hd in
theorem ecLeaves_join (p : Nat) (cs : List Nat) (co : List Int) :
    (d.join p cs co).ecLeaves = (cs.foldl addChild d).ecLeaves := by
  unfold join addVertex
  split <;> rfl

omit hd in
/-- **The leaves are the available packets that are read**, when nothing available is joined. -/
theorem mem_ecLeaves_build_of_ordered {avail : Nat → Prop} {js : List Join}
    (hord : JoinsOrdered avail js) (hfresh : ∀ j ∈ js, ¬ avail j.pidx) (v : Nat) :
    v ∈ (build js).ecLeaves ↔ avail v ∧ ∃ j ∈ js, v ∈ j.cidx := by
  induction js using List.reverseRecOn with
  | nil => simp [build, empty]
  | append_singleton js j ih =>
    rw [JoinsOrdered, LinearProgram.ordered_append] at hord
    obtain ⟨hord, hj, -⟩ := hord
    have hold : ∀ i ∈ js, ¬ avail i.pidx := fun i hi => hfresh i (List.mem_append_left _ hi)
    rw [build_concat, ecLeaves_join, mem_ecLeaves_foldl_addChild_iff, ih hord hold,
      mem_nodeIds_build]
    constructor
    · rintro (⟨ha, i, hi, hv⟩ | ⟨hv, hnew⟩)
      · exact ⟨ha, i, List.mem_append_left _ hi, hv⟩
      · refine ⟨(hj v hv).resolve_right fun hm => ?_, j,
          List.mem_append_right _ (List.mem_singleton_self j), hv⟩
        obtain ⟨i, hi, rfl⟩ := List.mem_map.1 hm
        exact hnew ⟨i, hi, Or.inl rfl⟩
    · rintro ⟨ha, i, hi, hv⟩
      rcases List.mem_append.1 hi with hi | hi
      · exact Or.inl ⟨ha, i, hi, hv⟩
      · rw [List.mem_singleton.1 hi] at hv
        by_cases hleaf : ∃ i ∈ js, v ∈ i.cidx
        · exact Or.inl ⟨ha, hleaf⟩
        · refine Or.inr ⟨hv, ?_⟩
          rintro ⟨i, hi, rfl | hvi⟩
          · exact hold i hi ha
          · exact hleaf ⟨i, hi, hvi⟩

omit hd in
/-- A leaf is a child of some `Join`. -/
theorem mem_cidx_of_mem_ecLeaves {js : List Join} {v : Nat} (hv : v ∈ (build js).ecLeaves) :
    ∃ j ∈ js, v ∈ j.cidx := by
  induction js using List.reverseRecOn with
  | nil => exact absurd hv List.not_mem_nil
  | append_singleton js j ih =>
    rw [build_concat, ecLeaves_join, mem_ecLeaves_foldl_addChild_iff] at hv
    rcases hv with hv | hv
    · obtain ⟨i, hi, hvi⟩ := ih hv
      exact ⟨i, List.mem_append_left _ hi, hvi⟩
    · exact ⟨j, List.mem_append_right _ (List.mem_singleton_self j), hv.1⟩

omit hd in
/-- When no child is joined, the leaves are the children. -/
theorem mem_ecLeaves_build {js : List Join}
    (hjs : ∀ j ∈ js, ∀ c ∈ j.cidx, c ∉ js.map Join.pidx) (v : Nat) :
    v ∈ (build js).ecLeaves ↔ ∃ j ∈ js, v ∈ j.cidx := by
  rw [@mem_ecLeaves_build_of_ordered (fun v => v ∉ js.map Join.pidx) js
    (LinearProgram.ordered_of_forall hjs) fun j hj h => h (List.mem_map_of_mem hj)]
  exact ⟨fun h => h.2, fun ⟨j, hj, hv⟩ => ⟨hjs j hj v hv, j, hj, hv⟩⟩

omit hd in
/-- A vertex whose `Join`s have no children has none. -/
theorem childIndices_build_eq_nil {js : List Join} {v : Nat}
    (hjs : ∀ j ∈ js, j.pidx = v → j.cidx = []) : (build js).childIndices v = [] := by
  induction js using List.reverseRecOn with
  | nil => rfl
  | append_singleton js j ih =>
    have hnil := ih fun i hi => hjs i (List.mem_append_left _ hi)
    refine List.eq_nil_iff_forall_not_mem.2 fun c hc => ?_
    rw [build_concat, (built_build js).wellFormed.mem_childIndices_join, hnil] at hc
    rcases hc with hc | ⟨-, -, hv, hc⟩
    · exact List.not_mem_nil hc
    · rw [hjs j (List.mem_append_right _ (List.mem_singleton_self j)) hv.symm] at hc
      exact List.not_mem_nil hc

omit hd in
theorem nodup_ecLeaves_foldl_addChild {cs : List Nat} (hsub : ∀ v ∈ d.ecLeaves, v ∈ d.nodeIds)
    (h : d.ecLeaves.Nodup) : (cs.foldl addChild d).ecLeaves.Nodup := by
  induction cs generalizing d with
  | nil => exact h
  | cons c cs ih =>
    refine ih ?_ ?_
    · rw [nodeIds_addChild]
      unfold addChild
      split
      · exact hsub
      · intro v hv
        rcases List.mem_append.1 hv with hv | hv
        · exact List.mem_append_left _ (hsub v hv)
        · exact List.mem_append_right _ hv
    · unfold addChild
      split
      · exact h
      · next hc => exact nodup_snoc h fun hm => hc (hsub c hm)

theorem WellFormed.parentIds_eq_nil {v : Nat} :
    d.parentIds v = [] ↔ ∀ u, v ∉ d.childIndices u := by
  rw [List.eq_nil_iff_forall_not_mem]
  exact forall_congr' fun u => not_congr hd.mem_parentIds

/-! ## A `Join` that meets the condition -/

omit hd in
theorem foldl_addChild_eq {cs : List Nat} (h : ∀ c ∈ cs, c ∈ d.nodeIds ∧ c ∉ d.ecHeaders) :
    cs.foldl addChild d = d := by
  induction cs with
  | nil => rfl
  | cons c cs ih =>
    obtain ⟨hc, hh⟩ := h c (List.mem_cons_self ..)
    have hadd : d.addChild c = d := by
      rw [addChild, if_pos hc, List.erase_of_not_mem hh]
    rw [List.foldl_cons, hadd]
    exact ih fun a ha => h a (List.mem_cons_of_mem _ ha)

omit hd in
/-- On a vertex that is there, with children that are there and are no headers, `Join`
does nothing. -/
theorem join_eq_self {p : Nat} {cs : List Nat} (co : List Int) (hp : p ∈ d.nodeIds)
    (h : ∀ c ∈ cs, c ∈ d.nodeIds ∧ c ∉ d.ecHeaders) : d.join p cs co = d := by
  rw [join, foldl_addChild_eq h, addVertex, if_pos hp]

theorem Represents.join_new (hr : d.Represents) {p : Nat} {cs : List Nat} (co : List Int)
    (hp : p ∉ d.nodeIds) (hne : cs ≠ []) (hpc : p ∉ cs) : (d.join p cs co).Represents := by
  have hd' := hd.join p cs co
  have hmemch := hd.mem_childIndices_join p cs co
  have hchp : d.childIndices p = [] :=
    List.eq_nil_iff_forall_not_mem.2 fun c hc => hp (hd.childIndices_nodeIds hc).2
  have hparp : d.parentIds p = [] :=
    hd.parentIds_eq_nil.2 fun u hu => hp (hd.childIndices_nodeIds hu).1
  have hch : ∀ v, (d.join p cs co).childIndices v = [] ↔ d.childIndices v = [] ∧ v ≠ p := by
    intro v
    simp only [List.eq_nil_iff_forall_not_mem, hmemch, not_or]
    constructor
    · intro h
      refine ⟨fun c => (h c).1, ?_⟩
      rintro rfl
      obtain ⟨c, hc⟩ := List.exists_mem_of_ne_nil cs hne
      exact (h c).2 ⟨hp, hpc, rfl, hc⟩
    · rintro ⟨h, hv⟩ c
      exact ⟨h c, fun hc => hv hc.2.2.1⟩
  have hpar : ∀ v, (d.join p cs co).parentIds v = [] ↔ d.parentIds v = [] ∧ v ∉ cs := by
    intro v
    simp only [hd'.parentIds_eq_nil, hd.parentIds_eq_nil, hmemch, not_or]
    constructor
    · intro h
      exact ⟨fun u => (h u).1, fun hv => (h p).2 ⟨hp, hpc, rfl, hv⟩⟩
    · rintro ⟨h, hv⟩ u
      exact ⟨h u, fun hu => hv hu.2.2.2⟩
  have hids := mem_nodeIds_join d p cs co
  refine ⟨hd'.headersNodup, ?_, ?_, ?_, hd'.count_edges, ?_⟩
  · intro v
    rw [hd.mem_ecHeaders_join, hr.headers, ne_eq, ne_eq, hch, hpar, hids]
    by_cases hv : v = p
    · subst hv
      simp [hp, hpc, hparp]
    · have hmem : d.childIndices v ≠ [] → v ∈ d.nodeIds := fun h => by
        obtain ⟨c, hc⟩ := List.exists_mem_of_ne_nil _ h
        exact (hd.childIndices_nodeIds hc).2
      simp only [hv, ne_eq, not_false_eq_true, and_true, or_false, and_false]
      constructor
      · rintro ⟨⟨h1, h2, h3⟩, h4⟩
        exact ⟨Or.inl h1, h2, h3, h4⟩
      · rintro ⟨-, h2, h3, h4⟩
        exact ⟨⟨hmem h2, h2, h3⟩, h4⟩
  · rw [ecLeaves_join]
    exact nodup_ecLeaves_foldl_addChild (fun v hv => ((hr.leaves v).1 hv).1) hr.leavesNodup
  · intro v
    rw [ecLeaves_join, mem_ecLeaves_foldl_addChild_iff, hr.leaves, hch, hids]
    constructor
    · rintro (⟨h1, h2⟩ | ⟨h1, h2⟩)
      · exact ⟨Or.inl h1, h2, fun he => hp (he ▸ h1)⟩
      · refine ⟨Or.inr (Or.inl h1), ?_, fun he => hpc (he ▸ h1)⟩
        exact List.eq_nil_iff_forall_not_mem.2 fun c hc => h2 (hd.childIndices_nodeIds hc).2
    · rintro ⟨h1, h2, h3⟩
      by_cases hv : v ∈ d.nodeIds
      · exact Or.inl ⟨hv, h2⟩
      · exact Or.inr ⟨(h1.resolve_left hv).resolve_right h3, hv⟩
  · intro v hv
    rw [ne_eq, ne_eq, hch, hpar]
    rcases (hids v).1 hv with hv | hv | rfl
    · rcases hr.edge v hv with h | h
      · exact Or.inl fun he => h he.1
      · exact Or.inr fun he => h he.1
    · exact Or.inr fun he => he.2 hv
    · exact Or.inl fun he => he.2 rfl

theorem Represents.join (hr : d.Represents) {p : Nat} {cs : List Nat} (co : List Int)
    (h : d.JoinMeets p cs) : (d.join p cs co).Represents := by
  unfold JoinMeets at h
  split at h
  · next hp =>
    rw [join_eq_self co hp h]
    exact hr
  · next hp => exact hr.join_new hd co hp h.1 h.2

/-! ## A `Join` that does not -/

/-- A vertex that is nobody's child and yet no header with children. -/
def Damaged (d : ECDAG) (c : Nat) : Prop :=
  c ∈ d.nodeIds ∧ (∀ u, c ∉ d.childIndices u) ∧ (c ∈ d.ecHeaders → d.childIndices c = [])

theorem Represents.not_damaged (hr : d.Represents) (c : Nat) : ¬ d.Damaged c := by
  rintro ⟨hc, hpar, hh⟩
  have hnil : d.parentIds c = [] := hd.parentIds_eq_nil.2 hpar
  have hch : d.childIndices c ≠ [] := (hr.edge c hc).resolve_right fun h => h hnil
  exact hch (hh ((hr.headers c).2 ⟨hc, hch, hnil⟩))

/-- A damaged vertex stays so as long as no `Join` has it as a child. -/
theorem Damaged.join {c : Nat} (h : d.Damaged c) {p : Nat} {cs : List Nat} (co : List Int)
    (hc : c ∉ cs) : (d.join p cs co).Damaged c := by
  obtain ⟨h1, h2, h3⟩ := h
  refine ⟨(mem_nodeIds_join d p cs co c).2 (Or.inl h1), ?_, ?_⟩
  · intro u hu
    rcases (hd.mem_childIndices_join p cs co u c).1 hu with hu | hu
    · exact h2 u hu
    · exact hc hu.2.2.2
  · intro hh
    rcases (hd.mem_ecHeaders_join p cs co c).1 hh with hh | hh
    · refine List.eq_nil_iff_forall_not_mem.2 fun a ha => ?_
      rcases (hd.mem_childIndices_join p cs co c a).1 ha with ha | ha
      · rw [h3 hh.1] at ha
        cases ha
      · exact ha.1 (ha.2.2.1 ▸ h1)
    · exact absurd (hh.2.2 ▸ h1) hh.1

theorem Represents.damaged_join (hr : d.Represents) {p : Nat} {cs : List Nat} (co : List Int)
    (h : ¬ d.JoinMeets p cs) : ∃ c, (c ∈ cs ∨ cs = []) ∧ (d.join p cs co).Damaged c := by
  have hids := mem_nodeIds_join d p cs co
  have hmemch := hd.mem_childIndices_join p cs co
  unfold JoinMeets at h
  split at h
  · -- the vertex is there, so a child that is new or a header gets no parent
    next hp =>
    simp only [not_forall, not_and_or, not_not] at h
    obtain ⟨c, hc, hbad⟩ := h
    refine ⟨c, Or.inl hc, (hids c).2 (Or.inr (Or.inl hc)), ?_, ?_⟩
    · intro u hu
      rcases (hmemch u c).1 hu with hu | hu
      · rcases hbad with hnew | hhead
        · exact hnew (hd.childIndices_nodeIds hu).1
        · exact hd.parentIds_eq_nil.1 ((hr.headers c).1 hhead).2.2 u hu
      · exact hu.1 hp
    · intro hh
      rcases (hd.mem_ecHeaders_join p cs co c).1 hh with hh | hh
      · exact absurd hc hh.2
      · exact absurd hp hh.1
  · next hp =>
    rw [not_and_or, not_not, not_not] at h
    rcases h with rfl | hpc
    · -- no children: a header without an edge
      refine ⟨p, Or.inr rfl, (hids p).2 (Or.inr (Or.inr rfl)), ?_, fun _ => ?_⟩
      · intro u hu
        rcases (hmemch u p).1 hu with hu | hu
        · exact hp (hd.childIndices_nodeIds hu).1
        · cases hu.2.2.2
      · refine List.eq_nil_iff_forall_not_mem.2 fun a ha => ?_
        rcases (hmemch p a).1 ha with ha | ha
        · exact hp (hd.childIndices_nodeIds ha).2
        · cases ha.2.2.2
    · -- its own child: a leaf without an edge
      refine ⟨p, Or.inl hpc, (hids p).2 (Or.inr (Or.inr rfl)), ?_, ?_⟩
      · intro u hu
        rcases (hmemch u p).1 hu with hu | hu
        · exact hp (hd.childIndices_nodeIds hu).1
        · exact hu.2.1 hpc
      · intro hh
        rcases (hd.mem_ecHeaders_join p cs co p).1 hh with hh | hh
        · exact absurd hpc hh.2
        · exact absurd hpc hh.2.1

theorem Represents.join_iff (hr : d.Represents) (p : Nat) (cs : List Nat) (co : List Int) :
    (d.join p cs co).Represents ↔ d.JoinMeets p cs := by
  refine ⟨fun h => ?_, hr.join hd co⟩
  by_contra hno
  obtain ⟨c, -, hc⟩ := hr.damaged_join hd co hno
  exact h.not_damaged (hd.join p cs co) c hc

/-! ## `Concact` -/

theorem WellFormed.concactStep (cs : List Nat) (w i : Nat) :
    (d.concactStep cs w i).WellFormed := by
  unfold ECDAG.concactStep
  split
  · exact hd
  · obtain ⟨h1, h2, h3, h4, h5, h6⟩ := hd.join (REQUESTOR - i) (concactBlock cs w i)
      (List.replicate cs.length (-1))
    exact ⟨h1, h2, h3, h4, h5, h6⟩

omit hd in
/-- `_ecConcacts` says nothing about the graph. -/
theorem Represents.congr {e : ECDAG} (hr : d.Represents) (h1 : e.ecNodeMap = d.ecNodeMap)
    (h2 : e.ecHeaders = d.ecHeaders) (h3 : e.ecLeaves = d.ecLeaves) : e.Represents := by
  obtain ⟨nodes, headers, leaves, concacts⟩ := d
  obtain ⟨nodes', headers', leaves', concacts'⟩ := e
  subst h1 h2 h3
  exact ⟨hr.1, hr.2, hr.3, hr.4, hr.5, hr.6⟩

omit hd in
theorem Damaged.congr {e : ECDAG} {c : Nat} (hr : d.Damaged c) (h1 : e.ecNodeMap = d.ecNodeMap)
    (h2 : e.ecHeaders = d.ecHeaders) : e.Damaged c := by
  obtain ⟨nodes, headers, leaves, concacts⟩ := d
  obtain ⟨nodes', headers', leaves', concacts'⟩ := e
  subst h1 h2
  exact ⟨hr.1, hr.2.1, hr.2.2⟩

theorem Represents.concactStep (hr : d.Represents) {cs : List Nat} {w i : Nat}
    (h : concactBlock cs w i ≠ [] → d.JoinMeets (REQUESTOR - i) (concactBlock cs w i)) :
    (d.concactStep cs w i).Represents := by
  unfold ECDAG.concactStep
  split
  · exact hr
  · next hne => exact (hr.join hd _ (h hne)).congr rfl rfl rfl

theorem Damaged.concactStep {c : Nat} (h : d.Damaged c) {cs : List Nat} {w i : Nat}
    (hc : c / w ≠ i) : (d.concactStep cs w i).Damaged c := by
  unfold ECDAG.concactStep
  split
  · exact h
  · refine (h.join hd _ fun hm => hc ?_).congr rfl rfl
    simpa using (List.mem_filter.1 hm).2

theorem Represents.damaged_concactStep (hr : d.Represents) {cs : List Nat} {w i : Nat}
    (h : ¬ (concactBlock cs w i ≠ [] → d.JoinMeets (REQUESTOR - i) (concactBlock cs w i))) :
    ∃ c, c / w = i ∧ (d.concactStep cs w i).Damaged c := by
  rw [Classical.not_imp] at h
  obtain ⟨hne, hno⟩ := h
  obtain ⟨c, hc, hdam⟩ := hr.damaged_join hd (List.replicate cs.length (-1)) hno
  refine ⟨c, by simpa using (List.mem_filter.1 (hc.resolve_right hne)).2, ?_⟩
  unfold ECDAG.concactStep
  rw [if_neg hne]
  exact hdam.congr rfl rfl

theorem Damaged.foldl_concactStep {c : Nat} (h : d.Damaged c) (cs : List Nat) {w : Nat}
    {l : List Nat} (hl : c / w ∉ l) :
    (l.foldl (ECDAG.concactStep cs w) d).WellFormed ∧
      (l.foldl (ECDAG.concactStep cs w) d).Damaged c := by
  induction l generalizing d with
  | nil => exact ⟨hd, h⟩
  | cons i l ih =>
    rw [List.mem_cons, not_or] at hl
    exact ih (hd.concactStep cs w i) (h.concactStep hd hl.1) hl.2

/-- The blocks are disjoint, so what one of them damages the later ones do not repair. -/
theorem Represents.foldl_concactStep_iff (hr : d.Represents) (cs : List Nat) (w : Nat)
    {l : List Nat} (hl : l.Nodup) :
    (l.foldl (ECDAG.concactStep cs w) d).Represents ↔ ConcactMeets cs w d l := by
  induction l generalizing d with
  | nil => exact iff_of_true hr trivial
  | cons i l ih =>
    rw [List.nodup_cons] at hl
    rw [List.foldl_cons, ConcactMeets]
    by_cases h : concactBlock cs w i ≠ [] → d.JoinMeets (REQUESTOR - i) (concactBlock cs w i)
    · rw [ih (hd.concactStep cs w i) (hr.concactStep hd h) hl.2, and_iff_right h]
    · refine iff_of_false (fun hrep => ?_) fun hm => h hm.1
      obtain ⟨c, rfl, hdam⟩ := hr.damaged_concactStep hd h
      obtain ⟨hwf, hdam⟩ := hdam.foldl_concactStep (hd.concactStep cs w _) cs hl.1
      exact hrep.not_damaged hwf c hdam

/-! ## Sequences of calls -/

theorem WellFormed.perform (call : Call) : (d.perform call).WellFormed := by
  cases call with
  | join pidx cidx coefs => exact hd.join pidx cidx coefs
  | concactAll cidx => exact hd.join REQUESTOR cidx _
  | concact cidx n w => exact hd.concact cidx n w

theorem Represents.perform_iff (hr : d.Represents) (call : Call) :
    (d.perform call).Represents ↔ d.Meets call := by
  cases call with
  | join pidx cidx coefs => exact hr.join_iff hd pidx cidx coefs
  | concactAll cidx => exact hr.join_iff hd REQUESTOR cidx _
  | concact cidx n w => exact hr.foldl_concactStep_iff hd cidx w List.nodup_range

end

theorem after_concat (calls : List Call) (call : Call) :
    after (calls ++ [call]) = (after calls).perform call := by
  rw [after, List.foldl_concat]
  rfl

theorem wellFormed_after (calls : List Call) : (after calls).WellFormed := by
  induction calls using List.reverseRecOn with
  | nil => exact wellFormed_empty
  | append_singleton calls call ih =>
    rw [after_concat]
    exact ih.perform call

theorem represents_empty : Represents .empty := by
  refine ⟨List.nodup_nil, ?_, List.nodup_nil, ?_, ?_, ?_⟩ <;>
    simp [empty, nodeIds, parentIds, childIndices, node?]

/-- **The lists are right after every call exactly when every call meets the condition
in the DAG it finds.** -/
theorem represents_iff (calls : List Call) :
    (∀ pre, pre <+: calls → (after pre).Represents) ↔
      ∀ pre call, pre ++ [call] <+: calls → (after pre).Meets call := by
  induction calls using List.reverseRecOn with
  | nil =>
    refine iff_of_true (fun pre hpre => ?_) fun pre call hpre => ?_
    · rw [List.prefix_nil.1 hpre]
      exact represents_empty
    · simp at hpre
  | append_singleton calls call ih =>
    have hwf := wellFormed_after calls
    constructor
    · intro h
      have hpre := ih.1 fun pre hp => h pre (hp.trans (List.prefix_append _ _))
      intro pre c hc
      rcases List.prefix_concat_iff.1 hc with hc | hc
      · obtain ⟨rfl, he⟩ := List.append_inj' hc rfl
        obtain rfl := List.singleton_injective he
        refine ((h pre (List.prefix_append _ _)).perform_iff hwf c).1 ?_
        rw [← after_concat]
        exact h _ (List.prefix_refl _)
      · exact hpre pre c hc
    · intro h
      have hpre := ih.2 fun pre c hp => h pre c (hp.trans (List.prefix_append _ _))
      intro pre hp
      rcases List.prefix_concat_iff.1 hp with rfl | hp
      · rw [after_concat]
        exact ((hpre calls (List.prefix_refl _)).perform_iff hwf call).2
          (h calls call (List.prefix_refl _))
      · exact hpre pre hp

/-- Vertex 5 is joined a second time with a child that is new. -/
def joinRepeated : List Call := [.join 5 [0, 1] [1, 1], .join 5 [0, 2] [1, 1]]

/-- Vertex 2 has no edge, although the children are distinct and below their parent. -/
theorem represents_join_repeated :
    (∀ pidx cidx coefs, Call.join pidx cidx coefs ∈ joinRepeated →
      cidx.Nodup ∧ ∀ c ∈ cidx, c < pidx) ∧
    2 ∈ (after joinRepeated).nodeIds ∧ (after joinRepeated).childIndices 2 = [] ∧
    (after joinRepeated).parentIds 2 = [] ∧ ¬ (after joinRepeated).Represents := by
  have hnode : 2 ∈ (after joinRepeated).nodeIds := by decide
  have hch : (after joinRepeated).childIndices 2 = [] := by decide
  have hpar : (after joinRepeated).parentIds 2 = [] := by decide
  refine ⟨?_, hnode, hch, hpar, fun h => ?_⟩
  · intro pidx cidx coefs h
    simp only [joinRepeated, List.mem_cons, Call.join.injEq, List.not_mem_nil, or_false] at h
    obtain ⟨rfl, rfl, -⟩ | ⟨rfl, rfl, -⟩ := h <;> decide
  · exact (h.edge 2 hnode).elim (fun h => h hch) fun h => h hpar

end ECDAG

end StripeRepair

import StripeRepair.Lib.LinearProgram
import StripeRepair.Ec.Computation
import Mathlib.Algebra.Module.Pi
import Mathlib.Algebra.BigOperators.Fin

/-!
# `ECDAG`: the repair DAG and its value

A code describes its encoding and its repairs as an `ECDAG`, built by a sequence
of `Join`s: `Join(pidx, cidx, coefs)` says that packet `pidx` is the combination of
the packets `cidx` with the coefficients `coefs`.  A child that is not there yet
becomes a leaf.  A `Join` on a vertex that is there already adds no edges.

The vertices are kept in the order of their creation, so a vertex stands after
its children and the DAG reads as a straight-line program.

* `ECDAG.eval`: the packet of each vertex, given the packets of the leaves.
* `ECDAG.Restores`: what a repair DAG has to do.
* `JoinsSound.restores`: a sequence of `Join`s restores the lost packets when it reads
  what is available or was joined before, and each `Join` holds of the codeword.
-/

namespace StripeRepair

namespace GF256

/-- The element an `int` coefficient stands for. -/
def ofInt (c : Int) : GF256 := ⟨BitVec.ofInt 8 c⟩

def toInt (a : GF256) : Int := a.bits.toNat

@[simp] theorem ofInt_toInt (a : GF256) : ofInt (toInt a) = a := by
  apply Gf.ext'
  simp [ofInt, toInt]

@[simp] theorem ofInt_one : ofInt 1 = 1 := by decide

end GF256

/-! ## The graph -/

/-- The vertex of the concatenation of block 0. -/
def REQUESTOR : Nat := 32767

structure ECNode where
  nodeId : Nat
  childNodes : List Nat
  coefs : List Int
  parentNodes : List Nat
  deriving DecidableEq, Repr

structure ECDAG where
  ecNodeMap : List ECNode
  ecHeaders : List Nat
  ecLeaves : List Nat
  ecConcacts : List Nat
  deriving DecidableEq, Repr

namespace ECDAG

def empty : ECDAG := ⟨[], [], [], []⟩

def nodeIds (d : ECDAG) : List Nat := d.ecNodeMap.map ECNode.nodeId

/-- The first half of `Join`: a child becomes a leaf or is no longer a header. -/
def addChild (d : ECDAG) (c : Nat) : ECDAG :=
  if c ∈ d.nodeIds then { d with ecHeaders := d.ecHeaders.erase c }
  else { d with ecNodeMap := d.ecNodeMap ++ [⟨c, [], [], []⟩], ecLeaves := d.ecLeaves ++ [c] }

/-- `addParentNode` once for each time the vertex occurs in `cidx`. -/
def addParents (pidx : Nat) (cidx : List Nat) (nd : ECNode) : ECNode :=
  { nd with parentNodes := nd.parentNodes ++ List.replicate (cidx.count nd.nodeId) pidx }

/-- The second half of `Join`: a new vertex gets its children and becomes a header. -/
def addVertex (d : ECDAG) (pidx : Nat) (cidx : List Nat) (coefs : List Int) : ECDAG :=
  if pidx ∈ d.nodeIds then d
  else { d with
    ecNodeMap := d.ecNodeMap.map (addParents pidx cidx) ++ [⟨pidx, cidx, coefs, []⟩]
    ecHeaders := d.ecHeaders ++ [pidx] }

def join (d : ECDAG) (pidx : Nat) (cidx : List Nat) (coefs : List Int) : ECDAG :=
  (cidx.foldl addChild d).addVertex pidx cidx coefs

/-- The packets of block `i`, `blkidx = it / w`. -/
def concactBlock (cidx : List Nat) (w i : Nat) : List Nat := cidx.filter fun it => it / w = i

/-- One round of the second loop of `Concact`. -/
def concactStep (cidx : List Nat) (w : Nat) (d : ECDAG) (i : Nat) : ECDAG :=
  if concactBlock cidx w i = [] then d
  else
    let d := d.join (REQUESTOR - i) (concactBlock cidx w i) (List.replicate cidx.length (-1))
    { d with ecConcacts := d.ecConcacts ++ [REQUESTOR - i] }

def concact (d : ECDAG) (cidx : List Nat) (n w : Nat) : ECDAG :=
  (List.range n).foldl (concactStep cidx w) d

end ECDAG

/-- The arguments of one call of `Join`. -/
structure Join where
  pidx : Nat
  cidx : List Nat
  coefs : List Int
  deriving DecidableEq, Repr

/-- The DAG a sequence of calls builds. -/
def ECDAG.build (js : List Join) : ECDAG :=
  js.foldl (fun d j => d.join j.pidx j.cidx j.coefs) .empty

/-! ## Its value -/

def ECNode.args (nd : ECNode) : List (GF256 × Nat) :=
  (nd.coefs.map GF256.ofInt).zip nd.childNodes

/-- The vertices with children, as assignments in the order of creation. -/
def ECDAG.program (d : ECDAG) : List (LinearProgram.Instr GF256 Nat) :=
  (d.ecNodeMap.filter fun nd => nd.childNodes ≠ []).map fun nd => ⟨nd.nodeId, nd.args⟩

def Join.instr (j : Join) : LinearProgram.Instr GF256 Nat :=
  ⟨j.pidx, (j.coefs.map GF256.ofInt).zip j.cidx⟩

section
variable {M : Type} [AddCommMonoid M] [Module GF256 M]

/-- The packet of each vertex over GF(2^8), from the packets `x` of the leaves. -/
def ECDAG.eval (d : ECDAG) (x : Nat → M) : Nat → M := LinearProgram.run x d.program

/-- A `Join` with a coefficient and a child for each index. -/
theorem combine_finRange {k : Nat} (c : Fin k → GF256) (s : Fin k → Nat) (T : Nat → M) :
    LinearProgram.combine ((((List.finRange k).map fun j => GF256.toInt (c j)).map GF256.ofInt).zip
      ((List.finRange k).map s)) T = ∑ j, c j • T (s j) := by
  rw [List.map_map, LinearProgram.combine_zip_map, Fin.sum_univ_def]
  simp

/-- The DAG reads only available packets, defines every lost one, and its value
there is the lost packet of the codeword `T`. -/
structure ECDAG.Restores (d : ECDAG) (avail : Nat → Prop) (lost : List Nat) (T : Nat → M) :
    Prop where
  leaves : ∀ v ∈ d.ecLeaves, avail v
  defined : ∀ v ∈ lost, v ∈ d.nodeIds ∧ v ∉ d.ecLeaves
  value : ∀ x : Nat → M, (∀ v, avail v → x v = T v) → ∀ v ∈ lost, d.eval x v = T v

end

/-! ## What a `Join` does -/

namespace ECDAG

@[simp] theorem nodeIds_addChild (d : ECDAG) (c : Nat) :
    (d.addChild c).nodeIds = if c ∈ d.nodeIds then d.nodeIds else d.nodeIds ++ [c] := by
  unfold addChild
  split
  · rfl
  · simp [nodeIds]

@[simp] theorem program_addChild (d : ECDAG) (c : Nat) : (d.addChild c).program = d.program := by
  unfold addChild
  split
  · rfl
  · simp [program]

theorem mem_nodeIds_foldl_addChild (cs : List Nat) (d : ECDAG) (v : Nat) :
    v ∈ (cs.foldl addChild d).nodeIds ↔ v ∈ d.nodeIds ∨ v ∈ cs := by
  induction cs generalizing d with
  | nil => simp
  | cons c cs ih =>
    rw [List.foldl_cons, ih, nodeIds_addChild, List.mem_cons]
    split
    · next hc =>
      constructor
      · rintro (h | h)
        · exact Or.inl h
        · exact Or.inr (Or.inr h)
      · rintro (h | rfl | h)
        · exact Or.inl h
        · exact Or.inl hc
        · exact Or.inr h
    · simp [or_assoc]

theorem program_foldl_addChild (cs : List Nat) (d : ECDAG) :
    (cs.foldl addChild d).program = d.program := by
  induction cs generalizing d with
  | nil => rfl
  | cons c cs ih => rw [List.foldl_cons, ih, program_addChild]

/-- A new leaf is a child that was not there. -/
theorem mem_ecLeaves_foldl_addChild (cs : List Nat) (d : ECDAG) (v : Nat)
    (h : v ∈ (cs.foldl addChild d).ecLeaves) : v ∈ d.ecLeaves ∨ (v ∈ cs ∧ v ∉ d.nodeIds) := by
  induction cs generalizing d with
  | nil => exact Or.inl h
  | cons c cs ih =>
    rw [List.foldl_cons] at h
    rcases ih _ h with h1 | ⟨h1, h2⟩
    · unfold addChild at h1
      split at h1
      · exact Or.inl h1
      · next hc =>
        rcases List.mem_append.1 h1 with h1 | h1
        · exact Or.inl h1
        · rw [List.mem_singleton] at h1
          exact Or.inr ⟨List.mem_cons.2 (Or.inl h1), h1 ▸ hc⟩
    · rw [nodeIds_addChild] at h2
      refine Or.inr ⟨List.mem_cons_of_mem _ h1, fun hv => h2 ?_⟩
      split
      · exact hv
      · exact List.mem_append_left _ hv

theorem mem_nodeIds_join (d : ECDAG) (p : Nat) (cs : List Nat) (co : List Int) (v : Nat) :
    v ∈ (d.join p cs co).nodeIds ↔ v ∈ d.nodeIds ∨ v ∈ cs ∨ v = p := by
  have hmap : ∀ l : List ECNode, (l.map (addParents p cs)).map ECNode.nodeId =
      l.map ECNode.nodeId := by
    intro l
    rw [List.map_map]
    rfl
  unfold join addVertex
  split
  · next hp =>
    rw [mem_nodeIds_foldl_addChild] at hp ⊢
    constructor
    · rintro (h | h)
      · exact Or.inl h
      · exact Or.inr (Or.inl h)
    · rintro (h | h | rfl)
      · exact Or.inl h
      · exact Or.inr h
      · exact hp
  · have := mem_nodeIds_foldl_addChild cs d v
    simp only [nodeIds, List.map_append, hmap, List.mem_append] at this ⊢
    rw [this, or_assoc]
    simp

/-- A `Join` on a new vertex appends its assignment, and on an old one nothing. -/
theorem program_join (d : ECDAG) (p : Nat) {cs : List Nat} (co : List Int) (hcs : cs ≠ []) :
    (d.join p cs co).program =
      if p ∈ d.nodeIds ∨ p ∈ cs then d.program else d.program ++ [Join.instr ⟨p, cs, co⟩] := by
  have hmap : ∀ l : List ECNode,
      ((l.map (addParents p cs)).filter fun nd => nd.childNodes ≠ []).map
        (fun nd => (⟨nd.nodeId, nd.args⟩ : LinearProgram.Instr GF256 Nat)) =
      (l.filter fun nd => nd.childNodes ≠ []).map fun nd => ⟨nd.nodeId, nd.args⟩ := by
    intro l
    rw [List.filter_map, List.map_map]
    rfl
  unfold join addVertex
  simp only [mem_nodeIds_foldl_addChild]
  split
  · exact program_foldl_addChild cs d
  · have := program_foldl_addChild cs d
    simp only [program, List.filter_append, List.map_append, hmap] at this ⊢
    rw [this]
    simp [hcs, Join.instr, ECNode.args]

theorem mem_ecLeaves_join {d : ECDAG} {p : Nat} {cs : List Nat} {co : List Int} {v : Nat}
    (h : v ∈ (d.join p cs co).ecLeaves) : v ∈ d.ecLeaves ∨ (v ∈ cs ∧ v ∉ d.nodeIds) := by
  apply mem_ecLeaves_foldl_addChild cs d v
  unfold join addVertex at h
  split at h <;> exact h

/-! ## Sequences of `Join`s -/

theorem build_concat (js : List Join) (j : Join) :
    build (js ++ [j]) = (build js).join j.pidx j.cidx j.coefs := by
  simp [build, List.foldl_append]

theorem mem_nodeIds_build (js : List Join) (v : Nat) :
    v ∈ (build js).nodeIds ↔ ∃ j ∈ js, v = j.pidx ∨ v ∈ j.cidx := by
  induction js using List.reverseRecOn with
  | nil => simp [build, empty, nodeIds]
  | append_singleton js j ih =>
    rw [build_concat, mem_nodeIds_join, ih]
    simp only [List.mem_append, List.mem_singleton, or_and_right, exists_or, exists_eq_left]
    rw [or_comm (a := v ∈ j.cidx)]

end ECDAG

/-- Each child is available or was joined before. -/
def JoinsOrdered (avail : Nat → Prop) (js : List Join) : Prop :=
  LinearProgram.Ordered Join.pidx Join.cidx avail js

/-- The invariant of a sequence of `Join`s in order: the program is in order too, and
each vertex is available or assigned. -/
structure BuiltFrom (avail : Nat → Prop) (js : List Join) (d : ECDAG) : Prop where
  inOrder : LinearProgram.InOrder avail d.program
  instrs : ∀ i ∈ d.program, ∃ j ∈ js, i = j.instr
  nodes : ∀ v ∈ d.nodeIds, avail v ∨ v ∈ LinearProgram.targets d.program
  pidx : ∀ j ∈ js, j.pidx ∈ d.nodeIds
  leaves : ∀ v ∈ d.ecLeaves, avail v

theorem Join.mem_of_mem_srcs {j : Join} {v : Nat} (h : v ∈ j.instr.srcs) : v ∈ j.cidx := by
  obtain ⟨a, ha, rfl⟩ := List.mem_map.1 h
  exact (List.of_mem_zip ha).2

theorem BuiltFrom.mem_of_pidx {avail : Nat → Prop} {js : List Join} {d : ECDAG}
    (h : BuiltFrom avail js d) {v : Nat} (hv : v ∈ js.map Join.pidx) : v ∈ d.nodeIds := by
  obtain ⟨j, hj, rfl⟩ := List.mem_map.1 hv
  exact h.pidx j hj

theorem BuiltFrom.join {avail : Nat → Prop} {js : List Join} {d : ECDAG}
    (h : BuiltFrom avail js d) {j : Join} (hj : ∀ c ∈ j.cidx, avail c ∨ c ∈ js.map Join.pidx)
    (hne : j.cidx ≠ []) : BuiltFrom avail (js ++ [j]) (d.join j.pidx j.cidx j.coefs) := by
  -- a child is available or assigned by now
  have hchild : ∀ c ∈ j.cidx, avail c ∨ c ∈ LinearProgram.targets d.program := by
    intro c hc
    rcases hj c hc with hc | hc
    · exact Or.inl hc
    · exact h.nodes _ (h.mem_of_pidx hc)
  have hpidx : ∀ k ∈ js ++ [j], k.pidx ∈ (d.join j.pidx j.cidx j.coefs).nodeIds := by
    intro k hk
    rw [ECDAG.mem_nodeIds_join]
    rcases List.mem_append.1 hk with hk | hk
    · exact Or.inl (h.pidx k hk)
    · rw [List.mem_singleton.1 hk]
      exact Or.inr (Or.inr rfl)
  have hleaves : ∀ v ∈ (d.join j.pidx j.cidx j.coefs).ecLeaves, avail v := by
    intro v hv
    rcases ECDAG.mem_ecLeaves_join hv with hv | ⟨hv, hnew⟩
    · exact h.leaves v hv
    · rcases hj v hv with hv | hv
      · exact hv
      · exact absurd (h.mem_of_pidx hv) hnew
  have hprog := ECDAG.program_join d j.pidx j.coefs hne
  by_cases hp : j.pidx ∈ d.nodeIds ∨ j.pidx ∈ j.cidx
  · rw [if_pos hp] at hprog
    refine ⟨by rw [hprog]; exact h.inOrder, ?_, ?_, hpidx, hleaves⟩
    · rw [hprog]
      intro i hi
      obtain ⟨k, hk, he⟩ := h.instrs i hi
      exact ⟨k, List.mem_append_left _ hk, he⟩
    · rw [hprog]
      intro v hv
      rw [ECDAG.mem_nodeIds_join] at hv
      rcases hv with hv | hv | rfl
      · exact h.nodes v hv
      · exact hchild v hv
      · exact hp.elim (h.nodes _) (hchild _)
  · rw [if_neg hp] at hprog
    refine ⟨?_, ?_, ?_, hpidx, hleaves⟩
    · rw [hprog]
      exact LinearProgram.ordered_append.2
        ⟨h.inOrder, fun c hc => hchild c (Join.mem_of_mem_srcs hc), trivial⟩
    · rw [hprog]
      intro i hi
      rcases List.mem_append.1 hi with hi | hi
      · obtain ⟨k, hk, he⟩ := h.instrs i hi
        exact ⟨k, List.mem_append_left _ hk, he⟩
      · exact ⟨j, List.mem_append_right _ (List.mem_singleton_self j), List.mem_singleton.1 hi⟩
    · rw [hprog, LinearProgram.targets_append]
      intro v hv
      rw [ECDAG.mem_nodeIds_join] at hv
      rcases hv with hv | hv | rfl
      · exact (h.nodes v hv).imp_right (List.mem_append_left _)
      · exact (hchild v hv).imp_right (List.mem_append_left _)
      · exact Or.inr (List.mem_append_right _ (List.mem_singleton_self _))

theorem builtFrom_build {avail : Nat → Prop} {js : List Join} (hord : JoinsOrdered avail js)
    (hne : ∀ j ∈ js, j.cidx ≠ []) : BuiltFrom avail js (ECDAG.build js) := by
  induction js using List.reverseRecOn with
  | nil =>
    refine ⟨trivial, ?_, ?_, by simp, ?_⟩ <;>
      simp [ECDAG.build, ECDAG.empty, ECDAG.nodeIds, ECDAG.program]
  | append_singleton js j ih =>
    rw [JoinsOrdered, LinearProgram.ordered_append] at hord
    obtain ⟨hord, hj, -⟩ := hord
    rw [ECDAG.build_concat]
    exact (ih hord fun k hk => hne k (List.mem_append_left _ hk)).join hj
      (hne j (List.mem_append_right _ (List.mem_singleton_self j)))

theorem BuiltFrom.eval {M : Type} [AddCommMonoid M] [Module GF256 M] {avail : Nat → Prop}
    {js : List Join} {d : ECDAG} (h : BuiltFrom avail js d) {T x : Nat → M}
    (hT : ∀ j ∈ js, LinearProgram.combine j.instr.args T = T j.pidx)
    (hx : ∀ v, avail v → x v = T v) : ∀ v, avail v ∨ v ∈ d.nodeIds → d.eval x v = T v := by
  intro v hv
  refine LinearProgram.run_eq_of_consistent h.inOrder hx ?_ v (hv.elim Or.inl (h.nodes v))
  intro i hi
  obtain ⟨j, hj, rfl⟩ := h.instrs i hi
  exact hT j hj

/-- A sequence of `Join`s in order, each of them true of the codeword `T`. -/
structure JoinsSound {M : Type} [AddCommMonoid M] [Module GF256 M] (avail : Nat → Prop)
    (T : Nat → M) (js : List Join) : Prop where
  ordered : JoinsOrdered avail js
  cidx : ∀ j ∈ js, j.cidx ≠ []
  value : ∀ j ∈ js, LinearProgram.combine j.instr.args T = T j.pidx

section
variable {M : Type} [AddCommMonoid M] [Module GF256 M] {avail avail' : Nat → Prop} {T : Nat → M}

theorem JoinsSound.of_forall {js : List Join} (h : ∀ j ∈ js, (∀ c ∈ j.cidx, avail c) ∧
    j.cidx ≠ [] ∧ LinearProgram.combine j.instr.args T = T j.pidx) : JoinsSound avail T js :=
  ⟨LinearProgram.ordered_of_forall fun j hj => (h j hj).1, fun j hj => (h j hj).2.1,
    fun j hj => (h j hj).2.2⟩

theorem JoinsSound.append {js ks : List Join} (h1 : JoinsSound avail T js)
    (hS : ∀ v, avail' v → avail v ∨ v ∈ js.map Join.pidx) (h2 : JoinsSound avail' T ks) :
    JoinsSound avail T (js ++ ks) := by
  refine ⟨LinearProgram.ordered_append_of h1.ordered hS h2.ordered, ?_, ?_⟩
  · intro j hj
    exact (List.mem_append.1 hj).elim (h1.cidx j) (h2.cidx j)
  · intro j hj
    exact (List.mem_append.1 hj).elim (h1.value j) (h2.value j)

theorem JoinsSound.flatMap {κ : Type} {l : List κ} {f : κ → List Join}
    (h : ∀ a ∈ l, JoinsSound avail T (f a)) : JoinsSound avail T (l.flatMap f) := by
  refine ⟨LinearProgram.ordered_flatMap fun a ha => (h a ha).ordered, ?_, ?_⟩
  · intro j hj
    obtain ⟨a, ha, hj⟩ := List.mem_flatMap.1 hj
    exact (h a ha).cidx j hj
  · intro j hj
    obtain ⟨a, ha, hj⟩ := List.mem_flatMap.1 hj
    exact (h a ha).value j hj

/-- **`Join`s that are true of a codeword restore it.** -/
theorem JoinsSound.restores {lost : List Nat} {js : List Join} (h : JoinsSound avail T js)
    (hlost : ∀ v ∈ lost, v ∈ js.map Join.pidx) (hgone : ∀ v ∈ lost, ¬ avail v) :
    (ECDAG.build js).Restores avail lost T := by
  have hb := builtFrom_build h.ordered h.cidx
  have hmem : ∀ v ∈ lost, v ∈ (ECDAG.build js).nodeIds :=
    fun v hv => hb.mem_of_pidx (hlost v hv)
  exact ⟨hb.leaves, fun v hv => ⟨hmem v hv, fun hl => hgone v hv (hb.leaves v hl)⟩,
    fun x hx v hv => hb.eval h.value hx v (Or.inr (hmem v hv))⟩

end

/-! ## `Join`s that all count

When no vertex is joined twice or was available, each `Join` is an equation. -/

theorem program_build {avail : Nat → Prop} {js : List Join} (hord : JoinsOrdered avail js)
    (hne : ∀ j ∈ js, j.cidx ≠ []) (hnodup : (js.map Join.pidx).Nodup)
    (hfresh : ∀ j ∈ js, ¬ avail j.pidx) : (ECDAG.build js).program = js.map Join.instr := by
  induction js using List.reverseRecOn with
  | nil => rfl
  | append_singleton js j ih =>
    rw [JoinsOrdered, LinearProgram.ordered_append] at hord
    obtain ⟨hord, hj, -⟩ := hord
    have hne' : ∀ k ∈ js, k.cidx ≠ [] := fun k hk => hne k (List.mem_append_left _ hk)
    have hjmem : j ∈ js ++ [j] := List.mem_append_right _ (List.mem_singleton_self j)
    rw [List.map_append, List.nodup_append] at hnodup
    have hprog := ih hord hne' hnodup.1 fun k hk => hfresh k (List.mem_append_left _ hk)
    have hb := builtFrom_build hord hne'
    -- a vertex that is there, or a child, is available or was joined before
    have hold : ∀ v, (v ∈ (ECDAG.build js).nodeIds ∨ v ∈ j.cidx) →
        avail v ∨ v ∈ js.map Join.pidx := by
      rintro v (hv | hv)
      · refine (hb.nodes v hv).imp_right fun h => ?_
        rw [hprog] at h
        simpa [LinearProgram.targets, Join.instr] using h
      · exact hj v hv
    have hnew : ¬ (j.pidx ∈ (ECDAG.build js).nodeIds ∨ j.pidx ∈ j.cidx) := by
      intro h
      rcases hold _ h with h | h
      · exact hfresh j hjmem h
      · exact hnodup.2.2 _ h _ (List.mem_singleton_self _) rfl
    rw [ECDAG.build_concat, ECDAG.program_join _ _ _ (hne j hjmem), if_neg hnew, hprog,
      List.map_append]
    rfl

section
variable {M : Type} [AddCommMonoid M] [Module GF256 M] {avail : Nat → Prop} {js : List Join}

/-- The value of a joined vertex is the combination of the values of its children. -/
theorem eval_build_pidx (hord : JoinsOrdered avail js) (hne : ∀ j ∈ js, j.cidx ≠ [])
    (hnodup : (js.map Join.pidx).Nodup) (hfresh : ∀ j ∈ js, ¬ avail j.pidx) (x : Nat → M) :
    ∀ j ∈ js, (ECDAG.build js).eval x j.pidx =
      LinearProgram.combine j.instr.args ((ECDAG.build js).eval x) := by
  intro j hj
  have hprog := program_build hord hne hnodup hfresh
  have htargets : LinearProgram.targets (ECDAG.build js).program = js.map Join.pidx := by
    rw [hprog, LinearProgram.targets, List.map_map]
    rfl
  refine LinearProgram.run_dst x (by rwa [htargets]) ?_ j.instr
    (by rw [hprog]; exact List.mem_map_of_mem hj)
  refine (builtFrom_build hord hne).inOrder.mono fun v hv hmem => ?_
  rw [htargets] at hmem
  obtain ⟨k, hk, rfl⟩ := List.mem_map.1 hmem
  exact hfresh k hk hv

end

theorem ECDAG.Restores.congr {M : Type} [AddCommMonoid M] [Module GF256 M] {d : ECDAG}
    {avail : Nat → Prop} {lost : List Nat} {T T' : Nat → M} (h : d.Restores avail lost T)
    (hT : ∀ v, avail v ∨ v ∈ lost → T v = T' v) : d.Restores avail lost T' := by
  refine ⟨h.leaves, h.defined, fun x hx v hv => ?_⟩
  rw [← hT v (Or.inr hv)]
  exact h.value x (fun u hu => (hx u hu).trans (hT u (Or.inl hu)).symm) v hv

end StripeRepair

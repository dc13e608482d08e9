import StripeRepair.Lib.Height
import Mathlib.Data.List.Perm.Subperm

/-!
# Taking a DAG off with a worklist

The vertices without children are put into a queue.  A vertex that is taken out lowers
the count of each of its parents, and a parent whose count becomes 0 is put into the queue.

* `Front.relax`, `Front.pop`: what lowering one count, and taking one vertex out, preserve.
* `run_spec`: each vertex is taken out once, after its children.
-/

namespace Worklist

variable {V : Type} [DecidableEq V]

/-- How many children of each vertex are still there, and the vertices to be taken out. -/
structure State (V : Type) where
  inref : V → Int
  queue : List V

/-- One parent less to wait for. -/
def relax (st : State V) (p : V) : State V :=
  { inref := Function.update st.inref p (st.inref p - 1)
    queue := if st.inref p - 1 = 0 then st.queue ++ [p] else st.queue }

/-- The vertices in the order they are taken out, at most `fuel` of them. -/
def run (parents : V → List V) : (fuel : Nat) → State V → List V
  | 0, _ => []
  | fuel + 1, st =>
    match st.queue with
    | [] => []
    | idx :: queue => idx :: run parents fuel ((parents idx).foldl relax ⟨st.inref, queue⟩)

/-- The rounds without a bound on their number: the loop ends when the queue is empty. -/
inductive Rounds (parents : V → List V) : State V → List V → Prop
  | done {st : State V} (h : st.queue = []) : Rounds parents st []
  | take {st : State V} {idx : V} {queue rest : List V} (hq : st.queue = idx :: queue)
      (h : Rounds parents ((parents idx).foldl relax ⟨st.inref, queue⟩) rest) :
      Rounds parents st (idx :: rest)

section
variable (nodes : List V) (children : V → List V)

/-- In front of a vertex are its children: `queue` holds the vertices whose children are
all in `done`, and that are not there themselves. -/
structure Front (done : List V) (st : State V) : Prop where
  nodup : (done ++ st.queue).Nodup
  left : ∀ v, st.inref v = ((children v).countP (· ∉ done) : Int)
  mem : ∀ v, v ∈ done ++ st.queue ↔ v ∈ nodes ∧ ∀ c ∈ children v, c ∈ done

/-- The same while the parents of `idx` are walked through; `ps` are those met so far. -/
structure Between (done : List V) (idx : V) (ps : List V) (st : State V) : Prop where
  nodup : (done ++ idx :: st.queue).Nodup
  left : ∀ v, st.inref v = ((children v).countP (· ∉ done) : Int) - (ps.count v : Int)
  mem : ∀ v, v ∈ done ++ idx :: st.queue ↔ v ∈ nodes ∧ st.inref v = 0

variable {nodes children}

theorem countP_not_mem_snoc {done : List V} {idx : V} (hidx : idx ∉ done) (cs : List V) :
    cs.countP (· ∉ done ++ [idx]) + cs.count idx = cs.countP (· ∉ done) := by
  induction cs with
  | nil => rfl
  | cons c cs ih =>
    by_cases hc : c = idx
    · subst hc
      rw [List.countP_cons_of_neg (by simp), List.count_cons_self,
        List.countP_cons_of_pos (by simpa using hidx)]
      omega
    · rw [List.count_cons_of_ne hc]
      by_cases hd : c ∈ done
      · rw [List.countP_cons_of_neg (by simp [hd]), List.countP_cons_of_neg (by simp [hd])]
        exact ih
      · rw [List.countP_cons_of_pos (by simp [hd, hc]), List.countP_cons_of_pos (by simp [hd])]
        omega

theorem countP_not_mem_eq_zero {done cs : List V} :
    ((cs.countP (· ∉ done) : Nat) : Int) = 0 ↔ ∀ c ∈ cs, c ∈ done := by
  rw [Int.natCast_eq_zero, List.countP_eq_zero]
  simp

/-- **One count less.** -/
theorem Between.relax {done ps : List V} {idx p : V} {st : State V}
    (h : Between nodes children done idx ps st) (hp : p ∈ nodes)
    (hcount : ps.count p < (children p).count idx) :
    Between nodes children done idx (ps ++ [p]) (relax st p) := by
  have hidx : idx ∉ done := fun hi =>
    List.disjoint_of_nodup_append h.nodup hi (List.mem_cons_self ..)
  have hle : (children p).count idx ≤ (children p).countP (· ∉ done) := by
    have := countP_not_mem_snoc hidx (children p)
    omega
  have hpos : st.inref p ≠ 0 := by
    have := h.left p
    omega
  have hnew : p ∉ done ++ idx :: st.queue := fun hm => hpos ((h.mem p).1 hm).2
  have hself : (Worklist.relax st p).inref p = st.inref p - 1 := Function.update_self ..
  have hother : ∀ v, v ≠ p → (Worklist.relax st p).inref v = st.inref v := fun v hv =>
    Function.update_of_ne hv ..
  have hqueue : (Worklist.relax st p).queue =
      if st.inref p - 1 = 0 then st.queue ++ [p] else st.queue := rfl
  refine ⟨?_, fun v => ?_, fun v => ?_⟩
  · rw [hqueue]
    split
    · rw [← List.cons_append, ← List.append_assoc]
      exact List.nodup_append.2 ⟨h.nodup, List.nodup_singleton p,
        fun a ha b hb he => hnew (List.mem_singleton.1 hb ▸ he ▸ ha)⟩
    · exact h.nodup
  · rw [List.count_append, List.count_singleton]
    by_cases hv : v = p
    · subst hv
      rw [hself, h.left v]
      simp
      omega
    · rw [hother v hv, h.left v]
      simp [Ne.symm hv]
  · rw [hqueue]
    by_cases hv : v = p
    · subst hv
      rw [hself]
      split
      · next h0 => simp [h0, hp]
      · next h0 => exact iff_of_false hnew fun hm => h0 hm.2
    · rw [hother v hv, ← h.mem v]
      split
      · simp [hv]
      · rfl

theorem Between.foldl_relax {done : List V} {idx : V} (rest : List V) {ps : List V}
    {st : State V} (h : Between nodes children done idx ps st)
    (hnodes : ∀ p ∈ rest, p ∈ nodes)
    (hcount : ∀ p, (ps ++ rest).count p ≤ (children p).count idx) :
    Between nodes children done idx (ps ++ rest) (rest.foldl Worklist.relax st) := by
  induction rest generalizing ps st with
  | nil => rwa [List.append_nil]
  | cons p rest ih =>
    have hp := hcount p
    rw [List.count_append, List.count_cons_self] at hp
    have hstep := h.relax (hnodes p (List.mem_cons_self ..)) (by omega)
    rw [List.foldl_cons, List.append_cons]
    refine ih hstep (fun q hq => hnodes q (List.mem_cons_of_mem _ hq)) fun q => ?_
    rw [← List.append_cons]
    exact hcount q

variable {parents : V → List V}
  (hedge : ∀ v ∈ nodes, ∀ p, (parents v).count p = (children p).count v)
  (hnodes : ∀ p, ∀ c ∈ children p, c ∈ nodes ∧ p ∈ nodes)
include hedge hnodes

/-- **One vertex out.** -/
theorem Front.pop {done : List V} {idx : V} {st : State V} {queue : List V}
    (hq : st.queue = idx :: queue) (h : Front nodes children done st) :
    Front nodes children (done ++ [idx]) ((parents idx).foldl relax ⟨st.inref, queue⟩) := by
  have hmem := h.mem
  have hnodup := h.nodup
  rw [hq] at hmem hnodup
  have hidx : idx ∈ nodes := ((hmem idx).1 (by simp)).1
  have hbetween : Between nodes children done idx [] ⟨st.inref, queue⟩ := by
    refine ⟨hnodup, fun v => ?_, fun v => ?_⟩
    · simpa using h.left v
    · rw [hmem v, h.left v, countP_not_mem_eq_zero]
  have hend := hbetween.foldl_relax (parents idx) (fun p hp => by
    have hc : 0 < (children p).count idx := hedge idx hidx p ▸ List.count_pos_iff.2 hp
    exact (hnodes p idx (List.count_pos_iff.1 hc)).2) (fun p => (hedge idx hidx p).le)
  have hnot : idx ∉ done := fun hi =>
    List.disjoint_of_nodup_append hnodup hi (List.mem_cons_self ..)
  have hleft : ∀ v, ((parents idx).foldl relax ⟨st.inref, queue⟩).inref v =
      ((children v).countP (· ∉ done ++ [idx]) : Int) := by
    intro v
    have := countP_not_mem_snoc hnot (children v)
    rw [hend.left v, List.nil_append, hedge idx hidx v]
    omega
  refine ⟨?_, hleft, fun v => ?_⟩
  · rw [List.append_assoc]
    exact hend.nodup
  · rw [List.append_assoc, ← countP_not_mem_eq_zero, ← hleft v]
    exact hend.mem v

omit hedge in
/-- With an empty queue all vertices are done: a lowest one that is left would have its
children done. -/
theorem Front.perm_of_queue_nil (height : V → Nat)
    (hheight : ∀ p, ∀ c ∈ children p, height c < height p) (hnd : nodes.Nodup) {done : List V}
    {st : State V} (h : Front nodes children done st) (hq : st.queue = []) : done.Perm nodes := by
  have hmem := h.mem
  have hnodup := h.nodup
  rw [hq, List.append_nil] at hmem hnodup
  have hall : ∀ m v, height v = m → v ∈ nodes → v ∈ done := by
    intro m
    induction m using Nat.strongRecOn with
    | ind m ih =>
      intro v hv hvn
      exact (hmem v).2 ⟨hvn, fun c hc => ih _ (hv ▸ hheight v c hc) c rfl (hnodes v c hc).1⟩
  refine (List.perm_ext_iff_of_nodup hnodup hnd).2 fun v => ⟨fun hv => ?_, hall _ v rfl⟩
  exact ((hmem v).1 hv).1

/-- **Each vertex is taken out once, after its children**, when there is no cycle; then the queue
is empty. -/
theorem Front.run_spec (height : V → Nat) (hheight : ∀ p, ∀ c ∈ children p, height c < height p)
    (hnd : nodes.Nodup) (fuel : Nat) {done : List V} {st : State V}
    (h : Front nodes children done st) (hfuel : nodes.length ≤ fuel + done.length) :
    (done ++ run parents fuel st).Perm nodes ∧
      LinearProgram.Ordered id children (· ∈ done) (run parents fuel st) ∧
      Rounds parents st (run parents fuel st) := by
  induction fuel generalizing done st with
  | zero =>
    have hsub : done ++ st.queue ⊆ nodes := fun v hv => ((h.mem v).1 hv).1
    have hlen := (h.nodup.subperm hsub).length_le
    rw [List.length_append] at hlen
    have hq : st.queue = [] := List.eq_nil_of_length_eq_zero (by omega)
    rw [run, List.append_nil]
    exact ⟨h.perm_of_queue_nil hnodes height hheight hnd hq, trivial, .done hq⟩
  | succ fuel ih =>
    rw [run]
    split
    · next hq =>
      rw [List.append_nil]
      exact ⟨h.perm_of_queue_nil hnodes height hheight hnd hq, trivial, .done hq⟩
    · next idx queue hq =>
      have hlen : nodes.length ≤ fuel + (done ++ [idx]).length := by
        rw [List.length_append, List.length_singleton]
        omega
      obtain ⟨hperm, hord, hrounds⟩ := ih (h.pop hedge hnodes hq) hlen
      rw [List.append_cons]
      refine ⟨hperm, ⟨fun c hc => ?_, hord.mono fun v hv => ?_⟩, .take hq hrounds⟩
      · have hi : idx ∈ done ++ st.queue := by simp [hq]
        exact ((h.mem idx).1 hi).2 c hc
      · simpa using hv

end

end Worklist

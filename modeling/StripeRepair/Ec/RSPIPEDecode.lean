import StripeRepair.Ec.RSPIPE
import Mathlib.Data.List.GetD

/-!
# `RSPIPE`: the pipeline computes what `RSCONV` computes

* `pipe_sound`: along a chain each temporary packet is a partial sum.
* `reads_pipe`: a chain reads each packet of the queue once, and each temporary packet once.
* `pipelined_eq_direct`: the lost blocks have the values they have in the DAG of `RSCONV`.
-/

namespace StripeRepair

namespace RSPIPE

/-- The `Join`s of one lost block: two children each, the first `k` blocks of `from` in order
among them, and temporary ids but for the lost block at the end. -/
structure Chain (n k : Nat) (src : List Nat) (ridx : Nat) (js : List Join) : Prop where
  pair : ∀ j ∈ js, j.cidx.length = 2
  reads : (js.flatMap Join.cidx).filter (· < n) = src.take k
  result : (js.map Join.pidx).getLast? = some ridx
  temporary : ∀ v ∈ (js.map Join.pidx).dropLast, n ≤ v

/-! ## One chain -/

theorem pair_pipe (ridx : Nat) (rest : List (Nat × Int)) (tmpname : Nat) (front : Nat × Int) :
    ∀ j ∈ (pipe ridx tmpname front rest).1, j.cidx.length = 2 := by
  induction rest generalizing tmpname front with
  | nil => exact fun j hj => absurd hj List.not_mem_nil
  | cons e rest ih =>
    intro j hj
    rw [pipe] at hj
    rcases List.mem_cons.1 hj with rfl | hj
    · rfl
    · exact ih _ _ j hj

/-- **What a chain reads**: what was in the queue, and each temporary packet once. -/
theorem reads_pipe {n : Nat} (ridx : Nat) (e : Nat × Int) (rest : List (Nat × Int))
    (hrest : ∀ a ∈ e :: rest, a.1 < n) {tmpname : Nat} (ht : n ≤ tmpname) (front : Nat × Int) :
    ((pipe ridx tmpname front (e :: rest)).1.flatMap Join.cidx).filter (· < n) =
        [front.1].filter (· < n) ++ (e :: rest).map Prod.fst ∧
      ((pipe ridx tmpname front (e :: rest)).1.flatMap Join.cidx).filter (n ≤ ·) =
        [front.1].filter (n ≤ ·) ++ List.range' tmpname rest.length := by
  have he : e.1 < n := hrest e List.mem_cons_self
  have hsplit : ∀ (l : List Nat) (p : Nat → Bool), (front.1 :: e.1 :: l).filter p =
      [front.1].filter p ++ ([e.1].filter p ++ l.filter p) := by
    intro l p
    rw [← List.filter_append, ← List.filter_append]
    rfl
  induction rest generalizing tmpname front e with
  | nil =>
    show (front.1 :: e.1 :: []).filter _ = _ ∧ (front.1 :: e.1 :: []).filter _ = _
    rw [hsplit, hsplit]
    constructor
    · simp [he]
    · simp [he]
  | cons e' rest ih =>
    have he' : e'.1 < n := hrest e' (List.mem_cons_of_mem _ List.mem_cons_self)
    obtain ⟨h1, h2⟩ := @ih e' (fun a ha => hrest a (List.mem_cons_of_mem _ ha))
      (tmpname + 1) (by omega) (tmpname, 1) he'
      (fun l p => by rw [← List.filter_append, ← List.filter_append]; rfl)
    have hpipe : (pipe ridx tmpname front (e :: e' :: rest)).1.flatMap Join.cidx =
        front.1 :: e.1 :: (pipe ridx (tmpname + 1) (tmpname, 1) (e' :: rest)).1.flatMap Join.cidx := by
      rw [pipe, if_neg (List.cons_ne_nil _ _), if_neg (List.cons_ne_nil _ _)]
      rfl
    rw [hpipe, hsplit, hsplit, h1, h2]
    have htmp : ¬ tmpname < n := by omega
    constructor
    · simp [he, htmp]
    · simp [he, ht, List.range'_succ]

section
variable {M : Type} [AddCommMonoid M] [Module GF256 M]

/-- The sum of some packets with coefficients. -/
def total (x : Nat → M) (queue : List (Nat × Int)) : M :=
  (queue.map fun e => GF256.ofInt e.2 • x e.1).sum

theorem total_cons (x : Nat → M) (e : Nat × Int) (queue : List (Nat × Int)) :
    total x (e :: queue) = GF256.ofInt e.2 • x e.1 + total x queue := by
  rw [total, List.map_cons, List.sum_cons]
  rfl

theorem total_congr {x y : Nat → M} {queue : List (Nat × Int)} (h : ∀ e ∈ queue, x e.1 = y e.1) :
    total x queue = total y queue := by
  unfold total
  refine congrArg List.sum (List.map_congr_left fun e he => ?_)
  rw [h e he]

/-- **Along a chain** each `Join` holds, when the temporary packets are the partial sums. -/
theorem pipe_sound {T : Nat → M} (ridx : Nat) (rest : List (Nat × Int)) (tmpname : Nat)
    (front : Nat × Int) (hridx : T ridx = total T (front :: rest))
    (htmp : ∀ i, i + 1 < rest.length → T (tmpname + i) = total T (front :: rest.take (i + 1))) :
    ∀ j ∈ (pipe ridx tmpname front rest).1, LinearProgram.combine j.instr.args T = T j.pidx := by
  induction rest generalizing tmpname front with
  | nil => exact fun j hj => absurd hj List.not_mem_nil
  | cons e rest ih =>
    have hfirst : ∀ toadd, T toadd = total T [front, e] →
        LinearProgram.combine (Join.instr ⟨toadd, [front.1, e.1], [front.2, e.2]⟩).args T =
          T toadd := by
      intro toadd h
      rw [h]
      rfl
    rw [pipe]
    by_cases hlast : rest = []
    · subst hlast
      intro j hj
      rw [if_pos rfl] at hj
      obtain rfl := List.mem_singleton.1 hj
      exact hfirst ridx hridx
    · rw [if_neg hlast, if_neg hlast]
      have hpos := List.length_pos_of_ne_nil hlast
      have hnow : T tmpname = total T [front, e] := by
        refine (htmp 0 ?_).trans rfl
        rw [List.length_cons]
        omega
      -- the two packets and the partial sum have the same value
      have hstep : ∀ l, total T ((tmpname, 1) :: l) = total T (front :: e :: l) := by
        intro l
        rw [total_cons, total_cons, total_cons, GF256.ofInt_one, one_smul, hnow, total_cons,
          total_cons, add_assoc, add_assoc]
        congr 1
        rw [total, List.map_nil, List.sum_nil, zero_add]
      intro j hj
      rcases List.mem_cons.1 hj with rfl | hj
      · exact hfirst tmpname hnow
      · refine ih (tmpname + 1) (tmpname, 1) ?_ (fun i hi => ?_) j hj
        · rw [hstep]
          exact hridx
        · rw [hstep, show tmpname + 1 + i = tmpname + (i + 1) by omega]
          refine (htmp (i + 1) ?_).trans rfl
          rw [List.length_cons]
          omega

end

/-! ## All chains -/

theorem pair_decodeFrom {data : List Nat} {coefs : Nat → List Int} (dst : List Nat)
    (tmpname : Nat) : ∀ j ∈ decodeFrom data coefs tmpname dst, j.cidx.length = 2 := by
  induction dst generalizing tmpname with
  | nil => exact fun j hj => absurd hj List.not_mem_nil
  | cons ridx dst ih =>
    intro j hj
    rw [decodeFrom] at hj
    rcases List.mem_append.1 hj with hj | hj
    · cases hq : data.zip (coefs ridx) with
      | nil =>
        rw [hq] at hj
        cases hj
      | cons front rest =>
        rw [hq] at hj
        exact pair_pipe ridx rest tmpname front j hj
    · exact ih _ j hj

section
variable {n k : Nat} {src : List Nat} {data : List Nat} {coefs : Nat → List Int}
  (hdata : ∀ v ∈ data, v < n) (hlen : 2 ≤ data.length)
  (hcoefs : ∀ r, (coefs r).length = data.length)
include hdata hlen hcoefs

/-- The queue of a lost block. -/
theorem queue_spec (ridx : Nat) : ∃ front e rest,
    data.zip (coefs ridx) = front :: e :: rest ∧ rest.length = data.length - 2 ∧
      (front :: e :: rest).map Prod.fst = data ∧ ∀ a ∈ front :: e :: rest, a.1 < n := by
  have hzip : (data.zip (coefs ridx)).length = data.length := by
    rw [List.length_zip, hcoefs, Nat.min_self]
  have hfst : (data.zip (coefs ridx)).map Prod.fst = data :=
    List.map_fst_zip (hcoefs ridx).ge
  match hq : data.zip (coefs ridx) with
  | [] =>
    rw [hq, List.length_nil] at hzip
    omega
  | [_] =>
    rw [hq, List.length_singleton] at hzip
    omega
  | front :: e :: rest =>
    rw [hq] at hzip hfst
    refine ⟨front, e, rest, rfl, ?_, hfst, fun a ha => hdata _ ?_⟩
    · simp only [List.length_cons] at hzip
      omega
    · rw [← hfst]
      exact List.mem_map_of_mem ha

/-- **The chains**, one for each lost block. -/
theorem chains_decodeFrom (hsrc : data = src.take k) (dst : List Nat) {tmpname : Nat}
    (ht : n ≤ tmpname) : ∃ chains : List (List Join),
      decodeFrom data coefs tmpname dst = chains.flatten ∧
        List.Forall₂ (Chain n k src) dst chains := by
  induction dst generalizing tmpname with
  | nil => exact ⟨[], rfl, .nil⟩
  | cons ridx dst ih =>
    obtain ⟨front, e, rest, hq, hrest, hfst, hlt⟩ := queue_spec hdata hlen hcoefs ridx
    obtain ⟨hpidx, hnext⟩ := pipe_spec ridx e rest tmpname front
    obtain ⟨chains, hflat, hchains⟩ := @ih (tmpname + rest.length) (by omega)
    refine ⟨(pipe ridx tmpname front (e :: rest)).1 :: chains, ?_, .cons ⟨?_, ?_, ?_, ?_⟩ hchains⟩
    · rw [decodeFrom, hq, pipeQueue, hnext, hflat]
      rfl
    · exact pair_pipe ridx (e :: rest) tmpname front
    · have hfront : front.1 < n := hlt front List.mem_cons_self
      rw [(reads_pipe ridx e rest (fun a ha => hlt a (List.mem_cons_of_mem _ ha)) ht front).1,
        ← hsrc, ← hfst]
      simp [hfront]
    · rw [hpidx, List.getLast?_concat]
    · intro v hv
      rw [hpidx, List.dropLast_concat, List.mem_range'_1] at hv
      omega

/-- **Each temporary id is joined once and read once**, all of them in a row. -/
theorem temporary_decodeFrom {dst : List Nat} (hdst : ∀ v ∈ dst, v < n) {tmpname : Nat}
    (ht : n ≤ tmpname) :
    ((decodeFrom data coefs tmpname dst).map Join.pidx).filter (n ≤ ·) =
        List.range' tmpname (dst.length * (data.length - 2)) ∧
      ((decodeFrom data coefs tmpname dst).flatMap Join.cidx).filter (n ≤ ·) =
        List.range' tmpname (dst.length * (data.length - 2)) := by
  induction dst generalizing tmpname with
  | nil =>
    rw [List.length_nil, Nat.zero_mul]
    exact ⟨rfl, rfl⟩
  | cons ridx dst ih =>
    obtain ⟨front, e, rest, hq, hrest, -, hlt⟩ := queue_spec hdata hlen hcoefs ridx
    obtain ⟨hpidx, hnext⟩ := pipe_spec ridx e rest tmpname front
    obtain ⟨h1, h2⟩ := @ih (fun v hv => hdst v (List.mem_cons_of_mem _ hv))
      (tmpname + rest.length) (by omega)
    have hfront : ¬ n ≤ front.1 := Nat.not_le.2 (hlt front List.mem_cons_self)
    have hridx : ¬ n ≤ ridx := Nat.not_le.2 (hdst ridx List.mem_cons_self)
    have htemps : (List.range' tmpname rest.length).filter (n ≤ ·) =
        List.range' tmpname rest.length := by
      rw [List.filter_eq_self]
      intro v hv
      rw [List.mem_range'_1] at hv
      exact decide_eq_true (by omega)
    have hmore : List.range' tmpname ((ridx :: dst).length * (data.length - 2)) =
        List.range' tmpname rest.length ++
          List.range' (tmpname + rest.length) (dst.length * (data.length - 2)) := by
      rw [List.length_cons, Nat.succ_mul, hrest, Nat.add_comm (dst.length * _),
        ← List.range'_append_1]
    rw [decodeFrom, hq, pipeQueue, hnext, hmore]
    constructor
    · rw [List.map_append, List.filter_append, h1, hpidx, List.filter_append, htemps]
      simp [hridx]
    · rw [List.flatMap_append, List.filter_append, h2,
        (reads_pipe ridx e rest (fun a ha => hlt a (List.mem_cons_of_mem _ ha)) ht front).2]
      simp [hfront]

/-- What is read is a block of `from` or has been joined before. -/
theorem ordered_decodeFrom (dst : List Nat) (tmpname : Nat) :
    JoinsOrdered (· ∈ data) (decodeFrom data coefs tmpname dst) := by
  have hpipe : ∀ (ridx : Nat) (rest : List (Nat × Int)) (tmpname : Nat) (front : Nat × Int)
      (S : Nat → Prop), (∀ a ∈ front :: rest, S a.1) →
      JoinsOrdered S (pipe ridx tmpname front rest).1 := by
    intro ridx rest
    induction rest with
    | nil => exact fun _ _ _ _ => trivial
    | cons e rest ih =>
      intro tmpname front S hS
      rw [pipe]
      refine ⟨fun v hv => ?_, ih _ _ _ fun a ha => ?_⟩
      · rcases List.mem_pair.1 hv with rfl | rfl
        · exact hS front List.mem_cons_self
        · exact hS e (List.mem_cons_of_mem _ List.mem_cons_self)
      · rcases List.mem_cons.1 ha with rfl | ha
        · exact Or.inr rfl
        · exact Or.inl (hS a (List.mem_cons_of_mem _ (List.mem_cons_of_mem _ ha)))
  induction dst generalizing tmpname with
  | nil => trivial
  | cons ridx dst ih =>
    obtain ⟨front, e, rest, hq, -, hfst, -⟩ := queue_spec hdata hlen hcoefs ridx
    rw [decodeFrom, hq, pipeQueue]
    refine LinearProgram.ordered_append_of (hpipe ridx (e :: rest) tmpname front _ fun a ha => ?_)
      (fun v hv => Or.inl hv) (ih _)
    rw [← hfst]
    exact List.mem_map_of_mem ha

section
variable {M : Type} [AddCommMonoid M] [Module GF256 M]

/-- The packets of the DAG: blocks of `from`, lost blocks and partial sums. -/
def packetOf (n : Nat) (data : List Nat) (coefs : Nat → List Int) (dst : List Nat) (x : Nat → M)
    (v : Nat) : M :=
  if n ≤ v then
    total x ((data.zip (coefs (dst.getD ((v - n) / (data.length - 2)) 0))).take
      ((v - n) % (data.length - 2) + 2))
  else if v ∈ dst then total x (data.zip (coefs v)) else x v

/-- **Each `Join` holds** of these packets. -/
theorem sound_decodeFrom {all : List Nat} (hall : ∀ v ∈ all, v < n) (hdisj : ∀ v ∈ all, v ∉ data)
    (x : Nat → M) {pre dst : List Nat} (hpre : all = pre ++ dst) :
    ∀ j ∈ decodeFrom data coefs (n + pre.length * (data.length - 2)) dst,
      LinearProgram.combine j.instr.args (packetOf n data coefs all x) =
        packetOf n data coefs all x j.pidx := by
  induction dst generalizing pre with
  | nil => exact fun j hj => absurd hj List.not_mem_nil
  | cons ridx dst ih =>
    obtain ⟨front, e, rest, hq, hrest, hfst, hlt⟩ := queue_spec hdata hlen hcoefs ridx
    obtain ⟨-, hnext⟩ := pipe_spec ridx e rest (n + pre.length * (data.length - 2)) front
    have hmem : ridx ∈ all := by
      rw [hpre]
      exact List.mem_append_right _ List.mem_cons_self
    have hblock : ∀ a ∈ front :: e :: rest, packetOf n data coefs all x a.1 = x a.1 := by
      intro a ha
      have hd : a.1 ∈ data := by
        rw [← hfst]
        exact List.mem_map_of_mem ha
      rw [packetOf, if_neg (Nat.not_le.2 (hlt a ha)), if_neg fun h => hdisj _ h hd]
    intro j hj
    rw [decodeFrom, hq, pipeQueue, hnext] at hj
    rcases List.mem_append.1 hj with hj | hj
    · refine pipe_sound ridx (e :: rest) _ front ?_ (fun i hi => ?_) j hj
      · rw [total_congr hblock, packetOf, if_neg (Nat.not_le.2 (hall ridx hmem)), if_pos hmem, hq]
      · -- the temporary id tells the lost block and the length of the sum
        rw [List.length_cons] at hi
        have hi : i < data.length - 2 := by omega
        have hsub : n + pre.length * (data.length - 2) + i - n =
            i + (data.length - 2) * pre.length := by
          rw [Nat.mul_comm]
          omega
        have hget : all.getD pre.length 0 = ridx := by
          rw [hpre, List.getD_append_right _ _ _ _ le_rfl, Nat.sub_self]
          rfl
        rw [total_congr fun a ha => hblock a ?_, packetOf, if_pos (by omega), hsub,
          Nat.add_mul_div_left _ _ (by omega), Nat.div_eq_of_lt hi, Nat.zero_add, hget, hq,
          Nat.add_mul_mod_self_left, Nat.mod_eq_of_lt hi]
        · rfl
        · exact List.mem_cons.2 ((List.mem_cons.1 ha).imp_right List.mem_of_mem_take)
    · refine @ih (pre ++ [ridx]) ?_ j ?_
      · rw [hpre, List.append_assoc]
        rfl
      · rw [hrest] at hj
        rwa [List.length_append, List.length_singleton, Nat.succ_mul, ← Nat.add_assoc]

/-- The value of a lost block in the DAG. -/
theorem eval_decodeFrom {dst : List Nat} (hdst : ∀ v ∈ dst, v < n) (hdisj : ∀ v ∈ dst, v ∉ data)
    (x : Nat → M) {v : Nat} (hv : v ∈ dst) :
    (ECDAG.build (decodeFrom data coefs n dst)).eval x v = total x (data.zip (coefs v)) := by
  have hsound : ∀ j ∈ decodeFrom data coefs (n + ([] : List Nat).length * (data.length - 2)) dst,
      LinearProgram.combine j.instr.args (packetOf n data coefs dst x) =
        packetOf n data coefs dst x j.pidx :=
    sound_decodeFrom hdata hlen hcoefs hdst hdisj x rfl
  rw [List.length_nil, Nat.zero_mul, Nat.add_zero] at hsound
  have hb := builtFrom_build (ordered_decodeFrom hdata hlen hcoefs dst n) fun j hj => by
    intro hnil
    have h2 := pair_decodeFrom dst n j hj
    rw [hnil] at h2
    cases h2
  have hpidx : v ∈ (decodeFrom data coefs n dst).map Join.pidx :=
    (pidx_decodeFrom hlen hcoefs dst n).2 (Or.inl hv)
  rw [hb.eval hsound (fun u hu => ?_) v (Or.inr (hb.mem_of_pidx hpidx)), packetOf,
    if_neg (Nat.not_le.2 (hdst v hv)), if_pos hv]
  rw [packetOf, if_neg (Nat.not_le.2 (hdata u hu)), if_neg fun h => hdisj u h hu]

end

end

/-! ## Against `RSCONV` -/

section
variable {n k : Nat} {src dst : List Nat} {M : Type} [AddCommMonoid M] [Module GF256 M]

/-- The direct `Join` of `RSCONV` has the same value. -/
theorem eval_direct (invert : InvertMatrix) (hk : 1 ≤ k)
    (hdisj : ∀ v ∈ dst, v ∉ (List.range k).map fun j => src.getD j 0) (x : Nat → M) {v : Nat}
    (hv : v ∈ dst) : (RSCONV.decode invert n k src dst).eval x v =
      total x (((List.range k).map fun j => src.getD j 0).zip
        ((List.finRange k).map fun j : Fin k =>
          GF256.toInt (RSCONV.coefVector n k (invert k (RSCONV.selectMatrix n k src)) v j))) := by
  have hrange : ((List.finRange k).map fun i : Fin k => src.getD i 0) =
      (List.range k).map fun j => src.getD j 0 := by
    rw [← List.map_coe_finRange_eq_range, List.map_map]
    rfl
  let T : Nat → M := fun u => if u ∈ dst then
    total x (((List.range k).map fun j => src.getD j 0).zip
      ((List.finRange k).map fun j : Fin k =>
        GF256.toInt (RSCONV.coefVector n k (invert k (RSCONV.selectMatrix n k src)) u j)))
    else x u
  have hread : ∀ u ∈ (List.range k).map fun j => src.getD j 0, T u = x u :=
    fun u hu => if_neg fun h => hdisj u h hu
  have hb : BuiltFrom (· ∈ (List.range k).map fun j => src.getD j 0)
      (RSCONV.decodeJoins invert n k src dst) (RSCONV.decode invert n k src dst) := by
    apply builtFrom_build
    · refine LinearProgram.ordered_of_forall fun j hj c hc => ?_
      obtain ⟨u, -, rfl⟩ := List.mem_map.1 hj
      rwa [← hrange]
    · intro j hj
      obtain ⟨u, -, rfl⟩ := List.mem_map.1 hj
      simp
      omega
  have hT : ∀ j ∈ RSCONV.decodeJoins invert n k src dst,
      LinearProgram.combine j.instr.args T = T j.pidx := by
    intro j hj
    obtain ⟨u, hu, rfl⟩ := List.mem_map.1 hj
    refine Eq.trans ?_ (if_pos hu).symm
    rw [← hrange] at hread ⊢
    generalize (List.finRange k).map (fun i : Fin k => src.getD i 0) = data at hread ⊢
    show LinearProgram.combine ((List.map GF256.ofInt (List.map _ _)).zip data) T = _
    generalize (List.finRange k).map (fun j : Fin k => GF256.toInt _) = coef
    -- the two ways to pair packets and coefficients
    rw [LinearProgram.combine, total, List.zip_map_left, List.map_map, ← List.zip_swap coef data,
      List.map_map]
    refine congrArg List.sum (List.map_congr_left fun e he => ?_)
    show GF256.ofInt e.1 • T e.2 = GF256.ofInt e.1 • x e.2
    rw [hread e.2 (List.of_mem_zip he).2]
  have hpidx : v ∈ (RSCONV.decodeJoins invert n k src dst).map Join.pidx := by
    simpa [RSCONV.decodeJoins] using hv
  rw [hb.eval hT (fun u hu => (hread u hu).symm) v (Or.inr (hb.mem_of_pidx hpidx))]
  exact if_pos hv

/-- **Pipelined repair is direct repair**, for every inversion. -/
theorem pipelined_eq_direct (invert : InvertMatrix) (hk : 2 ≤ k)
    (hsrc : ∀ v ∈ src, v < n) (hlen : k ≤ src.length) (hdst : ∀ v ∈ dst, v < n)
    (hdisj : ∀ v ∈ dst, v ∉ src) :
    (∀ (M : Type) [AddCommMonoid M] [Module GF256 M] (x : Nat → M), ∀ v ∈ dst,
      (decode n k invert src dst).eval x v = (RSCONV.decode invert n k src dst).eval x v) ∧
    (∃ chains : List (List Join), decodeJoins n k invert src dst = chains.flatten ∧
      List.Forall₂ (Chain n k src) dst chains) ∧
    ((decodeJoins n k invert src dst).map Join.pidx).filter (n ≤ ·) =
      List.range' n (dst.length * (k - 2)) ∧
    ((decodeJoins n k invert src dst).flatMap Join.cidx).filter (n ≤ ·) =
      List.range' n (dst.length * (k - 2)) := by
  have htake : ((List.range k).map fun j => src.getD j 0) = src.take k := by
    apply List.ext_getElem
    · rw [List.length_map, List.length_range, List.length_take]
      omega
    · intro i h1 h2
      rw [List.length_map, List.length_range] at h1
      rw [List.getElem_map, List.getElem_range, List.getElem_take, List.getD_eq_getElem]
  have hdata : ∀ v ∈ (List.range k).map fun j => src.getD j 0, v < n := fun v hv =>
    hsrc v (List.mem_of_mem_take (htake ▸ hv))
  have hnot : ∀ v ∈ dst, v ∉ (List.range k).map fun j => src.getD j 0 := fun v hv h =>
    hdisj v hv (List.mem_of_mem_take (htake ▸ h))
  have hlen2 : 2 ≤ ((List.range k).map fun j => src.getD j 0).length := by simpa using hk
  have hcoefs : ∀ ridx, ((List.finRange k).map fun j : Fin k => GF256.toInt
      (RSCONV.coefVector n k (invert k (RSCONV.selectMatrix n k src)) ridx j)).length =
        ((List.range k).map fun j => src.getD j 0).length := fun ridx => by simp
  refine ⟨fun M _ _ x v hv => ?_, ?_, ?_⟩
  · rw [eval_direct invert (by omega) hnot x hv]
    exact eval_decodeFrom hdata hlen2 hcoefs hdst hnot x hv
  · exact chains_decodeFrom hdata hlen2 hcoefs htake dst le_rfl
  · have htemp := temporary_decodeFrom hdata hlen2 hcoefs hdst (le_refl n)
    rw [List.length_map, List.length_range] at htemp
    exact htemp

/-- Two lost blocks of six, repaired from four. -/
theorem pipelined_eq_direct_four :
    ((decodeJoins 6 4 (fun _ _ A => A) [0, 2, 4, 5] [1, 3]).map Join.pidx).filter (6 ≤ ·) =
      List.range' 6 4 :=
  (@pipelined_eq_direct 6 4 [0, 2, 4, 5] [1, 3] (fun _ _ A => A)
    (by decide) (by decide) (by decide) (by decide) (by decide)).2.2.1

end

end RSPIPE

end StripeRepair

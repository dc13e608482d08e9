import StripeRepair.Ec.RSCONV

/-!
# `RSPIPE`: Reed-Solomon with a pipelined decoder

Encode is that of `RSCONV`. `Decode` adds the packets it reads up two at a time: each `Join`
has the packet of the one before it and the next packet. The packets in between have temporary
ids from `k + m` on, with one counter for all packets of `to`.

* `pipe_spec`: the ids of one lost packet, its own at the end.
* `mem_decode_lt`, `mem_decode`: the ids that the calls of `Decode` use.
-/

namespace StripeRepair

namespace RSPIPE

section
variable (n k : Nat)

def encode : ECDAG := RSCONV.encode n k

/-! ## Decode -/

/-- The loop over `dataqueue` and `coefqueue`, with `front` at their front and `rest` behind it;
also `tmpname` after it. -/
def pipe (ridx tmpname : Nat) (front : Nat × Int) : List (Nat × Int) → List Join × Nat
  | [] => ([], tmpname)
  | e :: rest =>
    let toadd := if rest = [] then ridx else tmpname
    let more := pipe ridx (if rest = [] then tmpname else tmpname + 1) (toadd, 1) rest
    (⟨toadd, [front.1, e.1], [front.2, e.2]⟩ :: more.1, more.2)

/-- The same for the whole queue. -/
def pipeQueue (ridx tmpname : Nat) : List (Nat × Int) → List Join × Nat
  | [] => ([], tmpname)
  | front :: rest => pipe ridx tmpname front rest

/-- The loop over `to`, for the first `k` packets of `from` and their coefficients. -/
def decodeFrom (data : List Nat) (coefs : Nat → List Int) (tmpname : Nat) :
    List Nat → List Join
  | [] => []
  | ridx :: dst =>
    let joined := pipeQueue ridx tmpname (data.zip (coefs ridx))
    joined.1 ++ decodeFrom data coefs joined.2 dst

def decodeJoins (invert : InvertMatrix) (src dst : List Nat) : List Join :=
  let inv := invert k (RSCONV.selectMatrix n k src)
  decodeFrom ((List.range k).map fun j => src.getD j 0)
    (fun ridx => (List.finRange k).map fun j : Fin k =>
      GF256.toInt (RSCONV.coefVector n k inv ridx j)) n dst

/-- `Decode(from, to)`. -/
def decode (invert : InvertMatrix) (src dst : List Nat) : ECDAG :=
  .build (decodeJoins n k invert src dst)

end

/-! ## The ids in the DAGs -/

/-- **The ids of one lost packet**: temporary ids in a row, then its own. -/
theorem pipe_spec (ridx : Nat) (e : Nat × Int) (rest : List (Nat × Int)) (tmpname : Nat)
    (front : Nat × Int) :
    (pipe ridx tmpname front (e :: rest)).1.map Join.pidx =
        List.range' tmpname rest.length ++ [ridx] ∧
      (pipe ridx tmpname front (e :: rest)).2 = tmpname + rest.length := by
  induction rest generalizing tmpname front e with
  | nil => exact ⟨rfl, rfl⟩
  | cons e' rest ih =>
    rw [pipe, if_neg (List.cons_ne_nil _ _), if_neg (List.cons_ne_nil _ _)]
    obtain ⟨h1, h2⟩ := ih e' (tmpname + 1) (tmpname, 1)
    refine ⟨?_, ?_⟩
    · rw [List.map_cons, h1, List.length_cons, List.range'_succ, List.cons_append]
    · rw [h2, List.length_cons]
      omega

/-- What is added up was in the queue or has been joined. -/
theorem cidx_pipe (ridx : Nat) (rest : List (Nat × Int)) (tmpname : Nat) (front : Nat × Int)
    {j : Join} (hj : j ∈ (pipe ridx tmpname front rest).1) {v : Nat} (hv : v ∈ j.cidx) :
    v ∈ (front :: rest).map Prod.fst ∨ v ∈ (pipe ridx tmpname front rest).1.map Join.pidx := by
  induction rest generalizing tmpname front with
  | nil => cases hj
  | cons e rest ih =>
    rw [pipe] at hj ⊢
    rcases List.mem_cons.1 hj with rfl | hj
    · refine Or.inl ?_
      rcases List.mem_pair.1 hv with rfl | rfl
      · exact List.mem_cons_self
      · exact List.mem_cons_of_mem _ List.mem_cons_self
    · rcases ih _ _ hj with h | h
      · rcases List.mem_cons.1 h with rfl | h
        · exact Or.inr List.mem_cons_self
        · exact Or.inl (List.mem_cons_of_mem _ (List.mem_cons_of_mem _ h))
      · exact Or.inr (List.mem_cons_of_mem _ h)

section
variable {data : List Nat} {coefs : Nat → List Int}

theorem cidx_decodeFrom (dst : List Nat) (tmpname : Nat) {j : Join}
    (hj : j ∈ decodeFrom data coefs tmpname dst) {v : Nat} (hv : v ∈ j.cidx) :
    v ∈ data ∨ v ∈ (decodeFrom data coefs tmpname dst).map Join.pidx := by
  induction dst generalizing tmpname with
  | nil => cases hj
  | cons ridx dst ih =>
    rw [decodeFrom] at hj ⊢
    rw [List.map_append, List.mem_append]
    rcases List.mem_append.1 hj with hj | hj
    · have hfst : ∀ u ∈ (data.zip (coefs ridx)).map Prod.fst, u ∈ data := by
        intro u hu
        obtain ⟨e, he, rfl⟩ := List.mem_map.1 hu
        exact (List.of_mem_zip he).1
      generalize data.zip (coefs ridx) = queue at hj hfst
      cases queue with
      | nil => cases hj
      | cons front rest =>
        exact (cidx_pipe ridx rest tmpname front hj hv).imp (hfst v) Or.inl
    · exact (ih _ hj).imp_right Or.inr

/-- **The ids that are joined**: each lost packet has as many temporary ids as packets are read,
but two. -/
theorem pidx_decodeFrom (hdata : 2 ≤ data.length) (hcoefs : ∀ r, (coefs r).length = data.length)
    (dst : List Nat) (tmpname : Nat) {v : Nat} :
    v ∈ (decodeFrom data coefs tmpname dst).map Join.pidx ↔
      v ∈ dst ∨ (tmpname ≤ v ∧ v < tmpname + dst.length * (data.length - 2)) := by
  induction dst generalizing tmpname with
  | nil =>
    rw [decodeFrom, List.map_nil, List.length_nil, Nat.zero_mul]
    simp
  | cons ridx dst ih =>
    have hlen : (data.zip (coefs ridx)).length = data.length := by
      rw [List.length_zip, hcoefs, Nat.min_self]
    rw [decodeFrom]
    generalize data.zip (coefs ridx) = queue at hlen
    match queue, hlen with
    | [], hlen =>
      rw [List.length_nil] at hlen
      omega
    | [_], hlen =>
      rw [List.length_singleton] at hlen
      omega
    | front :: e :: rest, hlen =>
      obtain ⟨h1, h2⟩ := pipe_spec ridx e rest tmpname front
      have hrest : rest.length = data.length - 2 := by
        simp only [List.length_cons] at hlen
        omega
      rw [pipeQueue, List.map_append, h1, h2, List.mem_append, ih, List.mem_append,
        List.mem_range'_1, List.mem_singleton, List.mem_cons, List.length_cons, Nat.succ_mul, hrest]
      generalize dst.length * (data.length - 2) = more
      have hsplit : (tmpname ≤ v ∧ v < tmpname + (more + (data.length - 2))) ↔
          (tmpname ≤ v ∧ v < tmpname + (data.length - 2)) ∨
            (tmpname + (data.length - 2) ≤ v ∧ v < tmpname + (data.length - 2) + more) := by
        omega
      rw [hsplit]
      tauto

/-- Nothing is joined when one packet is read. -/
theorem decodeFrom_of_length_le (hdata : data.length ≤ 1) (dst : List Nat) (tmpname : Nat) :
    decodeFrom data coefs tmpname dst = [] := by
  induction dst generalizing tmpname with
  | nil => rfl
  | cons ridx dst ih =>
    rw [decodeFrom, ih, List.append_nil]
    have hlen : (data.zip (coefs ridx)).length ≤ 1 := by
      rw [List.length_zip]
      omega
    match data.zip (coefs ridx), hlen with
    | [], _ => rfl
    | [_], _ => rfl
    | _ :: _ :: _, hlen =>
      simp only [List.length_cons] at hlen
      omega

end

section
variable {n k : Nat} (invert : InvertMatrix)

/-- **The ids that `Decode` uses**: those it is given, and `k - 2` temporary ones for each lost
packet. -/
theorem mem_decode_lt {N : Nat} (hpos : 0 < N) {src dst : List Nat}
    (hsrc : ∀ v ∈ src, v < N) (hdst : ∀ v ∈ dst, v < N) (hlen : n + dst.length * (k - 2) ≤ N)
    {v : Nat} (hv : v ∈ (decode n k invert src dst).nodeIds) : v < N := by
  obtain ⟨j, hj, hv⟩ := (ECDAG.mem_nodeIds_build _ v).1 hv
  unfold decodeJoins at hj
  dsimp only at hj
  by_cases hk2 : 2 ≤ k
  · have hpidx : ∀ u ∈ (decodeJoins n k invert src dst).map Join.pidx, u < N := by
      intro u hu
      unfold decodeJoins at hu
      rw [pidx_decodeFrom (by simpa using hk2) (by simp), List.length_map, List.length_range] at hu
      rcases hu with hu | ⟨-, hu⟩
      · exact hdst u hu
      · omega
    rcases hv with rfl | hv
    · exact hpidx _ (List.mem_map_of_mem hj)
    · rcases cidx_decodeFrom dst n hj hv with h | h
      · obtain ⟨i, -, rfl⟩ := List.mem_map.1 h
        exact getD_lt hpos hsrc i
      · exact hpidx _ h
  · rw [decodeFrom_of_length_le (by rw [List.length_map, List.length_range]; omega)] at hj
    cases hj

/-- They are all used, when more than one packet is read. -/
theorem mem_decode (hk2 : 2 ≤ k) (src : List Nat) {dst : List Nat} {v : Nat}
    (hv : v ∈ dst ∨ (n ≤ v ∧ v < n + dst.length * (k - 2))) :
    v ∈ (decode n k invert src dst).nodeIds := by
  have hpidx : v ∈ (decodeJoins n k invert src dst).map Join.pidx := by
    unfold decodeJoins
    rw [pidx_decodeFrom (by simpa using hk2) (by simp), List.length_map, List.length_range]
    exact hv
  obtain ⟨j, hj, rfl⟩ := List.mem_map.1 hpidx
  exact (ECDAG.mem_nodeIds_build _ _).2 ⟨j, hj, Or.inl rfl⟩

end

end RSPIPE

end StripeRepair

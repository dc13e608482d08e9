import StripeRepair.Ec.ClayIds

/-!
# `Clay`: pairs and repair planes in a grid of any size

Whatever the constructor is given, the grid has `t` columns of `q` nodes and `q ^ t` planes.

* `pairing`: the pair of a packet, for every `q` and `t`.
* `repairPlanes_exact`: the intervals of planes that name a node, for every `q` and `t`.
-/

namespace StripeRepair

namespace Clay

open Digits (digit setDigit)

/-! ## Pairs -/

/-- A packet of the grid: plane `z` of node `(x, y)`. -/
@[ext] structure Symbol (q t : Nat) where
  x : Nat
  y : Nat
  z : Nat
  x_lt : x < q
  y_lt : y < t
  z_lt : z < q ^ t
  deriving DecidableEq

namespace Symbol

section
variable {q t : Nat} (s : Symbol q t)

include s in
theorem q_pos : 0 < q := Nat.lt_of_le_of_lt (Nat.zero_le _) s.x_lt

theorem place_lt : t - 1 - s.y < t := by
  have h := s.y_lt
  omega

/-- `z_vec[y]` -/
def vec : Nat := (planeVector q t s.z).getD s.y 0

theorem vec_eq : s.vec = digit q (t - 1 - s.y) s.z := getD_planeVector q t s.z s.y_lt

theorem vec_lt : s.vec < q := by
  rw [vec_eq]
  exact Digits.digit_lt s.q_pos _ _

/-- `z_sw = z + (x - z_vec[y]) * pow_int(_q, _t - 1 - y)` -/
def zSw : Int := s.z + ((s.x : Int) - s.vec) * (powInt q (t - 1 - s.y) : Nat)

theorem zSw_eq : s.zSw = (setDigit q (t - 1 - s.y) s.x s.z : Nat) := by
  have hle : digit q (t - 1 - s.y) s.z * q ^ (t - 1 - s.y) ≤
      s.z + s.x * q ^ (t - 1 - s.y) := by
    have h := Digits.eq_split q (t - 1 - s.y) s.z
    generalize s.z % q ^ (t - 1 - s.y) = low at h
    omega
  unfold zSw setDigit
  rw [powInt_eq, vec_eq, Nat.cast_sub hle]
  push_cast
  ring

theorem zSw_nonneg : 0 ≤ s.zSw := by
  rw [zSw_eq]
  exact Int.natCast_nonneg _

theorem toNat_zSw : s.zSw.toNat = setDigit q (t - 1 - s.y) s.x s.z := by
  rw [zSw_eq, Int.toNat_natCast]

theorem toNat_zSw_lt : s.zSw.toNat < q ^ t := by
  rw [toNat_zSw]
  exact Digits.setDigit_lt s.x_lt s.place_lt s.z_lt

/-- The packet `(z_vec[y], y, z_sw)`. -/
def pair : Symbol q t := ⟨s.vec, s.y, s.zSw.toNat, s.vec_lt, s.y_lt, s.toNat_zSw_lt⟩

/-- Two packets that are coupled with each other. -/
def Paired (s s' : Symbol q t) : Prop := s' = s.pair ∧ s' ≠ s

instance (s s' : Symbol q t) : Decidable (s.Paired s') :=
  inferInstanceAs (Decidable (s' = s.pair ∧ s' ≠ s))

theorem planeVector_zSw :
    planeVector q t s.zSw.toNat = (planeVector q t s.z).set s.y s.x := by
  rw [toNat_zSw]
  refine List.ext_getElem (by simp) fun y hy hy' => ?_
  rw [length_planeVector] at hy
  have hget : ∀ z, (planeVector q t z)[y]? = some (digit q (t - 1 - y) z) := by
    intro z
    have hlt : y < (planeVector q t z).length := by rwa [length_planeVector]
    have h := getD_planeVector q t z hy
    rw [List.getD_eq_getElem _ _ hlt] at h
    rw [List.getElem?_eq_getElem hlt, h]
  rw [List.getElem_set]
  have hl := List.getElem?_eq_some_iff.1 (hget (setDigit q (t - 1 - s.y) s.x s.z))
  have hr := List.getElem?_eq_some_iff.1 (hget s.z)
  rw [hl.2]
  split
  · next h =>
    subst h
    exact Digits.digit_setDigit_self s.x_lt s.z
  · next h =>
    rw [hr.2]
    have hlt := s.y_lt
    exact Digits.digit_setDigit_of_ne s.x_lt (by omega) s.z

theorem vec_pair : s.pair.vec = s.x := by
  rw [vec_eq]
  show digit q (t - 1 - s.y) s.zSw.toNat = s.x
  rw [toNat_zSw]
  exact Digits.digit_setDigit_self s.x_lt s.z

/-- **The pair of the pair** is the packet itself. -/
theorem pair_pair : s.pair.pair = s := by
  have hz : s.pair.pair.z = s.z := by
    show s.pair.zSw.toNat = s.z
    rw [toNat_zSw]
    show setDigit q (t - 1 - s.y) s.vec s.zSw.toNat = s.z
    rw [toNat_zSw, vec_eq]
    exact Digits.setDigit_back s.x_lt s.z
  ext
  · exact s.vec_pair
  · rfl
  · exact hz

theorem pair_eq_self : s.pair = s ↔ s.vec = s.x := by
  constructor
  · intro h
    exact congrArg x h
  · intro h
    ext
    · exact h
    · rfl
    · show s.zSw.toNat = s.z
      rw [toNat_zSw, ← h, vec_eq]
      exact Digits.setDigit_digit _ _ _

theorem paired_comm {s s' : Symbol q t} : s.Paired s' ↔ s'.Paired s := by
  have half : ∀ {s s' : Symbol q t}, s.Paired s' → s'.Paired s := by
    rintro s s' ⟨rfl, hne⟩
    exact ⟨s.pair_pair.symm, hne.symm⟩
  exact ⟨half, half⟩

end

/-- **Pairing is an involution.** The pair of a packet is in the grid, its plane has the vector
with entry `y` replaced by `x`, and its pair is the packet. Two packets are paired with each
other, and a packet with at most one; it has none when its plane names its node. -/
theorem pairing {q t : Nat} (s : Symbol q t) :
    (0 ≤ s.zSw ∧ s.zSw < (q ^ t : Nat)) ∧
      planeVector q t s.zSw.toNat = (planeVector q t s.z).set s.y s.x ∧
      s.pair.pair = s ∧
      (∀ s', s.Paired s' ↔ s'.Paired s) ∧
      (∀ s' s'', s.Paired s' → s.Paired s'' → s' = s'') ∧
      ((∀ s', ¬ s.Paired s') ↔ (planeVector q t s.z).getD s.y 0 = s.x) := by
  refine ⟨⟨s.zSw_nonneg, ?_⟩, s.planeVector_zSw, s.pair_pair, fun s' => paired_comm, ?_, ?_⟩
  · have h := s.toNat_zSw_lt
    have h0 := s.zSw_nonneg
    omega
  · rintro s' s'' ⟨rfl, -⟩ ⟨rfl, -⟩
    rfl
  · rw [show (planeVector q t s.z).getD s.y 0 = s.vec from rfl, ← pair_eq_self]
    constructor
    · intro h
      by_contra hne
      exact h s.pair ⟨rfl, hne⟩
    · rintro h s' ⟨rfl, hne⟩
      exact hne h

end Symbol

/-- The id of a packet of the code. -/
def symbolId (c : Clay) (s : Symbol c.q c.t) : Nat := (s.y * c.q + s.x) * c.w + s.z

/-- **The ids of a coupling** are those of a packet and its pair. -/
theorem idxsUpper_symbol (c : Clay) (s : Symbol c.q c.t) :
    c.idxsUpper s.x s.y s.z = c.idxs (c.symbolId s) (c.symbolId s.pair) := by
  have hz : c.zSw s.x s.y s.z = s.zSw.toNat := by rw [zSw_eq s.y_lt, Symbol.toNat_zSw]
  unfold idxsUpper
  rw [hz]
  rfl

theorem idxsLower_symbol (c : Clay) (s : Symbol c.q c.t) :
    c.idxsLower s.x s.y s.z = c.idxs (c.symbolId s.pair) (c.symbolId s) := by
  have hz : c.zSw s.x s.y s.z = s.zSw.toNat := by rw [zSw_eq s.y_lt, Symbol.toNat_zSw]
  unfold idxsLower
  rw [hz]
  rfl

/-! ## Repair planes -/

/-- The loop of `get_repair_subchunks` over `ind_seq`. -/
def repairLoop (q seqScCount : Nat) : Nat → Nat → List (Nat × Nat)
  | 0, _ => []
  | numSeq + 1, index =>
    (index, seqScCount) :: repairLoop q seqScCount numSeq (index + q * seqScCount)

/-- `get_repair_subchunks`: start and length of each interval. -/
def repairSubchunks (q t lostNode : Nat) : List (Nat × Nat) :=
  let yLost := lostNode / q
  let xLost := lostNode % q
  let seqScCount := powInt q (t - 1 - yLost)
  repairLoop q seqScCount (powInt q yLost) (xLost * seqScCount)

theorem repairLoop_eq (q seq num index : Nat) :
    repairLoop q seq num index =
      (List.range num).map fun ind => (index + ind * (q * seq), seq) := by
  induction num generalizing index with
  | zero => rfl
  | succ num ih =>
    rw [repairLoop, ih, List.range_succ_eq_map, List.map_cons, List.map_map]
    refine congrArg₂ _ (by rw [Nat.zero_mul, Nat.add_zero]) (List.map_congr_left fun ind _ => ?_)
    simp only [Function.comp_apply, Nat.succ_mul, Prod.mk.injEq, and_true]
    omega

/-- The intervals of a code. -/
theorem getRepairSubchunks_eq (c : Clay) (lostNode : Nat) :
    c.getRepairSubchunks lostNode = repairSubchunks c.q c.t lostNode := by
  unfold getRepairSubchunks repairSubchunks
  rw [repairLoop_eq]

theorem mem_interval {s a z : Nat} (hs : 0 < s) : z ∈ List.range' (a * s) s ↔ z / s = a := by
  rw [List.mem_range'_1, Nat.div_eq_iff hs]
  have hmul : (a + 1) * s = a * s + s := Nat.succ_mul ..
  omega

section
variable {q t f : Nat}

theorem repairSubchunks_eq : repairSubchunks q t f =
    (List.range (q ^ (f / q))).map fun ind =>
      ((f % q + ind * q) * q ^ (t - 1 - f / q), q ^ (t - 1 - f / q)) := by
  unfold repairSubchunks
  simp only [repairLoop_eq, powInt_eq, Nat.add_mul, Nat.mul_assoc]

/-- Each interval ends before the next one. -/
theorem ascending_repairSubchunks (hq : 0 < q) :
    (repairSubchunks q t f).Pairwise fun a b => a.1 + a.2 ≤ b.1 := by
  rw [repairSubchunks_eq, List.pairwise_map]
  refine List.pairwise_lt_range.imp fun {a b} hab => ?_
  rw [← Nat.succ_mul]
  refine Nat.mul_le_mul_right _ ?_
  have h := Nat.mul_le_mul_right q hab
  rw [Nat.succ_mul] at h
  omega

theorem nodup_planes (hq : 0 < q) : (repairPlanes (repairSubchunks q t f)).Nodup := by
  unfold repairPlanes
  rw [List.nodup_flatMap]
  refine ⟨fun _ _ => List.nodup_range', (ascending_repairSubchunks hq).imp ?_⟩
  intro a b hab
  rw [Function.onFun, List.disjoint_left]
  intro z hza hzb
  rw [List.mem_range'_1] at hza hzb
  omega

section
variable (hf : f < q * t)
include hf

theorem pos_of_lt : 0 < q := by
  rcases Nat.eq_zero_or_pos q with rfl | hq
  · omega
  · exact hq

theorem row_lt : f / q < t := by
  rw [Nat.div_lt_iff_lt_mul (pos_of_lt hf), Nat.mul_comm]
  exact hf

/-- The planes of a row: what is above the entry, the entry, and what is below. -/
theorem planes_split : q ^ t = q ^ (f / q) * q * q ^ (t - 1 - f / q) := by
  have hy := row_lt hf
  rw [← Nat.pow_succ, ← Nat.pow_add]
  congr 1
  omega

theorem mem_repairSubchunks {z : Nat} :
    (∃ e ∈ repairSubchunks q t f, z ∈ List.range' e.1 e.2) ↔
      z < q ^ t ∧ (planeVector q t z).getD (f / q) 0 = f % q := by
  have hq := pos_of_lt hf
  have hx : f % q < q := Nat.mod_lt _ hq
  have hs : 0 < q ^ (t - 1 - f / q) := Nat.pow_pos hq
  rw [getD_planeVector q t z (row_lt hf), planes_split hf, ← Nat.div_lt_iff_lt_mul hs,
    repairSubchunks_eq]
  simp only [List.mem_map, List.mem_range, exists_exists_and_eq_and, mem_interval hs, digit]
  generalize z / q ^ (t - 1 - f / q) = v
  constructor
  · rintro ⟨ind, hind, rfl⟩
    rw [Nat.add_mul_mod_self_right, Nat.mod_mod]
    refine ⟨?_, rfl⟩
    have h := Nat.mul_le_mul_right q hind
    rw [Nat.succ_mul] at h
    omega
  · rintro ⟨hv, hmod⟩
    refine ⟨v / q, ?_, ?_⟩
    · rwa [Nat.div_lt_iff_lt_mul hq]
    · rw [← hmod, Nat.mod_add_div' v q]

theorem sum_repairSubchunks : ((repairSubchunks q t f).map Prod.snd).sum = q ^ (t - 1) := by
  have hexp : f / q + (t - 1 - f / q) = t - 1 :=
    Nat.add_sub_cancel' (Nat.le_sub_one_of_lt (row_lt hf))
  rw [repairSubchunks_eq, List.map_map]
  show ((List.range (q ^ (f / q))).map fun _ => q ^ (t - 1 - f / q)).sum = _
  rw [List.map_const', List.sum_replicate, List.length_range, smul_eq_mul, ← Nat.pow_add, hexp]

theorem length_planes : (repairPlanes (repairSubchunks q t f)).length = q ^ (t - 1) := by
  rw [← sum_repairSubchunks hf]
  unfold repairPlanes
  rw [List.length_flatMap]
  simp only [List.length_range']

/-- **The repair planes.** The intervals are disjoint and ascending, they lie among the planes,
their planes are those that name the lost node, and there are `q ^ (t - 1)` of them. -/
theorem repairPlanes_exact :
    (repairSubchunks q t f).Pairwise (fun a b => a.1 + a.2 ≤ b.1) ∧
      (∀ e ∈ repairSubchunks q t f, 0 < e.2 ∧ e.1 + e.2 ≤ q ^ t) ∧
      (∀ z, (∃ e ∈ repairSubchunks q t f, e.1 ≤ z ∧ z < e.1 + e.2) ↔
        z < q ^ t ∧ (planeVector q t z).getD (f / q) 0 = f % q) ∧
      ((List.range (q ^ t)).filter fun z =>
        (planeVector q t z).getD (f / q) 0 = f % q).length = q ^ (t - 1) := by
  have hmem : ∀ z, (∃ e ∈ repairSubchunks q t f, e.1 ≤ z ∧ z < e.1 + e.2) ↔
      z < q ^ t ∧ (planeVector q t z).getD (f / q) 0 = f % q := by
    intro z
    rw [← mem_repairSubchunks hf]
    simp only [List.mem_range'_1]
  refine ⟨ascending_repairSubchunks (pos_of_lt hf), ?_, hmem, ?_⟩
  · intro e he
    have hpos : 0 < e.2 := by
      rw [repairSubchunks_eq] at he
      obtain ⟨ind, -, rfl⟩ := List.mem_map.1 he
      exact Nat.pow_pos (pos_of_lt hf)
    have hlast := ((hmem (e.1 + e.2 - 1)).1 ⟨e, he, by omega, by omega⟩).1
    omega
  · rw [← length_planes hf]
    refine List.Perm.length_eq ?_
    rw [List.perm_ext_iff_of_nodup (List.nodup_range.filter _) (nodup_planes (pos_of_lt hf))]
    intro z
    unfold repairPlanes
    rw [List.mem_filter, List.mem_range, decide_eq_true_iff, List.mem_flatMap,
      mem_repairSubchunks hf]

end

end

/-- The middle row of three. -/
theorem repairPlanes_exact_middle :
    repairSubchunks 2 3 3 = [(2, 2), (6, 2)] ∧
      ((List.range (2 ^ 3)).filter fun z =>
        (planeVector 2 3 z).getD (3 / 2) 0 = 3 % 2).length = 2 ^ 2 :=
  ⟨by decide, (repairPlanes_exact (f := 3) (q := 2) (t := 3) (by decide)).2.2.2⟩

end Clay

end StripeRepair

import StripeRepair.Ec.Clay
import StripeRepair.Lib.Digits
import Mathlib.Data.List.GetD
import Mathlib.Data.List.Flatten

/-!
# `Clay`: the ids of the packets

* `zVec_zSw_self`, `zSw_zSw`: pairing is an involution.
* `real_coupled`, `real_uncoupled`: a real id names the real node and the same plane.
* `identical_uncoupled`: an uncoupled packet without a partner is the coupled packet.
-/

namespace StripeRepair

namespace Clay

open Digits (digit setDigit)

theorem powLoop_eq (fuel power a x : Nat) (hx : x ≤ fuel) :
    powLoop fuel power a x = power * a ^ x := by
  induction fuel generalizing power a x with
  | zero =>
    obtain rfl : x = 0 := by omega
    simp [powLoop]
  | succ fuel ih =>
    rw [powLoop]
    split
    · next h0 =>
      subst h0
      simp
    · next h0 =>
      rw [ih _ _ _ (by omega)]
      have hpow : a ^ x = (a * a) ^ (x / 2) * a ^ (x % 2) := by
        rw [← pow_two, ← pow_mul, ← pow_add, Nat.div_add_mod]
      rcases Nat.mod_two_eq_zero_or_one x with h | h
      · rw [if_neg (by omega), hpow, h, pow_zero, mul_one]
      · rw [if_pos h, hpow, h, pow_one, mul_assoc, mul_comm a]

theorem powInt_eq (a x : Nat) : powInt a x = a ^ x := by
  rw [powInt, powLoop_eq x 1 a x le_rfl, one_mul]

@[simp] theorem length_planeVector (q t z : Nat) : (planeVector q t z).length = t := by
  induction t generalizing z with
  | zero => rfl
  | succ t ih => rw [planeVector, List.length_append, ih, List.length_singleton]

theorem getD_planeVector (q t z : Nat) {y : Nat} (hy : y < t) :
    (planeVector q t z).getD y 0 = digit q (t - 1 - y) z := by
  induction t generalizing z with
  | zero => omega
  | succ t ih =>
    rw [planeVector]
    by_cases hlast : y = t
    · rw [List.getD_append_right _ _ _ _ (by rw [length_planeVector]; omega), length_planeVector,
        hlast]
      have hsub : t + 1 - 1 - t = 0 := by omega
      rw [Nat.sub_self, hsub]
      simp [digit]
    · have hdiv : (z - z % q) / q = z / q := by
        have h := Nat.div_add_mod z q
        rcases Nat.eq_zero_or_pos q with rfl | hq
        · simp
        · rw [show z - z % q = q * (z / q) by omega, Nat.mul_div_cancel_left _ hq]
      rw [List.getD_append _ _ _ _ (by rw [length_planeVector]; omega), ih _ (by omega), hdiv]
      unfold digit
      have hpow : q * q ^ (t - 1 - y) = q ^ (t + 1 - 1 - y) := by
        rw [← Nat.pow_succ']
        congr 1
        omega
      rw [Nat.div_div_eq_div_mul, hpow]

variable (c : Clay)

theorem w_eq : c.w = c.q ^ c.t := powInt_eq _ _

section
variable {c} {y : Nat} (hy : y < c.t)
include hy

theorem zVec_eq (z : Nat) : c.zVec z y = digit c.q (c.t - 1 - y) z := getD_planeVector _ _ _ hy

theorem zSw_eq (x z : Nat) : c.zSw x y z = setDigit c.q (c.t - 1 - y) x z := by
  unfold zSw setDigit
  rw [powInt_eq, zVec_eq hy]

theorem zVec_lt (hq : 0 < c.q) (z : Nat) : c.zVec z y < c.q := by
  rw [zVec_eq hy]
  exact Digits.digit_lt hq _ _

variable {x : Nat} (hx : x < c.q)
include hx

theorem zSw_lt {z : Nat} (hz : z < c.w) : c.zSw x y z < c.w := by
  rw [w_eq] at hz ⊢
  rw [zSw_eq hy]
  exact Digits.setDigit_lt hx (by omega) hz

theorem zVec_zSw_self (z : Nat) : c.zVec (c.zSw x y z) y = x := by
  rw [zVec_eq hy, zSw_eq hy]
  exact Digits.digit_setDigit_self hx z

theorem zVec_zSw_of_ne {y' : Nat} (hy' : y' < c.t) (hne : y' ≠ y) (z : Nat) :
    c.zVec (c.zSw x y z) y' = c.zVec z y' := by
  rw [zVec_eq hy', zVec_eq hy', zSw_eq hy]
  exact Digits.digit_setDigit_of_ne hx (by omega) z

/-- **The partner of the partner** is the packet itself. -/
theorem zSw_zSw (z : Nat) : c.zSw (c.zVec z y) y (c.zSw x y z) = z := by
  rw [zSw_eq hy, zSw_eq hy, zVec_eq hy]
  exact Digits.setDigit_back hx z

omit hx in
theorem zSw_lt_self (hq : 0 < c.q) (z : Nat) : c.zSw x y z < z ↔ x < c.zVec z y := by
  rw [zSw_eq hy, zVec_eq hy]
  exact Digits.setDigit_lt_iff hq z

end

/-! ## Packets of a node -/

section
variable {c} (hq : 0 < c.q)
include hq

theorem w_pos : 0 < c.w := by
  rw [w_eq]
  exact Nat.pow_pos hq

theorem packet_div (i : Nat) {z : Nat} (hz : z < c.w) : (i * c.w + z) / c.w = i := by
  rw [Nat.mul_comm, Nat.mul_add_div (w_pos hq), Nat.div_eq_of_lt hz, Nat.add_zero]

omit hq in
theorem packet_mod (i : Nat) {z : Nat} (hz : z < c.w) : (i * c.w + z) % c.w = z := by
  rw [Nat.mul_comm, Nat.mul_add_mod, Nat.mod_eq_of_lt hz]

theorem packet_inj {i i' z z' : Nat} (hz : z < c.w) (hz' : z' < c.w)
    (h : i * c.w + z = i' * c.w + z') : i = i' ∧ z = z' := by
  constructor
  · rw [← packet_div hq i hz, h, packet_div hq i' hz']
  · rw [← packet_mod i hz, h, packet_mod i' hz']

omit hq in
theorem packet_lt {i N z : Nat} (hi : i < N) (hz : z < c.w) : i * c.w + z < N * c.w := by
  have h := Nat.mul_le_mul_right c.w hi
  rw [Nat.succ_mul] at h
  omega

omit hq in
theorem k_add_m (hkn : c.k ≤ c.n) : c.k + c.m = c.n := by
  unfold m
  omega

/-- **The grid** holds the nodes and the virtual nodes. -/
theorem grid (hkn : c.k ≤ c.n) : c.q * c.t = c.n + c.nu := by
  have hmod := Nat.mod_lt (c.k + c.m) hq
  have hsum := k_add_m hkn
  have hdvd : c.q ∣ c.k + c.m + c.nu := by
    have h := Nat.div_add_mod (c.k + c.m) c.q
    unfold nu
    split
    · refine ⟨(c.k + c.m) / c.q + 1, ?_⟩
      rw [Nat.mul_succ]
      omega
    · refine ⟨(c.k + c.m) / c.q, ?_⟩
      omega
  unfold t
  rw [Nat.mul_div_cancel' hdvd, hsum]

end

/-! ## Real ids -/

/-- Plane `z` names node `i`: packet `z` of the node has no partner. -/
def Named (i z : Nat) : Prop := c.zVec z (i / c.q) = i % c.q

instance (i z : Nat) : Decidable (c.Named i z) :=
  inferInstanceAs (Decidable (c.zVec z (i / c.q) = i % c.q))

/-- The real number of a node: the virtual nodes come last. -/
def realNode (i : Nat) : Nat :=
  if i < c.k then i else if i < c.k + c.nu then c.n + (i - c.k) else i - c.nu

theorem lookup_of_unique {l : List (Nat × Nat)} {a b : Nat} (h : (a, b) ∈ l)
    (huniq : ∀ b', (a, b') ∈ l → b' = b) : l.lookup a = some b := by
  induction l with
  | nil => exact absurd h List.not_mem_nil
  | cons e l ih =>
    obtain ⟨a', b'⟩ := e
    rw [List.lookup_cons]
    split
    · next heq =>
      have ha : a = a' := by simpa using heq
      rw [huniq b' (ha ▸ List.mem_cons_self ..)]
    · next hne =>
      have ha : a ≠ a' := by simpa using hne
      refine ih ?_ fun b'' hb => huniq b'' (List.mem_cons_of_mem _ hb)
      rcases List.mem_cons.1 h with h | h
      · exact absurd (congrArg Prod.fst h) ha
      · exact h

theorem lookup_eq_some {l : List (Nat × Nat)} {a b : Nat}
    (huniq : ∀ {b b'}, (a, b) ∈ l → (a, b') ∈ l → b = b') : l.lookup a = some b ↔ (a, b) ∈ l := by
  constructor
  · intro h
    obtain ⟨l₁, l₂, rfl, -⟩ := List.lookup_eq_some_iff.1 h
    exact List.mem_append_right _ (List.mem_cons_self ..)
  · intro h
    exact lookup_of_unique h fun b' hb' => huniq hb' h

theorem lookup_of_not_mem {l : List (Nat × Nat)} {a : Nat} (h : ∀ b, (a, b) ∉ l) :
    l.lookup a = none := by
  rw [List.lookup_eq_none_iff]
  rintro ⟨a', b'⟩ he
  rw [bne_iff_ne]
  rintro rfl
  exact h b' he

section
variable {c} (hq : 0 < c.q) (hkn : c.k ≤ c.n)

theorem mem_shortOfNode {i r : Nat} {e : Nat × Nat} : e ∈ c.shortOfNode i r ↔ ∃ z < c.w,
    e = (i * c.w + z, r * c.w + z) ∨
      e = (c.uncoupled (i * c.w + z), c.uncoupled (r * c.w + z)) := by
  simp [shortOfNode]

include hkn in
theorem mem_shortPairs {e : Nat × Nat} : e ∈ c.shortPairs ↔
    ∃ i < c.n + c.nu, e ∈ c.shortOfNode i (c.realNode i) := by
  simp only [shortPairs, List.mem_append, List.mem_flatMap, List.mem_range]
  constructor
  · rintro ((⟨i, hi, h⟩ | ⟨i, hi, h⟩) | ⟨i, hi, h⟩)
    · refine ⟨i, by omega, ?_⟩
      rwa [realNode, if_pos hi]
    · refine ⟨c.k + i, by omega, ?_⟩
      rwa [realNode, if_neg (by omega), if_pos (by omega), Nat.add_sub_cancel_left]
    · refine ⟨c.k + c.nu + i, by omega, ?_⟩
      rwa [realNode, if_neg (by omega), if_neg (by omega),
        show c.k + c.nu + i - c.nu = c.k + i by omega]
  · rintro ⟨i, hi, h⟩
    unfold realNode at h
    split at h
    · next h1 => exact Or.inl (Or.inl ⟨i, h1, h⟩)
    · split at h
      · next h1 h2 =>
        refine Or.inl (Or.inr ⟨i - c.k, by omega, ?_⟩)
        rwa [show c.k + (i - c.k) = i by omega]
      · next h1 h2 =>
        refine Or.inr ⟨i - (c.k + c.nu), by omega, ?_⟩
        rwa [show c.k + c.nu + (i - (c.k + c.nu)) = i by omega,
          show c.k + (i - (c.k + c.nu)) = i - c.nu by omega]

theorem realNode_lt {i : Nat} (hi : i < c.n + c.nu) : c.realNode i < c.n + c.nu := by
  unfold realNode
  split
  · exact hi
  · split <;> omega

include hkn in
theorem realNode_inj {i i' : Nat} (hi : i < c.n + c.nu) (hi' : i' < c.n + c.nu)
    (h : c.realNode i = c.realNode i') : i = i' := by
  unfold realNode at h
  split at h <;> split at h <;> (try split at h) <;> (try split at h) <;> omega

/-- The short number of a real node is turned back. -/
theorem realNode_shortNode (i : Nat) : c.realNode (c.shortNode i) = i := by
  unfold shortNode
  split
  · next h => rw [realNode, if_pos h]
  · rw [realNode, if_neg (by omega), if_neg (by omega)]
    omega

theorem shortNode_lt {i : Nat} (hi : i < c.n) : c.shortNode i < c.n + c.nu := by
  unfold shortNode
  split <;> omega

include hkn in
/-- Each real number is that of a node. -/
theorem exists_realNode {r : Nat} (hr : r < c.n + c.nu) :
    ∃ i < c.n + c.nu, c.realNode i = r := by
  by_cases hn : r < c.n
  · exact ⟨c.shortNode r, shortNode_lt hn, realNode_shortNode r⟩
  · refine ⟨c.k + (r - c.n), by omega, ?_⟩
    rw [realNode, if_neg (by omega), if_pos (by omega)]
    omega

include hkn in
theorem realNode_lt_iff {i : Nat} (hi : i < c.n + c.nu) :
    c.realNode i < c.n ↔ i < c.k ∨ c.k + c.nu ≤ i := by
  unfold realNode
  split
  · omega
  · split <;> omega

include hkn in
/-- A node is virtual or the short number of a real node. -/
theorem shortNode_realNode {i : Nat} (hi : i < c.n + c.nu) (hr : c.realNode i < c.n) :
    c.shortNode (c.realNode i) = i := by
  rcases (realNode_lt_iff hkn hi).1 hr with h | h
  · rw [realNode, if_pos h, shortNode, if_pos h]
  · rw [realNode, if_neg (by omega), if_neg (by omega), shortNode, if_neg (by omega)]
    omega

include hq hkn

/-- A short id has one real id. -/
theorem shortPairs_right {a b b' : Nat} (h : (a, b) ∈ c.shortPairs) (h' : (a, b') ∈ c.shortPairs) :
    b = b' := by
  obtain ⟨i, hi, h⟩ := (mem_shortPairs hkn).1 h
  obtain ⟨i', hi', h'⟩ := (mem_shortPairs hkn).1 h'
  obtain ⟨z, hz, h⟩ := mem_shortOfNode.1 h
  obtain ⟨z', hz', h'⟩ := mem_shortOfNode.1 h'
  have hlt := packet_lt hi hz
  have hlt' := packet_lt hi' hz'
  unfold uncoupled at h h'
  simp only [Prod.mk.injEq] at h h'
  have hidx : i * c.w + z = i' * c.w + z' := by omega
  obtain ⟨rfl, rfl⟩ := packet_inj hq hz hz' hidx
  omega

/-- A real id has one short id. -/
theorem shortPairs_left {a a' b : Nat} (h : (a, b) ∈ c.shortPairs) (h' : (a', b) ∈ c.shortPairs) :
    a = a' := by
  obtain ⟨i, hi, h⟩ := (mem_shortPairs hkn).1 h
  obtain ⟨i', hi', h'⟩ := (mem_shortPairs hkn).1 h'
  obtain ⟨z, hz, h⟩ := mem_shortOfNode.1 h
  obtain ⟨z', hz', h'⟩ := mem_shortOfNode.1 h'
  have hlt := packet_lt (realNode_lt hi) hz
  have hlt' := packet_lt (realNode_lt hi') hz'
  unfold uncoupled at h h'
  simp only [Prod.mk.injEq] at h h'
  have hidx : c.realNode i * c.w + z = c.realNode i' * c.w + z' := by omega
  obtain ⟨hnode, rfl⟩ := packet_inj hq hz hz' hidx
  obtain rfl := realNode_inj hkn hi hi' hnode
  omega

theorem short2real_eq_some {a b : Nat} : c.short2real a = some b ↔ (a, b) ∈ c.shortPairs := by
  unfold short2real
  rw [lookup_eq_some fun h h' => shortPairs_right hq hkn (List.mem_reverse.1 h)
    (List.mem_reverse.1 h'), List.mem_reverse]

theorem real2short_eq_some {a b : Nat} : c.real2short b = some a ↔ (a, b) ∈ c.shortPairs := by
  have hswap : ∀ a b, (b, a) ∈ (c.shortPairs.map Prod.swap).reverse ↔ (a, b) ∈ c.shortPairs := by
    simp
  unfold real2short
  rw [lookup_eq_some fun h h' => shortPairs_left hq hkn ((hswap _ _).1 h) ((hswap _ _).1 h'),
    hswap]

/-- **The real id of a coupled packet.** -/
theorem real_coupled {i z : Nat} (hi : i < c.n + c.nu) (hz : z < c.w) :
    c.getRealFromShort (i * c.w + z) = c.realNode i * c.w + z := by
  have hreal : c.short2real (i * c.w + z) = some (c.realNode i * c.w + z) := by
    rw [short2real_eq_some hq hkn, mem_shortPairs hkn]
    exact ⟨i, hi, mem_shortOfNode.2 ⟨z, hz, Or.inl rfl⟩⟩
  unfold getRealFromShort
  rw [hreal]
  rfl

/-- **The real id of an uncoupled packet.** -/
theorem real_uncoupled {i z : Nat} (hi : i < c.n + c.nu) (hz : z < c.w) :
    c.getRealFromShort (c.uncoupled (i * c.w + z)) = c.uncoupled (c.realNode i * c.w + z) := by
  have hreal : c.short2real (c.uncoupled (i * c.w + z)) =
      some (c.uncoupled (c.realNode i * c.w + z)) := by
    rw [short2real_eq_some hq hkn, mem_shortPairs hkn]
    exact ⟨i, hi, mem_shortOfNode.2 ⟨z, hz, Or.inr rfl⟩⟩
  unfold getRealFromShort
  rw [hreal]
  rfl

omit hkn in
/-- The coordinates of a node. -/
theorem node_xy {x : Nat} (y : Nat) (hx : x < c.q) :
    (y * c.q + x) % c.q = x ∧ (y * c.q + x) / c.q = y := by
  rw [Nat.mul_comm, Nat.mul_add_mod, Nat.mod_eq_of_lt hx, Nat.mul_add_div hq, Nat.div_eq_of_lt hx]
  exact ⟨rfl, rfl⟩

theorem node_lt {x y : Nat} (hx : x < c.q) (hy : y < c.t) : y * c.q + x < c.n + c.nu := by
  have h := Nat.mul_le_mul_right c.q hy
  rw [← grid hq hkn, Nat.mul_comm c.q]
  rw [Nat.succ_mul] at h
  omega

theorem div_lt {i : Nat} (hi : i < c.n + c.nu) : i / c.q < c.t := by
  rw [Nat.div_lt_iff_lt_mul hq, Nat.mul_comm, grid hq hkn]
  exact hi

/-- **An uncoupled packet without a partner** is the coupled packet. -/
theorem identical_uncoupled {i z : Nat} (hi : i < c.n + c.nu) (hz : z < c.w) :
    c.identical (c.uncoupled (i * c.w + z)) =
      if c.Named i z then i * c.w + z else c.uncoupled (i * c.w + z) := by
  have hmem : ∀ a b, (a, b) ∈ c.identicalPairs ↔ ∃ y < c.t, ∃ x < c.q, ∃ z' < c.w,
      c.zVec z' y = x ∧ a = c.uncoupled ((y * c.q + x) * c.w + z') ∧
        b = (y * c.q + x) * c.w + z' := by
    intro a b
    simp only [identicalPairs, List.mem_flatMap, List.mem_range]
    constructor
    · rintro ⟨y, hy, x, hx, z', hz', h⟩
      split at h
      · next hv =>
        obtain ⟨rfl, rfl⟩ := Prod.mk.inj (List.mem_singleton.1 h)
        exact ⟨y, hy, x, hx, z', hz', hv, rfl, rfl⟩
      · exact absurd h List.not_mem_nil
    · rintro ⟨y, hy, x, hx, z', hz', hv, rfl, rfl⟩
      refine ⟨y, hy, x, hx, z', hz', ?_⟩
      rw [if_pos hv]
      exact List.mem_singleton_self _
  have hkey : ∀ b, (c.uncoupled (i * c.w + z), b) ∈ c.identicalPairs →
      c.Named i z ∧ b = i * c.w + z := by
    intro b hb
    obtain ⟨y, hy, x, hx, z', hz', hv, ha, rfl⟩ := (hmem _ _).1 hb
    have hidx : i * c.w + z = (y * c.q + x) * c.w + z' := by
      unfold uncoupled at ha
      omega
    obtain ⟨rfl, rfl⟩ := packet_inj hq hz hz' hidx
    obtain ⟨h1, h2⟩ := node_xy hq y hx
    refine ⟨?_, rfl⟩
    rw [Named, h1, h2]
    exact hv
  unfold identical
  split
  · next hv =>
    rw [lookup_of_unique ((hmem _ _).2 ⟨i / c.q, div_lt hq hkn hi, i % c.q, Nat.mod_lt _ hq, z, hz,
      hv, ?_, ?_⟩) fun b hb => (hkey b hb).2]
    · rfl
    · rw [Nat.mul_comm (i / c.q), Nat.div_add_mod]
    · rw [Nat.mul_comm (i / c.q), Nat.div_add_mod]
  · next hv =>
    rw [lookup_of_not_mem fun b hb => hv (hkey b hb).1]
    rfl

end

/-! ## Packets of the grid -/

/-- The node of the partner. -/
def mate (i z : Nat) : Nat := i / c.q * c.q + c.zVec z (i / c.q)

/-- The plane of the partner. -/
def matePlane (i z : Nat) : Nat := c.zSw (i % c.q) (i / c.q) z

/-- The id of a coupled packet in the DAG. -/
def coupledId (i z : Nat) : Nat := c.getRealFromShort (i * c.w + z)

/-- The id of an uncoupled packet in the DAG. -/
def uncoupledId (i z : Nat) : Nat := c.getRealFromShort (c.identical (c.uncoupled (i * c.w + z)))

section
variable {c} (hq : 0 < c.q) (hkn : c.k ≤ c.n)
include hq hkn

theorem coupledId_eq {i z : Nat} (hi : i < c.n + c.nu) (hz : z < c.w) :
    c.coupledId i z = c.realNode i * c.w + z := real_coupled hq hkn hi hz

theorem uncoupledId_of_named {i z : Nat} (hi : i < c.n + c.nu) (hz : z < c.w)
    (h : c.Named i z) : c.uncoupledId i z = c.coupledId i z := by
  rw [uncoupledId, identical_uncoupled hq hkn hi hz, if_pos h]
  rfl

theorem uncoupledId_of_not_named {i z : Nat} (hi : i < c.n + c.nu) (hz : z < c.w)
    (h : ¬ c.Named i z) : c.uncoupledId i z = c.uncoupled (c.realNode i * c.w + z) := by
  rw [uncoupledId, identical_uncoupled hq hkn hi hz, if_neg h, real_uncoupled hq hkn hi hz]

theorem coupledId_lt {i z : Nat} (hi : i < c.n + c.nu) (hz : z < c.w) :
    c.coupledId i z < (c.n + c.nu) * c.w := by
  rw [coupledId_eq hq hkn hi hz]
  exact packet_lt (realNode_lt hi) hz

theorem le_uncoupledId {i z : Nat} (hi : i < c.n + c.nu) (hz : z < c.w) (h : ¬ c.Named i z) :
    (c.n + c.nu) * c.w ≤ c.uncoupledId i z := by
  rw [uncoupledId_of_not_named hq hkn hi hz h]
  exact Nat.le_add_left _ _

theorem coupledId_inj {i i' z z' : Nat} (hi : i < c.n + c.nu) (hi' : i' < c.n + c.nu)
    (hz : z < c.w) (hz' : z' < c.w) (h : c.coupledId i z = c.coupledId i' z') :
    i = i' ∧ z = z' := by
  rw [coupledId_eq hq hkn hi hz, coupledId_eq hq hkn hi' hz'] at h
  obtain ⟨h1, h2⟩ := packet_inj hq hz hz' h
  exact ⟨realNode_inj hkn hi hi' h1, h2⟩

/-- An uncoupled packet that is a coupled packet has no partner. -/
theorem uncoupledId_eq_coupledId {i i' z z' : Nat} (hi : i < c.n + c.nu) (hi' : i' < c.n + c.nu)
    (hz : z < c.w) (hz' : z' < c.w) (h : c.uncoupledId i z = c.coupledId i' z') :
    c.Named i z ∧ i = i' ∧ z = z' := by
  by_cases hn : c.Named i z
  · rw [uncoupledId_of_named hq hkn hi hz hn] at h
    exact ⟨hn, coupledId_inj hq hkn hi hi' hz hz' h⟩
  · have h1 := le_uncoupledId hq hkn hi hz hn
    have h2 := coupledId_lt hq hkn hi' hz'
    omega

theorem uncoupledId_inj {i i' z z' : Nat} (hi : i < c.n + c.nu) (hi' : i' < c.n + c.nu)
    (hz : z < c.w) (hz' : z' < c.w) (h : c.uncoupledId i z = c.uncoupledId i' z') :
    i = i' ∧ z = z' := by
  by_cases hn : c.Named i' z'
  · rw [uncoupledId_of_named hq hkn hi' hz' hn] at h
    exact (uncoupledId_eq_coupledId hq hkn hi hi' hz hz' h).2
  · by_cases hn' : c.Named i z
    · rw [uncoupledId_of_named hq hkn hi hz hn'] at h
      exact absurd (uncoupledId_eq_coupledId hq hkn hi' hi hz' hz h.symm).1 hn
    · rw [uncoupledId_of_not_named hq hkn hi hz hn', uncoupledId_of_not_named hq hkn hi' hz' hn] at h
      have h : c.realNode i * c.w + z = c.realNode i' * c.w + z' := by
        unfold uncoupled at h
        omega
      obtain ⟨h1, h2⟩ := packet_inj hq hz hz' h
      exact ⟨realNode_inj hkn hi hi' h1, h2⟩

/-! ## Partners -/

omit hkn in
theorem named_node {x : Nat} (y z : Nat) (hx : x < c.q) :
    c.Named (y * c.q + x) z ↔ c.zVec z y = x := by
  obtain ⟨h1, h2⟩ := node_xy hq y hx
  unfold Named
  rw [h1, h2]

omit hkn in
theorem mate_node {x : Nat} (y z : Nat) (hx : x < c.q) :
    c.mate (y * c.q + x) z = y * c.q + c.zVec z y ∧ c.matePlane (y * c.q + x) z = c.zSw x y z := by
  obtain ⟨h1, h2⟩ := node_xy hq y hx
  unfold mate matePlane
  rw [h1, h2]
  exact ⟨rfl, rfl⟩

omit hq hkn in
theorem node_eq (i : Nat) : i / c.q * c.q + i % c.q = i := by
  rw [Nat.mul_comm, Nat.div_add_mod]

section
variable {i z : Nat} (hi : i < c.n + c.nu)
include hi

theorem mate_lt : c.mate i z < c.n + c.nu :=
  node_lt hq hkn (zVec_lt (div_lt hq hkn hi) hq z) (div_lt hq hkn hi)

theorem mate_div : c.mate i z / c.q = i / c.q :=
  (node_xy hq _ (zVec_lt (div_lt hq hkn hi) hq z)).2

theorem mate_mod : c.mate i z % c.q = c.zVec z (i / c.q) :=
  (node_xy hq _ (zVec_lt (div_lt hq hkn hi) hq z)).1

theorem matePlane_lt (hz : z < c.w) : c.matePlane i z < c.w :=
  zSw_lt (div_lt hq hkn hi) (Nat.mod_lt _ hq) hz

theorem zVec_matePlane : c.zVec (c.matePlane i z) (i / c.q) = i % c.q :=
  zVec_zSw_self (div_lt hq hkn hi) (Nat.mod_lt _ hq) z

theorem zVec_matePlane_of_ne {y : Nat} (hy : y < c.t) (hne : y ≠ i / c.q) :
    c.zVec (c.matePlane i z) y = c.zVec z y :=
  zVec_zSw_of_ne (div_lt hq hkn hi) (Nat.mod_lt _ hq) hy hne z

/-- **Pairing is an involution.** -/
theorem mate_mate : c.mate (c.mate i z) (c.matePlane i z) = i ∧
    c.matePlane (c.mate i z) (c.matePlane i z) = z := by
  constructor
  · rw [mate, mate_div hq hkn hi, zVec_matePlane hq hkn hi, node_eq]
  · rw [matePlane, mate_div hq hkn hi, mate_mod hq hkn hi, matePlane]
    exact zSw_zSw (div_lt hq hkn hi) (Nat.mod_lt _ hq) z

/-- A packet has a partner when the partner has one. -/
theorem named_mate : c.Named (c.mate i z) (c.matePlane i z) ↔ c.Named i z := by
  unfold Named
  rw [mate_div hq hkn hi, mate_mod hq hkn hi, zVec_matePlane hq hkn hi]
  exact eq_comm

end

/-- **The ids of a pair** when the node is 0 and 2. -/
theorem real_idxsUpper {i z : Nat} (hi : i < c.n + c.nu) (hz : z < c.w) (h : ¬ c.Named i z) :
    c.getRealFromShort (c.idxsUpper (i % c.q) (i / c.q) z 0) = c.coupledId i z ∧
    c.getRealFromShort (c.idxsUpper (i % c.q) (i / c.q) z 1) =
      c.coupledId (c.mate i z) (c.matePlane i z) ∧
    c.getRealFromShort (c.idxsUpper (i % c.q) (i / c.q) z 2) = c.uncoupledId i z ∧
    c.getRealFromShort (c.idxsUpper (i % c.q) (i / c.q) z 3) =
      c.uncoupledId (c.mate i z) (c.matePlane i z) := by
  have hmate := mate_lt hq hkn hi (z := z)
  have hplane := matePlane_lt hq hkn hi hz
  have hn : ¬ c.Named (c.mate i z) (c.matePlane i z) := fun hm => h ((named_mate hq hkn hi).1 hm)
  refine ⟨?_, rfl, ?_, ?_⟩
  · show c.getRealFromShort ((i / c.q * c.q + i % c.q) * c.w + z) = _
    rw [node_eq]
    rfl
  · show c.getRealFromShort (c.uncoupled ((i / c.q * c.q + i % c.q) * c.w + z)) = _
    rw [node_eq, uncoupledId, identical_uncoupled hq hkn hi hz, if_neg h]
  · rw [uncoupledId, identical_uncoupled hq hkn hmate hplane, if_neg hn]
    rfl

/-- The ids of a pair when the node is 1 and 3. -/
theorem real_idxsLower {i z : Nat} (hi : i < c.n + c.nu) (hz : z < c.w) (h : ¬ c.Named i z) :
    c.getRealFromShort (c.idxsLower (i % c.q) (i / c.q) z 0) =
      c.coupledId (c.mate i z) (c.matePlane i z) ∧
    c.getRealFromShort (c.idxsLower (i % c.q) (i / c.q) z 1) = c.coupledId i z ∧
    c.getRealFromShort (c.idxsLower (i % c.q) (i / c.q) z 2) =
      c.uncoupledId (c.mate i z) (c.matePlane i z) ∧
    c.getRealFromShort (c.idxsLower (i % c.q) (i / c.q) z 3) = c.uncoupledId i z := by
  obtain ⟨h0, h1, h2, h3⟩ := real_idxsUpper hq hkn hi hz h
  exact ⟨h1, h0, h3, h2⟩

end

end Clay

end StripeRepair

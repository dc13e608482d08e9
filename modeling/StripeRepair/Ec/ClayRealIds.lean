import StripeRepair.Ec.ClayRepair

/-!
# `Clay`: short ids and real ids

* `mem_shortPairs_iff`: the assignments of the constructor, node by node.
* `shortReal_bijection`: the two maps are inverse to each other, block by block.
-/

namespace StripeRepair

namespace Clay

/-- The number of coupled ids, and the distance of an uncoupled id. -/
def blockIds (c : Clay) : Nat := (c.n + c.nu) * c.w

section
variable {c : Clay} (hq : 0 < c.q) (hkn : c.k ≤ c.n)

include hkn in
theorem mem_shortPairs_iff {a b : Nat} : (a, b) ∈ c.shortPairs ↔
    ∃ i < c.n + c.nu, ∃ z < c.w, (a = i * c.w + z ∧ b = c.realNode i * c.w + z) ∨
      (a = i * c.w + z + c.blockIds ∧ b = c.realNode i * c.w + z + c.blockIds) := by
  rw [mem_shortPairs hkn]
  simp only [mem_shortOfNode, Prod.mk.injEq]
  rfl

/-- A real id below the block ids has a node. -/
theorem exists_packet {a : Nat} (ha : a < c.blockIds) :
    ∃ i < c.n + c.nu, ∃ z < c.w, a = i * c.w + z := by
  have hw : 0 < c.w := Nat.pos_of_ne_zero fun h => by
    rw [blockIds, h] at ha
    omega
  refine ⟨a / c.w, ?_, a % c.w, Nat.mod_lt _ hw, ?_⟩
  · rwa [Nat.div_lt_iff_lt_mul hw]
  · rw [Nat.mul_comm, Nat.div_add_mod]

include hkn in
/-- The two ids of a pair are in the same half. -/
theorem shortPairs_half {a b : Nat} (h : (a, b) ∈ c.shortPairs) :
    a < 2 * c.blockIds ∧ b < 2 * c.blockIds ∧ (a < c.blockIds ↔ b < c.blockIds) := by
  obtain ⟨i, hi, z, hz, h⟩ := (mem_shortPairs_iff hkn).1 h
  have ha : i * c.w + z < c.blockIds := packet_lt hi hz
  have hb : c.realNode i * c.w + z < c.blockIds := packet_lt (realNode_lt hi) hz
  omega

include hkn in
/-- The two ids of a pair are the same packet of their nodes. -/
theorem shortPairs_mod {a b : Nat} (h : (a, b) ∈ c.shortPairs) : a % c.w = b % c.w := by
  obtain ⟨i, hi, z, hz, h⟩ := (mem_shortPairs_iff hkn).1 h
  have ha := packet_mod (c := c) i hz
  have hb := packet_mod (c := c) (c.realNode i) hz
  rcases h with ⟨rfl, rfl⟩ | ⟨rfl, rfl⟩
  · rw [ha, hb]
  · rw [blockIds, Nat.add_mul_mod_self_right, Nat.add_mul_mod_self_right, ha, hb]

include hkn in
/-- The pairs of the uncoupled ids are those of the coupled ones. -/
theorem shortPairs_add {a b : Nat} (ha : a < c.blockIds) :
    (a + c.blockIds, b) ∈ c.shortPairs ↔ ∃ b', (a, b') ∈ c.shortPairs ∧ b = b' + c.blockIds := by
  constructor
  · intro h
    obtain ⟨i, hi, z, hz, h⟩ := (mem_shortPairs_iff hkn).1 h
    have hlt : i * c.w + z < c.blockIds := packet_lt hi hz
    refine ⟨c.realNode i * c.w + z, (mem_shortPairs_iff hkn).2 ⟨i, hi, z, hz, Or.inl ?_⟩, ?_⟩ <;>
      omega
  · rintro ⟨b', h, rfl⟩
    obtain ⟨i, hi, z, hz, h⟩ := (mem_shortPairs_iff hkn).1 h
    exact (mem_shortPairs_iff hkn).2 ⟨i, hi, z, hz, by omega⟩

include hkn in
/-- Every id is a short id. -/
theorem exists_real {a : Nat} (ha : a < 2 * c.blockIds) : ∃ b, (a, b) ∈ c.shortPairs := by
  by_cases hlt : a < c.blockIds
  · obtain ⟨i, hi, z, hz, rfl⟩ := exists_packet hlt
    exact ⟨_, (mem_shortPairs_iff hkn).2 ⟨i, hi, z, hz, Or.inl ⟨rfl, rfl⟩⟩⟩
  · obtain ⟨i, hi, z, hz, ha'⟩ := exists_packet (c := c) (a := a - c.blockIds) (by omega)
    exact ⟨_, (mem_shortPairs_iff hkn).2 ⟨i, hi, z, hz, Or.inr ⟨by omega, rfl⟩⟩⟩

include hkn in
/-- Every id is a real id. -/
theorem exists_short {b : Nat} (hb : b < 2 * c.blockIds) : ∃ a, (a, b) ∈ c.shortPairs := by
  by_cases hlt : b < c.blockIds
  · obtain ⟨r, hr, z, hz, rfl⟩ := exists_packet hlt
    obtain ⟨i, hi, rfl⟩ := exists_realNode hkn hr
    exact ⟨_, (mem_shortPairs_iff hkn).2 ⟨i, hi, z, hz, Or.inl ⟨rfl, rfl⟩⟩⟩
  · obtain ⟨r, hr, z, hz, hb'⟩ := exists_packet (c := c) (a := b - c.blockIds) (by omega)
    obtain ⟨i, hi, rfl⟩ := exists_realNode hkn hr
    exact ⟨_, (mem_shortPairs_iff hkn).2 ⟨i, hi, z, hz, Or.inr ⟨rfl, by omega⟩⟩⟩

include hkn in
/-- The real ids of a block: those of the virtual nodes come after those of the nodes. -/
theorem realNode_block {i z : Nat} (hi : i < c.n + c.nu) (hz : z < c.w) :
    c.realNode i * c.w + z < c.n * c.w ↔ i < c.k ∨ c.k + c.nu ≤ i := by
  rw [← realNode_lt_iff hkn hi]
  constructor
  · intro h
    by_contra hle
    have hmul := Nat.mul_le_mul_right c.w (Nat.le_of_not_lt hle)
    omega
  · intro h
    exact packet_lt h hz

include hq hkn in
/-- A map of the ids commutes with the step to the uncoupled ids. -/
theorem short2real_add {a : Nat} (ha : a < c.blockIds) :
    c.short2real (a + c.blockIds) = (c.short2real a).map (· + c.blockIds) := by
  obtain ⟨b, hb⟩ := exists_real hkn (a := a) (by omega)
  rw [(short2real_eq_some hq hkn).2 hb, Option.map_some, short2real_eq_some hq hkn,
    shortPairs_add hkn ha]
  exact ⟨b, hb, rfl⟩

include hq hkn in
theorem real2short_add {b : Nat} (hb : b < c.blockIds) :
    c.real2short (b + c.blockIds) = (c.real2short b).map (· + c.blockIds) := by
  obtain ⟨a, ha⟩ := exists_short hkn (b := b) (by omega)
  have hlt : a < c.blockIds := (shortPairs_half hkn ha).2.2.2 hb
  rw [(real2short_eq_some hq hkn).2 ha, Option.map_some, real2short_eq_some hq hkn,
    shortPairs_add hkn hlt]
  exact ⟨b, ha, rfl⟩

end

/-- **Short ids and real ids** correspond one to one: the maps of the constructor are inverse to
each other on the ids below `2 * (n + nu) * w`. They keep coupled and uncoupled ids and the place
in the block, they put the blocks of the virtual nodes after the blocks of the nodes, and they
commute with the step from a coupled id to the uncoupled one. -/
theorem shortReal_bijection {c : Clay} (hc : c.AllHelpers) :
    (∀ a, a < 2 * c.blockIds ↔ ∃ b < 2 * c.blockIds, c.short2real a = some b) ∧
      (∀ b, b < 2 * c.blockIds ↔ ∃ a < 2 * c.blockIds, c.real2short b = some a) ∧
      (∀ a b, c.short2real a = some b ↔ c.real2short b = some a) ∧
      (∀ a b, c.short2real a = some b →
        (a < c.blockIds ↔ b < c.blockIds) ∧ a % c.w = b % c.w) ∧
      (∀ i < c.n + c.nu, ∀ z < c.w, ∃ b < c.blockIds, c.short2real (i * c.w + z) = some b ∧
        (b < c.n * c.w ↔ i < c.k ∨ c.k + c.nu ≤ i)) ∧
      (∀ a < c.blockIds, c.short2real (a + c.blockIds) =
        (c.short2real a).map (· + c.blockIds)) ∧
      ∀ b < c.blockIds, c.real2short (b + c.blockIds) =
        (c.real2short b).map (· + c.blockIds) := by
  have hq := hc.q_pos
  have hkn := hc.k_le
  have hs : ∀ {a b}, c.short2real a = some b ↔ (a, b) ∈ c.shortPairs := short2real_eq_some hq hkn
  have hr : ∀ {a b}, c.real2short b = some a ↔ (a, b) ∈ c.shortPairs := real2short_eq_some hq hkn
  refine ⟨fun a => ⟨fun ha => ?_, ?_⟩, fun b => ⟨fun hb => ?_, ?_⟩, fun a b => hs.trans hr.symm,
    fun a b h => ?_, fun i hi z hz => ?_, fun a => short2real_add hq hkn,
    fun b => real2short_add hq hkn⟩
  · obtain ⟨b, hb⟩ := exists_real hkn ha
    exact ⟨b, (shortPairs_half hkn hb).2.1, hs.2 hb⟩
  · rintro ⟨b, -, hb⟩
    exact (shortPairs_half hkn (hs.1 hb)).1
  · obtain ⟨a, ha⟩ := exists_short hkn hb
    exact ⟨a, (shortPairs_half hkn ha).1, hr.2 ha⟩
  · rintro ⟨a, -, ha⟩
    exact (shortPairs_half hkn (hr.1 ha)).2.1
  · exact ⟨(shortPairs_half hkn (hs.1 h)).2.2, shortPairs_mod hkn (hs.1 h)⟩
  · exact ⟨_, packet_lt (realNode_lt hi) hz,
      hs.2 ((mem_shortPairs_iff hkn).2 ⟨i, hi, z, hz, Or.inl ⟨rfl, rfl⟩⟩),
      realNode_block hkn hi hz⟩

/-- With one virtual node. -/
theorem shortReal_bijection_five :
    (⟨5, 3, 4⟩ : Clay).nu = 1 ∧
      ∀ a b, (⟨5, 3, 4⟩ : Clay).short2real a = some b ↔
        (⟨5, 3, 4⟩ : Clay).real2short b = some a :=
  ⟨by decide, (shortReal_bijection ⟨by decide, by decide, by decide⟩).2.2.1⟩

end Clay

end StripeRepair

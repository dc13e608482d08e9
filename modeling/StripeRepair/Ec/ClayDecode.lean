import StripeRepair.Ec.ClayCodeword

/-!
# `Clay`: Decode of any lost nodes

When several nodes of one column are lost, `minimum_to_repair` should pick all other nodes. It
goes by their positions in the list of available nodes, in which the virtual nodes stand too.

* `helpers_iff`: when it picks all other nodes.
* `not_restoresAll`: some packets are not restored when it does not.
* `restoresAll_iff`: when `Decode` undoes `Encode`.
-/

namespace StripeRepair

namespace Clay

/-! ## Positions in the list of available nodes -/

/-- How many nodes before `v` are not lost. -/
def place (want : List Nat) (v : Nat) : Nat := ((List.range v).filter (· ∉ want)).length

section
variable {want : List Nat}

theorem place_succ (want : List Nat) (v : Nat) :
    place want (v + 1) = place want v + if v ∈ want then 0 else 1 := by
  unfold place
  rw [List.range_succ, List.filter_append, List.length_append]
  by_cases hv : v ∈ want
  · rw [if_pos hv, List.filter_cons_of_neg (by simpa using hv)]
    rfl
  · rw [if_neg hv, List.filter_cons_of_pos (by simpa using hv)]
    rfl

theorem place_le (want : List Nat) (v : Nat) : place want v ≤ v := by
  have h := List.length_filter_le (fun i => decide (i ∉ want)) (List.range v)
  rwa [List.length_range] at h

/-- From `v` on there are at most as many places as nodes. -/
theorem place_add_le (want : List Nat) (v s : Nat) :
    place want v ≤ place want (v + s) ∧ place want (v + s) ≤ place want v + s := by
  induction s with
  | zero => exact ⟨Nat.le_refl _, Nat.le_refl _⟩
  | succ s ih =>
    rw [← Nat.add_assoc, place_succ]
    split <;> omega

/-- Nodes that are all there. -/
theorem place_add {v s : Nat} (h : ∀ i, v ≤ i → i < v + s → i ∉ want) :
    place want (v + s) = place want v + s := by
  induction s with
  | zero => rfl
  | succ s ih =>
    rw [← Nat.add_assoc, place_succ, ih fun i h1 h2 => h i h1 (by omega),
      if_neg (h _ (by omega) (by omega))]
    omega

/-- Nodes that are all lost. -/
theorem place_add_lost {v s : Nat} (h : ∀ i, v ≤ i → i < v + s → i ∈ want) :
    place want (v + s) = place want v := by
  induction s with
  | zero => rfl
  | succ s ih =>
    rw [← Nat.add_assoc, place_succ, ih fun i h1 h2 => h i h1 (by omega),
      if_pos (h _ (by omega) (by omega)), Nat.add_zero]

/-- Node `v` stands at its place. -/
theorem getD_place {N v : Nat} (hv : v < N) (hin : v ∉ want) :
    place want v < ((List.range N).filter (· ∉ want)).length ∧
      ((List.range N).filter (· ∉ want)).getD (place want v) 0 = v := by
  obtain ⟨r, rfl⟩ : ∃ r, N = v + (r + 1) := ⟨N - v - 1, by omega⟩
  have hsplit : (List.range (v + (r + 1))).filter (· ∉ want) =
      (List.range v).filter (· ∉ want) ++ v ::
        ((List.range r).map fun i => v + (i + 1)).filter (· ∉ want) := by
    rw [List.range_add, List.filter_append, List.range_succ_eq_map, List.map_cons, List.map_map,
      List.filter_cons_of_pos (by simpa using hin)]
    rfl
  rw [hsplit]
  constructor
  · rw [List.length_append, List.length_cons]
    unfold place
    omega
  · unfold place
    rw [List.getD_append_right _ _ _ _ (Nat.le_refl _), Nat.sub_self]
    rfl

/-- What stands at a place. -/
theorem exists_place {N j : Nat} (hj : j < ((List.range N).filter (· ∉ want)).length) :
    ∃ v < N, v ∉ want ∧ place want v = j ∧ ((List.range N).filter (· ∉ want)).getD j 0 = v := by
  have hmem := List.getElem_mem hj
  rw [List.mem_filter, List.mem_range, decide_eq_true_eq] at hmem
  obtain ⟨hlt, hget⟩ := getD_place hmem.1 hmem.2
  rw [List.getD_eq_getElem _ _ hlt] at hget
  have hnodup : ((List.range N).filter (· ∉ want)).Nodup := List.nodup_range.filter _
  exact ⟨_, hmem.1, hmem.2, hnodup.getElem_inj_iff.1 hget, List.getD_eq_getElem _ _ hj⟩

end

/-! ## What `minimum_to_repair` picks -/

section
variable {c : Clay} (hc : c.AllHelpers) {want : List Nat} (hseveral : 2 ≤ want.length)
  (hlt : ∀ i ∈ want, i < c.n)
include hc hseveral

/-- Several lost nodes are repaired from parts when they are in one column. -/
theorem AllHelpers.isRepair_several (avail : List Nat) :
    c.isRepair want avail = true ↔
      want.length ≤ c.q - 1 ∧ ∃ y, ∀ i ∈ want, c.shortNode i / c.q = y := by
  have hd : ¬ c.d < c.k + c.m - 1 := by
    rw [hc.k_add_m, hc.d_eq]
    exact Nat.lt_irrefl _
  match want, hseveral with
  | i :: i' :: rest, _ =>
    simp only [isRepair]
    rw [if_neg hd, decide_eq_true_eq]
    refine and_congr_right fun _ => ⟨fun h => ⟨c.shortNode i / c.q, fun j hj => ?_⟩, ?_⟩
    · rcases List.mem_cons.1 hj with rfl | hj
      · rfl
      · exact h j hj
    · rintro ⟨y, hy⟩ j hj
      rw [hy j (List.mem_cons_of_mem _ hj), hy i List.mem_cons_self]

include hlt

/-- **The nodes it picks**: with the places from `k` to `k + nu` left out, and the virtual nodes
counted off from what follows. -/
theorem AllHelpers.mem_minimum_several (r : Nat) :
    r ∈ c.minimumToRepair want (c.availNodes want) ↔
      ∃ v < c.n + c.nu, v ∉ want ∧
        (place want v < c.k ∧ v = r ∨ c.k + c.nu ≤ place want v ∧ v - c.nu = r) := by
  have hd : ¬ c.d < c.k + c.m - 1 := by
    rw [hc.k_add_m, hc.d_eq]
    exact Nat.lt_irrefl _
  obtain ⟨f, hf⟩ := List.exists_mem_of_length_pos (Nat.lt_of_lt_of_le Nat.two_pos hseveral)
  have hlost : ∃ i < c.k + c.m, i ∈ want := ⟨f, by rw [hc.k_add_m]; exact hlt f hf, hf⟩
  have hmin : c.minimumToRepair want (c.availNodes want) =
      ((List.range (c.availNodes want).length).filterMap fun j =>
        if j < c.k then some ((c.availNodes want).getD j 0)
        else if c.k + c.nu ≤ j then some ((c.availNodes want).getD j 0 - c.nu)
        else none).dedup := by
    match want, hseveral with
    | i :: i' :: rest, _ =>
      simp only [minimumToRepair]
      rw [if_neg hd, if_pos hlost]
  rw [hmin, List.mem_dedup, List.mem_filterMap, availNodes_eq hc.k_le]
  constructor
  · rintro ⟨j, hj, hr⟩
    obtain ⟨v, hv, hin, rfl, hget⟩ := exists_place (List.mem_range.1 hj)
    rw [hget] at hr
    refine ⟨v, hv, hin, ?_⟩
    split at hr
    · next hlow => exact Or.inl ⟨hlow, Option.some.inj hr⟩
    · split at hr
      · next hhigh => exact Or.inr ⟨hhigh, Option.some.inj hr⟩
      · cases hr
  · rintro ⟨v, hv, hin, hr⟩
    obtain ⟨hplace, hget⟩ := getD_place hv hin
    refine ⟨place want v, List.mem_range.2 hplace, ?_⟩
    rw [hget]
    rcases hr with ⟨hlow, rfl⟩ | ⟨hhigh, rfl⟩
    · rw [if_pos hlow]
    · rw [if_neg (by omega), if_pos hhigh]

/-- A node is picked when none of the next `nu` nodes is lost. -/
theorem AllHelpers.mem_minimum_of {r : Nat} (hr : r < c.n) (hin : r ∉ want)
    (h : ∀ f ∈ want, ¬ (r < f ∧ f ≤ r + c.nu)) :
    r ∈ c.minimumToRepair want (c.availNodes want) := by
  have hnext : ∀ i, r ≤ i → i ≤ r + c.nu → i ∉ want := by
    intro i h1 h2 hi
    rcases Nat.eq_or_lt_of_le h1 with rfl | h1
    · exact hin hi
    · exact h i hi ⟨h1, h2⟩
  rw [hc.mem_minimum_several hseveral hlt]
  by_cases hlow : place want r < c.k
  · exact ⟨r, by omega, hin, Or.inl ⟨hlow, rfl⟩⟩
  · have hplace := place_add fun i h1 (h2 : i < r + c.nu) => hnext i h1 (by omega)
    refine ⟨r + c.nu, by omega, hnext _ (by omega) (Nat.le_refl _), Or.inr ⟨by omega, ?_⟩⟩
    exact Nat.add_sub_cancel ..

/-- **A parity that is not picked**, when one before a lost parity is there. -/
theorem AllHelpers.exists_not_mem_minimum (hnu : 0 < c.nu) (hpar : ∀ f ∈ want, c.k ≤ f)
    (hbefore : ∃ r, c.k ≤ r ∧ r ∉ want ∧ ∃ f ∈ want, r < f) :
    ∃ r < c.n, c.k ≤ r ∧ r ∉ want ∧ r ∉ c.minimumToRepair want (c.availNodes want) := by
  obtain ⟨r₀, hr₀, hin₀, f₀, hf₀, hlt₀⟩ := hbefore
  -- the first parity that is there, and the first lost one after it
  have hthere : ∃ a, c.k ≤ a ∧ a ∉ want := ⟨r₀, hr₀, hin₀⟩
  obtain ⟨a, ⟨hka, hain⟩, hamin⟩ : ∃ a, (c.k ≤ a ∧ a ∉ want) ∧ ∀ i < a, ¬ (c.k ≤ i ∧ i ∉ want) :=
    ⟨_, Nat.find_spec hthere, fun _ => Nat.find_min hthere⟩
  have haf₀ : a < f₀ := by
    by_contra hle
    exact hamin r₀ (by omega) ⟨hr₀, hin₀⟩
  have hafter : ∃ f, a < f ∧ f ∈ want := ⟨f₀, haf₀, hf₀⟩
  obtain ⟨f, ⟨haf, hf⟩, hfmin⟩ : ∃ f, (a < f ∧ f ∈ want) ∧ ∀ i < f, ¬ (a < i ∧ i ∈ want) :=
    ⟨_, Nat.find_spec hafter, fun _ => Nat.find_min hafter⟩
  have hfn := hlt f hf
  have hplace : place want a = c.k := by
    have hdata := place_add fun i (_ : 0 ≤ i) (h2 : i < 0 + c.k) hi =>
      absurd (hpar i hi) (by omega)
    have hlost := place_add_lost fun i h1 (h2 : i < c.k + (a - c.k)) =>
      not_not.1 fun hi => hamin i (by omega) ⟨h1, hi⟩
    have hzero := place_le want 0
    rw [Nat.zero_add] at hdata
    rw [Nat.add_sub_cancel' hka] at hlost
    omega
  have hmono : ∀ v, a ≤ v → c.k ≤ place want v := by
    intro v hv
    have h := (place_add_le want a (v - a)).1
    rw [Nat.add_sub_cancel' hv] at h
    omega
  by_cases hfar : a + c.nu < f
  · refine ⟨f - c.nu, by omega, by omega, fun hi => hfmin _ (by omega) ⟨by omega, hi⟩, fun hm => ?_⟩
    obtain ⟨v, -, hin, ⟨hlow, rfl⟩ | ⟨hhigh, he⟩⟩ := (hc.mem_minimum_several hseveral hlt _).1 hm
    · have h := hmono (f - c.nu) (by omega)
      omega
    · have h := place_le want v
      obtain rfl : v = f := by omega
      exact hin hf
  · refine ⟨a, by omega, hka, hain, fun hm => ?_⟩
    obtain ⟨v, -, hin, ⟨hlow, rfl⟩ | ⟨hhigh, he⟩⟩ := (hc.mem_minimum_several hseveral hlt _).1 hm
    · omega
    · have h := place_le want v
      have hne : v ≠ f := fun h => hin (h ▸ hf)
      have hskip := place_succ want f
      rw [if_pos hf] at hskip
      have hbelow := (place_add_le want a (f - a)).2
      have habove := (place_add_le want (f + 1) (v - (f + 1))).2
      rw [Nat.add_sub_cancel' haf.le] at hbelow
      rw [Nat.add_sub_cancel' (by omega)] at habove
      omega

omit hseveral hlt in
/-- A column is of data nodes or of parities. -/
theorem AllHelpers.column_data_or_parities
    (hcol : ∃ y, ∀ i ∈ want, c.shortNode i / c.q = y) :
    (∀ f ∈ want, f < c.k) ∨ ∀ f ∈ want, c.k ≤ f := by
  obtain ⟨y, hy⟩ := hcol
  have hq := hc.q_pos
  obtain ⟨a, ha⟩ := hc.dvd_data
  have hdiv : ∀ f ∈ want, f < c.k ↔ y < a := by
    intro f hf
    rw [← hy f hf, Nat.div_lt_iff_lt_mul hq, Nat.mul_comm, ← ha, shortNode]
    split <;> omega
  by_cases hya : y < a
  · exact Or.inl fun f hf => (hdiv f hf).2 hya
  · exact Or.inr fun f hf => Nat.le_of_not_lt fun h => hya ((hdiv f hf).1 h)

/-- **When all other nodes are picked.** -/
theorem AllHelpers.helpers_iff (hcol : ∃ y, ∀ i ∈ want, c.shortNode i / c.q = y) :
    (∀ r < c.n, r ∉ want → r ∈ c.minimumToRepair want (c.availNodes want)) ↔
      ¬ (0 < c.nu ∧ (∀ f ∈ want, c.k ≤ f) ∧ ∃ r, c.k ≤ r ∧ r ∉ want ∧ ∃ f ∈ want, r < f) := by
  constructor
  · rintro h ⟨hnu, hpar, hbefore⟩
    obtain ⟨r, hr, -, hin, hnot⟩ :=
      hc.exists_not_mem_minimum hseveral hlt hnu hpar hbefore
    exact hnot (h r hr hin)
  · intro hno r hr hin
    by_cases hlow : place want r < c.k
    · rw [hc.mem_minimum_several hseveral hlt]
      exact ⟨r, by omega, hin, Or.inl ⟨hlow, rfl⟩⟩
    · have hkr := place_le want r
      refine hc.mem_minimum_of hseveral hlt hr hin fun f hf h =>
        hno ⟨by omega, ?_, r, by omega, hin, f, hf, h.1⟩
      rcases hc.column_data_or_parities hcol with hdata | hpar
      · have hfk := hdata f hf
        omega
      · exact hpar

end

/-! ## The contract -/

/-- What a repair may read: the packets of the blocks that are there and, from block `n` on, of
the virtual nodes. -/
def Available (c : Clay) (failed : Finset Nat) (v : Nat) : Prop :=
  v < (c.n + c.nu) * c.w ∧ v / c.w ∉ failed

/-- What `Encode` starts from: the data, and zeros in the virtual nodes. -/
def source {M : Type} [Zero M] (c : Clay) (data : Nat → M) (v : Nat) : M :=
  if v < c.k * c.w then data v else 0

/-- The codeword of `Encode`. -/
def codeword {M : Type} [AddCommMonoid M] [Module GF256 M] (c : Clay) (invert : InvertMatrix8)
    (data : Nat → M) : Nat → M :=
  (c.encode invert).eval (c.source data)

/-- `Decode` reads no packet before it is defined, and it restores the failed blocks of every
codeword. -/
def RestoresAll (c : Clay) (invert : InvertMatrix8) (failed : Finset Nat) : Prop :=
  ∃ js, c.decodeJoins invert (packets c.w (losses c.n failed)) = some js ∧
    JoinsOrdered (c.Available failed) js ∧
    ∀ src, ∃ d, c.decode invert src (packets c.w (losses c.n failed)) = some d ∧
      ∀ (M : Type) [AddCommMonoid M] [Module GF256 M] (data : Nat → M),
        d.Restores (c.Available failed) (packets c.w (losses c.n failed))
          (c.codeword invert data)

/-- The nodes whose rows are left out when `Decode` inverts: those of the column and the aloof
ones, or all that are not among the first `k` available nodes. -/
def leftOut (c : Clay) (want : List Nat) : List Nat :=
  let avail := c.availNodes want
  let nodes := List.range (c.k + c.m)
  if c.isRepair want avail then
    c.repairErasures ((nodes.filter (· ∈ want)).map c.shortNode)
      ((nodes.filter fun i => i ∉ c.minimumToRepair want avail ∧ i ∉ want).map c.shortNode)
  else (nodes.filter (· ∉ c.rsMinimumToDecode want avail)).map c.shortNode

section
variable {c : Clay} (hc : c.AllHelpers)
include hc

/-- A coupled packet, by its id. -/
theorem AllHelpers.exists_coupledId {v : Nat} (hv : v < (c.n + c.nu) * c.w) :
    ∃ i < c.n + c.nu, ∃ z < c.w, v = c.coupledId i z ∧ c.realNode i = v / c.w := by
  have hq := hc.q_pos
  have hz := Nat.mod_lt v (w_pos hq)
  obtain ⟨i, hi, hreal⟩ := exists_realNode hc.k_le
    (Nat.div_lt_of_lt_mul (Nat.mul_comm _ c.w ▸ hv) : v / c.w < c.n + c.nu)
  refine ⟨i, hi, v % c.w, hz, ?_, hreal⟩
  rw [coupledId_eq hq hc.k_le hi hz, hreal, Nat.div_add_mod']

theorem AllHelpers.coupledId_div {i z : Nat} (hi : i < c.n + c.nu) (hz : z < c.w) :
    c.coupledId i z / c.w = c.realNode i := by
  rw [coupledId_eq hc.q_pos hc.k_le hi hz, packet_div hc.q_pos _ hz]

/-- **What `Encode` gives** is a codeword with these data. -/
theorem AllHelpers.codeword_eq {M : Type} [AddCommMonoid M] [Module GF256 M]
    {invert : InvertMatrix8} (hinv : Inverts8 invert) (data : Nat → M) :
    ∃ T, c.Codeword T ∧ (∀ v < (c.n + c.nu) * c.w, c.codeword invert data v = T v) ∧
      ∀ i < c.k + c.nu, ∀ z < c.w, T (c.coupledId i z) = c.source data (c.coupledId i z) := by
  obtain ⟨T, hT, hdata⟩ := hc.exists_codeword hinv (c.source data)
  refine ⟨T, hT, fun v hv => ?_, hdata⟩
  obtain ⟨i, hi, z, hz, rfl, -⟩ := hc.exists_coupledId hv
  exact hc.encode_eval hinv hT (fun i hi z hz => (hdata i hi z hz).symm) i hi z hz

variable {failed : Finset Nat} (hsub : failed ⊆ Finset.range c.n)
include hsub

/-- What is there when the lost nodes are among the erased ones. -/
theorem AllHelpers.available_of_present {erased : List Nat}
    (herased : ∀ f ∈ failed, c.shortNode f ∈ erased) {v : Nat} (hv : c.Present erased v) :
    c.Available failed v := by
  obtain ⟨i, hi, hin, z, hz, rfl⟩ := hv
  refine ⟨coupledId_lt hc.q_pos hc.k_le hi hz, ?_⟩
  rw [hc.coupledId_div hi hz]
  intro hf
  have hreal := Finset.mem_range.1 (hsub hf)
  exact hin (shortNode_realNode hc.k_le hi hreal ▸ herased _ hf)

/-- **What is enough**: the `Join`s read what is there, define the lost packets and are true of
every codeword. -/
theorem AllHelpers.restoresAll_of {invert : InvertMatrix8} (hinv : Inverts8 invert)
    {erased : List Nat} {js : List Join}
    (hjs : c.decodeJoins invert (packets c.w (losses c.n failed)) = some js)
    (herased : ∀ f ∈ failed, c.shortNode f ∈ erased)
    (hord : JoinsOrdered (c.Present erased) js)
    (hlost : ∀ f ∈ failed, ∀ z < c.w, c.coupledId (c.shortNode f) z ∈ js.map Join.pidx)
    (htrue : ∀ {M : Type} [AddCommMonoid M] [Module GF256 M] {T : Nat → M}, c.Codeword T →
      ∀ j ∈ js, TrueOf T j) : c.RestoresAll invert failed := by
  have hq := hc.q_pos
  have hw := w_pos hq
  have hord' := hord.mono fun v hv => hc.available_of_present hsub herased hv
  have hmem : ∀ v ∈ packets c.w (losses c.n failed), v / c.w ∈ failed := fun v hv =>
    (mem_losses.1 ((mem_packets hw).1 hv)).2
  refine ⟨js, hjs, hord', fun src => ⟨.build js, by rw [decode, hjs]; rfl, fun M _ _ data => ?_⟩⟩
  obtain ⟨T, hT, hcodeword, -⟩ := hc.codeword_eq hinv data
  have hsound : JoinsSound (c.Available failed) T js :=
    ⟨hord', fun j hj => (htrue hT j hj).1, fun j hj => (htrue hT j hj).2⟩
  refine (hsound.restores (fun v hv => ?_) fun v hv ha => ha.2 (hmem v hv)).congr fun v hv => ?_
  · have hf := hmem v hv
    have hfn := Finset.mem_range.1 (hsub hf)
    have hz := Nat.mod_lt v hw
    have hpacket := hlost _ hf (v % c.w) hz
    rwa [hc.coupledId_shortNode hfn hz, Nat.div_add_mod'] at hpacket
  · refine (hcodeword v ?_).symm
    rcases hv with hv | hv
    · exact hv.1
    · have hfn := Finset.mem_range.1 (hsub (hmem v hv))
      exact Nat.lt_of_lt_of_le ((Nat.div_lt_iff_lt_mul hw).1 hfn)
        (Nat.mul_le_mul_right _ (Nat.le_add_right _ _))

/-! ### What is restored -/

section
variable {invert : InvertMatrix8} (hinv : Inverts8 invert) (hne : 1 ≤ failed.card)
  (hunit : IsUnit (c.mdsSelected (c.leftOut (losses c.n failed))))
include hinv hne hunit

omit hc hinv hunit in
theorem losses_ne_nil : losses c.n failed ≠ [] := by
  intro hnil
  have hlen := length_losses hsub
  rw [hnil, List.length_nil] at hlen
  omega

/-- **From parts of all other nodes.** -/
theorem AllHelpers.restoresAll_column
    (hr : c.isRepair (losses c.n failed) (c.availNodes (losses c.n failed)) = true) {y : Nat}
    (hy : ∀ i ∈ losses c.n failed, c.shortNode i / c.q = y)
    (hall : ∀ r < c.n, r ∉ losses c.n failed →
      r ∈ c.minimumToRepair (losses c.n failed) (c.availNodes (losses c.n failed))) :
    c.RestoresAll invert failed := by
  have hq := hc.q_pos
  have hkn := hc.k_le
  have hF := oneColumn_lostNodes (c := c) (losses_ne_nil hsub hne)
    (fun i hi => (mem_losses.1 hi).1) hy
  have haloof : ((List.range c.n).filter fun i =>
      i ∉ c.minimumToRepair (losses c.n failed) (c.availNodes (losses c.n failed)) ∧
        i ∉ losses c.n failed) = [] := by
    rw [List.filter_eq_nil_iff]
    intro i hi
    rw [decide_eq_true_eq]
    exact fun h => h.1 (hall i (List.mem_range.1 hi) h.2)
  have hleft : c.leftOut (losses c.n failed) = c.column y := by
    unfold leftOut
    rw [if_pos hr, hc.k_add_m, haloof, List.map_nil, repairErasures_eq]
    exact congrArg c.column hF.lostChunk_div
  rw [hleft] at hunit
  have hhelper : ∀ i < c.n + c.nu, i ∈ c.otherNodes (losses c.n failed) ↔
      i ∉ c.lostNodes (losses c.n failed) := fun i hi => mem_otherNodes hkn hi
  have hlost : ∀ f ∈ failed, c.shortNode f ∈ c.lostNodes (losses c.n failed) := by
    intro f hf
    have hfn := Finset.mem_range.1 (hsub hf)
    exact (mem_lostNodes hfn).2 (mem_losses.2 ⟨hfn, hf⟩)
  refine hc.restoresAll_of hsub hinv ?_ hlost
    (hF.joinsOrdered_planes hq hkn hc.m_eq hhelper (pairwise_lostNodes c _) invert)
    (fun f hf z hz => hF.mem_targets hq hkn hhelper invert (hlost f hf) hz)
    fun {M _ _ T} hT j hj => ?_
  · unfold decodeJoins
    rw [wantToRead_packets hq, if_pos hr]
    exact repairJoins_eq hc.k_le hq invert hF hall
  · obtain ⟨z, hz, hj⟩ := List.mem_flatMap.1 hj
    exact hT.planeJoins hinv hq hkn (hF.y_lt hq hkn) hc.m_eq hc.mdsK_pos hunit
      ((hF.mem_lostPlanes hq hkn).1 hz).1 hj

/-- **From whole nodes.** -/
theorem AllHelpers.restoresAll_layered (hcard : failed.card ≤ c.n - c.k)
    (hr : ¬ c.isRepair (losses c.n failed) (c.availNodes (losses c.n failed)) = true) :
    c.RestoresAll invert failed := by
  have hq := hc.q_pos
  have hkn := hc.k_le
  have hnodup : (losses c.n failed).Nodup := List.nodup_range.filter _
  have hlt : ∀ i ∈ losses c.n failed, i < c.n := fun i hi => (mem_losses.1 hi).1
  have hlen : (losses c.n failed).length ≤ c.n - c.k := by rwa [length_losses hsub]
  have hnil := losses_ne_nil hsub hne
  have hm := length_unusedNodes hkn hnodup hlt hlen
  have hun := nodup_unusedNodes c (losses c.n failed)
  have hul := unusedNodes_lt c (losses c.n failed)
  have hleft : c.leftOut (losses c.n failed) = c.unusedNodes (losses c.n failed) := by
    have hnot : ¬ losses c.n failed ⊆ c.availNodes (losses c.n failed) := by
      intro h
      obtain ⟨f, hf⟩ := List.exists_mem_of_ne_nil _ hnil
      have hm := h hf
      rw [availNodes_eq hc.k_le, List.mem_filter, decide_eq_true_eq] at hm
      exact hm.2 hf
    unfold leftOut
    rw [if_neg hr, hc.k_add_m, rsMinimumToDecode, if_neg hnot]
    rfl
  rw [hleft] at hunit
  have hmem : ∀ f ∈ failed, c.shortNode f ∈ c.unusedNodes (losses c.n failed) := fun f hf =>
    mem_unusedNodes hkn hlt (mem_losses.2 ⟨Finset.mem_range.1 (hsub hf), hf⟩)
  exact hc.restoresAll_of hsub hinv (decodeJoins_layered hkn hnodup hlt hlen hq invert hnil hr) hmem
    (ordered_decodeLayered hq hkn invert hun hm hul)
    (fun f hf z hz => pidx_decodeLayered hq hkn invert hun hm hul (hmem f hf) hz)
    fun hT j hj => hT.layered hinv hq hkn hun hm hul hunit hc.mdsK_pos hj

end

end

/-! ### What is not -/

section
variable {c : Clay} (hq : 0 < c.q) (hkn : c.k ≤ c.n) {invert : InvertMatrix8}
  {recovered aloof helper : List Nat} {z : Nat} (hz : z < c.w) {j : Join}
include hq hkn hz

theorem pidx_helperUncoupled (hj : j ∈ c.helperUncoupled invert recovered aloof z) :
    ∃ i < c.n + c.nu, ¬ c.Named i z ∧ j.pidx = c.uncoupledId i z := by
  obtain ⟨i, hi, hn, a, b, coef, rfl | rfl⟩ := of_mem_helperUncoupled hq hkn hj
  · exact ⟨i, hi, hn, (real_idxsUpper hq hkn hi hz hn).2.2.1⟩
  · exact ⟨i, hi, hn, (real_idxsLower hq hkn hi hz hn).2.2.2⟩

/-- The coupled packets that are joined are of a node of the column that is not aloof, or of its
partner. -/
theorem pidx_recoverCoupled (hlt : ∀ i ∈ c.repairErasures recovered aloof, i < c.n + c.nu)
    (hj : j ∈ c.recoverCoupled invert recovered aloof helper z) :
    ∃ i < c.n + c.nu, i ∉ aloof ∧ (j.pidx = c.coupledId i z ∨
      j.pidx = c.coupledId (c.mate i z) (c.matePlane i z)) := by
  obtain ⟨i, hi, hin, hn, a, b, coef, hj⟩ := of_mem_recoverCoupled hj
  have hi := hlt i hi
  refine ⟨i, hi, hin, ?_⟩
  rcases hj with rfl | rfl | rfl
  · exact Or.inr (real_idxsUpper hq hkn hi hz hn).2.1
  · exact Or.inr (real_idxsLower hq hkn hi hz hn).1
  · exact Or.inl (real_idxsLower hq hkn hi hz hn).2.1

end

/-- **A packet of a plane that is not used** is restored with its partner only, and not when the
partner is aloof. -/
theorem pidx_repairOneLostChunk {c : Clay} (hq : 0 < c.q) (hkn : c.k ≤ c.n)
    {invert : InvertMatrix8} {recovered aloof helper : List Nat}
    (hrec : ∀ i ∈ recovered, i < c.n + c.nu) (haloof : ∀ i ∈ aloof, i < c.n + c.nu)
    {js : List Join} (hjs : c.repairOneLostChunk invert recovered aloof helper
      (recovered.flatMap c.getRepairSubchunks) = some js) {f z : Nat} (hf : f < c.n + c.nu)
    (hz : z < c.w) (hmem : c.coupledId f z ∈ js.map Join.pidx) :
    z ∈ c.lostPlanes recovered ∨ c.mate f z ∉ aloof := by
  unfold repairOneLostChunk at hjs
  split at hjs
  · obtain rfl := Option.some.inj hjs
    obtain ⟨j, hj, hp⟩ := List.mem_map.1 hmem
    obtain ⟨s, -, hj⟩ := List.mem_flatMap.1 hj
    obtain ⟨z', hz', hj⟩ := List.mem_flatMap.1 hj
    have hplane : z' ∈ c.lostPlanes recovered := List.mem_of_mem_filter hz'
    obtain ⟨g, hg, hg'⟩ := List.mem_flatMap.1 (lostPlanes_eq c recovered ▸ hplane)
    have hzw := ((mem_repairPlanes hq hkn (hrec g hg)).1 hg').1
    have hlt := fun i => repairErasures_lt (i := i) hq hkn (List.ne_nil_of_mem hg) hrec haloof
    rcases List.mem_append.1 hj with hj | hj
    · rcases List.mem_append.1 hj with hj | hj
      · obtain ⟨i, hi, hn, he⟩ := pidx_helperUncoupled hq hkn hzw hj
        exact absurd (uncoupledId_eq_coupledId hq hkn hi hf hzw hz (he.symm.trans hp)).1 hn
      · rw [decodeUncoupled_eq] at hj
        obtain ⟨i, hi, rfl⟩ := List.mem_map.1 hj
        obtain ⟨-, -, rfl⟩ := uncoupledId_eq_coupledId hq hkn (hlt i hi) hf hzw hz hp
        exact Or.inl hplane
    · obtain ⟨i, hi, hin, he | he⟩ := pidx_recoverCoupled hq hkn hzw hlt hj
      · obtain ⟨-, rfl⟩ := coupledId_inj hq hkn hi hf hzw hz (he.symm.trans hp)
        exact Or.inl hplane
      · obtain ⟨rfl, rfl⟩ := coupledId_inj hq hkn (mate_lt hq hkn hi) hf
          (matePlane_lt hq hkn hi hzw) hz (he.symm.trans hp)
        rw [(mate_mate hq hkn hi).1]
        exact Or.inr hin
  · cases hjs

/-! ## When `Decode` undoes `Encode` -/

/-- Parities of a shortened code are lost, at least two, and a parity before one of them is
there. -/
def ParityBeforeLost (c : Clay) (failed : Finset Nat) : Prop :=
  0 < c.nu ∧ 2 ≤ failed.card ∧ (∀ f ∈ failed, c.k ≤ f) ∧
    ∃ r, c.k ≤ r ∧ r ∉ failed ∧ ∃ f ∈ failed, r < f

section
variable {c : Clay} (hc : c.AllHelpers) {failed : Finset Nat}
  (hsub : failed ⊆ Finset.range c.n)
include hc hsub

/-- All packets of the failed blocks have to be joined. -/
theorem AllHelpers.joins_of_restoresAll {invert : InvertMatrix8} (h : c.RestoresAll invert failed) :
    ∃ js, c.decodeJoins invert (packets c.w (losses c.n failed)) = some js ∧
      ∀ f ∈ failed, ∀ z < c.w, c.coupledId (c.shortNode f) z ∈ js.map Join.pidx := by
  obtain ⟨js, hjs, hord, hdecode⟩ := h
  refine ⟨js, hjs, fun f hf z hz => ?_⟩
  obtain ⟨d, hd, hrestores⟩ := hdecode []
  rw [decode, hjs] at hd
  obtain rfl := Option.some.inj hd
  have hfn := Finset.mem_range.1 (hsub hf)
  have hdiv := hc.coupledId_div (shortNode_lt hfn) hz
  rw [realNode_shortNode] at hdiv
  generalize c.coupledId (c.shortNode f) z = v at hdiv
  have hlost : v ∈ packets c.w (losses c.n failed) :=
    (mem_packets (w_pos hc.q_pos)).2 (by rw [hdiv]; exact mem_losses.2 ⟨hfn, hf⟩)
  have hmem := ((hrestores GF256 fun _ => 0).defined v hlost).1
  obtain ⟨j, hj, he | hin⟩ := (ECDAG.mem_nodeIds_build _ _).1 hmem
  · exact List.mem_map.2 ⟨j, hj, he.symm⟩
  · exact (hord.srcs_mem j hj _ hin).resolve_left fun ha => ha.2 (by rwa [hdiv])

omit hsub in
/-- The parities are in one column. -/
theorem AllHelpers.parity_column {i : Nat} (hki : c.k ≤ i) (hi : i < c.n) :
    c.shortNode i / c.q = (c.k + c.nu) / c.q := by
  have hq := hc.q_pos
  have hqn := hc.q_eq
  obtain ⟨a, ha⟩ := hc.dvd_data
  have hshort : c.shortNode i = i - c.k + c.q * a := by
    rw [shortNode, if_neg (by omega)]
    omega
  rw [hshort, ha, Nat.add_mul_div_left _ _ hq, Nat.div_eq_of_lt (by omega),
    Nat.mul_div_cancel_left _ hq, Nat.zero_add]

/-- Lost parities are repaired from parts when one is there. -/
theorem AllHelpers.isRepair_parityBeforeLost (hbad : c.ParityBeforeLost failed) :
    c.isRepair (losses c.n failed) (c.availNodes (losses c.n failed)) = true := by
  obtain ⟨-, htwo, hpar, r, hkr, hr, f, hf, hrf⟩ := hbad
  have hqn := hc.q_eq
  have hlen := length_losses hsub
  have hfew : failed.card ≤ c.q - 1 := by
    have hrest : failed ⊆ (Finset.Ico c.k c.n).erase r := fun i hi =>
      Finset.mem_erase.2 ⟨fun he => hr (he ▸ hi),
        Finset.mem_Ico.2 ⟨hpar i hi, Finset.mem_range.1 (hsub hi)⟩⟩
    have hfn := Finset.mem_range.1 (hsub hf)
    have hle := Finset.card_le_card hrest
    rwa [Finset.card_erase_of_mem (Finset.mem_Ico.2 ⟨hkr, by omega⟩), Nat.card_Ico, ← hqn] at hle
  have hseveral : 2 ≤ (losses c.n failed).length := by omega
  rw [hc.isRepair_several hseveral]
  refine ⟨by omega, (c.k + c.nu) / c.q, fun i hi => ?_⟩
  obtain ⟨hi, hif⟩ := mem_losses.1 hi
  exact hc.parity_column (hpar i hif) hi

/-- **Some packets are not restored** when a parity before a lost one is there. -/
theorem AllHelpers.not_restoresAll (hbad : c.ParityBeforeLost failed) (invert : InvertMatrix8) :
    ¬ c.RestoresAll invert failed := by
  intro hrestores
  obtain ⟨js, hjs, hall⟩ := hc.joins_of_restoresAll hsub hrestores
  have hq := hc.q_pos
  have hkn := hc.k_le
  have hrepair := hc.isRepair_parityBeforeLost hsub hbad
  obtain ⟨hnu, htwo, hpar, r₀, hkr₀, hr₀, f, hf, hrf⟩ := hbad
  have hlen := length_losses hsub
  have hseveral : 2 ≤ (losses c.n failed).length := by omega
  have hfn := Finset.mem_range.1 (hsub hf)
  have hlost : ∀ i ∈ losses c.n failed, i < c.n := fun i hi => (mem_losses.1 hi).1
  obtain ⟨r, hr, hkr, hrin, hnot⟩ := hc.exists_not_mem_minimum hseveral hlost hnu
    (fun i hi => hpar i (mem_losses.1 hi).2)
    ⟨r₀, hkr₀, fun h => hr₀ (mem_losses.1 h).2, f, mem_losses.2 ⟨hfn, hf⟩, hrf⟩
  have hF := oneColumn_lostNodes (c := c) (losses_ne_nil hsub (by omega)) hlost fun i hi =>
    hc.parity_column (hpar i (mem_losses.1 hi).2) (mem_losses.1 hi).1
  -- the packet of `f` in a plane that names `r`
  have hy := hF.y_lt hq hkn
  have hx := Nat.mod_lt (c.shortNode r) hq
  have hz : c.zSw (c.shortNode r % c.q) ((c.k + c.nu) / c.q) 0 < c.w := zSw_lt hy hx (w_pos hq)
  have hdigit := zVec_zSw_self hy hx 0
  have hnode := node_eq (c := c) (c.shortNode r)
  rw [hc.parity_column hkr hr] at hnode
  generalize c.zSw (c.shortNode r % c.q) ((c.k + c.nu) / c.q) 0 = z at hz hdigit
  have hplane : z ∉ c.lostPlanes (c.lostNodes (losses c.n failed)) := by
    rw [hF.mem_lostPlanes hq hkn, hdigit, hnode, mem_lostNodes hr]
    exact fun h => hrin h.2
  have hmate : c.mate (c.shortNode f) z = c.shortNode r := by
    rw [mate, hc.parity_column (hpar f hf) hfn, hdigit, hnode]
  unfold decodeJoins at hjs
  rw [wantToRead_packets hq, if_pos hrepair] at hjs
  unfold repairJoins at hjs
  rw [hc.k_add_m] at hjs
  dsimp only at hjs
  split at hjs
  · have hshort : ∀ {P : Nat → Bool}, ∀ i ∈ ((List.range c.n).filter P).map c.shortNode,
        i < c.n + c.nu := fun i hi => shortNodes_lt hkn (hc.k_add_m ▸ hi)
    rcases pidx_repairOneLostChunk hq hkn hshort hshort hjs (shortNode_lt hfn) hz
      (hall f hf z hz) with hm | hm
    · exact hplane hm
    · rw [hmate, mem_map_shortNode, List.mem_filter, List.mem_range, decide_eq_true_eq] at hm
      exact hm ⟨hr, hnot, hrin⟩
  · cases hjs

/-- Otherwise a repair from parts reads all other nodes. -/
theorem AllHelpers.column_helpers (hgood : ¬ c.ParityBeforeLost failed) (hne : 1 ≤ failed.card)
    (hr : c.isRepair (losses c.n failed) (c.availNodes (losses c.n failed)) = true) :
    ∃ y, (∀ i ∈ losses c.n failed, c.shortNode i / c.q = y) ∧
      ∀ r < c.n, r ∉ losses c.n failed →
        r ∈ c.minimumToRepair (losses c.n failed) (c.availNodes (losses c.n failed)) := by
  rcases Nat.eq_or_lt_of_le hne with hone | htwo
  · obtain ⟨f, rfl⟩ := Finset.card_eq_one.1 hone.symm
    have hf := Finset.mem_range.1 (hsub (Finset.mem_singleton_self f))
    rw [losses_singleton hf]
    refine ⟨c.shortNode f / c.q, fun i hi => ?_, fun r hrn hin => ?_⟩
    · rw [List.mem_singleton.1 hi]
    · rw [hc.mem_minimumToRepair hf]
      exact ⟨hrn, fun he => hin (List.mem_singleton.2 he)⟩
  · have hlen := length_losses hsub
    have hseveral : 2 ≤ (losses c.n failed).length := by omega
    have hlost : ∀ i ∈ losses c.n failed, i < c.n := fun i hi => (mem_losses.1 hi).1
    obtain ⟨y, hy⟩ := ((hc.isRepair_several hseveral _).1 hr).2
    refine ⟨y, hy, (hc.helpers_iff hseveral hlost ⟨y, hy⟩).2 ?_⟩
    rintro ⟨hnu, hpar, r, hkr, hin, f, hf, hrf⟩
    have hfn := hlost f hf
    refine hgood ⟨hnu, htwo, fun g hg => hpar g (mem_losses.2 ⟨?_, hg⟩), r, hkr,
      fun h => hin (mem_losses.2 ⟨by omega, h⟩), f, (mem_losses.1 hf).2, hrf⟩
    exact Finset.mem_range.1 (hsub hg)

/-- **When `Decode` undoes `Encode`**, if the rows that it inverts are independent. -/
theorem restoresAll_iff (hne : 1 ≤ failed.card) (hcard : failed.card ≤ c.n - c.k)
    {invert : InvertMatrix8} (hinv : Inverts8 invert)
    (hunit : IsUnit (c.mdsSelected (c.leftOut (losses c.n failed)))) :
    c.RestoresAll invert failed ↔ ¬ c.ParityBeforeLost failed := by
  constructor
  · exact fun h hbad => hc.not_restoresAll hsub hbad invert h
  · intro hgood
    by_cases hr : c.isRepair (losses c.n failed) (c.availNodes (losses c.n failed)) = true
    · obtain ⟨y, hy, hall⟩ := hc.column_helpers hsub hgood hne hr
      exact hc.restoresAll_column hsub hinv hne hunit hr hy hall
    · exact hc.restoresAll_layered hsub hinv hne hunit hcard hr

end

/-- Two of three parities, the last two of which are repaired without the first one. -/
theorem restoresAll_parities :
    (⟨5, 2, 4⟩ : Clay).RestoresAll (fun _ A => A⁻¹) {2, 3} ∧
      ¬ (⟨5, 2, 4⟩ : Clay).RestoresAll (fun _ A => A⁻¹) {3, 4} := by
  have hc : (⟨5, 2, 4⟩ : Clay).AllHelpers := ⟨by decide, by decide, rfl⟩
  have hunit : ∀ failed, (⟨5, 2, 4⟩ : Clay).selectLines
      ((⟨5, 2, 4⟩ : Clay).leftOut (losses 5 failed)) = List.range (⟨5, 2, 4⟩ : Clay).mdsK →
      IsUnit ((⟨5, 2, 4⟩ : Clay).mdsSelected
        ((⟨5, 2, 4⟩ : Clay).leftOut (losses 5 failed))) := fun failed h =>
    (mdsSelected_data h).symm ▸ isUnit_one
  constructor
  · refine (restoresAll_iff hc (by decide) (by decide) (by decide) inverts8_inv
      (hunit _ (by decide))).2 ?_
    rintro ⟨-, -, -, r, hkr, hr, f, hf, hrf⟩
    have hr2 : 2 ≤ r := hkr
    have hf3 : f ≤ 3 := by
      rcases Finset.mem_insert.1 hf with rfl | hf
      · decide
      · exact (Finset.mem_singleton.1 hf).le
    obtain rfl : r = 2 := by omega
    exact hr (by decide)
  · rw [restoresAll_iff hc (by decide) (by decide) (by decide) inverts8_inv (hunit _ (by decide)),
      not_not]
    exact ⟨by decide, by decide, by decide, 2, by decide, by decide, 3, by decide, by decide⟩

/-- The last two of three parities are not restored. -/
theorem lastParities_not_restored : ¬ ∀ (c : Clay) (failed : Finset Nat) (invert : InvertMatrix8),
    c.AllHelpers → failed ⊆ Finset.range c.n → 1 ≤ failed.card → failed.card ≤ c.n - c.k →
    Inverts8 invert → IsUnit (c.mdsSelected (c.leftOut (losses c.n failed))) →
    c.RestoresAll invert failed := by
  intro h
  have hc : (⟨5, 2, 4⟩ : Clay).AllHelpers := ⟨by decide, by decide, rfl⟩
  have hlines : (⟨5, 2, 4⟩ : Clay).selectLines
      ((⟨5, 2, 4⟩ : Clay).leftOut (losses 5 {3, 4})) = List.range (⟨5, 2, 4⟩ : Clay).mdsK := by
    decide
  have hrestores := h ⟨5, 2, 4⟩ {3, 4} (fun _ A => A⁻¹) hc (by decide) (by decide) (by decide)
    inverts8_inv ((mdsSelected_data hlines).symm ▸ isUnit_one)
  refine hc.not_restoresAll (by decide) ?_ _ hrestores
  exact ⟨by decide, by decide, by decide, 2, by decide, by decide, 3, by decide, by decide⟩

end Clay

end StripeRepair

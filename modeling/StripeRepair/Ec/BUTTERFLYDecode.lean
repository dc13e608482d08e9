import StripeRepair.Ec.BUTTERFLYEncode
import StripeRepair.Ec.Eval

/-!
# `BUTTERFLY`: Decode undoes Encode

The rows of the butterfly that a situation reads give one lost packet each.

* `rebuilt_of_selects`: situations 1 and 2 rebuild a data node.
* `rebuilt_top`: situation 3 rebuilds the horizontal parity.
* `decode_iff_ne_last`: one failed node is restored when it is not the butterfly parity.
-/

namespace StripeRepair

namespace BUTTERFLY

open Butterfly (mir rowsOf skip nth flip Selects)

/-! ## The packets that are read -/

theorem flatMap_filter_range (n : Nat) (p : Nat → Bool) (f : Nat → List Nat) :
    ((List.range n).filter p).flatMap f =
      (List.range n).flatMap fun i => if p i then f i else [] := by
  induction List.range n with
  | nil => rfl
  | cons a l ih =>
    by_cases ha : p a
    · rw [List.filter_cons_of_pos ha, List.flatMap_cons, List.flatMap_cons, ih, if_pos ha]
    · rw [List.filter_cons_of_neg ha, List.flatMap_cons, ih, if_neg ha, List.nil_append]

/-- The packets of `dataOf` in the order of their ids. -/
theorem dataOf_eq (n r : Nat) {w : Nat} (hw : 0 < w) (P : Nat → Nat → Bool) :
    dataOf n w r (fun i => (List.range w).filter (P i)) =
      (List.range (n * w)).filter fun j => j / w ≠ r ∧ P (j / w) (j % w) := by
  unfold dataOf
  rw [← packets_range, packets, List.filter_flatMap, flatMap_filter_range]
  refine List.flatMap_congr fun i _ => ?_
  rw [List.filter_map]
  have hdiv : ∀ o < w, (i * w + o) / w = i ∧ (i * w + o) % w = o := by
    intro o ho
    rw [Nat.mul_comm, Nat.mul_add_div hw, Nat.div_eq_of_lt ho, Nat.mul_add_mod,
      Nat.mod_eq_of_lt ho]
    exact ⟨rfl, rfl⟩
  by_cases hi : i = r
  · rw [if_neg (by simpa using hi), List.filter_eq_nil_iff.2 fun o ho => ?_, List.map_nil]
    rw [Function.comp_apply, (hdiv o (List.mem_range.1 ho)).1]
    simp [hi]
  · rw [if_pos (by simpa using hi)]
    refine congrArg _ (List.filter_congr fun o ho => ?_)
    obtain ⟨h1, h2⟩ := hdiv o (List.mem_range.1 ho)
    rw [Function.comp_apply, h1, h2]
    simp [hi]

theorem zip_filter_indicator (l data : List Nat) :
    (data.zip (data.map fun j => if j ∈ l then (1 : Int) else 0)).filter (fun e => e.2 ≠ 0) =
      (data.filter (· ∈ l)).map fun v => (v, 1) := by
  induction data with
  | nil => rfl
  | cons a data ih =>
    rw [List.map_cons, List.zip_cons_cons]
    by_cases ha : a ∈ l
    · rw [List.filter_cons_of_pos (by simp [ha]), List.filter_cons_of_pos (by simpa using ha), ih,
        List.map_cons, if_pos ha]
    · rw [List.filter_cons_of_neg (by simp [ha]), List.filter_cons_of_neg (by simpa using ha), ih]

/-- **The loop over `to`**: each lost packet is the sum of the packets of its row. -/
theorem joinRows_eq {n w r : Nat} {reads : Nat → Bool} {data : List Nat}
    (hdata : data = (List.range (n * w)).filter reads) (hlen : data.length = (n - 1) * w / 2)
    (rows : Nat → List Nat) :
    joinRows n w (packets w [r]) data (parityDec n w ((List.range w).map rows) reads) =
      (List.range w).map fun i => ⟨r * w + i, data.filter (· ∈ rows i),
        (data.filter (· ∈ rows i)).map fun _ => 1⟩ := by
  have hdst : packets w [r] = (List.range w).map fun i => r * w + i := by simp [packets]
  have hzip : (packets w [r]).zipIdx = (List.range w).map fun i => (r * w + i, i) := by
    rw [hdst]
    refine List.ext_getElem (by simp) fun i h1 h2 => ?_
    simp
  unfold joinRows
  rw [hzip, List.map_map]
  refine List.map_congr_left fun i hi => ?_
  rw [List.mem_range] at hi
  have hcoef : ((List.range ((n - 1) * w / 2)).map fun j =>
      ((parityDec n w ((List.range w).map rows) reads).getD i []).getD j 0) =
      data.map fun j => if j ∈ rows i then 1 else 0 := by
    have hrow : (parityDec n w ((List.range w).map rows) reads).getD i [] =
        data.map fun j => if j ∈ rows i then 1 else 0 := by
      rw [parityDec, getD_map_range _ _ hi, getD_map_range _ _ hi, Nat.mul_comm w n, ← hdata]
    rw [hrow, ← hlen]
    refine List.ext_getElem (by simp) fun j h1 h2 => ?_
    rw [List.getElem_map, List.getElem_range, List.getD_eq_getElem _ _ h2]
  rw [Function.comp_apply, hcoef, joinRow, zip_filter_indicator]
  simp only [List.map_map]
  congr 1
  exact List.map_id _

/-! ## Rebuilding -/

/-- What the lost packets of node `r` are made of, when `data` is read. -/
structure Rebuilt (m r : Nat) (data : List Nat) (rows : Nat → List Nat) : Prop where
  nodup : ∀ i < 2 ^ (m + 1), (rows i).Nodup
  sub : ∀ i < 2 ^ (m + 1), ∀ v ∈ rows i, v ∈ data
  ne_nil : ∀ i < 2 ^ (m + 1), rows i ≠ []
  value : ∀ T, Codeword m T → ∀ i < 2 ^ (m + 1), total T (rows i) = T (packet m r i)
  used : ∀ v ∈ data, ∃ i < 2 ^ (m + 1), v ∈ rows i

/-- The `Join`s of the loop over `to`. -/
def rebuiltJoins (m r : Nat) (data : List Nat) (rows : Nat → List Nat) : List Join :=
  (List.range (2 ^ (m + 1))).map fun i => ⟨r * 2 ^ (m + 1) + i, data.filter (· ∈ rows i),
    (data.filter (· ∈ rows i)).map fun _ => 1⟩

section
variable {m r : Nat} {data : List Nat} {rows : Nat → List Nat}

theorem mem_rebuiltJoins {j : Join} : j ∈ rebuiltJoins m r data rows ↔ ∃ i < 2 ^ (m + 1),
    (⟨packet m r i, data.filter (· ∈ rows i), (data.filter (· ∈ rows i)).map fun _ => 1⟩ : Join) =
      j := by
  simp only [rebuiltJoins, List.mem_map, List.mem_range]
  exact Iff.rfl

theorem mem_survivors_packets {n v : Nat} : v ∈ packets (2 ^ (m + 1)) (survivors n {r}) ↔
    v / 2 ^ (m + 1) < n ∧ v / 2 ^ (m + 1) ≠ r := by
  rw [mem_packets (Nat.two_pow_pos _), mem_survivors, Finset.mem_singleton]

variable (h : Rebuilt m r data rows) (hnodup : data.Nodup)
  (hdata : ∀ v ∈ data, v ∈ packets (2 ^ (m + 1)) (survivors (m + 4) {r}))
include h hnodup hdata

/-- **What is rebuilt is restored**, and every packet of `data` is read. -/
theorem Rebuilt.restores (hr : r < m + 4) {T : Nat → GF256} (hT : Codeword m T) :
    (ECDAG.build (rebuiltJoins m r data rows)).Restores
      (· ∈ packets (2 ^ (m + 1)) (survivors (m + 4) {r}))
      (packets (2 ^ (m + 1)) (losses (m + 4) {r})) T := by
  have hlosses : losses (m + 4) {r} = [r] := losses_singleton hr
  rw [hlosses]
  have hlost : ∀ v, v ∈ packets (2 ^ (m + 1)) [r] ↔ v / 2 ^ (m + 1) = r := fun v => by
    rw [mem_packets (Nat.two_pow_pos _), List.mem_singleton]
  refine (JoinsSound.of_forall fun j hj => ?_).restores (fun v hv => ?_) fun v hv hs => ?_
  · obtain ⟨i, hi, rfl⟩ := mem_rebuiltJoins.1 hj
    have hperm : (data.filter (· ∈ rows i)).Perm (rows i) :=
      (List.perm_ext_iff_of_nodup (hnodup.filter _) (h.nodup i hi)).2 fun x => by
        simpa using h.sub i hi x
    refine ⟨fun c hc => hdata c (List.mem_of_mem_filter hc), fun h0 => ?_, ?_⟩
    · simp only at h0
      rw [h0, List.nil_perm] at hperm
      exact h.ne_nil i hi hperm
    · have hid : data.filter (· ∈ rows i) = (data.filter (· ∈ rows i)).map id :=
        (List.map_id _).symm
      rw [← h.value T hT i hi, ← total_perm T hperm]
      simp only [Join.instr, List.map_map]
      conv_lhs => rw [hid]
      rw [List.map_map, LinearProgram.combine_zip_map]
      simp [total]
  · rw [hlost] at hv
    refine List.mem_map.2 ⟨_, mem_rebuiltJoins.2 ⟨v % 2 ^ (m + 1),
      Nat.mod_lt _ (Nat.two_pow_pos _), rfl⟩, ?_⟩
    rw [← hv]
    exact Nat.div_add_mod' v _
  · exact (mem_survivors_packets.1 hs).2 ((hlost v).1 hv)

omit hnodup in
theorem Rebuilt.mem_leaves (v : Nat) :
    v ∈ (ECDAG.build (rebuiltJoins m r data rows)).ecLeaves ↔ v ∈ data := by
  rw [ECDAG.mem_ecLeaves_build fun j hj c hc hm => ?_]
  · constructor
    · rintro ⟨j, hj, hv⟩
      obtain ⟨i, -, rfl⟩ := mem_rebuiltJoins.1 hj
      exact List.mem_of_mem_filter hv
    · intro hv
      obtain ⟨i, hi, hrow⟩ := h.used v hv
      exact ⟨_, mem_rebuiltJoins.2 ⟨i, hi, rfl⟩, List.mem_filter.2 ⟨hv, by simpa using hrow⟩⟩
  · obtain ⟨i, -, rfl⟩ := mem_rebuiltJoins.1 hj
    obtain ⟨j', hj', rfl⟩ := List.mem_map.1 hm
    obtain ⟨i', hi', rfl⟩ := mem_rebuiltJoins.1 hj'
    refine (mem_survivors_packets.1 (hdata _ (List.mem_of_mem_filter hc))).2 ?_
    exact packet_div r hi'

end

/-! ## `dec_map` -/

theorem insertNew_self {m : DecMap} {i : Nat} (h : m i = none) (l : List Nat) :
    DecMap.insertNew m i l i = some l := by
  rw [DecMap.insertNew, if_pos h, Function.update_self]

theorem insertNew_of_ne (m : DecMap) {i j : Nat} (h : j ≠ i) (l : List Nat) :
    DecMap.insertNew m i l j = m j := by
  unfold DecMap.insertNew
  split
  · exact Function.update_of_ne h ..
  · rfl

/-- The loop of `knownRows` over any rows. -/
theorem foldl_knownRows (off : List Nat) (h : Mat) (l : List Nat) (hl : l.Nodup) (m : DecMap)
    (p : Nat) (hnone : ∀ i ∈ l, m i = none) :
    let res := (l.foldl (fun st i => if i ∈ off then
      (DecMap.insertNew st.1 i (h.getD st.2 []), st.2 + 1) else st) (m, p)).1
    (∀ q < (l.filter (· ∈ off)).length,
      res ((l.filter (· ∈ off)).getD q 0) = some (h.getD (p + q) [])) ∧
    ∀ i, (i ∉ l ∨ i ∉ off) → res i = m i := by
  induction l generalizing m p with
  | nil => exact ⟨fun q hq => absurd hq (Nat.not_lt_zero q), fun i _ => rfl⟩
  | cons a l ih =>
    rw [List.nodup_cons] at hl
    rw [List.foldl_cons]
    by_cases ha : a ∈ off
    · simp only [ha, if_true]
      obtain ⟨h1, h2⟩ := ih hl.2 (DecMap.insertNew m a (h.getD p [])) (p + 1) fun i hi => by
        have hia : i ≠ a := fun he => hl.1 (he ▸ hi)
        rw [insertNew_of_ne m hia]
        exact hnone i (List.mem_cons_of_mem _ hi)
      rw [List.filter_cons_of_pos (by simpa using ha)]
      refine ⟨fun q hq => ?_, fun i hi => ?_⟩
      · cases q with
        | zero =>
          rw [List.getD_cons_zero, h2 a (Or.inl hl.1)]
          exact insertNew_self (hnone a (List.mem_cons_self ..)) _
        | succ q =>
          rw [List.getD_cons_succ, h1 q (by simpa using hq), Nat.add_right_comm, Nat.add_assoc]
      · have hia : i ≠ a := by
          rintro rfl
          exact hi.elim (fun hi => hi (List.mem_cons_self ..)) fun hi => hi ha
        rw [h2 i (hi.imp_left fun hi hm => hi (List.mem_cons_of_mem _ hm))]
        exact insertNew_of_ne m hia _
    · simp only [ha, if_false]
      obtain ⟨h1, h2⟩ := ih hl.2 m p fun i hi => hnone i (List.mem_cons_of_mem _ hi)
      rw [List.filter_cons_of_neg (by simpa using ha)]
      refine ⟨h1, fun i hi => h2 i ?_⟩
      exact hi.imp_left fun hi hm => hi (List.mem_cons_of_mem _ hm)

/-- **The known rows**, and nothing else. -/
theorem knownRows_spec (w : Nat) (Q : Nat → Bool) (h : Mat) :
    (∀ q < ((List.range w).filter Q).length,
      knownRows w ((List.range w).filter Q) h (((List.range w).filter Q).getD q 0) =
        some (h.getD q [])) ∧
    ∀ i, i ∉ (List.range w).filter Q → knownRows w ((List.range w).filter Q) h i = none := by
  obtain ⟨h1, h2⟩ := foldl_knownRows ((List.range w).filter Q) h (List.range w) List.nodup_range
    (fun _ => none) 0 fun _ _ => rfl
  have hsame : (List.range w).filter (· ∈ (List.range w).filter Q) = (List.range w).filter Q :=
    List.filter_congr fun i hi => by simp [List.mem_range.1 hi]
  rw [hsame] at h1
  refine ⟨fun q hq => ?_, fun i hi => h2 i (Or.inr hi)⟩
  have hq := h1 q hq
  rwa [Nat.zero_add] at hq

/-- **The loop that rebuilds**: each round adds a row under a key of its own, from rows that
were there before the loop. -/
theorem foldl_rebuild {step : DecMap → Nat → DecMap} {lost : Nat → Nat} {depend : Nat → List Nat}
    {b : Nat → List Nat} (hstep : ∀ m j, step m j = DecMap.insertNew m (lost j)
      ((depend j).foldl (fun b d => ((m d).getD []).foldl toggle b) (b j)))
    {known : DecMap} {N : Nat} (hnone : ∀ j < N, known (lost j) = none)
    (hinj : ∀ j < N, ∀ j' < N, lost j = lost j' → j = j')
    (hdep : ∀ j < N, ∀ d ∈ depend j, ∀ j' < N, d ≠ lost j') :
    (∀ j < N, (List.range N).foldl step known (lost j) =
      some (((depend j).flatMap fun d => (known d).getD []).foldl toggle (b j))) ∧
    ∀ x, (∀ j < N, x ≠ lost j) → (List.range N).foldl step known x = known x := by
  have hall : ∀ n ≤ N, (∀ j < n, (List.range n).foldl step known (lost j) =
      some (((depend j).flatMap fun d => (known d).getD []).foldl toggle (b j))) ∧
      ∀ x, (∀ j < n, x ≠ lost j) → (List.range n).foldl step known x = known x := by
    intro n
    induction n with
    | zero => exact fun _ => ⟨fun j hj => absurd hj (Nat.not_lt_zero j), fun x _ => rfl⟩
    | succ n ih =>
      intro hn
      obtain ⟨h1, h2⟩ := ih (by omega)
      rw [List.range_succ, List.foldl_append, List.foldl_cons, List.foldl_nil, hstep]
      have hnew : (List.range n).foldl step known (lost n) = none := by
        rw [h2 _ fun j hj he => ?_]
        · exact hnone n (by omega)
        · have := hinj n (by omega) j (by omega) he
          omega
      refine ⟨fun j hj => ?_, fun x hx => ?_⟩
      · by_cases hjn : j = n
        · subst hjn
          rw [insertNew_self hnew, List.foldl_flatMap]
          refine congrArg some (List.foldl_ext _ _ _ fun l d hd => ?_)
          rw [h2 d fun j' hj' => hdep j (by omega) d hd j' (by omega)]
        · have hne : lost j ≠ lost n := fun he => hjn (hinj j (by omega) n (by omega) he)
          rw [insertNew_of_ne _ hne]
          exact h1 j (by omega)
      · rw [insertNew_of_ne _ (hx n (by omega))]
        exact h2 x fun j hj => hx j (by omega)
  exact hall N le_rfl

/-! ## Row by row -/

/-- A known row has one packet of each node but `r`. -/
structure KnownRow (m r i : Nat) (row : List Nat) : Prop where
  nodup : row.Nodup
  mem_iff : ∀ v, v ∈ row ↔ ∃ c < m + 3, c ≠ r ∧ packet m c i = v
  value : ∀ T, Codeword m T → total T row = T (packet m r i)

/-- A made row has packet `o` of the last node, and the rest from the rows `Q`. -/
structure MadeRow (m r : Nat) (Q : Nat → Bool) (o i : Nat) (row : List Nat) : Prop where
  nodup : row.Nodup
  last_mem : packet m (m + 3) o ∈ row
  reads : ∀ v ∈ row, v = packet m (m + 3) o ∨
    ∃ c < m + 3, c ≠ r ∧ ∃ x < 2 ^ (m + 1), Q x = true ∧ v = packet m c x
  value : ∀ T, Codeword m T → total T row = T (packet m r i)

section
variable {m r : Nat} {P Q : Nat → Bool} {lost : Nat → Nat} {data : List Nat} {rows : Nat → List Nat}

theorem KnownRow.ne_nil {i : Nat} {row : List Nat} (h : KnownRow m r i row) : row ≠ [] := by
  obtain ⟨c, hc, hne⟩ : ∃ c < m + 3, c ≠ r := by
    by_cases h0 : r = 0
    · exact ⟨1, by omega, by omega⟩
    · exact ⟨0, by omega, fun h => h0 h.symm⟩
  exact List.ne_nil_of_mem ((h.mem_iff _).2 ⟨c, hc, hne, rfl⟩)

/-- **Rows that are known or made rebuild the lost packets**, when every other row is `lost o` for
a row `o` of the last node. -/
theorem rebuilt_of_rows (hr : r < m + 3)
    (hdata : ∀ v, v ∈ data ↔ v / 2 ^ (m + 1) < m + 4 ∧ v / 2 ^ (m + 1) ≠ r ∧
      (if v / 2 ^ (m + 1) = m + 3 then P (v % 2 ^ (m + 1)) else Q (v % 2 ^ (m + 1))) = true)
    (hknown : ∀ i < 2 ^ (m + 1), Q i = true → KnownRow m r i (rows i))
    (hmade : ∀ o < 2 ^ (m + 1), P o = true →
      lost o < 2 ^ (m + 1) ∧ MadeRow m r Q o (lost o) (rows (lost o)))
    (hcover : ∀ i < 2 ^ (m + 1), Q i = false → ∃ o < 2 ^ (m + 1), P o = true ∧ lost o = i) :
    Rebuilt m r data rows := by
  have hrows : ∀ i < 2 ^ (m + 1), (Q i = true ∧ KnownRow m r i (rows i)) ∨
      ∃ o < 2 ^ (m + 1), P o = true ∧ MadeRow m r Q o i (rows i) := by
    intro i hi
    cases hQ : Q i with
    | true => exact Or.inl ⟨rfl, hknown i hi hQ⟩
    | false =>
      obtain ⟨o, ho, hP, rfl⟩ := hcover i hi hQ
      exact Or.inr ⟨o, ho, hP, (hmade o ho hP).2⟩
  have hread : ∀ c < m + 3, c ≠ r → ∀ x < 2 ^ (m + 1), Q x = true → packet m c x ∈ data := by
    intro c hc hne x hx hQ
    rw [hdata, packet_div c hx, packet_mod c hx, if_neg (by omega)]
    exact ⟨by omega, hne, hQ⟩
  refine ⟨fun i hi => ?_, fun i hi v hv => ?_, fun i hi => ?_, fun T hT i hi => ?_,
    fun v hv => ?_⟩
  · rcases hrows i hi with ⟨-, h⟩ | ⟨o, -, -, h⟩
    · exact h.nodup
    · exact h.nodup
  · rcases hrows i hi with ⟨hQ, h⟩ | ⟨o, ho, hP, h⟩
    · obtain ⟨c, hc, hne, rfl⟩ := (h.mem_iff v).1 hv
      exact hread c hc hne i hi hQ
    · rcases h.reads v hv with rfl | ⟨c, hc, hne, x, hx, hQ, rfl⟩
      · rw [hdata, packet_div _ ho, packet_mod _ ho, if_pos rfl]
        exact ⟨by omega, by omega, hP⟩
      · exact hread c hc hne x hx hQ
  · rcases hrows i hi with ⟨-, h⟩ | ⟨o, -, -, h⟩
    · exact h.ne_nil
    · exact List.ne_nil_of_mem h.last_mem
  · rcases hrows i hi with ⟨-, h⟩ | ⟨o, -, -, h⟩
    · exact h.value T hT
    · exact h.value T hT
  · obtain ⟨hlt, hne, hin⟩ := (hdata v).1 hv
    have hmod : v % 2 ^ (m + 1) < 2 ^ (m + 1) := Nat.mod_lt _ (Nat.two_pow_pos _)
    have hv : packet m (v / 2 ^ (m + 1)) (v % 2 ^ (m + 1)) = v := Nat.div_add_mod' v _
    split at hin
    · next hlast =>
      obtain ⟨hlt', h⟩ := hmade _ hmod hin
      have hmem := h.last_mem
      rw [← hlast, hv] at hmem
      exact ⟨_, hlt', hmem⟩
    · next hlast =>
      exact ⟨_, hmod, ((hknown _ hmod hin).mem_iff v).2 ⟨_, by omega, hne, hv⟩⟩

end

/-! ## Situations 1 and 2 -/

/-- Row `o` of the horizontal parity without node `r`. -/
def rowOf (m r o : Nat) : List Nat :=
  ((List.range (m + 2)).filter (· ≠ r)).map (fun c => packet m c o) ++ [packet m (m + 2) o]

/-- Row `o` of the butterfly without node `r`. -/
def restOf (m r o : Nat) : List Nat :=
  ((List.range (m + 2)).filter (· ≠ r)).flatMap fun c =>
    (rowsOf (m + 1) c o).map fun x => packet m c x

theorem filter_ne_range {N r : Nat} (hr : r ≤ N) :
    (List.range (N + 1)).filter (· ≠ r) = (List.range N).map (skip r) := by
  induction N generalizing r with
  | zero =>
    obtain rfl : r = 0 := by omega
    rfl
  | succ N ih =>
    rw [List.range_succ_eq_map]
    cases r with
    | zero =>
      rw [List.filter_cons_of_neg (by simp), List.filter_eq_self.2 fun x hx => ?_]
      · rfl
      · obtain ⟨y, -, rfl⟩ := List.mem_map.1 hx
        simp
    | succ r =>
      have hpred : (List.range (N + 1)).filter ((fun x => decide (x ≠ r + 1)) ∘ Nat.succ) =
          (List.range (N + 1)).filter (· ≠ r) := List.filter_congr fun x _ => by simp
      rw [List.filter_cons_of_pos (by simp), List.filter_map, hpred, ih (by omega),
        List.range_succ_eq_map, List.map_cons, List.map_map, List.map_map]
      refine congrArg₂ List.cons rfl (List.map_congr_left fun x _ => ?_)
      exact (Butterfly.skip_succ r x).symm

section
variable {m r : Nat} (hr : r < m + 2)
include hr

theorem terms_split (o : Nat) : (terms (m + 1) (fun x c => packet m c x) o).Perm
    ((rowsOf (m + 1) r o).map (fun x => packet m r x) ++ restOf m r o) := by
  have hperm : (List.range (m + 2)).Perm (r :: (List.range (m + 2)).filter (· ≠ r)) := by
    have h := List.perm_cons_erase (List.mem_range.2 hr)
    rw [List.nodup_range.erase_eq_filter] at h
    refine h.trans (List.Perm.of_eq (congrArg _ (List.filter_congr fun x _ => ?_)))
    rw [Bool.eq_iff_iff]
    simp
  exact hperm.flatMap_right _

/-- The entries of column `r`. -/
theorem mine_perm {o : Nat} (ho : o < 2 ^ (m + 1)) {row : List Nat}
    (hrow : row.Perm (terms (m + 1) (fun x c => packet m c x) o)) :
    ((row.filter fun x => x / 2 ^ (m + 1) = r).map (· % 2 ^ (m + 1))).Perm (rowsOf (m + 1) r o) := by
  have hmine : ((rowsOf (m + 1) r o).map fun x => packet m r x).filter
      (fun x => x / 2 ^ (m + 1) = r) = (rowsOf (m + 1) r o).map fun x => packet m r x := by
    refine List.filter_eq_self.2 fun v hv => ?_
    obtain ⟨x, hx, rfl⟩ := List.mem_map.1 hv
    simpa using packet_div r (Butterfly.rowsOf_lt ho hx)
  have hrest : (restOf m r o).filter (fun x => x / 2 ^ (m + 1) = r) = [] := by
    refine List.filter_eq_nil_iff.2 fun v hv => ?_
    obtain ⟨c, hc, hv⟩ := List.mem_flatMap.1 hv
    obtain ⟨x, hx, rfl⟩ := List.mem_map.1 hv
    rw [packet_div c (Butterfly.rowsOf_lt ho hx)]
    simpa using (List.mem_filter.1 hc).2
  have hperm := (hrow.trans (terms_split hr o)).filter fun x => x / 2 ^ (m + 1) = r
  rw [List.filter_append, hmine, hrest, List.append_nil] at hperm
  refine (hperm.map _).trans (List.Perm.of_eq ?_)
  rw [List.map_map]
  refine (List.map_congr_left fun x hx => ?_).trans (List.map_id _)
  exact packet_mod r (Butterfly.rowsOf_lt ho hx)

omit hr in
theorem total_rowOf {T : Nat → GF256} (hT : Codeword m T) (hr : r < m + 2) {o : Nat}
    (ho : o < 2 ^ (m + 1)) : total T (rowOf m r o) = T (packet m r o) := by
  have hsplit : total T ((List.range (m + 2)).map fun c => packet m c o) = T (packet m r o) +
      total T (((List.range (m + 2)).filter (· ≠ r)).map fun c => packet m c o) := by
    have h := List.perm_cons_erase (List.mem_range.2 hr)
    rw [List.nodup_range.erase_eq_filter] at h
    have hfilter : (List.range (m + 2)).filter (· != r) = (List.range (m + 2)).filter (· ≠ r) :=
      List.filter_congr fun x _ => by rw [Bool.eq_iff_iff]; simp
    rw [total_perm T (h.map fun c => packet m c o), List.map_cons, total_cons, hfilter]
  rw [rowOf, total_append, total_cons, total_nil, add_zero, hT.rows o ho, hsplit,
    add_comm (T (packet m r o)), ← add_assoc, Gf.add_self, zero_add]

/-- Packet `o` of the butterfly, without column `r`. -/
theorem total_restOf {T : Nat → GF256} (hT : Codeword m T) {o : Nat} (ho : o < 2 ^ (m + 1)) :
    total T (restOf m r o ++ [packet m (m + 3) o]) =
      total T ((rowsOf (m + 1) r o).map fun x => packet m r x) := by
  rw [total_append, total_cons, total_nil, add_zero, hT.butterfly o ho,
    total_perm T (terms_split hr o), total_append, add_comm _ (total T (restOf m r o)), ← add_assoc,
    Gf.add_self, zero_add]

theorem mem_rowOf {o v : Nat} : v ∈ rowOf m r o ↔ ∃ c < m + 3, c ≠ r ∧ packet m c o = v := by
  simp only [rowOf, List.mem_append, List.mem_map, List.mem_filter, List.mem_range,
    List.mem_singleton, decide_eq_true_eq]
  constructor
  · rintro (⟨c, ⟨hc, hne⟩, rfl⟩ | rfl)
    · exact ⟨c, by omega, hne, rfl⟩
    · exact ⟨m + 2, by omega, by omega, rfl⟩
  · rintro ⟨c, hc, hne, rfl⟩
    by_cases hlast : c = m + 2
    · exact Or.inr (by rw [hlast])
    · exact Or.inl ⟨c, ⟨by omega, hne⟩, rfl⟩

omit hr in
theorem mem_restOf {o v : Nat} : v ∈ restOf m r o ↔
    ∃ c < m + 2, c ≠ r ∧ ∃ x ∈ rowsOf (m + 1) c o, packet m c x = v := by
  simp only [restOf, List.mem_flatMap, List.mem_map, List.mem_filter, List.mem_range,
    decide_eq_true_eq, and_assoc]

section
variable {P Q : Nat → Bool} (hS : Selects m r P Q)
include hS

omit hr hS in
theorem getD_repairMat {off : List Nat} (hoff : ∀ o ∈ off, o < 2 ^ (m + 1)) {p : Nat}
    (hp : p < off.length) : (repairMat (m + 4) (m + 2) (2 ^ (m + 1)) r off).getD p [] =
      ((List.range (m + 2)).filter (· ≠ r)).map fun c => packet m c (off.getD p 0) := by
  have hmem : off.getD p 0 ∈ off := by
    rw [List.getD_eq_getElem _ _ hp]
    exact List.getElem_mem hp
  rw [repairMat, List.getD_eq_getElem _ _ (by simpa using hp), List.getElem_map,
    ← List.getD_eq_getElem off 0 hp]
  refine List.map_congr_left fun c hc => ?_
  have hc := List.mem_range.1 (List.mem_of_mem_filter hc)
  exact entry_initMat (hoff _ hmem) (by omega)

omit hr hS in
theorem getD_column {off : List Nat} (hoff : ∀ o ∈ off, o < 2 ^ (m + 1)) {j p : Nat}
    (hj : j < m + 4) (hp : p < off.length) :
    (column (m + 4) (2 ^ (m + 1)) j off).getD p [] = [packet m j (off.getD p 0)] := by
  have hmem : off.getD p 0 ∈ off := by
    rw [List.getD_eq_getElem _ _ hp]
    exact List.getElem_mem hp
  rw [column, List.getD_eq_getElem _ _ (by simpa using hp), List.getElem_map,
    ← List.getD_eq_getElem off 0 hp, entry_initMat (hoff _ hmem) hj]
  rfl

/-- `b`: the butterfly of the rows that are read is the butterfly without node `r`. -/
theorem butterfly_repairMat {i : Nat} (hi : i < 2 ^ m) :
    ((butterflyFunc (repairMat (m + 4) (m + 2) (2 ^ (m + 1)) r
      ((List.range (2 ^ (m + 1))).filter Q)) (2 ^ m) (m + 1)).getD i []).Perm
      (restOf m r (nth P (2 ^ (m + 1)) i)) := by
  have hoff : ∀ o ∈ (List.range (2 ^ (m + 1))).filter Q, o < 2 ^ (m + 1) :=
    fun o ho => List.mem_range.1 (List.mem_of_mem_filter ho)
  refine ((butterflyFunc_spec m _).2 i hi).trans (List.Perm.of_eq ?_)
  have hentry : ∀ x < 2 ^ m, ∀ c ≤ m, entry (repairMat (m + 4) (m + 2) (2 ^ (m + 1)) r
      ((List.range (2 ^ (m + 1))).filter Q)) x c =
      packet m (skip r c) (nth Q (2 ^ (m + 1)) x) := by
    intro x hx c hc
    rw [entry, getD_repairMat hoff (hS.lengthQ.symm ▸ hx), filter_ne_range (by omega : r ≤ m + 1),
      List.map_map, getD_map_range _ _ (by omega : c < m + 1)]
    rfl
  rw [terms_congr hi hentry, restOf, filter_ne_range (by omega : r ≤ m + 1), List.flatMap_map,
    terms]
  refine List.flatMap_congr fun c hc => ?_
  rw [List.mem_range] at hc
  rw [hS.peels.fwd i hi c (by omega), List.map_map]
  rfl

omit hr hS in
theorem nth_spec {N i : Nat} {R : Nat → Bool} (hi : i < ((List.range N).filter R).length) :
    nth R N i < N ∧ R (nth R N i) = true := by
  have hmem : nth R N i ∈ (List.range N).filter R := by
    rw [nth, List.getD_eq_getElem _ _ hi]
    exact List.getElem_mem hi
  obtain ⟨h1, h2⟩ := List.mem_filter.1 hmem
  exact ⟨List.mem_range.1 h1, h2⟩

omit hr hS in
theorem exists_nth {N x : Nat} {R : Nat → Bool} (hx : x < N) (hR : R x) :
    ∃ i < ((List.range N).filter R).length, nth R N i = x := by
  obtain ⟨i, hi, h⟩ := List.getElem_of_mem (List.mem_filter.2 ⟨List.mem_range.2 hx, hR⟩)
  exact ⟨i, hi, by rw [nth, List.getD_eq_getElem _ _ hi, h]⟩

omit hr hS in
theorem nth_inj {N i j : Nat} {R : Nat → Bool} (hi : i < ((List.range N).filter R).length)
    (hj : j < ((List.range N).filter R).length) (h : nth R N i = nth R N j) : i = j := by
  rw [nth, nth, List.getD_eq_getElem _ _ hi, List.getD_eq_getElem _ _ hj] at h
  exact (List.nodup_range.filter R).getElem_inj_iff.1 h

omit hr hS in
theorem nodup_rowOf {o : Nat} (ho : o < 2 ^ (m + 1)) : (rowOf m r o).Nodup := by
  rw [rowOf, ← List.concat_eq_append]
  refine List.Nodup.concat (fun hm => ?_) ?_
  · obtain ⟨c, hc, h⟩ := List.mem_map.1 hm
    have hc := List.mem_range.1 (List.mem_of_mem_filter hc)
    have := (packet_inj ho ho h).1
    omega
  · exact (List.nodup_range.filter _).map fun a b h => (packet_inj ho ho h).1

omit hS in
theorem nodup_restOf {o : Nat} (ho : o < 2 ^ (m + 1)) :
    (restOf m r o ++ [packet m (m + 3) o]).Nodup := by
  rw [← List.concat_eq_append]
  refine List.Nodup.concat (fun hm => ?_) ?_
  · obtain ⟨c, hc, -, x, hx, h⟩ := mem_restOf.1 hm
    have := (packet_inj (Butterfly.rowsOf_lt ho hx) ho h).1
    omega
  · exact (((terms_split hr o).nodup_iff.1 (nodup_terms ho))).of_append_right

/-- What the rows without node `r` need of the other data nodes is read. -/
theorem mem_rowsOf_read {i c x : Nat} (hi : i < 2 ^ m) (hc : c < m + 2) (hne : c ≠ r)
    (hx : x ∈ rowsOf (m + 1) c (nth P (2 ^ (m + 1)) i)) : Q x = true := by
  obtain ⟨c', hc', rfl⟩ : ∃ c' ≤ m, skip r c' = c := by
    unfold skip
    by_cases h : c < r
    · exact ⟨c, by omega, if_pos h⟩
    · exact ⟨c - 1, by omega, by rw [if_neg (by omega)]; omega⟩
  rw [hS.peels.fwd i hi c' hc'] at hx
  obtain ⟨y, hy, rfl⟩ := List.mem_map.1 hx
  exact (nth_spec (hS.lengthQ.symm ▸ Butterfly.rowsOf_lt hi hy)).2

omit hr hS in
/-- `dec_map` before the loop. -/
theorem knownRows_rows {known : DecMap} (hknown : known =
      knownRows (2 ^ (m + 1)) ((List.range (2 ^ (m + 1))).filter Q)
        (addMat (repairMat (m + 4) (m + 2) (2 ^ (m + 1)) r ((List.range (2 ^ (m + 1))).filter Q))
          (column (m + 4) (2 ^ (m + 1)) (m + 2) ((List.range (2 ^ (m + 1))).filter Q)))) :
    (∀ o < 2 ^ (m + 1), Q o → known o = some (rowOf m r o)) ∧
      ∀ o, Q o = false → known o = none := by
  have hoff : ∀ o ∈ (List.range (2 ^ (m + 1))).filter Q, o < 2 ^ (m + 1) :=
    fun o ho => List.mem_range.1 (List.mem_of_mem_filter ho)
  obtain ⟨h1, h2⟩ := knownRows_spec (2 ^ (m + 1)) Q
    (addMat (repairMat (m + 4) (m + 2) (2 ^ (m + 1)) r ((List.range (2 ^ (m + 1))).filter Q))
      (column (m + 4) (2 ^ (m + 1)) (m + 2) ((List.range (2 ^ (m + 1))).filter Q)))
  rw [← hknown] at h1 h2
  refine ⟨fun o ho hQ => ?_, fun o hQ => ?_⟩
  · obtain ⟨q, hq, rfl⟩ := exists_nth ho hQ
    have hrow := h1 q hq
    rw [getD_addMat _ _ (by simpa [repairMat] using hq), getD_repairMat hoff hq,
      getD_column hoff (by omega) hq] at hrow
    exact hrow
  · refine h2 o fun hm => ?_
    rw [(List.mem_filter.1 hm).2] at hQ
    exact Bool.noConfusion hQ

omit hr hS in
theorem getLastD_perm_singleton {l : List Nat} {a d : Nat} (h : l.Perm [a]) : l.getLastD d = a := by
  rw [List.perm_singleton.1 h]
  rfl

/-- What one row of the butterfly takes of node `r`: one lost row, and rows that are known. -/
theorem mine_spec {o : Nat} (ho : o < 2 ^ (m + 1)) (hP : P o) {isLost : Nat → Bool}
    (hlost : ∀ x < 2 ^ (m + 1), isLost x = !Q x) {row mine : List Nat}
    (hrow : row.Perm (terms (m + 1) (fun x c => packet m c x) o))
    (hmine : mine = (row.filter fun x => x / 2 ^ (m + 1) = r).map (· % 2 ^ (m + 1))) :
    (mine.filter isLost).getLastD 0 = flip (m + 1 - r) o ∧
      (∀ d ∈ mine.filter fun x => !isLost x, d < 2 ^ (m + 1) ∧ Q d = true) ∧
      ∀ T, total T ((rowsOf (m + 1) r o).map fun x => packet m r x) =
        T (packet m r (flip (m + 1 - r) o)) +
          total T ((mine.filter fun x => !isLost x).map fun x => packet m r x) := by
  have hperm : mine.Perm (rowsOf (m + 1) r o) := hmine ▸ mine_perm hr ho hrow
  have hlt : ∀ x ∈ mine, x < 2 ^ (m + 1) := fun x hx => Butterfly.rowsOf_lt ho (hperm.mem_iff.1 hx)
  have hone : (mine.filter isLost).Perm [flip (m + 1 - r) o] := by
    rw [← hS.lostP o ho hP]
    refine (List.Perm.of_eq ?_).trans (hperm.filter fun x => !Q x)
    exact List.filter_congr fun x hx => hlost x (hlt x hx)
  refine ⟨getLastD_perm_singleton hone, fun d hd => ?_, fun T => ?_⟩
  · obtain ⟨h1, h2⟩ := List.mem_filter.1 hd
    rw [hlost d (hlt d h1), Bool.not_not] at h2
    exact ⟨hlt d h1, h2⟩
  · rw [← total_perm T (hperm.map fun x => packet m r x),
      ← total_perm T ((List.filter_append_perm isLost mine).map fun x => packet m r x),
      List.map_append, total_append, List.perm_singleton.1 hone]
    simp

/-- A lost row is the butterfly without node `r`, less the rows that are known. -/
theorem rebuilt_row {i : Nat} (hi : i < 2 ^ m) {o : Nat} (hio : nth P (2 ^ (m + 1)) i = o)
    {depend b : List Nat} (hdep : ∀ d ∈ depend, d < 2 ^ (m + 1) ∧ Q d = true)
    (hb : b.Perm (restOf m r o ++ [packet m (m + 3) o])) :
    (((depend.flatMap (rowOf m r)).foldl toggle b).Nodup ∧
      packet m (m + 3) o ∈ (depend.flatMap (rowOf m r)).foldl toggle b) ∧
    (∀ v ∈ (depend.flatMap (rowOf m r)).foldl toggle b, v = packet m (m + 3) o ∨
      ∃ c < m + 3, c ≠ r ∧ ∃ x < 2 ^ (m + 1), Q x = true ∧ v = packet m c x) ∧
    ∀ T, Codeword m T → total T ((depend.flatMap (rowOf m r)).foldl toggle b) =
      total T ((rowsOf (m + 1) r o).map fun x => packet m r x) +
        total T (depend.map fun x => packet m r x) := by
  have ho : o < 2 ^ (m + 1) := hio ▸ (nth_spec (hS.lengthP.symm ▸ hi)).1
  have hnodup : b.Nodup := hb.nodup_iff.2 (nodup_restOf hr ho)
  have hknown : ∀ v ∈ depend.flatMap (rowOf m r),
      ∃ c < m + 3, c ≠ r ∧ ∃ x < 2 ^ (m + 1), Q x = true ∧ v = packet m c x := by
    intro v hv
    obtain ⟨d, hd, hv⟩ := List.mem_flatMap.1 hv
    obtain ⟨c, hc, hne, rfl⟩ := (mem_rowOf hr).1 hv
    exact ⟨c, hc, hne, d, (hdep d hd).1, (hdep d hd).2, rfl⟩
  refine ⟨⟨(foldl_toggle_spec (fun _ => 0) hnodup _).1, ?_⟩, fun v hv => ?_, fun T hT => ?_⟩
  · refine ((foldl_toggle_spec (fun _ => 0) hnodup _).2.2 _ fun hm => ?_).2 ?_
    · obtain ⟨c, hc, -, x, hx, -, h⟩ := hknown _ hm
      have := (packet_inj ho hx h).1
      omega
    · exact hb.mem_iff.2 (List.mem_append_right _ (List.mem_singleton_self _))
  · by_cases hin : v ∈ depend.flatMap (rowOf m r)
    · exact Or.inr (hknown v hin)
    · have hv := hb.mem_iff.1 (((foldl_toggle_spec (fun _ => 0) hnodup _).2.2 v hin).1 hv)
      rcases List.mem_append.1 hv with hv | hv
      · obtain ⟨c, hc, hne, x, hx, rfl⟩ := mem_restOf.1 hv
        subst hio
        exact Or.inr ⟨c, by omega, hne, x, Butterfly.rowsOf_lt ho hx,
          mem_rowsOf_read hr hS hi hc hne hx, rfl⟩
      · exact Or.inl (List.mem_singleton.1 hv)
  · have hrows : total T (depend.flatMap (rowOf m r)) =
        total T (depend.map fun x => packet m r x) := by
      rw [total_flatMap, total, List.map_map]
      congr 1
      exact List.map_congr_left fun d hd => total_rowOf hT hr (hdep d hd).1
    rw [(foldl_toggle_spec T hnodup _).2.1, total_perm T hb, total_restOf hr hT ho, hrows]

/-- **Situations 1 and 2 rebuild the lost packets.** -/
theorem rebuilt_of_selects (isLost : Nat → Bool) (hlost : ∀ x < 2 ^ (m + 1), isLost x = !Q x)
    {data : List Nat} (hdata : ∀ v, v ∈ data ↔ v / 2 ^ (m + 1) < m + 4 ∧ v / 2 ^ (m + 1) ≠ r ∧
      (if v / 2 ^ (m + 1) = m + 3 then P (v % 2 ^ (m + 1)) else Q (v % 2 ^ (m + 1))) = true) :
    Rebuilt m r data fun i => ((List.range ((List.range (2 ^ (m + 1))).filter P).length).foldl
      (rebuildStep (2 ^ (m + 1)) r
        (butterflyFunc (initMat (m + 4) (2 ^ (m + 1))) (2 ^ (m + 1)) (m + 2))
        ((List.range (2 ^ (m + 1))).filter P) isLost
        (addMat (butterflyFunc (repairMat (m + 4) (m + 2) (2 ^ (m + 1)) r
            ((List.range (2 ^ (m + 1))).filter Q)) (2 ^ m) (m + 1))
          (column (m + 4) (2 ^ (m + 1)) (m + 3) ((List.range (2 ^ (m + 1))).filter P))))
      (knownRows (2 ^ (m + 1)) ((List.range (2 ^ (m + 1))).filter Q)
        (addMat (repairMat (m + 4) (m + 2) (2 ^ (m + 1)) r ((List.range (2 ^ (m + 1))).filter Q))
          (column (m + 4) (2 ^ (m + 1)) (m + 2) ((List.range (2 ^ (m + 1))).filter Q)))) i).getD [] := by
  have hoffP : ∀ o ∈ (List.range (2 ^ (m + 1))).filter P, o < 2 ^ (m + 1) :=
    fun o ho => List.mem_range.1 (List.mem_of_mem_filter ho)
  generalize hknown : knownRows _ _ _ = known
  obtain ⟨hsome, hnone⟩ := knownRows_rows hknown.symm
  generalize hb : addMat _ (column (m + 4) (2 ^ (m + 1)) (m + 3) _) = b
  generalize hvec : butterflyFunc (initMat (m + 4) (2 ^ (m + 1))) (2 ^ (m + 1)) (m + 2) = encVec
  have hnth : ∀ j < 2 ^ m, nth P (2 ^ (m + 1)) j < 2 ^ (m + 1) ∧
      P (nth P (2 ^ (m + 1)) j) = true := fun j hj => nth_spec (hS.lengthP.symm ▸ hj)
  -- the parts of one round
  let mine : Nat → List Nat := fun j =>
    ((encVec.getD (nth P (2 ^ (m + 1)) j) []).filter fun x => x / 2 ^ (m + 1) = r).map
      (· % 2 ^ (m + 1))
  have hmine : ∀ j < 2 ^ m, ((mine j).filter isLost).getLastD 0 =
      flip (m + 1 - r) (nth P (2 ^ (m + 1)) j) ∧
      (∀ d ∈ (mine j).filter fun x => !isLost x, d < 2 ^ (m + 1) ∧ Q d = true) ∧
      ∀ T, total T ((rowsOf (m + 1) r (nth P (2 ^ (m + 1)) j)).map fun x => packet m r x) =
        T (packet m r (flip (m + 1 - r) (nth P (2 ^ (m + 1)) j))) +
          total T (((mine j).filter fun x => !isLost x).map fun x => packet m r x) := by
    intro j hj
    exact mine_spec hr hS (hnth j hj).1 (hnth j hj).2 hlost
      (hvec ▸ encVec_perm (by omega) (hnth j hj).1) rfl
  have hrow : ∀ j < 2 ^ m, (b.getD j []).Perm (restOf m r (nth P (2 ^ (m + 1)) j) ++
      [packet m (m + 3) (nth P (2 ^ (m + 1)) j)]) := by
    intro j hj
    rw [← hb, getD_addMat _ _ (by rw [(butterflyFunc_spec m _).1]; exact hj),
      getD_column hoffP (by omega) (hS.lengthP.symm ▸ hj)]
    exact (butterfly_repairMat hr hS hj).append_right _
  have hflip : ∀ j < 2 ^ m, Q (flip (m + 1 - r) (nth P (2 ^ (m + 1)) j)) = false :=
    fun j hj => (hS.lost_mem (hnth j hj).1 (hnth j hj).2).2
  obtain ⟨hlostRow, hkept⟩ := @foldl_rebuild
    (rebuildStep (2 ^ (m + 1)) r encVec ((List.range (2 ^ (m + 1))).filter P) isLost b)
    (fun j => ((mine j).filter isLost).getLastD 0)
    (fun j => (mine j).filter fun x => !isLost x) (fun j => b.getD j [])
    (fun m j => rfl) known (2 ^ m)
    (fun j hj => hnone _ ((hmine j hj).1 ▸ hflip j hj))
    (fun j hj j' hj' h => by
      rw [(hmine j hj).1, (hmine j' hj').1] at h
      have h := congrArg (flip (m + 1 - r)) h
      rw [Butterfly.flip_flip, Butterfly.flip_flip] at h
      exact nth_inj (hS.lengthP.symm ▸ hj) (hS.lengthP.symm ▸ hj') h)
    (fun j hj d hd j' hj' h => by
      have hQ := ((hmine j hj).2.1 d hd).2
      rw [h, (hmine j' hj').1, hflip j' hj'] at hQ
      exact Bool.noConfusion hQ)
  rw [hS.lengthP]
  refine @rebuilt_of_rows m r P Q (flip (m + 1 - r)) data _ (by omega) hdata (fun i hi hQ => ?_)
    (fun o ho hP => ?_) fun i hi hQ => hS.lost_surj hi hQ
  · -- no round writes a row that is known
    have hrow : ((List.range (2 ^ m)).foldl
        (rebuildStep (2 ^ (m + 1)) r encVec ((List.range (2 ^ (m + 1))).filter P) isLost b)
        known i).getD [] = rowOf m r i := by
      rw [hkept i fun j hj h => ?_, hsome i hi hQ]
      · rfl
      · rw [h, (hmine j hj).1, hflip j hj] at hQ
        exact Bool.noConfusion hQ
    rw [hrow]
    exact ⟨nodup_rowOf hi, fun v => mem_rowOf hr, fun T hT => total_rowOf hT hr hi⟩
  · obtain ⟨j, hj, rfl⟩ := exists_nth ho hP
    rw [hS.lengthP] at hj
    have hround := hlostRow j hj
    simp only [(hmine j hj).1] at hround
    have hdepend : ((mine j).filter fun x => !isLost x).flatMap (fun d => (known d).getD []) =
        ((mine j).filter fun x => !isLost x).flatMap (rowOf m r) := by
      refine List.flatMap_congr fun d hd => ?_
      rw [hsome d ((hmine j hj).2.1 d hd).1 ((hmine j hj).2.1 d hd).2]
      rfl
    rw [hround, Option.getD_some, hdepend]
    obtain ⟨⟨h1, h2⟩, h3, h4⟩ := rebuilt_row hr hS hj rfl (hmine j hj).2.1 (hrow j hj)
    refine ⟨Butterfly.flip_lt (by omega) ho, h1, h2, h3, fun T hT => ?_⟩
    rw [h4 T hT, (hmine j hj).2.2 T, add_assoc, Gf.add_self, add_zero]

end

end

/-! ## Situation 3 -/

theorem half_pow (m : Nat) : 2 ^ (m + 1) / 2 = 2 ^ m := by
  rw [Nat.pow_succ]
  exact Nat.mul_div_cancel _ (by omega)

theorem upper_eq (m : Nat) : (List.range (2 ^ (m + 1))).filter (fun i => decide (2 ^ m ≤ i)) =
    List.range' (2 ^ m) (2 ^ m) := by
  have hsplit : List.range (2 ^ (m + 1)) = List.range' 0 (2 ^ m) ++ List.range' (2 ^ m) (2 ^ m) := by
    rw [List.range_eq_range', Nat.pow_succ, Nat.mul_two]
    have h := @List.range'_append_1 0 (2 ^ m) (2 ^ m)
    rw [Nat.zero_add] at h
    exact h.symm
  rw [hsplit, List.filter_append, List.filter_eq_nil_iff.2 fun i hi => ?_,
    List.filter_eq_self.2 fun i hi => ?_, List.nil_append]
  · rw [List.mem_range'_1] at hi
    simpa using hi.1
  · rw [List.mem_range'_1] at hi
    simpa using hi.2

section
variable {m : Nat}

/-- The packets of the upper half in a row of the lower half are one row. -/
theorem terms_upper {o : Nat} (ho : o < 2 ^ (m + 1)) (hge : 2 ^ m ≤ o) :
    (terms (m + 1) (fun x c => packet m c x) o).filter (fun x => x % 2 ^ (m + 1) < 2 ^ m) =
      (List.range (m + 2)).map fun c => packet m c (mir (m + 1) o) := by
  unfold terms
  rw [List.filter_flatMap, List.map_eq_flatMap]
  refine List.flatMap_congr fun c _ => ?_
  have hfilter : (rowsOf (m + 1) c o).filter ((fun x => decide (x % 2 ^ (m + 1) < 2 ^ m)) ∘
      fun x => packet m c x) = (rowsOf (m + 1) c o).filter (· < 2 ^ m) := by
    refine List.filter_congr fun x hx => ?_
    rw [Function.comp_apply, packet_mod c (Butterfly.rowsOf_lt ho hx)]
  rw [List.filter_map, hfilter, Butterfly.rowsOf_upper hge, List.map_singleton]

/-- One round: the row of the upper half, and what it is made of. -/
theorem top_spec {o : Nat} (ho : o < 2 ^ (m + 1)) (hge : 2 ^ m ≤ o) {row : List Nat}
    (hrow : row.Perm (terms (m + 1) (fun x c => packet m c x) o)) :
    ((row.filter fun x => x % 2 ^ (m + 1) < 2 ^ m).map (· % 2 ^ (m + 1))).getLastD 0 =
      mir (m + 1) o ∧
    ∀ T, Codeword m T →
      total T (row.filter (fun x => ¬ x % 2 ^ (m + 1) < 2 ^ m) ++ [packet m (m + 3) o]) =
        T (packet m (m + 2) (mir (m + 1) o)) := by
  have hupper := hrow.filter fun x => decide (x % 2 ^ (m + 1) < 2 ^ m)
  rw [terms_upper ho hge] at hupper
  have hmir := Butterfly.mir_lt (m + 1) o
  constructor
  · have hmod := hupper.map (· % 2 ^ (m + 1))
    have hconst : ((List.range (m + 2)).map fun c => packet m c (mir (m + 1) o)).map
        (· % 2 ^ (m + 1)) = List.replicate (m + 2) (mir (m + 1) o) := by
      rw [List.map_map, ← List.length_range (n := m + 2), ← List.map_const', List.length_range]
      exact List.map_congr_left fun c _ => packet_mod c hmir
    rw [hconst, List.perm_replicate] at hmod
    rw [hmod, List.getLastD_eq_getLast?, List.getLast?_replicate, if_neg (by omega)]
    rfl
  · intro T hT
    have hnot : (fun x => decide ¬ x % 2 ^ (m + 1) < 2 ^ m) =
        fun x => !decide (x % 2 ^ (m + 1) < 2 ^ m) := by
      funext x
      rw [decide_not]
    have hsplit := total_filter T (fun x => decide (x % 2 ^ (m + 1) < 2 ^ m)) row
    rw [total_perm T hrow, ← hT.butterfly o ho, total_perm T hupper, ← hT.rows _ hmir] at hsplit
    rw [total_append, total_cons, total_nil, add_zero, hnot, hsplit,
      add_comm (T (packet m (m + 2) (mir (m + 1) o))), ← add_assoc, Gf.add_self, zero_add]

theorem knownRow_top {i : Nat} (hi : i < 2 ^ (m + 1)) :
    KnownRow m (m + 2) i ((List.range (m + 2)).map fun c => packet m c i) := by
  refine ⟨List.nodup_range.map fun a b h => (packet_inj hi hi h).1, fun v => ?_, fun T hT =>
    (hT.rows i hi).symm⟩
  simp only [List.mem_map, List.mem_range]
  constructor
  · rintro ⟨c, hc, rfl⟩
    exact ⟨c, by omega, by omega, rfl⟩
  · rintro ⟨c, hc, hne, rfl⟩
    exact ⟨c, by omega, rfl⟩

theorem madeRow_top {o : Nat} (ho : o < 2 ^ (m + 1)) (hge : 2 ^ m ≤ o) {row : List Nat}
    (hrow : row.Perm (terms (m + 1) (fun x c => packet m c x) o)) :
    MadeRow m (m + 2) (fun x => decide (2 ^ m ≤ x)) o (mir (m + 1) o)
      (row.filter (fun x => ¬ x % 2 ^ (m + 1) < 2 ^ m) ++ [packet m (m + 3) o]) := by
  refine ⟨?_, List.mem_append_right _ (List.mem_singleton_self _), fun v hv => ?_,
    (top_spec ho hge hrow).2⟩
  · rw [← List.concat_eq_append]
    refine List.Nodup.concat (fun hm => ?_) ((hrow.nodup_iff.2 (nodup_terms ho)).filter _)
    obtain ⟨c, hc, x, hx, he⟩ := mem_terms.1 (hrow.mem_iff.1 (List.mem_of_mem_filter hm))
    have := (packet_inj (Butterfly.rowsOf_lt ho hx) ho he).1
    omega
  · rcases List.mem_append.1 hv with hv | hv
    · obtain ⟨hin, hlow⟩ := List.mem_filter.1 hv
      obtain ⟨c, hc, x, hx, rfl⟩ := mem_terms.1 (hrow.mem_iff.1 hin)
      have hx := Butterfly.rowsOf_lt ho hx
      rw [packet_mod c hx] at hlow
      exact Or.inr ⟨c, by omega, by omega, x, hx, by simpa using hlow, rfl⟩
    · exact Or.inl (List.mem_singleton.1 hv)

/-- **Situation 3 rebuilds the horizontal parity.** -/
theorem rebuilt_top {data : List Nat} (hdata : ∀ v, v ∈ data ↔ v / 2 ^ (m + 1) < m + 4 ∧
      v / 2 ^ (m + 1) ≠ m + 2 ∧ 2 ^ m ≤ v % 2 ^ (m + 1)) :
    Rebuilt m (m + 2) data fun i => ((List.range (List.range' (2 ^ m) (2 ^ m)).length).foldl
      (rebuildTop (2 ^ (m + 1)) (butterflyFunc (initMat (m + 4) (2 ^ (m + 1))) (2 ^ (m + 1)) (m + 2))
        (column (m + 4) (2 ^ (m + 1)) (m + 3) (List.range' (2 ^ m) (2 ^ m)))
        (List.range' (2 ^ m) (2 ^ m)))
      (knownRows (2 ^ (m + 1)) (List.range' (2 ^ m) (2 ^ m)) ((List.range' (2 ^ m) (2 ^ m)).map
        fun o => (List.range (m + 2)).map fun j => entry (initMat (m + 4) (2 ^ (m + 1))) o j))
      i).getD [] := by
  have hpow : 2 ^ (m + 1) = 2 ^ m + 2 ^ m := by rw [Nat.pow_succ, Nat.mul_two]
  have hoff : ∀ j < 2 ^ m, (List.range' (2 ^ m) (2 ^ m)).getD j 0 = 2 ^ m + j := by
    intro j hj
    rw [List.getD_eq_getElem _ _ (by simpa using hj), List.getElem_range', Nat.one_mul]
  generalize hvec : butterflyFunc (initMat (m + 4) (2 ^ (m + 1))) (2 ^ (m + 1)) (m + 2) = encVec
  have henc : ∀ o < 2 ^ (m + 1), (encVec.getD o []).Perm
      (terms (m + 1) (fun x c => packet m c x) o) := fun o ho => hvec ▸ encVec_perm (by omega) ho
  generalize hknown : knownRows _ _ _ = known
  have hsome : ∀ o < 2 ^ (m + 1), 2 ^ m ≤ o →
      known o = some ((List.range (m + 2)).map fun c => packet m c o) := by
    intro o ho hge
    have hspec := (knownRows_spec (2 ^ (m + 1)) (fun i => decide (2 ^ m ≤ i))
      ((List.range' (2 ^ m) (2 ^ m)).map fun o => (List.range (m + 2)).map fun j =>
        entry (initMat (m + 4) (2 ^ (m + 1))) o j)).1 (o - 2 ^ m)
    rw [upper_eq, List.length_range', hoff _ (by omega), hknown, getD_map_range' _ _ (by omega),
      Nat.add_sub_cancel' hge] at hspec
    rw [hspec (by omega)]
    refine congrArg some (List.map_congr_left fun c hc => ?_)
    rw [List.mem_range] at hc
    exact entry_initMat ho (by omega)
  have hnone : ∀ o < 2 ^ m, known o = none := by
    intro o ho
    have hspec := (knownRows_spec (2 ^ (m + 1)) (fun i => decide (2 ^ m ≤ i))
      ((List.range' (2 ^ m) (2 ^ m)).map fun o => (List.range (m + 2)).map fun j =>
        entry (initMat (m + 4) (2 ^ (m + 1))) o j)).2 o
    rw [upper_eq, hknown] at hspec
    refine hspec fun hm => ?_
    rw [List.mem_range'_1] at hm
    omega
  have htop : ∀ j < 2 ^ m, (((encVec.getD (2 ^ m + j) []).filter
      fun x => x % 2 ^ (m + 1) < 2 ^ m).map (· % 2 ^ (m + 1))).getLastD 0 = 2 ^ m - 1 - j := by
    intro j hj
    rw [(top_spec (by omega) (by omega) (henc (2 ^ m + j) (by omega))).1, mir]
    omega
  obtain ⟨hlostRow, hkept⟩ := @foldl_rebuild
    (rebuildTop (2 ^ (m + 1)) encVec
      (column (m + 4) (2 ^ (m + 1)) (m + 3) (List.range' (2 ^ m) (2 ^ m)))
      (List.range' (2 ^ m) (2 ^ m)))
    (fun j => (((encVec.getD ((List.range' (2 ^ m) (2 ^ m)).getD j 0) []).filter
      fun x => x % 2 ^ (m + 1) < 2 ^ (m + 1) / 2).map (· % 2 ^ (m + 1))).getLastD 0)
    (fun _ => [])
    (fun j => (encVec.getD ((List.range' (2 ^ m) (2 ^ m)).getD j 0) []).filter
      (fun x => ¬ x % 2 ^ (m + 1) < 2 ^ (m + 1) / 2) ++
        [entry (column (m + 4) (2 ^ (m + 1)) (m + 3) (List.range' (2 ^ m) (2 ^ m))) j 0])
    (fun m j => rfl) known (2 ^ m)
    (fun j hj => by
      rw [hoff j hj, half_pow, htop j hj]
      exact hnone _ (by omega))
    (fun j hj j' hj' h => by
      rw [hoff j hj, hoff j' hj', half_pow, htop j hj, htop j' hj'] at h
      omega)
    (fun j _ d hd => absurd hd List.not_mem_nil)
  rw [List.length_range']
  refine @rebuilt_of_rows m (m + 2) (fun x => decide (2 ^ m ≤ x)) (fun x => decide (2 ^ m ≤ x))
    (mir (m + 1)) data _ (by omega) (fun v => ?_) (fun i hi hge => ?_) (fun o ho hge => ?_)
    fun i hi hlt => ?_
  · rw [hdata, ite_self, decide_eq_true_eq]
  · have hge := of_decide_eq_true hge
    rw [hkept i fun j hj h => ?_, hsome i hi hge]
    · exact knownRow_top hi
    · rw [hoff j hj, half_pow, htop j hj] at h
      omega
  · have hge := of_decide_eq_true hge
    have hj : o - 2 ^ m < 2 ^ m := by omega
    have hround := hlostRow (o - 2 ^ m) hj
    have ho' : 2 ^ m + (o - 2 ^ m) = o := by omega
    have hmir : 2 ^ m - 1 - (o - 2 ^ m) = mir (m + 1) o := by
      unfold mir
      omega
    have hentry : entry (column (m + 4) (2 ^ (m + 1)) (m + 3) (List.range' (2 ^ m) (2 ^ m)))
        (o - 2 ^ m) 0 = packet m (m + 3) o := by
      rw [entry, getD_column (fun o ho => by rw [List.mem_range'_1] at ho; omega) (by omega)
        (by simpa using hj), hoff _ hj, ho']
      rfl
    rw [hoff _ hj, half_pow, htop _ hj, ho', hmir, hentry] at hround
    rw [hround]
    exact ⟨Butterfly.mir_lt (m + 1) o, madeRow_top ho hge (henc o ho)⟩
  · have hlt : i < 2 ^ m := by simpa using hlt
    exact ⟨mir (m + 1) i, Butterfly.mir_lt (m + 1) i,
      decide_eq_true (Butterfly.half_le_mir hlt), Butterfly.mir_mir hi⟩

end

/-! ## The dispatch -/

section
variable {m r : Nat}

theorem decodeJoins_dst : (packets (2 ^ (m + 1)) [r]).getD 0 0 / 2 ^ (m + 1) = r := by
  have hpos := Nat.two_pow_pos (m + 1)
  have hdst : (packets (2 ^ (m + 1)) [r]).getD 0 0 = r * 2 ^ (m + 1) := by
    simp only [packets, List.flatMap_cons, List.flatMap_nil, List.append_nil]
    rw [getD_map_range _ _ hpos, Nat.add_zero]
  rw [hdst, Nat.mul_div_cancel _ hpos]

theorem length_dataOf (hr : r < m + 4) (P : Nat → Nat → Bool)
    (hP : ∀ i < m + 4, ((List.range (2 ^ (m + 1))).filter (P i)).length = 2 ^ m) :
    (dataOf (m + 4) (2 ^ (m + 1)) r fun i => (List.range (2 ^ (m + 1))).filter (P i)).length =
      (m + 4 - 1) * 2 ^ (m + 1) / 2 := by
  have hcount : ((List.range (m + 4)).filter (· ≠ r)).length = m + 3 := by
    rw [filter_ne_range (by omega : r ≤ m + 3), List.length_map, List.length_range]
  have hlen : ((List.range (m + 4)).filter (· ≠ r)).map (fun i =>
      ((List.range (2 ^ (m + 1))).filter (P i)).length) =
      ((List.range (m + 4)).filter (· ≠ r)).map fun _ => 2 ^ m :=
    List.map_congr_left fun i hi => hP i (List.mem_range.1 (List.mem_of_mem_filter hi))
  rw [dataOf, List.length_flatMap]
  simp only [List.length_map]
  rw [hlen, List.map_const', List.sum_replicate, hcount, smul_eq_mul, Nat.pow_succ,
    ← Nat.mul_assoc]
  exact (Nat.mul_div_cancel _ (by omega)).symm

theorem mem_dataOf (P : Nat → Nat → Bool) (v : Nat) :
    v ∈ dataOf (m + 4) (2 ^ (m + 1)) r (fun i => (List.range (2 ^ (m + 1))).filter (P i)) ↔
      v / 2 ^ (m + 1) < m + 4 ∧ v / 2 ^ (m + 1) ≠ r ∧
        P (v / 2 ^ (m + 1)) (v % 2 ^ (m + 1)) = true := by
  rw [dataOf_eq _ _ (Nat.two_pow_pos _), List.mem_filter, List.mem_range,
    Nat.div_lt_iff_lt_mul (Nat.two_pow_pos _)]
  simp

theorem joinRows_rebuilt (hr : r < m + 4) {P : Nat → Nat → Bool}
    (hP : ∀ i < m + 4, ((List.range (2 ^ (m + 1))).filter (P i)).length = 2 ^ m)
    {reads : Nat → Bool} (hreads : ∀ j < (m + 4) * 2 ^ (m + 1), reads j = true ↔
      j / 2 ^ (m + 1) ≠ r ∧ P (j / 2 ^ (m + 1)) (j % 2 ^ (m + 1)) = true) (rows : Nat → List Nat) :
    joinRows (m + 4) (2 ^ (m + 1)) (packets (2 ^ (m + 1)) [r])
        (dataOf (m + 4) (2 ^ (m + 1)) r fun i => (List.range (2 ^ (m + 1))).filter (P i))
        (parityDec (m + 4) (2 ^ (m + 1)) ((List.range (2 ^ (m + 1))).map rows) reads) =
      rebuiltJoins m r
        (dataOf (m + 4) (2 ^ (m + 1)) r fun i => (List.range (2 ^ (m + 1))).filter (P i)) rows := by
  refine joinRows_eq ?_ (length_dataOf hr P hP) rows
  rw [dataOf_eq _ _ (Nat.two_pow_pos _)]
  refine List.filter_congr fun j hj => ?_
  rw [Bool.eq_iff_iff, hreads j (List.mem_range.1 hj), decide_eq_true_eq]

theorem sameRows_eq (m r w : Nat) :
    sameRows (m + 2) w r = (List.range w).filter (Butterfly.sameDigits (m - r)) := by
  unfold sameRows
  rw [show m + 2 - r - 2 = m - r by omega]
  rfl

/-- **What the first three situations compute**: half of each surviving node is read, and each
lost packet rebuilt. -/
theorem decodeJoins_eq (hr : r < m + 3) : ∃ (P : Nat → Nat → Bool) (rows : Nat → List Nat),
    (∀ i < m + 4, ((List.range (2 ^ (m + 1))).filter (P i)).length = 2 ^ m) ∧
    Rebuilt m r (dataOf (m + 4) (2 ^ (m + 1)) r fun i => (List.range (2 ^ (m + 1))).filter (P i))
      rows ∧
    decodeJoins (m + 4) (m + 2) (2 ^ (m + 1)) (packets (2 ^ (m + 1)) [r]) =
      rebuiltJoins m r
        (dataOf (m + 4) (2 ^ (m + 1)) r fun i => (List.range (2 ^ (m + 1))).filter (P i)) rows := by
  have hmod : ∀ j, j % 2 ^ (m + 1) < 2 ^ (m + 1) := fun j => Nat.mod_lt _ (Nat.two_pow_pos _)
  unfold decodeJoins
  simp only [decodeJoins_dst]
  rcases Nat.lt_trichotomy r (m + 1) with hlt | heq | hgt
  · -- situation 1
    have hS := Butterfly.selects_sameDigits m r (by omega)
    rw [if_pos (by omega)]
    refine ⟨fun _ => Butterfly.sameDigits (m - r), _, fun _ _ => hS.lengthP,
      rebuilt_of_selects (by omega) hS
        (fun x => x ∉ (List.range (2 ^ (m + 1))).filter (Butterfly.sameDigits (m - r)))
        (fun x hx => ?_) fun v => ?_, ?_⟩
    · rw [Bool.eq_iff_iff]
      simp [hx]
    · rw [mem_dataOf, ite_self]
    · unfold situation1 decMat1
      simp only [sameRows_eq, half_pow]
      exact joinRows_rebuilt (by omega) (fun _ _ => hS.lengthP)
        (fun j _ => by simp [hmod j]) _
  · -- situation 2
    subst heq
    have hS := Butterfly.selects_odd m
    have heven : (List.range (2 ^ (m + 1))).filter (fun x => decide ¬ x % 2 = 1) =
        (List.range (2 ^ (m + 1))).filter Butterfly.even := by
      refine List.filter_congr fun x _ => ?_
      unfold Butterfly.even
      rw [decide_eq_decide]
      omega
    have hlen : ∀ i < m + 4, ((List.range (2 ^ (m + 1))).filter
        ((fun i => if i = m + 3 then Butterfly.odd else Butterfly.even) i)).length = 2 ^ m := by
      intro i _
      by_cases hi : i = m + 3
      · simp only [hi, if_true]
        exact hS.lengthP
      · simp only [hi, if_false]
        exact hS.lengthQ
    rw [if_neg (by omega), if_neg (by omega), if_pos rfl]
    refine ⟨fun i => if i = m + 3 then Butterfly.odd else Butterfly.even, _, hlen,
      rebuilt_of_selects (by omega) hS
        (fun x => x ∈ (List.range (2 ^ (m + 1))).filter Butterfly.odd)
        (fun x hx => ?_) fun v => ?_, ?_⟩
    · rw [Bool.eq_iff_iff]
      simp only [List.mem_filter, List.mem_range, hx, true_and, decide_eq_true_eq]
      unfold Butterfly.odd Butterfly.even
      simp
    · rw [mem_dataOf]
      split <;> rfl
    · unfold situation2 decMat2
      have hdata : (fun i => if i = m + 4 - 1 then
          (List.range (2 ^ (m + 1))).filter fun x => decide (x % 2 = 1)
          else (List.range (2 ^ (m + 1))).filter Butterfly.even) =
          fun i => (List.range (2 ^ (m + 1))).filter
            ((fun i => if i = m + 3 then Butterfly.odd else Butterfly.even) i) := by
        funext i
        by_cases hi : i = m + 3
        · simp only [hi, if_true]
          exact if_pos rfl
        · simp only [hi, if_false]
          exact if_neg hi
      simp only [heven, half_pow, hdata]
      refine joinRows_rebuilt (by omega) hlen (fun j _ => ?_) _
      by_cases hj : j / 2 ^ (m + 1) = m + 3
      · simp [hj, hmod j, Butterfly.odd]
      · simp [hj, hmod j]
  · -- situation 3
    obtain rfl : r = m + 2 := by omega
    have hlen : ((List.range (2 ^ (m + 1))).filter fun i => decide (2 ^ m ≤ i)).length = 2 ^ m := by
      rw [upper_eq, List.length_range']
    have hhalf : 2 ^ (m + 1) - 2 ^ m = 2 ^ m := by
      rw [Nat.pow_succ]
      omega
    rw [if_neg (by omega), if_pos rfl]
    refine ⟨fun _ i => decide (2 ^ m ≤ i), _, fun _ _ => hlen, rebuilt_top fun v => ?_, ?_⟩
    · rw [mem_dataOf, decide_eq_true_eq]
    · unfold situation3 decMat3
      simp only [half_pow, hhalf]
      rw [← upper_eq]
      refine joinRows_rebuilt (by omega) (fun _ _ => hlen) (fun j _ => ?_) _
      simp [hmod j]

end

/-! ## The contract -/

/-- `Decode` restores the failed node `r` of every codeword, from packets of the other nodes. -/
def RestoresAll (k r : Nat) : Prop :=
  ∀ data : Nat → GF256,
    (decode (k + 2) k (2 ^ (k - 1)) (packets (2 ^ (k - 1)) (survivors (k + 2) {r}))
      (packets (2 ^ (k - 1)) (losses (k + 2) {r}))).Restores
      (· ∈ packets (2 ^ (k - 1)) (survivors (k + 2) {r}))
      (packets (2 ^ (k - 1)) (losses (k + 2) {r}))
      ((encode (k + 2) k (2 ^ (k - 1))).eval data)

/-- The packets of node `i` that the repair of node `r` reads. -/
def readsOf (k r i : Nat) : List Nat :=
  (List.range (2 ^ (k - 1))).filter fun o => i * 2 ^ (k - 1) + o ∈
    (decode (k + 2) k (2 ^ (k - 1)) (packets (2 ^ (k - 1)) (survivors (k + 2) {r}))
      (packets (2 ^ (k - 1)) (losses (k + 2) {r}))).ecLeaves

/-- Half of each surviving node that is used. -/
def ReadsHalf (k r : Nat) : Prop :=
  ∀ i < k + 2, i ≠ r → readsOf k r i ≠ [] → 2 * (readsOf k r i).length = 2 ^ (k - 1)

section
variable {m r : Nat}

theorem restoresAll_of_lt (hr : r < m + 3) : RestoresAll (m + 2) r := by
  intro data
  obtain ⟨P, rows, -, h, hjoins⟩ := decodeJoins_eq hr
  have hlosses : losses (m + 4) {r} = [r] := losses_singleton (by omega)
  have hnodup : (dataOf (m + 4) (2 ^ (m + 1)) r fun i =>
      (List.range (2 ^ (m + 1))).filter (P i)).Nodup := by
    rw [dataOf_eq _ _ (Nat.two_pow_pos _)]
    exact List.nodup_range.filter _
  have hsub : ∀ v ∈ dataOf (m + 4) (2 ^ (m + 1)) r (fun i =>
      (List.range (2 ^ (m + 1))).filter (P i)),
      v ∈ packets (2 ^ (m + 1)) (survivors (m + 4) {r}) := fun v hv =>
    have hv := (mem_dataOf P v).1 hv
    mem_survivors_packets.2 ⟨hv.1, hv.2.1⟩
  have hrestores := h.restores hnodup hsub (by omega) (codeword_encode m data)
  rw [← hjoins, ← hlosses] at hrestores
  exact hrestores

theorem readsHalf_of_lt (hr : r < m + 3) : ReadsHalf (m + 2) r := by
  intro i hi hir _
  obtain ⟨P, rows, hlen, h, hjoins⟩ := decodeJoins_eq hr
  have hlosses : losses (m + 4) {r} = [r] := losses_singleton (by omega)
  have hsub : ∀ v ∈ dataOf (m + 4) (2 ^ (m + 1)) r (fun i =>
      (List.range (2 ^ (m + 1))).filter (P i)),
      v ∈ packets (2 ^ (m + 1)) (survivors (m + 4) {r}) := fun v hv =>
    have hv := (mem_dataOf P v).1 hv
    mem_survivors_packets.2 ⟨hv.1, hv.2.1⟩
  have hreads : readsOf (m + 2) r i = (List.range (2 ^ (m + 1))).filter (P i) := by
    refine List.filter_congr fun o ho => ?_
    have ho := List.mem_range.1 ho
    have hleaf := h.mem_leaves hsub (packet m i o)
    rw [mem_dataOf, packet_div i ho, packet_mod i ho, ← hjoins, ← hlosses] at hleaf
    rw [Bool.eq_iff_iff, decide_eq_true_eq]
    exact hleaf.trans ⟨fun h => h.2.2, fun h => ⟨hi, hir, h⟩⟩
  rw [hreads, hlen i hi]
  exact Nat.pow_succ'.symm

/-- In situation 4 the lost packets have no children: they keep whatever is there. -/
theorem not_restoresAll_last : ¬ RestoresAll (m + 2) (m + 3) := by
  intro hall
  have hpos := Nat.two_pow_pos (m + 1)
  have hlosses : losses (m + 4) {m + 3} = [m + 3] := losses_singleton (by omega)
  have hjoins : decodeJoins (m + 4) (m + 2) (2 ^ (m + 1)) (packets (2 ^ (m + 1)) [m + 3]) =
      situation4 (m + 4) (m + 2) (2 ^ (m + 1)) (packets (2 ^ (m + 1)) [m + 3]) := by
    unfold decodeJoins
    simp only [decodeJoins_dst]
    rw [if_neg (by omega), if_neg (by omega), if_neg (by omega), if_pos trivial]
  have hlost : packet m (m + 3) 0 ∈ packets (2 ^ (m + 1)) (losses (m + 4) {m + 3}) := by
    rw [hlosses, mem_packets hpos, packet_div _ hpos]
    exact List.mem_singleton_self _
  have hchild : (decode (m + 4) (m + 2) (2 ^ (m + 1))
      (packets (2 ^ (m + 1)) (survivors (m + 4) {m + 3}))
      (packets (2 ^ (m + 1)) (losses (m + 4) {m + 3}))).childIndices (packet m (m + 3) 0) = [] := by
    rw [hlosses]
    unfold decode
    rw [hjoins]
    refine ECDAG.childIndices_build_eq_nil fun j hj hv => ?_
    rcases List.mem_append.1 hj with hj | hj
    · -- the temporary ids start after the packets of the stripe
      obtain ⟨sid, -, hj⟩ := List.mem_flatMap.1 hj
      obtain ⟨i, -, rfl⟩ := List.mem_map.1 hj
      have hv : (m + 4) * 2 ^ (m + 1) + (sid - 1) * (2 ^ (m + 1) / 2) + i =
          (m + 3) * 2 ^ (m + 1) + 0 := hv
      have : (m + 4) * 2 ^ (m + 1) = (m + 3) * 2 ^ (m + 1) + 2 ^ (m + 1) := Nat.succ_mul ..
      omega
    · obtain ⟨d, -, rfl⟩ := List.mem_map.1 hj
      rfl
  let T := (encode (m + 4) (m + 2) (2 ^ (m + 1))).eval fun _ => (0 : GF256)
  have hvalue := (hall fun _ => 0).value
    (Function.update T (packet m (m + 3) 0) (T (packet m (m + 3) 0) + 1)) (fun v hv => ?_) _ hlost
  · have hwf := (ECDAG.built_build (decodeJoins (m + 4) (m + 2) (2 ^ (m + 1))
      (packets (2 ^ (m + 1)) (losses (m + 4) {m + 3})))).wellFormed
    have hkept := hwf.eval_leaf
      (Function.update T (packet m (m + 3) 0) (T (packet m (m + 3) 0) + 1)) hchild
    rw [Function.update_self] at hkept
    exact one_ne_zero (add_eq_left.1 (hkept.symm.trans hvalue))
  · refine Function.update_of_ne (fun he => ?_) ..
    rw [he] at hv
    exact (mem_survivors_packets.1 hv).2 (packet_div _ hpos)

end

/-- **`Decode` undoes `Encode`** unless the butterfly parity fails, and reads half of each node. -/
theorem decode_iff_ne_last {k r : Nat} (hk : 2 ≤ k) (hr : r < k + 2) :
    RestoresAll k r ∧ (r ≠ k + 1 → ReadsHalf k r) ↔ r ≠ k + 1 := by
  obtain ⟨m, rfl⟩ : ∃ m, k = m + 2 := ⟨k - 2, by omega⟩
  constructor
  · rintro ⟨hall, -⟩ rfl
    exact not_restoresAll_last hall
  · intro hne
    exact ⟨restoresAll_of_lt (by omega), fun _ => readsHalf_of_lt (by omega)⟩

theorem decode_iff_two : RestoresAll 2 0 ∧ ReadsHalf 2 0 := by
  obtain ⟨h1, h2⟩ := (decode_iff_ne_last (k := 2) (r := 0) (by omega) (by omega)).2 (by omega)
  exact ⟨h1, h2 (by omega)⟩

theorem last_node_not_restored : ¬ RestoresAll 2 3 := not_restoresAll_last

end BUTTERFLY

end StripeRepair

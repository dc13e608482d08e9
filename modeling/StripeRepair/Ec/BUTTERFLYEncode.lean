import StripeRepair.Ec.BUTTERFLY
import StripeRepair.Ec.Representation
import StripeRepair.Lib.Butterfly

/-!
# `BUTTERFLY`: the codewords

* `butterflyFunc_spec`: the rows of `butterfly_func` are the butterfly pattern.
* `codeword_encode`: what `Encode` computes satisfies the two parity equations.
-/

namespace StripeRepair

namespace BUTTERFLY

open Butterfly (mir rowsOf)

/-! ## The rows of `butterfly_func` -/

theorem getD_map_range {α : Type} (f : Nat → α) (d : α) {n i : Nat} (hi : i < n) :
    ((List.range n).map f).getD i d = f i := by
  rw [List.getD_eq_getElem _ _ (by simpa using hi), List.getElem_map, List.getElem_range]

theorem getD_map_range' {α : Type} (f : Nat → α) (d : α) {s n i : Nat} (hi : i < n) :
    ((List.range' s n).map f).getD i d = f (s + i) := by
  rw [List.getD_eq_getElem _ _ (by simpa using hi), List.getElem_map, List.getElem_range',
    Nat.one_mul]

section
variable {α : Type}

theorem getD_permMat (mat : List (List α)) {i : Nat} (hi : i < mat.length) :
    (permMat mat).getD i [] = mat.getD (mat.length - 1 - i) [] :=
  congrFun (List.getD_reverse i hi) []

theorem getD_addMat (mat1 mat2 : List (List α)) {i : Nat} (hi : i < mat1.length) :
    (addMat mat1 mat2).getD i [] = mat1.getD i [] ++ mat2.getD i [] := getD_map_range _ _ hi

@[simp] theorem length_permMat (mat : List (List α)) : (permMat mat).length = mat.length :=
  List.length_reverse

@[simp] theorem length_addMat (mat1 mat2 : List (List α)) : (addMat mat1 mat2).length = mat1.length := by
  simp [addMat]

section
variable [Inhabited α] (mat : List (List α)) (row rows col cols : Nat)

@[simp] theorem length_part : (part mat row rows col cols).length = rows := by simp [part]

theorem getD_part {i : Nat} (hi : i < rows) : (part mat row rows col cols).getD i [] =
    (List.range' col cols).map fun j => entry mat (row + i) j := getD_map_range' _ _ hi

theorem entry_part {i j : Nat} (hi : i < rows) (hj : j < cols) :
    entry (part mat row rows col cols) i j = entry mat (row + i) (col + j) := by
  rw [entry, getD_part _ _ _ _ _ hi]
  exact getD_map_range' _ _ hj

end

theorem entry_permMat [Inhabited α] (mat : List (List α)) {i j : Nat} (hi : i < mat.length) :
    entry (permMat mat) i j = entry mat (mat.length - 1 - i) j := by
  unfold entry
  rw [getD_permMat mat hi]

/-- What row `i` adds. -/
def terms (m : Nat) (f : Nat → Nat → α) (i : Nat) : List α :=
  (List.range (m + 1)).flatMap fun c => (rowsOf m c i).map fun x => f x c

theorem terms_congr {m i : Nat} {f g : Nat → Nat → α} (hi : i < 2 ^ m)
    (h : ∀ x < 2 ^ m, ∀ c ≤ m, f x c = g x c) : terms m f i = terms m g i := by
  refine List.flatMap_congr fun c hc => List.map_congr_left fun x hx => ?_
  rw [List.mem_range] at hc
  exact h x (Butterfly.rowsOf_lt hi hx) c (by omega)

theorem mem_terms_iff {m i : Nat} {f : Nat → Nat → α} {v : α} :
    v ∈ terms m f i ↔ ∃ c < m + 1, ∃ x ∈ rowsOf m c i, f x c = v := by
  unfold terms
  simp only [List.mem_flatMap, List.mem_range, List.mem_map]

/-- Nothing is added twice when the entries differ. -/
theorem nodup_terms_of {m i : Nat} {f : Nat → Nat → α} (hi : i < 2 ^ m)
    (hinj : ∀ x < 2 ^ m, ∀ c ≤ m, ∀ x' < 2 ^ m, ∀ c' ≤ m, f x c = f x' c' → x = x' ∧ c = c') :
    (terms m f i).Nodup := by
  unfold terms
  rw [List.nodup_flatMap]
  refine ⟨fun c hc => ?_, List.nodup_range.pairwise_of_forall_ne fun c hc c' hc' hne => ?_⟩
  · rw [List.mem_range] at hc
    refine (Butterfly.nodup_rowsOf hi).map_on fun x hx y hy h => ?_
    exact (hinj x (Butterfly.rowsOf_lt hi hx) c (by omega) y (Butterfly.rowsOf_lt hi hy) c
      (by omega) h).1
  · rw [List.mem_range] at hc hc'
    rw [Function.onFun, List.disjoint_left]
    intro v hv hv'
    obtain ⟨x, hx, rfl⟩ := List.mem_map.1 hv
    obtain ⟨y, hy, h⟩ := List.mem_map.1 hv'
    exact hne (hinj y (Butterfly.rowsOf_lt hi hy) c' (by omega) x (Butterfly.rowsOf_lt hi hx) c
      (by omega) h).2.symm

theorem terms_succ_lower (m : Nat) (f : Nat → Nat → α) {i : Nat} (hi : i < 2 ^ m) :
    terms (m + 1) f i = f (mir (m + 1) i) 0 :: terms m (fun x c => f x (c + 1)) i := by
  unfold terms
  rw [List.range_succ_eq_map, List.flatMap_cons, List.flatMap_map]
  simp only [rowsOf, if_pos hi]
  rfl

theorem terms_succ_upper (m : Nat) (f : Nat → Nat → α) {i : Nat} (hi : 2 ^ m ≤ i) :
    (terms (m + 1) f i).Perm
      (((List.range (m + 2)).map fun c => f (mir (m + 1) i) c) ++
        terms m (fun x c => f (mir (m + 1) x) (c + 1)) (mir (m + 1) i)) := by
  unfold terms
  rw [List.range_succ_eq_map, List.flatMap_cons, List.flatMap_map, List.map_cons, List.map_map]
  simp only [rowsOf, if_neg (not_lt.2 hi), List.map_cons, List.map_map, List.map_nil,
    List.cons_append, List.nil_append]
  exact List.Perm.cons _ (List.map_append_flatMap_perm _ _ _).symm

/-- **`butterfly_func`** is the butterfly pattern. -/
theorem butterflyFunc_spec [Inhabited α] (m : Nat) (mat : List (List α)) :
    (butterflyFunc mat (2 ^ m) (m + 1)).length = 2 ^ m ∧
      ∀ i < 2 ^ m, ((butterflyFunc mat (2 ^ m) (m + 1)).getD i []).Perm
        (terms m (entry mat) i) := by
  induction m generalizing mat with
  | zero =>
    refine ⟨rfl, fun i hi => ?_⟩
    obtain rfl : i = 0 := by omega
    exact List.Perm.refl _
  | succ m ih =>
    by_cases hm : m = 0
    · subst hm
      refine ⟨rfl, fun i hi => ?_⟩
      obtain rfl | rfl : i = 0 ∨ i = 1 := by omega
      · exact List.Perm.refl _
      · exact List.Perm.refl _
    · have hpow : 2 ^ (m + 1) = 2 * 2 ^ m := Nat.pow_succ'
      have hfour : 2 ≤ 2 ^ m := by
        obtain ⟨m, rfl⟩ : ∃ m', m = m' + 1 := ⟨m - 1, by omega⟩
        have := Nat.two_pow_pos m
        rw [Nat.pow_succ]
        omega
      have hhalf : 2 ^ (m + 1) / 2 = 2 ^ m := by omega
      have hrest : 2 ^ (m + 1) - 2 ^ m = 2 ^ m := by omega
      obtain ⟨hlenA, hA⟩ := ih (part mat 0 (2 ^ m) 1 (m + 1))
      obtain ⟨hlenB, hB⟩ := ih (permMat (part mat (2 ^ m) (2 ^ m) 1 (m + 1)))
      have hdef : butterflyFunc mat (2 ^ (m + 1)) (m + 1 + 1) =
          addMat (permMat (part mat (2 ^ m) (2 ^ m) 0 1))
            (butterflyFunc (part mat 0 (2 ^ m) 1 (m + 1)) (2 ^ m) (m + 1)) ++
          permMat (addMat (addMat (part mat 0 (2 ^ m) 0 1) (part mat 0 (2 ^ m) 1 (m + 1)))
            (butterflyFunc (permMat (part mat (2 ^ m) (2 ^ m) 1 (m + 1))) (2 ^ m) (m + 1))) := by
        rw [butterflyFunc, if_neg (by omega), if_neg (by omega)]
        simp only [hhalf, hrest]
      rw [hdef]
      refine ⟨by simp [hpow]; omega, fun i hi => ?_⟩
      by_cases hlt : i < 2 ^ m
      · have hb : (part mat (2 ^ m) (2 ^ m) 0 1).getD (2 ^ m - 1 - i) [] =
            [entry mat (mir (m + 1) i) 0] := by
          rw [getD_part _ _ _ _ _ (by omega)]
          have hmir : 2 ^ m + (2 ^ m - 1 - i) = mir (m + 1) i := by
            unfold mir
            omega
          rw [hmir]
          rfl
        rw [List.getD_append _ _ _ _ (by simpa using hlt), getD_addMat _ _ (by simpa using hlt),
          getD_permMat _ (by simpa using hlt), length_part, hb, terms_succ_lower m _ hlt]
        refine List.Perm.cons _ ((hA i hlt).trans (List.Perm.of_eq ?_))
        refine terms_congr hlt fun x hx c hc => ?_
        rw [entry_part _ _ _ _ _ hx (by omega), Nat.zero_add, Nat.add_comm]
      · have hmir := Butterfly.mir_lt_half (not_lt.1 hlt)
        have hidx : 2 ^ m - 1 - (i - 2 ^ m) = mir (m + 1) i := by
          unfold mir
          omega
        have hrows : List.range (m + 2) = List.range' 0 1 ++ List.range' 1 (m + 1) := by
          rw [List.range'_append_1, List.range_eq_range']
          congr 1
          omega
        rw [List.getD_append_right _ _ _ _ (by simpa using hlt), length_addMat, length_permMat,
          length_part, getD_permMat _ (by simp; omega), length_addMat, length_addMat, length_part,
          hidx, getD_addMat _ _ (by simpa using hmir), getD_addMat _ _ (by simpa using hmir),
          getD_part _ _ _ _ _ hmir, getD_part _ _ _ _ _ hmir, Nat.zero_add, ← List.map_append,
          ← hrows]
        refine List.Perm.trans ?_ (terms_succ_upper m _ (not_lt.1 hlt)).symm
        refine List.Perm.append_left _ ((hB _ hmir).trans (List.Perm.of_eq ?_))
        refine terms_congr hmir fun x hx c hc => ?_
        rw [entry_permMat _ (by simpa using hx), length_part,
          entry_part _ _ _ _ _ (by omega) (by omega), Nat.add_comm 1 c]
        congr 1
        unfold mir
        omega

end

/-! ## Sums of packets -/

section
variable (T : Nat → GF256)

/-- The sum of a list of packets. -/
def total (l : List Nat) : GF256 := (l.map T).sum

@[simp] theorem total_nil : total T [] = 0 := rfl

@[simp] theorem total_cons (x : Nat) (l : List Nat) : total T (x :: l) = T x + total T l := by
  simp [total]

@[simp] theorem total_append (l l' : List Nat) : total T (l ++ l') = total T l + total T l' := by
  simp [total]

theorem total_perm {l l' : List Nat} (h : l.Perm l') : total T l = total T l' :=
  (h.map T).sum_eq

theorem total_filter (p : Nat → Bool) (l : List Nat) :
    total T l = total T (l.filter p) + total T (l.filter fun x => !p x) := by
  rw [← total_append]
  exact total_perm T (List.filter_append_perm p l).symm

theorem total_flatMap {ι : Type} (f : ι → List Nat) (l : List ι) :
    total T (l.flatMap f) = (l.map fun a => total T (f a)).sum := by
  induction l with
  | nil => rfl
  | cons a l ih => rw [List.flatMap_cons, total_append, ih, List.map_cons, List.sum_cons]

/-- A row of ones and zeros adds the packets with a one. -/
theorem total_indicator {data l : List Nat} (hdata : data.Nodup) (hl : l.Nodup)
    (hsub : ∀ x ∈ l, x ∈ data) :
    (data.map fun j => GF256.ofInt (if j ∈ l then 1 else 0) * T j).sum = total T l := by
  have hperm : (data.filter (· ∈ l)).Perm l :=
    (List.perm_ext_iff_of_nodup (hdata.filter _) hl).2 fun x => by
      simpa using hsub x
  rw [← total_perm T hperm]
  clear hperm hsub hl hdata
  induction data with
  | nil => rfl
  | cons a data ih =>
    rw [List.map_cons, List.sum_cons, ih]
    by_cases ha : a ∈ l
    · rw [List.filter_cons_of_pos (by simpa using ha), total_cons, if_pos ha]
      simp
    · have hzero : GF256.ofInt 0 = 0 := by decide
      rw [List.filter_cons_of_neg (by simpa using ha), if_neg ha, hzero, zero_mul, zero_add]

/-- **Toggling** adds, and leaves each packet once. -/
theorem toggle_spec {l : List Nat} (hl : l.Nodup) (x : Nat) :
    (toggle l x).Nodup ∧ total T (toggle l x) = total T l + T x ∧
      ∀ y, y ≠ x → (y ∈ toggle l x ↔ y ∈ l) := by
  unfold toggle
  split
  · next hx =>
    refine ⟨?_, by simp, fun y hy => by simp [hy]⟩
    rw [← List.concat_eq_append]
    exact hl.concat hx
  · next hx =>
    rw [not_not] at hx
    have hfilter : l.filter (fun y => decide (y ≠ x)) = l.erase x := by
      rw [hl.erase_eq_filter]
      exact List.filter_congr fun y _ => by rw [Bool.eq_iff_iff]; simp
    refine ⟨hl.filter _, ?_, fun y hy => by simp [hy]⟩
    rw [hfilter, total_perm T (List.perm_cons_erase hx), total_cons, add_comm (T x), add_assoc,
      Gf.add_self, add_zero]

theorem foldl_toggle_spec {l : List Nat} (hl : l.Nodup) (xs : List Nat) :
    (xs.foldl toggle l).Nodup ∧ total T (xs.foldl toggle l) = total T l + total T xs ∧
      ∀ y, y ∉ xs → (y ∈ xs.foldl toggle l ↔ y ∈ l) := by
  induction xs generalizing l with
  | nil => exact ⟨hl, by simp, fun y _ => Iff.rfl⟩
  | cons x xs ih =>
    obtain ⟨h1, h2, h3⟩ := toggle_spec T hl x
    obtain ⟨h4, h5, h6⟩ := ih h1
    refine ⟨h4, ?_, fun y hy => ?_⟩
    · rw [List.foldl_cons, h5, h2, total_cons, add_assoc]
    · rw [List.mem_cons, not_or] at hy
      exact (h6 y hy.2).trans (h3 y hy.1)

end

/-! ## The equations of a codeword -/

/-- Packet `i` of node `c`, with `2 ^ (m + 1)` packets to a node. -/
def packet (m c i : Nat) : Nat := c * 2 ^ (m + 1) + i

theorem packet_div {m i : Nat} (c : Nat) (hi : i < 2 ^ (m + 1)) :
    packet m c i / 2 ^ (m + 1) = c := by
  unfold packet
  rw [Nat.mul_comm, Nat.mul_add_div (Nat.two_pow_pos _), Nat.div_eq_of_lt hi, Nat.add_zero]

theorem packet_mod {m i : Nat} (c : Nat) (hi : i < 2 ^ (m + 1)) :
    packet m c i % 2 ^ (m + 1) = i := by
  unfold packet
  rw [Nat.mul_comm, Nat.mul_add_mod, Nat.mod_eq_of_lt hi]

theorem packet_inj {m c c' i i' : Nat} (hi : i < 2 ^ (m + 1)) (hi' : i' < 2 ^ (m + 1))
    (h : packet m c i = packet m c' i') : c = c' ∧ i = i' := by
  constructor
  · rw [← packet_div c hi, h, packet_div c' hi']
  · rw [← packet_mod c hi, h, packet_mod c' hi']

/-- The two parities of a code with `m + 2` data nodes. -/
structure Codeword (m : Nat) (T : Nat → GF256) : Prop where
  rows : ∀ i < 2 ^ (m + 1), T (packet m (m + 2) i) =
    total T ((List.range (m + 2)).map fun c => packet m c i)
  butterfly : ∀ i < 2 ^ (m + 1), T (packet m (m + 3) i) =
    total T (terms (m + 1) (fun x c => packet m c x) i)

theorem entry_initMat {n w i j : Nat} (hi : i < w) (hj : j < n) :
    entry (initMat n w) i j = j * w + i := by
  rw [entry, initMat, getD_map_range _ _ hi, getD_map_range _ _ hj]

/-- A row of the butterfly over the packets of the stripe. -/
theorem encVec_perm {m n : Nat} (hn : m + 2 ≤ n) {i : Nat} (hi : i < 2 ^ (m + 1)) :
    ((butterflyFunc (initMat n (2 ^ (m + 1))) (2 ^ (m + 1)) (m + 2)).getD i []).Perm
      (terms (m + 1) (fun x c => packet m c x) i) := by
  refine ((butterflyFunc_spec (m + 1) _).2 i hi).trans (List.Perm.of_eq ?_)
  exact terms_congr hi fun x hx c hc => entry_initMat hx (by omega)

theorem nodup_terms {m i : Nat} (hi : i < 2 ^ (m + 1)) :
    (terms (m + 1) (fun x c => packet m c x) i).Nodup :=
  nodup_terms_of hi fun _ hx _ _ _ hx' _ _ h => (packet_inj hx hx' h).symm

theorem mem_terms {m i v : Nat} : v ∈ terms (m + 1) (fun x c => packet m c x) i ↔
    ∃ c < m + 2, ∃ x ∈ rowsOf (m + 1) c i, packet m c x = v := mem_terms_iff

theorem packets_range (w n : Nat) : packets w (List.range n) = List.range (n * w) := by
  induction n with
  | zero => simp [packets]
  | succ n ih =>
    rw [List.range_succ, packets, List.flatMap_append, ← packets, ih, Nat.succ_mul, List.range_add]
    simp

/-! ## Encode -/

/-- A `Join` of the packets below `N`, those in `l` with a one. -/
theorem combine_indicator (T : Nat → GF256) {dst N : Nat} {l : List Nat} (hl : l.Nodup)
    (hsub : ∀ x ∈ l, x < N) {coef : Nat → Int} (hcoef : ∀ j < N, coef j = if j ∈ l then 1 else 0) :
    LinearProgram.combine (Join.instr ⟨dst, List.range N, (List.range N).map coef⟩).args T =
      total T l := by
  have hid : List.range N = (List.range N).map id := (List.map_id _).symm
  rw [← total_indicator T List.nodup_range hl fun x hx => List.mem_range.2 (hsub x hx)]
  simp only [Join.instr]
  rw [List.map_map]
  conv_lhs => rw [hid]
  rw [List.map_map, LinearProgram.combine_zip_map]
  congr 1
  refine List.map_congr_left fun j hj => ?_
  rw [List.mem_range] at hj
  simp only [Function.comp_apply, id_eq, smul_eq_mul, hcoef j hj]

theorem packets_range' (w s n : Nat) :
    packets w (List.range' s n) = (List.range (n * w)).map fun i => s * w + i := by
  rw [← packets_range, packets, packets, List.range'_eq_map_range, List.flatMap_map,
    List.map_flatMap]
  refine List.flatMap_congr fun b _ => ?_
  rw [List.map_map]
  refine List.map_congr_left fun o _ => ?_
  rw [Function.comp_apply, Nat.add_mul, Nat.add_assoc]

theorem encodeJoins_eq (m : Nat) : encodeJoins (m + 4) (m + 2) (2 ^ (m + 1)) =
    (List.range (2 * 2 ^ (m + 1))).map fun i =>
      ⟨packet m (m + 2) i, List.range ((m + 2) * 2 ^ (m + 1)),
        (List.range ((m + 2) * 2 ^ (m + 1))).map
          (encMatrix (m + 2) (2 ^ (m + 1)) (packet m (m + 2) i))⟩ := by
  unfold encodeJoins
  have hsub : m + 4 - (m + 2) = 2 := by omega
  simp only [hsub, packets_range, packets_range']
  refine List.map_congr_left fun i hi => ?_
  rw [List.mem_range] at hi
  rw [getD_map_range _ _ hi]
  rfl

/-- The rows of the generator are the two parities. -/
theorem combine_encodeJoin {m i : Nat} (hi : i < 2 * 2 ^ (m + 1)) (T : Nat → GF256) (dst : Nat) :
    LinearProgram.combine (Join.instr ⟨dst, List.range ((m + 2) * 2 ^ (m + 1)),
        (List.range ((m + 2) * 2 ^ (m + 1))).map
          (encMatrix (m + 2) (2 ^ (m + 1)) (packet m (m + 2) i))⟩).args T =
      if i < 2 ^ (m + 1) then total T ((List.range (m + 2)).map fun c => packet m c i)
      else total T (terms (m + 1) (fun x c => packet m c x) (i - 2 ^ (m + 1))) := by
  have hlow : ¬ packet m (m + 2) i < (m + 2) * 2 ^ (m + 1) := by
    unfold packet
    omega
  have hbound : ∀ c < m + 2, ∀ x < 2 ^ (m + 1), packet m c x < (m + 2) * 2 ^ (m + 1) := by
    intro c hc x hx
    have := Nat.mul_le_mul_right (2 ^ (m + 1)) (by omega : c + 1 ≤ m + 2)
    unfold packet
    rw [Nat.succ_mul] at this
    omega
  split
  · next hlt =>
    refine combine_indicator T ?_ (fun x hx => ?_) fun j hj => ?_
    · exact List.nodup_range.map fun a b h => (packet_inj hlt hlt h).1
    · obtain ⟨c, hc, rfl⟩ := List.mem_map.1 hx
      exact hbound c (List.mem_range.1 hc) i hlt
    · have hmod := packet_mod (m := m) (m + 2) hlt
      have hsub : packet m (m + 2) i - (m + 2) * 2 ^ (m + 1) = i := by
        unfold packet
        omega
      have hrow : packet m (m + 2) i < (m + 2) * 2 ^ (m + 1) + 2 ^ (m + 1) := by
        unfold packet
        omega
      rw [encMatrix, if_neg hlow, if_pos hrow, hmod, hsub]
      refine if_congr ?_ rfl rfl
      simp only [true_and, List.mem_map, List.mem_range, packet, Nat.mul_comm (2 ^ (m + 1))]
      exact ⟨fun ⟨b, hb, h⟩ => ⟨b, hb, h.symm⟩, fun ⟨b, hb, h⟩ => ⟨b, hb, h.symm⟩⟩
  · next hge =>
    have hlt : i - 2 ^ (m + 1) < 2 ^ (m + 1) := by omega
    refine combine_indicator T (nodup_terms hlt) (fun x hx => ?_) fun j hj => ?_
    · obtain ⟨c, hc, y, hy, rfl⟩ := mem_terms.1 hx
      exact hbound c hc y (Butterfly.rowsOf_lt hlt hy)
    · have hrow : ¬ packet m (m + 2) i < (m + 2) * 2 ^ (m + 1) + 2 ^ (m + 1) := by
        unfold packet
        omega
      have hsub : packet m (m + 2) i - (m + 2 + 1) * 2 ^ (m + 1) = i - 2 ^ (m + 1) := by
        have : (m + 2 + 1) * 2 ^ (m + 1) = (m + 2) * 2 ^ (m + 1) + 2 ^ (m + 1) := Nat.succ_mul ..
        unfold packet
        omega
      rw [encMatrix, if_neg hlow, if_neg hrow, hsub]
      exact if_congr (encVec_perm le_rfl hlt).mem_iff rfl rfl

/-- **What `Encode` computes.** -/
theorem codeword_encode (m : Nat) (data : Nat → GF256) :
    Codeword m ((encode (m + 4) (m + 2) (2 ^ (m + 1))).eval data) := by
  have hpos := Nat.two_pow_pos (m + 1)
  have hmem : ∀ {j}, j ∈ encodeJoins (m + 4) (m + 2) (2 ^ (m + 1)) → ∃ i < 2 * 2 ^ (m + 1),
      j = ⟨packet m (m + 2) i, List.range ((m + 2) * 2 ^ (m + 1)),
        (List.range ((m + 2) * 2 ^ (m + 1))).map
          (encMatrix (m + 2) (2 ^ (m + 1)) (packet m (m + 2) i))⟩ := by
    intro j hj
    rw [encodeJoins_eq] at hj
    obtain ⟨i, hi, rfl⟩ := List.mem_map.1 hj
    exact ⟨i, List.mem_range.1 hi, rfl⟩
  have hord : JoinsOrdered (· < (m + 2) * 2 ^ (m + 1))
      (encodeJoins (m + 4) (m + 2) (2 ^ (m + 1))) := by
    refine LinearProgram.ordered_of_forall fun j hj c hc => ?_
    obtain ⟨i, -, rfl⟩ := hmem hj
    exact List.mem_range.1 hc
  have hne : ∀ j ∈ encodeJoins (m + 4) (m + 2) (2 ^ (m + 1)), j.cidx ≠ [] := by
    intro j hj h0
    obtain ⟨i, -, rfl⟩ := hmem hj
    have hlen := congrArg List.length h0
    rw [List.length_range, List.length_nil] at hlen
    have := Nat.mul_pos (by omega : 0 < m + 2) hpos
    omega
  have hnodup : ((encodeJoins (m + 4) (m + 2) (2 ^ (m + 1))).map Join.pidx).Nodup := by
    rw [encodeJoins_eq, List.map_map]
    refine List.nodup_range.map fun a b h => ?_
    simp only [Function.comp_apply, packet] at h
    omega
  have hfresh : ∀ j ∈ encodeJoins (m + 4) (m + 2) (2 ^ (m + 1)),
      ¬ j.pidx < (m + 2) * 2 ^ (m + 1) := by
    intro j hj
    obtain ⟨i, -, rfl⟩ := hmem hj
    simp only [packet]
    omega
  have heval := eval_build_pidx hord hne hnodup hfresh data
  have hjoin : ∀ i < 2 * 2 ^ (m + 1),
      (encode (m + 4) (m + 2) (2 ^ (m + 1))).eval data (packet m (m + 2) i) =
      if i < 2 ^ (m + 1) then total ((encode (m + 4) (m + 2) (2 ^ (m + 1))).eval data)
        ((List.range (m + 2)).map fun c => packet m c i)
      else total ((encode (m + 4) (m + 2) (2 ^ (m + 1))).eval data)
        (terms (m + 1) (fun x c => packet m c x) (i - 2 ^ (m + 1))) := by
    intro i hi
    have hin := List.mem_map_of_mem (f := fun i => (⟨packet m (m + 2) i,
      List.range ((m + 2) * 2 ^ (m + 1)), (List.range ((m + 2) * 2 ^ (m + 1))).map
        (encMatrix (m + 2) (2 ^ (m + 1)) (packet m (m + 2) i))⟩ : Join)) (List.mem_range.2 hi)
    rw [← encodeJoins_eq] at hin
    exact (heval _ hin).trans (combine_encodeJoin hi _ _)
  refine ⟨fun i hi => ?_, fun i hi => ?_⟩
  · rw [hjoin i (by omega), if_pos hi]
  · have hnext : packet m (m + 3) i = packet m (m + 2) (2 ^ (m + 1) + i) := by
      have : (m + 3) * 2 ^ (m + 1) = (m + 2) * 2 ^ (m + 1) + 2 ^ (m + 1) := Nat.succ_mul ..
      unfold packet
      omega
    rw [hnext, hjoin _ (by omega), if_neg (by omega), Nat.add_sub_cancel_left]

end BUTTERFLY

end StripeRepair

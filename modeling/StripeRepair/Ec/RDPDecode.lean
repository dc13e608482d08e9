import StripeRepair.Ec.RDP
import StripeRepair.Ec.Computation

/-!
# `RDP`: repair of one node

With `w = k` rows and `n = k + 2` nodes, row `k` of the array is missing. Each diagonal but
the last has one parity packet, and one packet of each of the first `k + 1` nodes, apart from
the one whose packet of the diagonal would be in the missing row.

* `coversDiagonal`: the diagonals that the constructor fills.
* `codeword_encode`: what `Encode` computes.
* `restores_column`: the repair of each node.
-/

namespace StripeRepair

namespace RDP

/-! ## The packets of a diagonal -/

section
variable {k : Nat}

theorem diag_mod {r c : Nat} (hr : r < k + 1) (hc : c < k + 1) :
    (r + c) % (k + 1) = if r + c < k + 1 then r + c else r + c - (k + 1) := by
  split
  · next h => exact Nat.mod_eq_of_lt h
  · next h => rw [Nat.mod_eq_sub_mod (by omega), Nat.mod_eq_of_lt (by omega)]

theorem idxOf_div {r c w : Nat} (hr : r < w) : idxOf w (r, c) / w = c := by
  show (c * w + r) / w = c
  rw [Nat.mul_comm, Nat.mul_add_div (by omega), Nat.div_eq_of_lt hr, Nat.add_zero]

theorem idxOf_mod {r c w : Nat} (hr : r < w) : idxOf w (r, c) % w = r := by
  show (c * w + r) % w = r
  rw [Nat.mul_comm, Nat.mul_add_mod, Nat.mod_eq_of_lt hr]

theorem mem_symbols_iff {n w : Nat} {e : Nat × Nat} : e ∈ symbols n w ↔ e.1 < w ∧ e.2 < n := by
  show e ∈ List.range w ×ˢ List.range n ↔ _
  rw [List.mem_product, List.mem_range, List.mem_range]

theorem nodup_symbols (n w : Nat) : (symbols n w).Nodup :=
  List.Nodup.product List.nodup_range List.nodup_range

theorem mem_diag2data_iff {d v : Nat} (hk : 0 < k) (hd : d < k) : v ∈ diag2data (k + 2) k k d ↔
    v / k < k + 1 ∧ (v % k + v / k) % (k + 1) = d := by
  have hsplit : idxOf k (v % k, v / k) = v := Nat.div_add_mod' v k
  constructor
  · intro hv
    obtain ⟨⟨r, c⟩, he, rfl⟩ := List.mem_map.1 hv
    obtain ⟨he, hp⟩ := List.mem_filter.1 he
    obtain ⟨hdiag, -, hlt⟩ := of_decide_eq_true hp
    have hr : r < k := (mem_symbols_iff.1 he).1
    rw [idxOf_div hr, idxOf_mod hr]
    refine ⟨?_, hdiag⟩
    rw [← idxOf_div (c := c) hr]
    exact Nat.div_lt_of_lt_mul (Nat.mul_comm k (p k) ▸ hlt)
  · rintro ⟨hc, hdiag⟩
    refine List.mem_map.2 ⟨(v % k, v / k), List.mem_filter.2 ⟨mem_symbols_iff.2 ?_, ?_⟩, hsplit⟩
    · exact ⟨Nat.mod_lt _ hk, Nat.lt_succ_of_lt hc⟩
    · refine decide_eq_true ⟨hdiag, hd, ?_⟩
      exact offset_lt hc (Nat.mod_lt _ hk)

theorem nodup_diag2data (d : Nat) : (diag2data (k + 2) k k d).Nodup := by
  refine List.Nodup.map_on ?_ ((nodup_symbols _ _).filter _)
  rintro ⟨r, c⟩ he ⟨r', c'⟩ he' h
  have hr : r < k := (mem_symbols_iff.1 (List.mem_of_mem_filter he)).1
  have hr' : r' < k := (mem_symbols_iff.1 (List.mem_of_mem_filter he')).1
  have h1 := congrArg (· % k) h
  have h2 := congrArg (· / k) h
  simp only [idxOf_mod hr, idxOf_mod hr', idxOf_div hr, idxOf_div hr'] at h1 h2
  rw [h1, h2]

/-- The packets of one node on a diagonal: one, or none when it would be in row `k`. -/
theorem length_column {c d : Nat} (hk : 0 < k) (hc : c < k + 1) (hd : d < k) :
    ((diag2data (k + 2) k k d).filter (· / k = c)).length =
      if (k + c) % (k + 1) = d then 0 else 1 := by
  have hmem : ∀ v, v ∈ (diag2data (k + 2) k k d).filter (· / k = c) ↔
      v / k = c ∧ (v % k + c) % (k + 1) = d := by
    intro v
    rw [List.mem_filter, mem_diag2data_iff hk hd, decide_eq_true_iff]
    constructor
    · rintro ⟨⟨-, h⟩, rfl⟩
      exact ⟨rfl, h⟩
    · rintro ⟨rfl, h⟩
      exact ⟨⟨hc, h⟩, rfl⟩
  -- the row of the diagonal in node `c`
  have hrow : ∀ r < k + 1, (r + c) % (k + 1) = d ↔ r = if c ≤ d then d - c else d + (k + 1) - c := by
    intro r hr
    rw [diag_mod hr hc]
    split <;> split <;> omega
  split
  · next hmiss =>
    rw [List.length_eq_zero_iff, List.eq_nil_iff_forall_not_mem]
    intro v hv
    have hlt : v % k < k := Nat.mod_lt _ hk
    have h1 := (hrow _ (Nat.lt_succ_of_lt hlt)).1 ((hmem v).1 hv).2
    have h2 := (hrow k (Nat.lt_succ_self k)).1 hmiss
    omega
  · next hmiss =>
    have hr : (if c ≤ d then d - c else d + (k + 1) - c) < k := by
      rw [hrow k (Nat.lt_succ_self k)] at hmiss
      split at hmiss <;> split <;> omega
    generalize hrdef : (if c ≤ d then d - c else d + (k + 1) - c) = r at hrow hr
    have hperm : ((diag2data (k + 2) k k d).filter (· / k = c)).Perm [idxOf k (r, c)] := by
      refine (List.perm_ext_iff_of_nodup ((nodup_diag2data d).filter _)
        (List.nodup_singleton _)).2 fun v => ?_
      rw [hmem, List.mem_singleton]
      constructor
      · rintro ⟨hv, hdiag⟩
        have hlt : v % k < k := Nat.mod_lt _ hk
        rw [← (hrow _ (Nat.lt_succ_of_lt hlt)).1 hdiag, ← hv]
        exact (Nat.div_add_mod' v k).symm
      · rintro rfl
        rw [idxOf_div hr, idxOf_mod hr]
        exact ⟨rfl, (hrow r (Nat.lt_succ_of_lt hr)).2 rfl⟩
    rw [hperm.length_eq, List.length_singleton]

/-! ## The parity packet of a diagonal -/

/-- `insert` keeps the first packet of each diagonal. -/
theorem lookup_foldl (l : List (Nat × Nat)) (m : AList fun _ : Nat => Nat) (d : Nat) :
    (l.foldl (fun m e => if diagOf k e ∈ m then m else m.insert (diagOf k e) (idxOf k e)) m).lookup
      d = (m.lookup d).or ((l.find? fun e => diagOf k e = d).map (idxOf k)) := by
  induction l generalizing m with
  | nil =>
    show m.lookup d = _
    rw [List.find?_nil, Option.map_none, Option.or_none]
  | cons e l ih =>
    rw [List.foldl_cons, ih, List.find?_cons]
    by_cases hd : diagOf k e = d
    · rw [decide_eq_true hd]
      split
      · next hm =>
        rw [hd] at hm
        obtain ⟨u, hu⟩ := Option.isSome_iff_exists.1 (AList.lookup_isSome.2 hm)
        rw [hu]
        rfl
      · next hm =>
        rw [hd] at hm ⊢
        rw [AList.lookup_insert, AList.lookup_eq_none.2 hm]
        rfl
    · rw [decide_eq_false hd]
      split
      · rfl
      · rw [AList.lookup_insert_ne fun h => hd h.symm]

theorem lookup_diag2code (d : Nat) :
    (diag2code (k + 2) k k).lookup d = if d < k then some ((k + 1) * k + d) else none := by
  rw [diag2code, lookup_foldl, AList.lookup_empty, Option.none_or]
  -- after the rows there is only the last node, on diagonal `r` in row `r`
  have hcode : ∀ e ∈ (symbols (k + 2) k).filter fun e =>
      diagOf k e < k ∧ ¬ idxOf k e < p k * k, e.1 < k ∧ e.2 = k + 1 ∧ diagOf k e = e.1 := by
    rintro ⟨r, c⟩ he
    obtain ⟨he, hp⟩ := List.mem_filter.1 he
    obtain ⟨-, hge⟩ := of_decide_eq_true hp
    obtain ⟨hr, hc⟩ := mem_symbols_iff.1 he
    have hlast : c = k + 1 := by
      by_contra hne
      exact hge (offset_lt (show c < k + 1 by omega) hr)
    subst hlast
    refine ⟨hr, rfl, ?_⟩
    show (r + (k + 1)) % (k + 1) = r
    rw [Nat.add_mod_right, Nat.mod_eq_of_lt (Nat.lt_succ_of_lt hr)]
  cases hfind : ((symbols (k + 2) k).filter fun e =>
      diagOf k e < k ∧ ¬ idxOf k e < p k * k).find? fun e => diagOf k e = d with
  | none =>
    rw [Option.map_none]
    split
    · next hd =>
      exfalso
      have hdiag : diagOf k (d, k + 1) = d := by
        show (d + (k + 1)) % (k + 1) = d
        rw [Nat.add_mod_right, Nat.mod_eq_of_lt (Nat.lt_succ_of_lt hd)]
      refine List.find?_eq_none.1 hfind (d, k + 1) (List.mem_filter.2
        ⟨mem_symbols_iff.2 ⟨hd, Nat.lt_succ_self _⟩, decide_eq_true ⟨?_, ?_⟩⟩)
        (decide_eq_true hdiag)
      · rwa [hdiag]
      · exact Nat.not_lt.2 (Nat.le_add_right _ _)
    · rfl
  | some e =>
    obtain ⟨hr, hc, hdiag⟩ := hcode e (List.mem_of_find?_eq_some hfind)
    have hfound := List.find?_some hfind
    have hd : e.1 = d := hdiag.symm.trans (of_decide_eq_true hfound)
    rw [← hd, if_pos hr, Option.map_some, idxOf, hc]

theorem mem_entries_diag2code (item : Sigma fun _ : Nat => Nat) :
    item ∈ (diag2code (k + 2) k k).entries ↔ item.1 < k ∧ item.2 = (k + 1) * k + item.1 := by
  obtain ⟨d, u⟩ := item
  rw [← AList.mem_lookup_iff, lookup_diag2code]
  show (if d < k then some ((k + 1) * k + d) else none) = some u ↔ d < k ∧ u = _
  split
  · next h =>
    rw [Option.some.injEq]
    exact ⟨fun he => ⟨h, he.symm⟩, fun he => he.2.symm⟩
  · next h =>
    constructor
    · rintro ⟨⟩
    · exact fun he => absurd he.1 h

/-- What a diagonal has: `code`, and one packet of each node of the rows but one. -/
structure CoversDiagonal (k d : Nat) : Prop where
  code : ∃ u, (diag2code (k + 2) k k).lookup d = some u ∧
    ∀ v, v = u ↔ v / k = k + 1 ∧ (v % k + v / k) % (k + 1) = d
  inner : ∀ v ∈ diag2data (k + 2) k k d, v / k < k + 1 ∧ (v % k + v / k) % (k + 1) = d
  missing : ∃! c, c < k + 1 ∧ (k + c) % (k + 1) = d
  column : ∀ c < k + 1, ((diag2data (k + 2) k k d).filter (· / k = c)).length =
    if (k + c) % (k + 1) = d then 0 else 1

theorem coversDiagonal {d : Nat} (hk : 0 < k) (hd : d < k) : CoversDiagonal k d := by
  refine ⟨⟨(k + 1) * k + d, ?_, fun v => ⟨?_, ?_⟩⟩, fun v hv => (mem_diag2data_iff hk hd).1 hv,
    ⟨d + 1, ⟨by omega, ?_⟩, ?_⟩, fun c hc => length_column hk hc hd⟩
  · rw [lookup_diag2code, if_pos hd]
  · rintro rfl
    have h1 : ((k + 1) * k + d) / k = k + 1 := idxOf_div hd
    have h2 : ((k + 1) * k + d) % k = d := idxOf_mod hd
    rw [h1, h2, Nat.add_mod_right, Nat.mod_eq_of_lt (Nat.lt_succ_of_lt hd)]
    exact ⟨rfl, rfl⟩
  · rintro ⟨hv, hdiag⟩
    rw [hv, Nat.add_mod_right, Nat.mod_eq_of_lt (Nat.lt_succ_of_lt (Nat.mod_lt _ hk))] at hdiag
    rw [← hv, ← hdiag]
    exact (Nat.div_add_mod' v k).symm
  · rw [diag_mod (Nat.lt_succ_self k) (by omega)]
    split <;> omega
  · rintro c ⟨hc, hdiag⟩
    rw [diag_mod (Nat.lt_succ_self k) hc] at hdiag
    split at hdiag <;> omega

end

/-! ## What `Encode` computes -/

section
variable {k : Nat} {M : Type} [AddCommMonoid M] [Module GF256 M]

theorem combine_xorJoin (code : Nat) (data : List Nat) (T : Nat → M) :
    LinearProgram.combine (xorJoin code data).instr.args T = (data.map T).sum := by
  have hid : data = data.map id := (List.map_id _).symm
  simp only [xorJoin, Join.instr, List.map_map]
  conv_lhs => rw [hid]
  rw [List.map_map, LinearProgram.combine_zip_map]
  simp

/-- The parities of a codeword. -/
structure Codeword (k : Nat) (T : Nat → M) : Prop where
  row : ∀ i < k, T (k * k + i) = (((List.range k).map fun j => j * k + i).map T).sum
  diag : ∀ d < k, T ((k + 1) * k + d) = ((diag2data (k + 2) k k d).map T).sum

theorem diag2data_ne_nil {d : Nat} (hk : 2 ≤ k) (hd : d < k) : diag2data (k + 2) k k d ≠ [] := by
  intro hnil
  -- of the nodes 0 and 1 at most one lacks a packet of the diagonal
  have h0 := length_column (show 0 < k by omega) (show 0 < k + 1 by omega) hd
  have h1 := length_column (show 0 < k by omega) (show 1 < k + 1 by omega) hd
  rw [hnil, diag_mod (Nat.lt_succ_self k) (by omega)] at h0 h1
  simp only [List.filter_nil, List.length_nil] at h0 h1
  split at h0
  · next h => split at h0 <;> omega
  · omega

/-- **What `Encode` computes**, for each order of the hash map. -/
theorem codeword_encode (hk : 2 ≤ k) (ord : HashOrder Unit) (data : Nat → M) :
    Codeword k ((encode (k + 2) k k ord).eval data) := by
  have hk0 : 0 < k := by omega
  have hrows : ∀ {j}, j ∈ (List.range k).map (fun i => xorJoin (k * k + i)
      ((List.range k).map fun j => j * k + i)) → ∃ i < k, j = xorJoin (k * k + i)
      ((List.range k).map fun j => j * k + i) := by
    intro j hj
    obtain ⟨i, hi, rfl⟩ := List.mem_map.1 hj
    exact ⟨i, List.mem_range.1 hi, rfl⟩
  have hdiags : ∀ {j}, j ∈ (ord.order () (diag2code (k + 2) k k).entries).map (fun item =>
      xorJoin item.2 (diag2data (k + 2) k k item.1)) → ∃ d < k,
      j = xorJoin ((k + 1) * k + d) (diag2data (k + 2) k k d) := by
    intro j hj
    obtain ⟨item, hitem, rfl⟩ := List.mem_map.1 hj
    obtain ⟨h1, h2⟩ := (mem_entries_diag2code item).1 ((ord.mem_order () _ _).1 hitem)
    exact ⟨item.1, h1, by rw [h2]⟩
  have hsucc : (k + 1) * k = k * k + k := Nat.succ_mul k k
  have hord : JoinsOrdered (· < k * k) (encodeJoins (k + 2) k k ord) := by
    refine LinearProgram.ordered_append.2 ⟨LinearProgram.ordered_of_forall fun j hj c hc => ?_,
      LinearProgram.ordered_of_forall fun j hj c hc => ?_⟩
    · obtain ⟨i, hi, rfl⟩ := hrows hj
      obtain ⟨b, hb, rfl⟩ := List.mem_map.1 hc
      exact offset_lt (List.mem_range.1 hb) hi
    · obtain ⟨d, hd, rfl⟩ := hdiags hj
      have hlt : c < (k + 1) * k := by
        have hdiv := ((mem_diag2data_iff hk0 hd).1 hc).1
        exact (Nat.div_lt_iff_lt_mul hk0).1 hdiv
      by_cases hc' : c < k * k
      · exact Or.inl hc'
      · refine Or.inr (List.mem_map.2 ⟨_, List.mem_map_of_mem
          (List.mem_range.2 (show c - k * k < k by omega)), ?_⟩)
        show k * k + (c - k * k) = c
        omega
  have hne : ∀ j ∈ encodeJoins (k + 2) k k ord, j.cidx ≠ [] := by
    intro j hj
    rcases List.mem_append.1 hj with hj | hj
    · obtain ⟨i, hi, rfl⟩ := hrows hj
      intro h0
      have hlen := congrArg List.length h0
      simp only [xorJoin, List.length_map, List.length_range, List.length_nil] at hlen
      omega
    · obtain ⟨d, hd, rfl⟩ := hdiags hj
      exact diag2data_ne_nil hk hd
  have hnodup : ((encodeJoins (k + 2) k k ord).map Join.pidx).Nodup := by
    rw [encodeJoins, List.map_append, List.nodup_append, List.map_map, List.map_map]
    refine ⟨List.nodup_range.map fun a b h => ?_, ?_, ?_⟩
    · exact Nat.add_left_cancel h
    · have hkeys : ((ord.order () (diag2code (k + 2) k k).entries).map Sigma.fst).Nodup :=
        ((ord.perm () _).map Sigma.fst).nodup_iff.2 (diag2code (k + 2) k k).keys_nodup
      refine List.Nodup.map_on (fun a ha b hb h => ?_) hkeys.of_map
      have ha := (mem_entries_diag2code a).1 ((ord.mem_order () _ _).1 ha)
      have hb := (mem_entries_diag2code b).1 ((ord.mem_order () _ _).1 hb)
      have h : a.2 = b.2 := h
      obtain ⟨a1, a2⟩ := a
      obtain ⟨b1, b2⟩ := b
      obtain ⟨rfl, rfl⟩ : a1 = b1 ∧ a2 = b2 := ⟨by simp only at ha hb h; omega, h⟩
      rfl
    · intro a ha b hb
      obtain ⟨i, hi, rfl⟩ := List.mem_map.1 ha
      obtain ⟨item, hitem, rfl⟩ := List.mem_map.1 hb
      have hi := List.mem_range.1 hi
      have h2 := ((mem_entries_diag2code item).1 ((ord.mem_order () _ _).1 hitem)).2
      show k * k + i ≠ item.2
      omega
  have hfresh : ∀ j ∈ encodeJoins (k + 2) k k ord, ¬ j.pidx < k * k := by
    intro j hj
    rcases List.mem_append.1 hj with hj | hj
    · obtain ⟨i, hi, rfl⟩ := hrows hj
      exact Nat.not_lt.2 (Nat.le_add_right _ _)
    · obtain ⟨d, hd, rfl⟩ := hdiags hj
      show ¬ (k + 1) * k + d < k * k
      omega
  have heval := eval_build_pidx hord hne hnodup hfresh data
  refine ⟨fun i hi => ?_, fun d hd => ?_⟩
  · exact (heval _ (List.mem_append_left _ (List.mem_map_of_mem (List.mem_range.2 hi)))).trans
      (combine_xorJoin _ _ _)
  · have hitem : (⟨d, (k + 1) * k + d⟩ : Sigma fun _ : Nat => Nat) ∈
        ord.order () (diag2code (k + 2) k k).entries :=
      (ord.mem_order () _ _).2 ((mem_entries_diag2code _).2 ⟨hd, rfl⟩)
    exact (heval _ (List.mem_append_right _ (List.mem_map_of_mem hitem))).trans
      (combine_xorJoin _ _ _)

/-! ## Decode -/

/-- In characteristic 2 a packet cancels itself. -/
theorem add_self (x : M) : x + x = 0 := by
  rw [← one_smul GF256 x, ← add_smul, show (1 : GF256) + 1 = 0 from Gf.add_self 1, zero_smul]

/-- A packet of a row is the sum of the others, the parity among them. -/
theorem Codeword.sum_others {T : Nat → M} (h : Codeword k T) {f i : Nat} (hf : f < k + 1)
    (hi : i < k) :
    ((((List.range (k + 1)).filter (· ≠ f)).map fun j => j * k + i).map T).sum = T (f * k + i) := by
  have hzero : ((List.range (k + 1)).map fun j => T (j * k + i)).sum = 0 := by
    have hrow := h.row i hi
    rw [List.map_map] at hrow
    rw [List.range_succ, List.map_append, List.sum_append, List.map_singleton, List.sum_singleton,
      hrow]
    exact add_self _
  have hperm : (List.range (k + 1)).Perm (f :: (List.range (k + 1)).filter (· ≠ f)) := by
    have herase : (List.range (k + 1)).erase f = (List.range (k + 1)).filter (· ≠ f) := by
      rw [List.nodup_range.erase_eq_filter]
      exact List.filter_congr fun j _ => Bool.eq_iff_iff.2 (by simp)
    rw [← herase]
    exact List.perm_cons_erase (List.mem_range.2 hf)
  rw [(hperm.map _).sum_eq, List.map_cons, List.sum_cons] at hzero
  rw [List.map_map]
  calc (((List.range (k + 1)).filter (· ≠ f)).map fun j => T (j * k + i)).sum
      = T (f * k + i) + T (f * k + i) +
          (((List.range (k + 1)).filter (· ≠ f)).map fun j => T (j * k + i)).sum := by
        rw [add_self, zero_add]
    _ = T (f * k + i) := by rw [add_assoc, hzero, add_zero]

/-- **Repair of one node**, and the diagonals it rests on. `dst` is the packets of the node,
in any order; `src` is not read. -/
theorem restores_column (hk : 2 ≤ k) {f : Nat} (hf : f < k + 2) (src : List Nat) {dst : List Nat}
    (hdst : ∀ v, v ∈ dst ↔ v / k = f) (ord : HashOrder Unit) (data : Nat → M) :
    (∃ d, decode (k + 2) k k src dst = some d ∧
      d.Restores (fun v => v / k < k + 2 ∧ v / k ≠ f) dst ((encode (k + 2) k k ord).eval data)) ∧
    ∀ d < k, CoversDiagonal k d := by
  have hk0 : 0 < k := by omega
  refine ⟨?_, fun d hd => coversDiagonal hk0 hd⟩
  have hT := codeword_encode hk ord data
  generalize (encode (k + 2) k k ord).eval data = T at hT
  have hfirst : dst.getD 0 0 / k = f := by
    have hmem : f * k ∈ dst := (hdst _).2 (Nat.mul_div_cancel _ hk0)
    rw [List.getD_eq_getElem _ _ (List.length_pos_of_mem hmem)]
    exact (hdst _).1 (List.getElem_mem _)
  have hnone : ¬ ∃ v ∈ dst, v / k ≠ f := fun ⟨v, hv, hne⟩ => hne ((hdst v).1 hv)
  have hdiv : ∀ {c i : Nat}, i < k → (c * k + i) / k = c := fun hi => idxOf_div hi
  -- each packet of the node is joined
  have hlost : ∀ (js : Nat → Join), (∀ i, (js i).pidx = f * k + i) → ∀ v ∈ dst,
      v ∈ ((List.range k).map js).map Join.pidx := by
    intro js hjs v hv
    rw [List.map_map]
    refine List.mem_map.2 ⟨v % k, List.mem_range.2 (Nat.mod_lt _ hk0), ?_⟩
    rw [Function.comp_apply, hjs, ← (hdst v).1 hv]
    exact Nat.div_add_mod' v k
  have hgone : ∀ v ∈ dst, ¬ (v / k < k + 2 ∧ v / k ≠ f) := fun v hv h => h.2 ((hdst v).1 hv)
  unfold decode decodeJoins
  dsimp only
  rw [hfirst, if_neg hnone]
  split
  · next hlast =>
    refine ⟨_, rfl, (JoinsSound.of_forall fun j hj => ?_).restores (hlost _ fun _ => rfl) hgone⟩
    obtain ⟨i, hi, rfl⟩ := List.mem_map.1 hj
    have hi := List.mem_range.1 hi
    refine ⟨fun c hc => ?_, ?_, ?_⟩
    · obtain ⟨b, hb, rfl⟩ := List.mem_map.1 hc
      obtain ⟨hb, hne⟩ := List.mem_filter.1 hb
      have hb : b < k + 1 := List.mem_range.1 hb
      rw [hdiv hi]
      exact ⟨by omega, of_decide_eq_true hne⟩
    · intro hnil
      have hb : (if f = 0 then 1 else 0) ∈ (List.range (p k)).filter (· ≠ f) := by
        refine List.mem_filter.2 ⟨List.mem_range.2 ?_, decide_eq_true ?_⟩
        · show (if f = 0 then 1 else 0) < k + 1
          split <;> omega
        · split <;> omega
      rw [List.map_eq_nil_iff.1 hnil] at hb
      exact List.not_mem_nil hb
    · rw [combine_xorJoin]
      exact hT.sum_others (by omega) hi
  · next hlast =>
    obtain rfl : f = k + 1 := not_not.1 hlast
    refine ⟨_, rfl, (JoinsSound.of_forall fun j hj => ?_).restores (hlost _ fun _ => rfl) hgone⟩
    obtain ⟨i, hi, rfl⟩ := List.mem_map.1 hj
    have hi := List.mem_range.1 hi
    have hdiag : (k + 2 - 1 + i) % p k = i := by
      show (k + 1 + i) % (k + 1) = i
      rw [Nat.add_mod_left, Nat.mod_eq_of_lt (Nat.lt_succ_of_lt hi)]
    rw [hdiag]
    refine ⟨fun c hc => ?_, diag2data_ne_nil hk hi, ?_⟩
    · have hc := ((mem_diag2data_iff hk0 hi).1 hc).1
      exact ⟨by omega, by omega⟩
    · rw [combine_xorJoin]
      exact (hT.diag i hi).symm

/-- The diagonal parities of the smallest array. -/
theorem restores_column_two : CoversDiagonal 2 1 :=
  (@restores_column 2 GF256 _ _ (by decide) 3 (by decide) [] [6, 7]
    (fun v => by simp; omega) (.insertion Unit) (fun _ => 1)).2 1 (by decide)

end

end RDP

end StripeRepair

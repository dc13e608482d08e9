import StripeRepair.Ec.ClayIdSpace
import StripeRepair.Ec.IdSpace
import StripeRepair.Common.RepairDag
import StripeRepair.Common.QueueKeys

/-!
# The id spaces

A code numbers its packets from 0 on, `Concact` numbers the blocks it puts together downwards from
`REQUESTOR`, and `KEY0` is the negated `REQUESTOR`. Nothing compares the numbers of a code with
these two constants.

* `idsApart_iff`: when no id of a code is the id of a concatenation.
* `keysApart`: then no two queues of a node have one key.
* `idSpaces_iff`: both, for each code with exactly the parameters that leave the ids free.
-/

namespace StripeRepair

/-! ## The children in the DAG of a repair -/

namespace ECDAG

variable {d : ECDAG} (hd : d.WellFormed)
include hd

theorem WellFormed.mem_childIndices_foldl_concactStep {cs : List Nat} {w : Nat} (l : List Nat)
    {v c : Nat} (hc : c ∈ (l.foldl (ECDAG.concactStep cs w) d).childIndices v) :
    (∃ u, c ∈ d.childIndices u) ∨ c ∈ cs := by
  induction l generalizing d with
  | nil => exact Or.inl ⟨v, hc⟩
  | cons i l ih =>
    rcases ih (hd.concactStep cs w i) hc with ⟨u, hu⟩ | hcs
    · unfold ECDAG.concactStep at hu
      split at hu
      · exact Or.inl ⟨u, hu⟩
      · rcases (hd.mem_childIndices_join _ _ _ _ _).1 hu with hu | ⟨-, -, -, hblock⟩
        · exact Or.inl ⟨u, hu⟩
        · exact Or.inr (List.mem_of_mem_filter hblock)
    · exact Or.inr hcs

/-- `Concact` reads what it is given. -/
theorem WellFormed.mem_childIndices_concact {cs : List Nat} {n w v c : Nat}
    (hc : c ∈ (d.concact cs n w).childIndices v) : (∃ u, c ∈ d.childIndices u) ∨ c ∈ cs :=
  hd.mem_childIndices_foldl_concactStep _ hc

theorem WellFormed.mem_childIndices_of_refresh {v c : Nat}
    (hc : c ∈ d.refreshECDAG.childIndices v) : c ∈ d.childIndices v := by
  have hedge := hd.refreshECDAG.mem_childIndices.1 hc
  rw [hd.mem_childIndices]
  unfold ECDAG.refreshECDAG at hedge
  split at hedge
  · exact (((foldl_removeHeader_spec d.ecHeaders v).2.2.1 c).1 hedge).1
  · exact hedge

end ECDAG

/-- The codes that `Coordinator` knows, with what their constructors are given. -/
inductive SupportedCode
  | clay (c : Clay)
  | rdp (n k w : Nat)
  | hhxorPlus (n k : Nat)
  | butterfly (k w : Nat)
  | rsconv (n k w : Nat)
  | rspipe (n k w : Nat)
  deriving DecidableEq, Repr

/-- What the codes call: the two inversions and the walk through a hash map. -/
structure CodeCalls where
  invert : InvertMatrix
  invert8 : InvertMatrix8
  hash : HashOrder Unit

namespace SupportedCode

def n : SupportedCode → Nat
  | .clay c => c.n
  | .rdp n _ _ => n
  | .hhxorPlus n _ => n
  | .butterfly k _ => k + 2
  | .rsconv n _ _ => n
  | .rspipe n _ _ => n

def k : SupportedCode → Nat
  | .clay c => c.k
  | .rdp _ k _ => k
  | .hhxorPlus _ k => k
  | .butterfly k _ => k
  | .rsconv _ k _ => k
  | .rspipe _ k _ => k

def w : SupportedCode → Nat
  | .clay c => c.w
  | .rdp _ _ w => w
  | .hhxorPlus _ _ => 2
  | .butterfly _ w => w
  | .rsconv _ _ w => w
  | .rspipe _ _ w => w

/-- The parameters that make a code. A pipeline of one packet joins nothing, so it has no use for
blocks of several. -/
def Admits : SupportedCode → Prop
  | .clay c => c.k < c.n ∧ c.k ≤ c.d ∧ c.d < c.n
  | .rdp n k w => k < n ∧ 0 < w
  | .hhxorPlus n k => HHXORPlus.Params n k
  | .butterfly _ w => 0 < w
  | .rsconv n k w => k < n ∧ 0 < w
  | .rspipe n k w => k < n ∧ 0 < w ∧ (2 ≤ k ∨ w = 1)

section
variable (calls : CodeCalls)

/-- `Encode()` -/
def encode : SupportedCode → ECDAG
  | .clay c => c.encode calls.invert8
  | .rdp n k w => RDP.encode n k w calls.hash
  | .hhxorPlus n k => HHXORPlus.encode n k
  | .butterfly k w => BUTTERFLY.encode (k + 2) k w
  | .rsconv n k _ => RSCONV.encode n k
  | .rspipe n k _ => RSPIPE.encode n k

/-- `Decode(from, to)`, unless it ends the program. -/
def decode (src dst : List Nat) : SupportedCode → Option ECDAG
  | .clay c => c.decode calls.invert8 src dst
  | .rdp n k w => RDP.decode n k w src dst
  | .hhxorPlus n k => some (HHXORPlus.decode n k calls.invert8 src dst)
  | .butterfly k w => some (BUTTERFLY.decode (k + 2) k w src dst)
  | .rsconv n k _ => some (RSCONV.decode calls.invert n k src dst)
  | .rspipe n k _ => some (RSPIPE.decode n k calls.invert src dst)

variable (code : SupportedCode)

/-- At least one and at most `n - k` blocks are lost. -/
structure Loses (failed : Finset Nat) : Prop where
  sub : failed ⊆ Finset.range code.n
  nonempty : failed.Nonempty
  card_le : failed.card ≤ code.n - code.k

/-- `d` is the DAG that `Decode` returns for the lost blocks. -/
def Decoded (failed : Finset Nat) (d : ECDAG) : Prop :=
  code.Loses failed ∧ code.decode calls (packets code.w (survivors code.n failed))
    (packets code.w (losses code.n failed)) = some d

/-- An id that `Encode` or some `Decode` puts in its DAG. -/
def UsesId (v : Nat) : Prop :=
  v ∈ (code.encode calls).nodeIds ∨ ∃ failed d, code.Decoded calls failed d ∧ v ∈ d.nodeIds

/-- No id of the code is the id of a concatenation. -/
def IdsApart : Prop := ∀ v, code.UsesId calls v → ∀ i < code.n, v ≠ REQUESTOR - i

/-- In whatever way the repair of lost blocks is coloured and the tasks are sent to the agents,
no two queues of a node have one key. -/
def KeysApart : Prop :=
  ∀ failed d, code.Decoded calls failed d → ∀ s : Stripe,
    (s.ecdag = genRepairECDAG (fun _ _ => d) code.n code.w failed ∨
      s.ecdag = (genRepairECDAG (fun _ _ => d) code.n code.w failed).refreshECDAG) →
    ∀ (ord : HashOrder Walk) (fail2repair : Int → Option Int) (c : Int),
      KeysInjective (s.tasksOf ord code.n code.w fail2repair c)

end

/-! ## How far the ids go -/

/-- The number of ids, for `Clay` without the uncoupled packets. -/
def numIds : SupportedCode → Nat
  | .clay c => (c.n + c.nu) * c.w
  | .rdp n _ w => n * w
  | .hhxorPlus n k => HHXORPlus.numSymbols n k
  | .butterfly k w => BUTTERFLY.numIds k w
  | .rsconv n _ w => n * w
  | .rspipe n k w => max (n * w) (n + (n - k) * w * (k - 2))

/-- The ids of the concatenations are left free. -/
def ReservedFree : SupportedCode → Prop
  | .clay c => c.ReservedFree
  | code => code.numIds + code.n ≤ REQUESTOR + 1

section
variable {calls : CodeCalls} {code : SupportedCode}

theorem Admits.k_lt (h : code.Admits) : code.k < code.n := by
  cases code with
  | clay c => exact h.1
  | rdp n k w => exact h.1
  | hhxorPlus n k =>
    have := h.parities
    show k < n
    omega
  | butterfly k w => exact Nat.lt_add_of_pos_right Nat.two_pos
  | rsconv n k w => exact h.1
  | rspipe n k w => exact h.1

theorem Admits.w_pos (h : code.Admits) : 0 < code.w := by
  cases code with
  | clay c =>
    refine Clay.w_pos (c := c) ?_
    have := h.2.1
    unfold Clay.q
    omega
  | rdp n k w => exact h.2
  | hhxorPlus n k => exact Nat.two_pos
  | butterfly k w => exact h
  | rsconv n k w => exact h.2
  | rspipe n k w => exact h.2.1

/-- One lost block. -/
theorem loses_singleton (code : SupportedCode) {b : Nat} (hb : b < code.n) (hk : code.k < code.n) : code.Loses {b} :=
  ⟨Finset.singleton_subset_iff.2 (Finset.mem_range.2 hb), Finset.singleton_nonempty b, by
    rw [Finset.card_singleton]
    omega⟩

theorem loses_parities (code : SupportedCode) (hk : code.k < code.n) : code.Loses (Finset.Ico code.k code.n) :=
  ⟨fun _ hb => Finset.mem_range.2 (Finset.mem_Ico.1 hb).2, Finset.nonempty_Ico.2 hk,
    (Nat.card_Ico _ _).le⟩

theorem length_lost {failed : Finset Nat} (h : code.Loses failed) (w : Nat) :
    (packets w (losses code.n failed)).length ≤ (code.n - code.k) * w := by
  rw [length_packets, length_losses h.sub]
  exact Nat.mul_le_mul_right w h.card_le

/-! ### The codes without planes -/

/-- What an `Encode` and a `Decode` of packets below `n * w` stay below. -/
theorem usesId_lt (code : SupportedCode) {N : Nat} (hw : 0 < code.w)
    (hencode : ∀ v ∈ (code.encode calls).nodeIds, v < N)
    (hdecode : ∀ src dst d, (∀ v ∈ src, v < code.n * code.w) →
      (∀ v ∈ dst, v < code.n * code.w) → dst.length ≤ (code.n - code.k) * code.w →
      code.decode calls src dst = some d → ∀ v ∈ d.nodeIds, v < N) {v : Nat}
    (hv : code.UsesId calls v) : v < N := by
  rcases hv with hv | ⟨failed, d, ⟨hlost, hd⟩, hv⟩
  · exact hencode v hv
  · exact hdecode _ _ d (fun u hu => survivors_packets_lt hw hu)
      (fun u hu => losses_packets_lt hw hu) (length_lost hlost code.w) hd v hv

/-- A lost block is in some `Decode`. -/
theorem usesId_of_decode (code : SupportedCode) {b v : Nat} (hk : code.k < code.n) (hb : b < code.n) {d : ECDAG}
    (hd : code.decode calls (packets code.w (survivors code.n {b}))
      (packets code.w (losses code.n {b})) = some d) (hv : v ∈ d.nodeIds) :
    code.UsesId calls v :=
  Or.inr ⟨{b}, d, ⟨loses_singleton code hb hk, hd⟩, hv⟩

theorem usesId_rdp {n k w : Nat} (h : (rdp n k w).Admits) {v : Nat} :
    (rdp n k w).UsesId calls v ↔ v < n * w := by
  obtain ⟨hk, hw⟩ := h
  refine ⟨fun hv => usesId_lt (rdp n k w) hw (fun v hv => RDP.mem_encode_lt hk _ hv)
    (fun src dst d _ hdst _ hd v hv => @RDP.mem_decode_lt n k w hk src dst hdst d hd v hv) hv,
    fun hv => ?_⟩
  obtain ⟨d, hd, hmem⟩ := RDP.exists_mem_decode (k := k) hv
  exact usesId_of_decode (rdp n k w) hk ((Nat.div_lt_iff_lt_mul hw).2 hv) hd hmem

theorem usesId_hhxorPlus {n k : Nat} (h : (hhxorPlus n k).Admits) {v : Nat} :
    (hhxorPlus n k).UsesId calls v ↔ v < HHXORPlus.numSymbols n k := by
  have hk : k < n := h.k_lt
  have hparams : HHXORPlus.Params n k := h
  refine ⟨fun hv => usesId_lt (hhxorPlus n k) Nat.two_pos (fun v hv => hparams.mem_encode_lt hv)
    (fun src dst d _ _ _ hd v hv => ?_) hv, fun hv => ?_⟩
  · obtain rfl := Option.some.inj hd
    exact hparams.mem_decode_lt _ src hv
  · rcases Nat.lt_or_ge v (HHXORPlus.spareSymbol n k) with hlt | hge
    · exact Or.inl (hparams.mem_encode hlt)
    · have hspare : v = HHXORPlus.spareSymbol n k := by
        unfold HHXORPlus.spareSymbol at hge ⊢
        omega
      rw [hspare]
      exact usesId_of_decode (hhxorPlus n k) hk (show k - 1 < n by omega) rfl
        (hparams.spare_mem_decode _ _)

theorem usesId_butterfly {k w : Nat} (h : (butterfly k w).Admits) {v : Nat} :
    (butterfly k w).UsesId calls v ↔ v < BUTTERFLY.numIds k w := by
  have hk : k < k + 2 := Nat.lt_add_of_pos_right Nat.two_pos
  refine ⟨fun hv => usesId_lt (butterfly k w) h (fun v hv => ?_) (fun src dst d _ hdst _ hd v hv => ?_) hv,
    fun hv => ?_⟩
  · exact Nat.lt_of_lt_of_le (BUTTERFLY.mem_encode_lt hk h hv) (Nat.le_add_right _ _)
  · obtain rfl := Option.some.inj hd
    exact BUTTERFLY.mem_decode_lt hdst hv
  · rcases Nat.lt_or_ge v ((k + 2) * w) with hlt | hge
    · exact Or.inl (BUTTERFLY.mem_encode hk h hlt)
    · exact usesId_of_decode (butterfly k w) (b := k + 1) hk (show k + 1 < k + 2 by omega)
        rfl (BUTTERFLY.mem_decode_last h _ hge hv)

theorem usesId_rsconv {n k w : Nat} (h : (rsconv n k w).Admits) {v : Nat} :
    (rsconv n k w).UsesId calls v ↔ v < n * w := by
  obtain ⟨hk, hw⟩ := h
  have hpos : 0 < n * w := Nat.mul_pos (by omega) hw
  refine ⟨fun hv => usesId_lt (rsconv n k w) hw (fun v hv => ?_)
    (fun src dst d hsrc hdst _ hd v hv => ?_) hv,
    fun hv => ?_⟩
  · exact Nat.lt_of_lt_of_le (RSCONV.mem_encode_lt hv) (Nat.le_mul_of_pos_right n hw)
  · obtain rfl := Option.some.inj hd
    exact RSCONV.mem_decode_lt _ hpos hsrc hdst hv
  · exact usesId_of_decode (rsconv n k w) hk ((Nat.div_lt_iff_lt_mul hw).2 hv) rfl
      (RSCONV.mem_decode _ _ (mem_packets_losses hw hv))

theorem usesId_rspipe {n k w : Nat} (h : (rspipe n k w).Admits) {v : Nat} :
    (rspipe n k w).UsesId calls v ↔ v < max (n * w) (n + (n - k) * w * (k - 2)) := by
  obtain ⟨hk, hw, hpipe⟩ := h
  have hn : n ≤ n * w := Nat.le_mul_of_pos_right n hw
  refine ⟨fun hv => usesId_lt (rspipe n k w) hw (fun v hv => ?_)
    (fun src dst d hsrc hdst hlen hd v hv => ?_) hv, fun hv => ?_⟩
  · have := RSCONV.mem_encode_lt hv
    omega
  · obtain rfl := Option.some.inj hd
    have hmul : dst.length * (k - 2) ≤ (n - k) * w * (k - 2) := Nat.mul_le_mul_right _ hlen
    refine RSPIPE.mem_decode_lt _ (by omega) (fun u hu => ?_) (fun u hu => ?_) (by omega) hv
    · exact Nat.lt_of_lt_of_le (hsrc u hu) (Nat.le_max_left _ _)
    · exact Nat.lt_of_lt_of_le (hdst u hu) (Nat.le_max_left _ _)
  · by_cases hvn : v < n
    · exact Or.inl (RSCONV.mem_encode hk hvn)
    · have hk2 : 2 ≤ k := by
        by_contra hk2
        obtain rfl := hpipe.resolve_left hk2
        rw [show k - 2 = 0 by omega, Nat.mul_zero, Nat.mul_one, Nat.add_zero, Nat.max_self] at hv
        exact hvn hv
      rcases lt_max_iff.1 hv with hlt | hlt
      · exact usesId_of_decode (rspipe n k w) hk ((Nat.div_lt_iff_lt_mul hw).2 hlt) rfl
          (RSPIPE.mem_decode _ hk2 _ (Or.inl (mem_packets_losses hw hlt)))
      · refine Or.inr ⟨_, _, ⟨loses_parities (rspipe n k w) hk, rfl⟩,
          RSPIPE.mem_decode _ hk2 _ (Or.inr ⟨by omega, ?_⟩)⟩
        show v < n + (packets w (losses n (Finset.Ico k n))).length * (k - 2)
        rwa [length_packets, length_losses fun b hb => Finset.mem_range.2 (Finset.mem_Ico.1 hb).2,
          Nat.card_Ico]

/-! ### All codes -/

/-- The ids from 0 on. -/
theorem idsApart_of_usesId {N : Nat} (hn : 0 < code.n) (hpos : 0 < N)
    (huses : ∀ v, code.UsesId calls v ↔ v < N) :
    code.IdsApart calls ↔ N + code.n ≤ REQUESTOR + 1 := by
  constructor
  · intro h
    by_contra hlt
    refine h (REQUESTOR - (code.n - 1)) ((huses _).2 ?_) (code.n - 1) (by omega) rfl
    omega
  · rintro hle v hv i hi rfl
    have := (huses _).1 hv
    omega

theorem usesId_clay {c : Clay} (h : (clay c).Admits) {v : Nat} :
    (clay c).UsesId calls v ↔ c.IsId v := by
  obtain ⟨hk, hkd, hd⟩ := h
  have hq : 0 < c.q := by
    unfold Clay.q
    omega
  constructor
  · rintro (hv | ⟨failed, d, ⟨-, hdec⟩, hv⟩)
    · exact Clay.isId_encode hq hk.le hv
    · exact @Clay.isId_decode c hq hk.le _ (packets c.w (survivors c.n failed)) _ d hdec v hv
  · intro hv
    rcases Clay.exists_mem_of_isId hq hk hd calls.invert8
      (packets c.w (survivors c.n (Finset.Ico c.k c.n))) hv with hv | ⟨d, hdec, hv⟩
    · exact Or.inl hv
    · exact Or.inr ⟨_, d, ⟨loses_parities (clay c) hk, hdec⟩, hv⟩

/-- **When no id of a code is the id of a concatenation** -/
theorem idsApart_iff (h : code.Admits) : code.IdsApart calls ↔ code.ReservedFree := by
  have hk := h.k_lt
  have hn : 0 < code.n := by omega
  have hnw : 0 < code.n * code.w := Nat.mul_pos hn h.w_pos
  cases code with
  | clay c =>
    have hq : 0 < c.q := by
      have := h.2.1
      unfold Clay.q
      omega
    refine Iff.trans ?_ (Clay.reservedFree_iff hq hk.le hk)
    exact forall_congr' fun v => imp_congr_left (usesId_clay h)
  | rdp n k w => exact idsApart_of_usesId hn hnw fun _ => usesId_rdp h
  | hhxorPlus n k =>
    exact idsApart_of_usesId hn (Nat.lt_of_lt_of_le hnw (Nat.le_add_right _ _)) fun _ =>
      usesId_hhxorPlus h
  | butterfly k w =>
    exact idsApart_of_usesId hn (Nat.lt_of_lt_of_le hnw (Nat.le_add_right _ _)) fun _ =>
      usesId_butterfly h
  | rsconv n k w => exact idsApart_of_usesId hn hnw fun _ => usesId_rsconv h
  | rspipe n k w =>
    exact idsApart_of_usesId hn (Nat.lt_of_lt_of_le hnw (Nat.le_max_left _ _)) fun _ =>
      usesId_rspipe h

/-! ## The keys -/

theorem built_decode {src dst : List Nat} {d : ECDAG} (hd : code.decode calls src dst = some d) :
    d.Built := by
  cases code with
  | clay c =>
    obtain ⟨js, -, rfl⟩ := Option.map_eq_some_iff.1 hd
    exact ECDAG.built_build js
  | rdp n k w =>
    obtain ⟨js, -, rfl⟩ := Option.map_eq_some_iff.1 hd
    exact ECDAG.built_build js
  | hhxorPlus n k => exact Option.some.inj hd ▸ ECDAG.built_build _
  | butterfly k w => exact Option.some.inj hd ▸ ECDAG.built_build _
  | rsconv n k w => exact Option.some.inj hd ▸ ECDAG.built_build _
  | rspipe n k w => exact Option.some.inj hd ▸ ECDAG.built_build _

/-- The packets of the blocks are below the reserved ids. -/
theorem ReservedFree.blocks_le (h : code.Admits) (hfree : code.ReservedFree) :
    code.n * code.w ≤ REQUESTOR := by
  have hn : 0 < code.n := by
    have := h.k_lt
    omega
  have hle : code.n * code.w ≤ code.numIds ∧ code.numIds + code.n ≤ REQUESTOR + 1 := by
    cases code with
    | clay c => exact ⟨Nat.mul_le_mul_right _ (Nat.le_add_right _ _), hfree.1⟩
    | rdp n k w => exact ⟨Nat.le_refl _, hfree⟩
    | hhxorPlus n k => exact ⟨Nat.le_add_right _ _, hfree⟩
    | butterfly k w => exact ⟨Nat.le_add_right _ _, hfree⟩
    | rsconv n k w => exact ⟨Nat.le_refl _, hfree⟩
    | rspipe n k w => exact ⟨Nat.le_max_left _ _, hfree⟩
  omega

/-- **Then no two queues of a node have one key.** -/
theorem keysApart (h : code.Admits) (hfree : code.ReservedFree) : code.KeysApart calls := by
  intro failed d hdec s hdag ord fail2repair c
  have happart : code.IdsApart calls := (idsApart_iff h).2 hfree
  have hbuilt : d.Built := built_decode hdec.2
  have hd : d.WellFormed := hbuilt.wellFormed
  have hn : 0 < code.n := by
    have := h.k_lt
    omega
  have hblocks := hfree.blocks_le h
  have hchild : ∀ v, REQUESTOR ∉
      (d.concact (packets code.w (losses code.n failed)) code.n code.w).childIndices v := by
    intro v hv
    rcases hd.mem_childIndices_concact hv with ⟨u, hu⟩ | hu
    · have huses : code.UsesId calls REQUESTOR :=
        Or.inr ⟨failed, d, hdec, (hd.childIndices_nodeIds hu).1⟩
      exact happart _ huses 0 hn (Nat.sub_zero _).symm
    · have := losses_packets_lt h.w_pos hu
      omega
  have hs : s.ecdag.WellFormed ∧ ∀ v, REQUESTOR ∉ s.ecdag.childIndices v := by
    have hwf : (d.concact (packets code.w (losses code.n failed)) code.n code.w).WellFormed :=
      hd.concact _ _ _
    rcases hdag with hdag | hdag
    · rw [hdag, genRepairECDAG]
      exact ⟨hwf, hchild⟩
    · rw [hdag, genRepairECDAG]
      exact ⟨hwf.refreshECDAG, fun v hv => hchild v (hwf.mem_childIndices_of_refresh hv)⟩
  have hwf : (s.remap fail2repair).ecdag.WellFormed := hs.1
  have hkey : ∀ v, REQUESTOR ∉ (s.remap fail2repair).ecdag.childIndices v := hs.2
  rw [Stripe.tasksOf_eq_nodeTasks hs.1]
  exact Stripe.keysInjective hwf ord hkey

/-- **The id spaces do not collide** for exactly the parameters that leave the reserved ids
free. -/
theorem idSpaces_iff (calls : CodeCalls) (code : SupportedCode) (h : code.Admits) :
    code.IdsApart calls ∧ code.KeysApart calls ↔ code.ReservedFree :=
  ⟨fun hboth => (idsApart_iff h).1 hboth.1, fun hfree =>
    ⟨(idsApart_iff h).2 hfree, keysApart h hfree⟩⟩

end

/-- A stripe of four blocks with four packets each. -/
theorem idSpaces_four : (clay ⟨4, 2, 3⟩).IdsApart
      ⟨fun _ _ A => A, fun _ A => A, HashOrder.insertion Unit⟩ ∧
    (clay ⟨4, 2, 3⟩).KeysApart ⟨fun _ _ A => A, fun _ A => A, HashOrder.insertion Unit⟩ :=
  (idSpaces_iff _ (clay ⟨4, 2, 3⟩) (show 2 < 4 ∧ 2 ≤ 3 ∧ 3 < 4 by decide)).2
    (show (⟨4, 2, 3⟩ : Clay).ReservedFree by decide)

/-- Blocks 16 to 19 are lost: the uncoupled packet of node 11 in plane 1007 has the id of the
concatenation of block 16. -/
theorem decoded_collides (calls : CodeCalls) : ∃ d,
    (clay ⟨20, 16, 19⟩).Decoded calls (Finset.Ico 16 20) d ∧ REQUESTOR - 16 ∈ d.nodeIds := by
  have hk : 16 < 20 := by decide
  obtain ⟨d, hdec, hmem⟩ := @Clay.uncoupled_mem_decode ⟨20, 16, 19⟩ hk (by decide) (by decide)
    calls.invert8 (packets 1024 (survivors 20 (Finset.Ico 16 20))) 11 1007 (by decide) (by decide)
  have hid : (⟨20, 16, 19⟩ : Clay).uncoupledId 11 1007 = REQUESTOR - 16 :=
    Clay.uncoupledId_of_not_named (by decide) (by decide) (by decide) (by decide) (by decide)
  exact ⟨d, ⟨loses_parities (clay ⟨20, 16, 19⟩) hk, hdec⟩, hid ▸ hmem⟩

theorem idSpaces_collide :
    (∃ d, (clay ⟨20, 16, 19⟩).Decoded ⟨fun _ _ A => A, fun _ A => A, HashOrder.insertion Unit⟩
      {16, 17, 18, 19} d ∧ REQUESTOR - 16 ∈ d.nodeIds) ∧
    ¬ ∀ (calls : CodeCalls) (code : SupportedCode), code.Admits →
      code.IdsApart calls ∧ code.KeysApart calls := by
  obtain ⟨d, hd, hmem⟩ := decoded_collides
    ⟨fun _ _ A => A, fun _ A => A, HashOrder.insertion Unit⟩
  have hlost : Finset.Ico 16 20 = {16, 17, 18, 19} := by decide
  refine ⟨⟨d, hlost ▸ hd, hmem⟩, fun h => ?_⟩
  have hadmits : (clay ⟨20, 16, 19⟩).Admits := show 16 < 20 ∧ 16 ≤ 19 ∧ 19 < 20 by decide
  exact (h _ _ hadmits).1 _ (Or.inr ⟨_, d, hd, hmem⟩) 16 (by decide) rfl

end SupportedCode

end StripeRepair

import StripeRepair.Sol.FindRepairBatchs

/-!
# The batches against `_stripes_to_repair`

`findRepairBatchs` should cut `_stripes_to_repair` into batches of stripes that share no helpers.
The groups hold positions in `_stripes_to_repair`, which are below its length, so what is found is
always a set of the first stripes of `_stripe_list`.

* `Ranged.rounds`: in any run the groups hold positions in `_stripes_to_repair`.
* `meets_iff`: when the batches are right.
-/

namespace StripeRepair

open Function (update update_of_ne update_self)

namespace BatchInput

/-! ## What any run puts into the groups -/

section
variable {p : BatchInput} {rg : Nat}

/-- The groups hold positions in `_stripes_to_repair`. -/
def Ranged (p : BatchInput) (s : GroupTables) : Prop :=
  ∀ rg, ∀ i ∈ s.repairGroup rg, i < p.numRelatedStripes

theorem Ranged.set {s : GroupTables} (h : p.Ranged s) {ids : List Nat}
    (hids : ∀ i ∈ ids, i < p.numRelatedStripes) {w : GroupArrays} {sel : Nat → Bool} :
    p.Ranged { arrays := w, repairGroup := update s.repairGroup rg ids, ifselect := sel } := by
  intro rg' i hi
  dsimp only at hi
  by_cases hrg : rg' = rg
  · rw [hrg, update_self] at hi
    exact hids i hi
  · rw [update_of_ne hrg] at hi
    exact h rg' i hi

/-- A stripe at the end of a group. -/
theorem Ranged.concat {s : GroupTables} (h : p.Ranged s) {i : Nat} (hi : i < p.numRelatedStripes) :
    ∀ j ∈ s.repairGroup rg ++ [i], j < p.numRelatedStripes := by
  intro j hj
  rcases List.mem_append.1 hj with hj | hj
  · exact h rg j hj
  · exact List.mem_singleton.1 hj ▸ hi

theorem mem_of_tryOthers {s : GroupTables} {src : Nat} {is addi addi' : List Nat} {cur : Nat}
    {w w' : GroupArrays} (h : p.tryOthers s src rg is cur addi w = some (addi', w')) :
    ∀ i ∈ addi', i ∈ addi ∨ i ∈ is := by
  induction is generalizing cur addi w with
  | nil =>
    cases h
    exact fun i hi => Or.inl hi
  | cons j is ih =>
    have hnext : ∀ {cur addi₁ w}, p.tryOthers s src rg is cur addi₁ w = some (addi', w') →
        (∀ i ∈ addi₁, i ∈ addi ∨ i = j) → ∀ i ∈ addi', i ∈ addi ∨ i ∈ j :: is := by
      intro cur addi₁ w heq hsub i hi
      rcases ih heq i hi with hi | hi
      · exact (hsub i hi).imp_right fun he => List.mem_cons.2 (Or.inl he)
      · exact Or.inr (List.mem_cons_of_mem _ hi)
    have hsame : ∀ i ∈ addi, i ∈ addi ∨ i = j := fun i hi => Or.inl hi
    have hmore : ∀ i ∈ addi ++ [j], i ∈ addi ∨ i = j := fun i hi =>
      (List.mem_append.1 hi).imp_right List.mem_singleton.1
    rw [BatchInput.tryOthers] at h
    split at h
    · exact hnext h hsame
    · obtain ⟨nodelist, -, h⟩ := Option.bind_eq_some_iff.1 h
      obtain ⟨⟨ret, w₁⟩, -, h⟩ := Option.bind_eq_some_iff.1 h
      dsimp only at h
      by_cases hret : ret = 1
      · simp only [if_pos hret] at h
        split at h
        · cases h
          exact fun i hi => (hmore i hi).imp_right fun he => List.mem_cons.2 (Or.inl he)
        · exact hnext h hmore
      · simp only [if_neg hret] at h
        split at h
        · cases h
          exact fun i hi => Or.inl hi
        · exact hnext h hsame

/-- A trial leaves the groups as they are, in any run. -/
theorem testReplace_ranged {s s' : GroupTables} {src des : Nat} {addi : List Nat}
    (h : p.testReplace src des rg s = some (addi, s')) :
    s'.repairGroup = s.repairGroup ∧ ∀ i ∈ addi, i < p.numRelatedStripes := by
  obtain ⟨⟨ret, w⟩, -, h⟩ := Option.bind_eq_some_iff.1 h
  dsimp only at h
  split at h
  · obtain ⟨w', -, h⟩ := Option.bind_eq_some_iff.1 h
    cases h
    exact ⟨rfl, nofun⟩
  · obtain ⟨⟨addi', w₁⟩, hothers, h⟩ := Option.bind_eq_some_iff.1 h
    obtain ⟨w₂, -, h⟩ := Option.bind_eq_some_iff.1 h
    cases h
    refine ⟨rfl, fun i hi => ?_⟩
    rcases mem_of_tryOthers hothers i hi with hi | hi
    · cases hi
    · have := List.mem_range'_1.1 hi
      omega

theorem tryGroup_ranged {s s' : GroupTables} {src : Nat} {ids : List Nat}
    {found : Option (Nat × List Nat)} (h : p.tryGroup src rg ids s = some (found, s')) :
    s'.repairGroup = s.repairGroup ∧
      ∀ des rec, found = some (des, rec) → ∀ i ∈ rec, i < p.numRelatedStripes := by
  induction ids generalizing s with
  | nil =>
    cases h
    exact ⟨rfl, nofun⟩
  | cons des ids ih =>
    obtain ⟨⟨addi, s₁⟩, htest, h⟩ := Option.bind_eq_some_iff.1 h
    obtain ⟨hsame, haddi⟩ := testReplace_ranged htest
    dsimp only at h
    split at h
    · obtain ⟨hsame', hfound⟩ := ih h
      exact ⟨hsame'.trans hsame, hfound⟩
    · cases h
      refine ⟨hsame, ?_⟩
      rintro _ _ ⟨⟩
      exact haddi

/-- An exchange whose stripes are positions in `_stripes_to_repair`. -/
def InRange (p : BatchInput) (best : Option (Nat × Nat × List Nat)) : Prop :=
  ∀ src des rec, best = some (src, des, rec) →
    src < p.numRelatedStripes ∧ ∀ i ∈ rec, i < p.numRelatedStripes

theorem tryStripes_ranged {s s' : GroupTables} {ids : List Nat}
    (hids : ∀ i ∈ ids, i < p.numRelatedStripes) {best best' : Option (Nat × Nat × List Nat)}
    (hbest : p.InRange best) (h : p.tryStripes rg ids best s = some (best', s')) :
    s'.repairGroup = s.repairGroup ∧ p.InRange best' := by
  induction ids generalizing best s with
  | nil =>
    cases h
    exact ⟨rfl, hbest⟩
  | cons src ids ih =>
    have hids' : ∀ i ∈ ids, i < p.numRelatedStripes := fun i hi =>
      hids i (List.mem_cons_of_mem _ hi)
    rw [BatchInput.tryStripes] at h
    split at h
    · exact ih hids' hbest h
    · obtain ⟨⟨found, s₁⟩, hgroup, h⟩ := Option.bind_eq_some_iff.1 h
      obtain ⟨hsame, hfound⟩ := tryGroup_ranged hgroup
      have hgo : ∀ {best₁}, p.InRange best₁ → p.tryStripes rg ids best₁ s₁ = some (best', s') →
          s'.repairGroup = s.repairGroup ∧ p.InRange best' := by
        intro best₁ hbest₁ heq
        obtain ⟨hsame', hin⟩ := ih hids' hbest₁ heq
        exact ⟨hsame'.trans hsame, hin⟩
      cases found with
      | none =>
        cases best with
        | none => exact hgo hbest h
        | some b =>
          dsimp only at h
          split at h
          · cases h
            exact ⟨hsame, hbest⟩
          · exact hgo hbest h
      | some f =>
        have hbest' : p.InRange (some (src, f.1, f.2)) := by
          rintro _ _ _ ⟨⟩
          exact ⟨hids src (List.mem_cons_self ..), hfound _ _ rfl⟩
        dsimp only at h
        split at h
        · cases h
          exact ⟨hsame, hbest'⟩
        · exact hgo hbest' h

theorem Ranged.insertRecorded {s s' : GroupTables} {rec : List Nat} (hs : p.Ranged s)
    (hrec : ∀ i ∈ rec, i < p.numRelatedStripes) (h : p.insertRecorded rg rec s = some s') :
    p.Ranged s' := by
  induction rec generalizing s with
  | nil =>
    cases h
    exact hs
  | cons id rec ih =>
    obtain ⟨nodelist, -, h⟩ := Option.bind_eq_some_iff.1 h
    obtain ⟨⟨ret, w⟩, -, h⟩ := Option.bind_eq_some_iff.1 h
    dsimp only at h
    split at h
    · cases h
    · exact ih (hs.set (hs.concat (hrec id (List.mem_cons_self ..))))
        (fun i hi => hrec i (List.mem_cons_of_mem _ hi)) h

theorem Ranged.greedyReplacement {s s' : GroupTables} {b : Bool} (hs : p.Ranged s)
    (h : p.greedyReplacement rg s = some (b, s')) : p.Ranged s' := by
  unfold BatchInput.greedyReplacement at h
  split at h
  · cases h
    exact hs
  · obtain ⟨⟨best, s₁⟩, htry, h⟩ := Option.bind_eq_some_iff.1 h
    have hnone : p.InRange none := fun _ _ _ he => nomatch he
    obtain ⟨hsame, hin⟩ := tryStripes_ranged (fun i hi => List.mem_range.1 hi) hnone htry
    have hs₁ : p.Ranged s₁ := fun rg i hi => hs rg i (hsame ▸ hi)
    cases best with
    | none =>
      cases h
      exact hs₁
    | some b =>
      obtain ⟨src, des, rec⟩ := b
      obtain ⟨hsrc, hrec⟩ := hin src des rec rfl
      obtain ⟨s₂, hperform, h⟩ := Option.bind_eq_some_iff.1 h
      cases h
      obtain ⟨⟨ret, w⟩, -, hinsert⟩ := Option.bind_eq_some_iff.1 hperform
      refine Ranged.insertRecorded (hs₁.set fun i hi => ?_) hrec hinsert
      rcases List.mem_or_eq_of_mem_set hi with hi | rfl
      · exact hs₁ rg i hi
      · exact hsrc

theorem Ranged.fillGroup {s s' : GroupTables} {is : List Nat} {flag flag' : Bool}
    (hs : p.Ranged s) (his : ∀ i ∈ is, i < p.numRelatedStripes)
    (h : p.fillGroup rg is flag s = some (flag', s')) : p.Ranged s' := by
  induction is generalizing flag s with
  | nil =>
    cases h
    exact hs
  | cons i is ih =>
    have his' : ∀ j ∈ is, j < p.numRelatedStripes := fun j hj => his j (List.mem_cons_of_mem _ hj)
    rw [BatchInput.fillGroup] at h
    split at h
    · exact ih hs his' h
    · split at h
      · obtain ⟨nodelist, -, h⟩ := Option.bind_eq_some_iff.1 h
        obtain ⟨⟨ret, w⟩, -, h⟩ := Option.bind_eq_some_iff.1 h
        have hpush : ∀ j ∈ s.repairGroup rg ++ [i], j < p.numRelatedStripes :=
          hs.concat (his i (List.mem_cons_self ..))
        dsimp only at h
        split at h
        · exact @ih { s with arrays := w } flag hs his' h
        · split at h
          · cases h
            exact hs.set hpush
          · exact ih (hs.set hpush) his' h
      · cases h

theorem Ranged.optimize {fuel : Nat} {s s' : GroupTables} (hs : p.Ranged s)
    (h : p.optimize rg fuel s = some s') : p.Ranged s' := by
  induction fuel generalizing s with
  | zero => cases h
  | succ fuel ih =>
    obtain ⟨⟨b, s₁⟩, hreplace, h⟩ := Option.bind_eq_some_iff.1 h
    have hs₁ := hs.greedyReplacement hreplace
    cases b with
    | false =>
      cases h
      exact hs₁
    | true => exact ih hs₁ h

/-- **One round** of any run. -/
theorem Ranged.round {s s' : GroupTables} {flag : Bool} (hs : p.Ranged s)
    (h : p.round rg s = some (flag, s')) : p.Ranged s' := by
  obtain ⟨⟨b, s₁⟩, hfill, h⟩ := Option.bind_eq_some_iff.1 h
  have hs₁ := hs.fillGroup (fun i hi => List.mem_range.1 hi) hfill
  cases b with
  | false =>
    cases h
    exact hs₁
  | true =>
    obtain ⟨s₂, hopt, h⟩ := Option.bind_eq_some_iff.1 h
    cases h
    exact hs₁.optimize hopt

/-- **Any run**: whatever the numbering is, the groups hold positions in `_stripes_to_repair`. -/
theorem Ranged.rounds {fuel : Nat} {s s' : GroupTables} (hs : p.Ranged s)
    (h : p.rounds fuel rg s = some s') : p.Ranged s' := by
  induction fuel generalizing rg s with
  | zero => cases h
  | succ fuel ih =>
    obtain ⟨⟨flag, s₁⟩, hround, h⟩ := Option.bind_eq_some_iff.1 h
    have hs₁ := hs.round hround
    cases flag with
    | false =>
      cases h
      exact hs₁
    | true => exact ih hs₁ h

theorem lt_of_mem_batches {batches : List (List Nat)} (h : p.findRepairBatchs = some batches) :
    ∀ i ∈ batches.flatten, i < p.numRelatedStripes := by
  obtain ⟨s, hrun, h⟩ := Option.bind_eq_some_iff.1 h
  cases h
  have hinit : p.Ranged .initial := fun _ _ hi => absurd hi List.not_mem_nil
  have hs := hinit.rounds hrun
  intro i hi
  obtain ⟨batch, hb, hi⟩ := List.mem_flatten.1 hi
  obtain ⟨rg, -, rfl⟩ := List.mem_map.1 (List.mem_filter.1 hb).1
  exact hs rg i hi

end

/-! ## When the batches are right -/

section
variable (p : BatchInput)

/-- Stripes with distinct nodes of the cluster, distinct positions to repair, and room for a stripe
in each group. -/
structure Valid : Prop where
  nodup : ∀ placement ∈ p.stripeList, placement.Nodup
  nodes : ∀ placement ∈ p.stripeList, ∀ i ∈ placement, p.sizes.IsNode i
  positions : p.stripesToRepair.Nodup
  within : ∀ i ∈ p.stripesToRepair, i < p.stripeList.length
  room : 0 < p.sizes.numStripesPerGroup

/-- The batches contain each stripe to repair once and no other one, and the stripes of a batch
share no helpers. -/
def Meets : Prop :=
  ∃ batches, p.findRepairBatchs = some batches ∧ batches.flatten.Perm p.stripesToRepair ∧
    ∀ batch ∈ batches, batch.Pairwise fun i j => (p.helpersOf i).Disjoint (p.helpersOf j)

/-- The two numberings agree, each stripe has a helper, and the tables hold the groups. -/
structure Sound : Prop where
  order : p.stripesToRepair = List.range p.numRelatedStripes
  helper : ∀ i ∈ p.stripesToRepair, p.helpersOf i ≠ []
  fits : p.Fits

/-- The stripes to repair are the first ones of the list, in another order. -/
def Rearranged : Prop :=
  p.stripesToRepair.Perm (List.range p.numRelatedStripes) ∧
    p.stripesToRepair ≠ List.range p.numRelatedStripes

end

section
variable {p : BatchInput} (hv : p.Valid)
include hv

theorem Valid.numbered (ho : p.stripesToRepair = List.range p.numRelatedStripes) :
    p.Numbered := by
  refine ⟨hv.nodup, hv.nodes, ?_, fun i hi => ?_⟩
  · by_contra hlt
    have hlast : p.stripeList.length ∈ p.stripesToRepair := by
      rw [ho]
      exact List.mem_range.2 (by omega)
    exact lt_irrefl _ (hv.within _ hlast)
  · rw [ho]
    exact List.getElem?_range hi

/-- What is found can only be right for the first stripes of the list. -/
theorem Meets.perm (h : p.Meets) :
    p.stripesToRepair.Perm (List.range p.numRelatedStripes) := by
  obtain ⟨batches, heq, hperm, -⟩ := h
  have hsub : p.stripesToRepair ⊆ List.range p.numRelatedStripes := fun i hi =>
    List.mem_range.2 (lt_of_mem_batches heq i (hperm.mem_iff.2 hi))
  refine (hv.positions.subperm hsub).perm_of_length_le ?_
  rw [List.length_range]
  exact le_rfl

theorem Sound.meets (h : p.Sound) : p.Meets := by
  have hp := hv.numbered h.order
  obtain ⟨rg, s, heq, hfin⟩ := hp.findRepairBatchs hv.room h.fits
  refine ⟨_, heq, ?_, fun batch hb => (hfin.packed hb).disjoint⟩
  refine (List.perm_ext_iff_of_nodup hfin.nodup hv.positions).2 fun i => ?_
  rw [hfin.mem]
  constructor
  · intro hsel
    rw [h.order]
    exact List.mem_range.2 (hfin.related hsel)
  · intro hi
    by_contra hfree
    refine h.helper i hi (hfin.exhausted i ?_ (eq_false_of_ne_true hfree))
    rw [h.order] at hi
    exact List.mem_range.1 hi

theorem Meets.sound (h : p.Meets) (ho : p.stripesToRepair = List.range p.numRelatedStripes) :
    p.Sound := by
  obtain ⟨batches, heq, hperm, -⟩ := h
  have hfits := fits_of_findRepairBatchs heq
  refine ⟨ho, fun i hi => ?_, hfits⟩
  obtain ⟨rg, s, heq', hfin⟩ := (hv.numbered ho).findRepairBatchs hv.room hfits
  rw [heq'] at heq
  cases heq
  obtain ⟨batch, hb, hi⟩ := List.mem_flatten.1 (hperm.mem_iff.2 hi)
  exact (hfin.packed hb).helper i hi

/-- **The batches are right** when the stripes to repair are the first ones of the list in its
order, each has a helper and the tables hold the groups; and only then, unless they are the first
ones in another order. -/
theorem meets_iff : (p.Sound → p.Meets) ∧ (¬ p.Rearranged → (p.Meets ↔ p.Sound)) := by
  refine ⟨fun h => h.meets hv, fun hr => ⟨fun h => h.sound hv ?_, fun h => h.meets hv⟩⟩
  by_contra hne
  exact hr ⟨h.perm hv, hne⟩

end

/-- Four stripes that all have a block on the failed node 0, in groups of two. -/
def allAffected : BatchInput where
  stripeList := [[0, 1, 2], [1, 3, 0], [4, 0, 3], [0, 5, 6]]
  stripesToRepair := [0, 1, 2, 3]
  soonToFail := [0]
  numAgents := 7
  n := 3

theorem meets_iff_allAffected : allAffected.Meets := by
  have hv : allAffected.Valid :=
    ⟨by decide, by unfold GroupSizes.IsNode; decide, by decide, by decide, by decide⟩
  have hp : allAffected.Numbered := hv.numbered rfl
  exact (meets_iff hv).1 ⟨rfl, by decide, hp.fits_of_le hv.room (by decide)⟩

/-- The first stripe has no block on the failed node 0 and the second one has. -/
def secondAffected : BatchInput where
  stripeList := [[1, 2, 3], [0, 4, 5]]
  stripesToRepair := [1]
  soonToFail := [0]
  numAgents := 7
  n := 3

/-- The batch has the first stripe in it. -/
theorem not_meets_secondAffected : secondAffected.Valid ∧
    secondAffected.findRepairBatchs = some [[0]] ∧ ¬ secondAffected.Meets := by
  have hrun : secondAffected.findRepairBatchs = some [[0]] := by decide
  refine ⟨⟨by decide, by unfold GroupSizes.IsNode; decide, by decide, by decide, by decide⟩, hrun,
    ?_⟩
  rintro ⟨batches, heq, hperm, -⟩
  rw [hrun] at heq
  cases heq
  exact absurd (hperm.mem_iff.1 (List.mem_singleton_self 0)) (by decide)

end BatchInput

end StripeRepair

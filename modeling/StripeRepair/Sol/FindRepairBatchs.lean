import StripeRepair.Sol.GreedyReplacement

/-!
# `findRepairBatchs`: groups of stripes that are repaired together

Group after group is filled with the stripes that are left and fit in, and then enlarged by
`greedy_replacement`. The groups hold positions in `_stripes_to_repair`, and
`formatReconstructionSets` takes them for positions in `_stripe_list`.

* `Filling.fillGroup`, `Filling.optimize`, `Filling.round`: a group is filled and enlarged, and the
  groups before it stay as they are.
* `Numbered.findRepairBatchs`: when the two numberings agree and the tables hold the groups, the
  rounds come to an end, and only stripes without helpers are left.
-/

namespace StripeRepair

open Function (update update_of_ne update_self)

open GroupArrays

/-- The tables before the first group. -/
def GroupTables.initial : GroupTables :=
  { arrays := ⟨fun _ => 0, fun _ => -1, fun _ => 0⟩
    repairGroup := fun _ => []
    ifselect := fun _ => false }

namespace BatchInput

section
variable (p : BatchInput)

/-- `_rg_num` -/
def rgNum : Nat :=
  (p.numRelatedStripes + p.sizes.numStripesPerGroup - 1) / p.sizes.numStripesPerGroup * 3

/-- The loop over the stripes that fills a group, with `flag`; `none` where the tables end. -/
def fillGroup (rg : Nat) : List Nat → Bool → GroupTables → Option (Bool × GroupTables)
  | [], flag, s => some (flag, s)
  | i :: is, flag, s =>
    if s.ifselect i then fillGroup rg is flag s
    else if rg < p.rgNum then do
      let nodelist ← p.stripeOf i
      let (ret, w) ← ifInsert p.sizes rg (s.repairGroup rg).length nodelist p.soonToFail s.arrays
      if ret = 0 then fillGroup rg is flag { s with arrays := w }
      else
        let s := s.push rg i w
        if (s.repairGroup rg).length = p.sizes.numStripesPerGroup then some (true, s)
        else fillGroup rg is true s
    else none

/-- `while (ret) ret = greedy_replacement(..)` -/
def optimize (rg : Nat) : Nat → GroupTables → Option GroupTables
  | 0, _ => none
  | fuel + 1, s => do
    let (ret, s) ← p.greedyReplacement rg s
    if ret then optimize rg fuel s else some s

/-- The body of the outer loop: `flag` is false when it ends. A replacement makes the group
larger, which bounds their number. -/
def round (rg : Nat) (s : GroupTables) : Option (Bool × GroupTables) := do
  let (flag, s) ← p.fillGroup rg (List.range p.numRelatedStripes) false s
  if flag then do
    let s ← p.optimize rg (p.sizes.numStripesPerGroup + 1) s
    some (true, s)
  else some (false, s)

def rounds : Nat → Nat → GroupTables → Option GroupTables
  | 0, _, _ => none
  | fuel + 1, rg, s => do
    let (flag, s) ← p.round rg s
    if flag then rounds fuel (rg + 1) s else some s

/-- A stripe of a batch is `_stripe_list[idx]`, here the position `idx`. -/
def formatReconstructionSets (s : GroupTables) : List (List Nat) :=
  ((List.range p.rgNum).map s.repairGroup).filter fun batch => batch ≠ []

/-- Every round but the last one places a stripe, which bounds their number. -/
def findRepairBatchs : Option (List (List Nat)) := do
  let s ← p.rounds (p.numRelatedStripes + 1) 0 .initial
  some (p.formatReconstructionSets s)

end

/-! ## Filling a group -/

section
variable {p : BatchInput} {rg : Nat}

theorem filling_initial : p.Filling 0 .initial := by
  have hnil : ∀ rg : Int, p.Holds rg [] GroupTables.initial.arrays := fun rg =>
    (Reached.init (g := p.sizes) fun _ => 0).group rg
  exact ⟨hnil 0, fun rg' _ => ⟨rfl, hnil rg'⟩, fun _ => packed_nil, Nat.zero_le _, List.nodup_nil,
    fun i => iff_of_false Bool.false_ne_true List.not_mem_nil, nofun⟩

theorem placed_succ (s : GroupTables) (rg : Nat) :
    placed s (rg + 1) = placed s rg ++ s.repairGroup rg := by
  unfold placed
  rw [List.range_succ, List.flatMap_append, List.flatMap_singleton]

/-- The next group. -/
theorem Filling.next {s : GroupTables} (hf : p.Filling rg s) : p.Filling (rg + 1) s := by
  obtain ⟨hnil, hholds⟩ := hf.later (rg + 1) (Nat.lt_succ_self rg)
  have hplaced : placed s (rg + 1) ++ s.repairGroup (rg + 1) =
      placed s rg ++ s.repairGroup rg := by
    rw [hnil, List.append_nil, placed_succ]
  refine ⟨hnil.symm ▸ hholds, fun rg' hlt => hf.later rg' (by omega), hf.packed,
    hnil.symm ▸ Nat.zero_le _, ?_, ?_, ?_⟩
  · rw [hplaced]
    exact hf.nodup
  · rw [hplaced]
    exact hf.selected
  · rw [hplaced]
    exact hf.related

theorem placed_push (s : GroupTables) (rg i : Nat) (w : GroupArrays) :
    placed (s.push rg i w) rg = placed s rg :=
  placed_congr fun _ hlt => push_of_ne s rg i w (by omega)

/-- A stripe that was left is put into the group. -/
theorem Filling.push {s : GroupTables} (hf : p.Filling rg s) {i : Nat}
    (hi : i < p.numRelatedStripes) (hsel : s.ifselect i = false)
    (hfit : p.FitsIn (s.repairGroup rg) i)
    (hlen : (s.repairGroup rg).length < p.sizes.numStripesPerGroup) {w : GroupArrays}
    (hholds : p.Holds rg (s.repairGroup rg ++ [i]) w)
    (helse : Elsewhere p.sizes rg s.arrays w) : p.Filling rg (s.push rg i w) := by
  have hself := push_group s rg i w
  have hnot : i ∉ placed s rg ++ s.repairGroup rg := fun hmem => by
    rw [(hf.selected i).2 hmem] at hsel
    cases hsel
  have hall : placed (s.push rg i w) rg ++ (s.push rg i w).repairGroup rg =
      (placed s rg ++ s.repairGroup rg) ++ [i] := by
    rw [placed_push, hself, List.append_assoc]
  refine ⟨hself.symm ▸ hholds, fun rg' hlt => ?_, fun rg' => ?_, ?_, ?_, fun j => ?_,
    fun j hj => ?_⟩
  · rw [push_of_ne s rg i w (by omega)]
    exact ⟨(hf.later rg' hlt).1, helse.group (by omega) (hf.later rg' hlt).2⟩
  · by_cases hrg : rg' = rg
    · rw [hrg, hself]
      exact packed_concat.2 ⟨hf.packed rg, hfit⟩
    · rw [push_of_ne s rg i w hrg]
      exact hf.packed rg'
  · rw [hself, List.length_append, List.length_singleton]
    exact hlen
  · rw [hall, List.nodup_append]
    refine ⟨hf.nodup, List.nodup_singleton i, ?_⟩
    rintro a ha b hb rfl
    exact hnot (List.mem_singleton.1 hb ▸ ha)
  · rw [hall, push_ifselect, List.mem_append, ← hf.selected, List.mem_singleton]
  · rw [hall] at hj
    rcases List.mem_append.1 hj with hj | hj
    · exact hf.related j hj
    · exact List.mem_singleton.1 hj ▸ hi

/-- One stripe of the loop: it is there already, does not go in, or goes in. -/
theorem fillGroup_skip {i : Nat} {is : List Nat} {flag : Bool} {s : GroupTables}
    (hsel : s.ifselect i = true) :
    p.fillGroup rg (i :: is) flag s = p.fillGroup rg is flag s := by
  rw [fillGroup, if_pos hsel]

section
variable {i : Nat} {is : List Nat} {flag : Bool} {s : GroupTables} (hsel : s.ifselect i = false)
  (hrg : rg < p.rgNum) {nodelist : List Int} (hstripe : p.stripeOf i = some nodelist)
  {w : GroupArrays}
include hsel hrg hstripe

theorem fillGroup_out (hcall : ifInsert p.sizes rg (s.repairGroup rg).length nodelist
      p.soonToFail s.arrays = some (0, w)) :
    p.fillGroup rg (i :: is) flag s = p.fillGroup rg is flag { s with arrays := w } := by
  rw [fillGroup, if_neg (by rw [hsel]; decide), if_pos hrg, hstripe]
  simp only [Option.bind_eq_bind, Option.bind_some, hcall, if_true]

theorem fillGroup_in (hcall : ifInsert p.sizes rg (s.repairGroup rg).length nodelist
      p.soonToFail s.arrays = some (1, w)) :
    p.fillGroup rg (i :: is) flag s =
      if (s.repairGroup rg).length + 1 = p.sizes.numStripesPerGroup then
        some (true, s.push rg i w)
      else p.fillGroup rg is true (s.push rg i w) := by
  rw [fillGroup, if_neg (by rw [hsel]; decide), if_pos hrg, hstripe]
  simp only [Option.bind_eq_bind, Option.bind_some, hcall, one_ne_zero, if_false, push_group,
    List.length_append, List.length_singleton]

end

/-- **Filling a group**: `flag` says whether there is a stripe in it. -/
theorem Filling.fillGroup (hp : p.Numbered) (hrg : rg < p.rgNum) (is : List Nat)
    (his : ∀ i ∈ is, i < p.numRelatedStripes) {s : GroupTables} (hf : p.Filling rg s)
    (hroom : (s.repairGroup rg).length < p.sizes.numStripesPerGroup) :
    ∃ s', p.fillGroup rg is (decide (s.repairGroup rg ≠ [])) s =
        some (decide (s'.repairGroup rg ≠ []), s') ∧
      p.Filling rg s' ∧ placed s' rg = placed s rg ∧
      (s'.repairGroup rg = [] → s'.repairGroup = s.repairGroup ∧ s'.ifselect = s.ifselect ∧
        ∀ i ∈ is, s.ifselect i = false → p.helpersOf i = []) := by
  induction is generalizing s with
  | nil => exact ⟨s, rfl, hf, rfl, fun _ => ⟨rfl, rfl, nofun⟩⟩
  | cons i is ih =>
    have hi := his i (List.mem_cons_self ..)
    have ih' := fun {s} => @ih (fun j hj => his j (List.mem_cons_of_mem _ hj)) s
    cases hsel : s.ifselect i with
    | true =>
      rw [fillGroup_skip hsel]
      obtain ⟨s', heq, hf', hplaced, hnone⟩ := ih' hf hroom
      refine ⟨s', heq, hf', hplaced, fun hnil => ?_⟩
      obtain ⟨hg, hs, hrest⟩ := hnone hnil
      refine ⟨hg, hs, fun j hj hfree => ?_⟩
      rcases List.mem_cons.1 hj with rfl | hj
      · rw [hsel] at hfree
        cases hfree
      · exact hrest j hj hfree
    | false =>
      by_cases hfit : p.FitsIn (s.repairGroup rg) i
      · obtain ⟨w, hcall, hholds, helse⟩ := hf.holds.insert hp hroom hi hfit
        rw [fillGroup_in hsel hrg (hp.stripeOf hi) hcall]
        have hf' := hf.push hi hsel hfit hroom hholds helse
        have hne := push_ne_nil s rg i w
        split
        · refine ⟨_, ?_, hf', placed_push s rg i w, fun hnil => absurd hnil hne⟩
          rw [decide_eq_true hne]
        · next hfull =>
          have hroom' : ((s.push rg i w).repairGroup rg).length < p.sizes.numStripesPerGroup := by
            rw [push_group, List.length_append, List.length_singleton]
            omega
          obtain ⟨s', heq, hf'', hplaced', hnone⟩ := ih' hf' hroom'
          rw [decide_eq_true hne] at heq
          refine ⟨s', heq, hf'', hplaced'.trans (placed_push s rg i w), fun hnil => ?_⟩
          have hg := congrFun (hnone hnil).1 rg
          rw [hnil] at hg
          exact absurd hg.symm hne
      · obtain ⟨w, hcall, hholds, helse⟩ := hf.holds.insert_not hp hroom hi hfit
        rw [fillGroup_out hsel hrg (hp.stripeOf hi) hcall]
        obtain ⟨s', heq, hf', hplaced, hnone⟩ := ih' (hf.withArrays hholds helse) hroom
        refine ⟨s', heq, hf', hplaced, fun hnil => ?_⟩
        obtain ⟨hg, hs, hrest⟩ := hnone hnil
        refine ⟨hg, hs, fun j hj hfree => ?_⟩
        rcases List.mem_cons.1 hj with rfl | hj
        · by_contra hne
          refine hfit ⟨hne, fun k hk => ?_⟩
          have hempty : s.repairGroup rg = [] := (congrFun hg rg).symm.trans hnil
          rw [hempty] at hk
          cases hk
        · exact hrest j hj hfree

/-- A stripe that is left does not go into a group after the last one. -/
theorem fillGroup_none (hrg : ¬ rg < p.rgNum) {is : List Nat} {i : Nat} (hi : i ∈ is) {flag : Bool}
    {s : GroupTables} (hfree : s.ifselect i = false) : p.fillGroup rg is flag s = none := by
  induction is with
  | nil => cases hi
  | cons j is ih =>
    rw [BatchInput.fillGroup]
    split
    · next hsel =>
      rcases List.mem_cons.1 hi with rfl | hi
      · rw [hfree] at hsel
        cases hsel
      · exact ih hi
    · rfl

theorem fillGroup_selected {is : List Nat} {flag : Bool} {s : GroupTables}
    (hsel : ∀ i ∈ is, s.ifselect i = true) : p.fillGroup rg is flag s = some (flag, s) := by
  induction is with
  | nil => rfl
  | cons i is ih =>
    rw [fillGroup_skip (hsel i (List.mem_cons_self ..))]
    exact ih fun j hj => hsel j (List.mem_cons_of_mem _ hj)

/-! ## A round -/

/-- **The replacements** come to an end: each one makes the group larger. -/
theorem Filling.optimize (hp : p.Numbered) (fuel : Nat) {s : GroupTables} (hf : p.Filling rg s)
    (hfuel : p.sizes.numStripesPerGroup - (s.repairGroup rg).length < fuel) :
    ∃ s', p.optimize rg fuel s = some s' ∧ p.Filling rg s' ∧ placed s' rg = placed s rg ∧
      (s.repairGroup rg).length ≤ (s'.repairGroup rg).length := by
  induction fuel generalizing s with
  | zero => omega
  | succ fuel ih =>
    obtain ⟨b, s₁, heq, hf₁, hplaced, hlen⟩ := hf.greedyReplacement hp
    have hbound := hf₁.bound
    rw [BatchInput.optimize, heq]
    simp only [Option.bind_eq_bind, Option.bind_some]
    cases b with
    | false => exact ⟨s₁, rfl, hf₁, hplaced, hlen⟩
    | true =>
      rw [if_pos rfl] at hlen
      obtain ⟨s', heq', hf', hplaced', hlen'⟩ := ih hf₁ (by omega)
      exact ⟨s', heq', hf', hplaced'.trans hplaced, by omega⟩

/-- The stripes that are left have no helpers. -/
def Exhausted (p : BatchInput) (s : GroupTables) : Prop :=
  ∀ i < p.numRelatedStripes, s.ifselect i = false → p.helpersOf i = []

/-- **A round** makes a group, or nothing is left for one. -/
theorem Filling.round (hp : p.Numbered) (hsize : 0 < p.sizes.numStripesPerGroup)
    (hrg : rg < p.rgNum) {s : GroupTables} (hf : p.Filling rg s) (hnil : s.repairGroup rg = []) :
    ∃ flag s', p.round rg s = some (flag, s') ∧ p.Filling rg s' ∧ placed s' rg = placed s rg ∧
      (flag = true → s'.repairGroup rg ≠ []) ∧
      (flag = false → s'.repairGroup rg = [] ∧ p.Exhausted s') := by
  have hroom : (s.repairGroup rg).length < p.sizes.numStripesPerGroup := by
    rw [hnil]
    exact hsize
  obtain ⟨s₁, heq, hf₁, hplaced, hempty⟩ := hf.fillGroup hp hrg (List.range p.numRelatedStripes)
    (fun i hi => List.mem_range.1 hi) hroom
  rw [decide_eq_false (not_not_intro hnil)] at heq
  unfold BatchInput.round
  rw [heq]
  simp only [Option.bind_eq_bind, Option.bind_some]
  by_cases hne : s₁.repairGroup rg = []
  · rw [decide_eq_false (not_not_intro hne)]
    obtain ⟨-, hsel, hrest⟩ := hempty hne
    refine ⟨false, s₁, rfl, hf₁, hplaced, nofun, fun _ => ⟨hne, fun i hi hfree => ?_⟩⟩
    rw [hsel] at hfree
    exact hrest i (List.mem_range.2 hi) hfree
  · rw [decide_eq_true hne]
    obtain ⟨s', heq', hf', hplaced', hlen⟩ :=
      hf₁.optimize hp (p.sizes.numStripesPerGroup + 1) (by omega)
    refine ⟨true, s', ?_, hf', hplaced'.trans hplaced, fun _ hnil' => ?_, nofun⟩
    · rw [if_pos rfl, heq', Option.bind_some]
    · rw [hnil', List.length_nil, Nat.le_zero] at hlen
      exact hne (List.length_eq_zero_iff.1 hlen)

/-! ## The rounds -/

/-- The states in which the rounds of the outer loop start. -/
inductive RoundStarts (p : BatchInput) : Nat → GroupTables → Prop
  | first : RoundStarts p 0 .initial
  | next {rg : Nat} {s s' : GroupTables} : RoundStarts p rg s →
      p.round rg s = some (true, s') → RoundStarts p (rg + 1) s'

/-- The tables hold the groups: where `rg_index` comes to `_rg_num`, every stripe is in a group. -/
def Fits (p : BatchInput) : Prop :=
  ∀ s, RoundStarts p p.rgNum s → ∀ i < p.numRelatedStripes, s.ifselect i = true

/-- The tables after the last round. -/
structure Finished (p : BatchInput) (rg : Nat) (s : GroupTables) : Prop where
  within : rg ≤ p.rgNum
  filling : p.Filling rg s
  last : s.repairGroup rg = []
  exhausted : p.Exhausted s

theorem Filling.placed_length {s : GroupTables} (hf : p.Filling rg s) :
    (placed s rg ++ s.repairGroup rg).length ≤ p.numRelatedStripes := by
  have hsub : placed s rg ++ s.repairGroup rg ⊆ List.range p.numRelatedStripes := fun i hi =>
    List.mem_range.2 (hf.related i hi)
  have := (hf.nodup.subperm hsub).length_le
  rwa [List.length_range] at this

theorem lt_of_round {s s' : GroupTables} (h : p.round rg s = some (true, s')) : rg < p.rgNum := by
  by_contra hrg
  obtain ⟨⟨flag, s₁⟩, hfill, h⟩ := Option.bind_eq_some_iff.1 h
  by_cases hall : ∀ i ∈ List.range p.numRelatedStripes, s.ifselect i = true
  · rw [fillGroup_selected hall] at hfill
    cases hfill
    cases h
  · push Not at hall
    obtain ⟨i, hi, hfree⟩ := hall
    rw [fillGroup_none hrg hi (eq_false_of_ne_true hfree)] at hfill
    cases hfill

/-- **Where a round starts**, the groups before it have a stripe each. -/
theorem RoundStarts.filling (hp : p.Numbered) (hsize : 0 < p.sizes.numStripesPerGroup)
    {s : GroupTables} (h : RoundStarts p rg s) :
    p.Filling rg s ∧ s.repairGroup rg = [] ∧ rg ≤ p.rgNum ∧ rg ≤ (placed s rg).length := by
  induction h with
  | first => exact ⟨filling_initial, rfl, Nat.zero_le _, Nat.zero_le _⟩
  | @next rg s s' _ hround ih =>
    obtain ⟨hf, hnil, -, hlen⟩ := ih
    have hrg := lt_of_round hround
    obtain ⟨flag, s₁, heq, hf₁, hplaced, hgroup, -⟩ := hf.round hp hsize hrg hnil
    rw [hround] at heq
    cases heq
    have hpos := List.length_pos_iff.2 (hgroup rfl)
    refine ⟨hf₁.next, (hf₁.later (rg + 1) (Nat.lt_succ_self rg)).1, hrg, ?_⟩
    rw [placed_succ, List.length_append, hplaced]
    omega

/-- As many groups as stripes are enough. -/
theorem Numbered.fits_of_le (hp : p.Numbered) (hsize : 0 < p.sizes.numStripesPerGroup)
    (hle : p.numRelatedStripes ≤ p.rgNum) : p.Fits := by
  intro s hstart i hi
  obtain ⟨hf, hnil, -, hlen⟩ := hstart.filling hp hsize
  have hnd := hf.nodup
  have hrel := hf.related
  rw [hnil, List.append_nil] at hnd hrel
  have hsub : placed s p.rgNum ⊆ List.range p.numRelatedStripes := fun j hj =>
    List.mem_range.2 (hrel j hj)
  have hperm := (hnd.subperm hsub).perm_of_length_le (by rw [List.length_range]; omega)
  rw [hf.selected, hnil, List.append_nil, hperm.mem_iff]
  exact List.mem_range.2 hi

/-- **The rounds** come to an end when the tables hold the groups. -/
theorem RoundStarts.finished (hp : p.Numbered) (hsize : 0 < p.sizes.numStripesPerGroup)
    (hfits : p.Fits) (fuel : Nat) {rg : Nat} {s : GroupTables} (h : RoundStarts p rg s)
    (hfuel : p.numRelatedStripes - (placed s rg).length < fuel) :
    ∃ rg' s', p.rounds fuel rg s = some s' ∧ p.Finished rg' s' := by
  induction fuel generalizing rg s with
  | zero => omega
  | succ fuel ih =>
    obtain ⟨hf, hnil, hrg, -⟩ := h.filling hp hsize
    rw [BatchInput.rounds]
    by_cases hlt : rg < p.rgNum
    · obtain ⟨flag, s₁, heq, hf₁, hplaced, hgroup, hlast⟩ := hf.round hp hsize hlt hnil
      rw [heq]
      simp only [Option.bind_eq_bind, Option.bind_some]
      cases flag with
      | false => exact ⟨rg, s₁, rfl, hrg, hf₁, (hlast rfl).1, (hlast rfl).2⟩
      | true =>
        -- the group is placed, which leaves fewer stripes
        have hpos := List.length_pos_iff.2 (hgroup rfl)
        have hall := hf₁.placed_length
        rw [List.length_append, hplaced] at hall
        refine ih (h.next heq) ?_
        rw [placed_succ, List.length_append, hplaced]
        omega
    · obtain rfl : rg = p.rgNum := by omega
      have hall := hfits s h
      have heq : p.round p.rgNum s = some (false, s) := by
        unfold BatchInput.round
        rw [fillGroup_selected fun i hi => hall i (List.mem_range.1 hi)]
        rfl
      rw [heq]
      refine ⟨p.rgNum, s, rfl, hrg, hf, hnil, fun i hi hfree => ?_⟩
      rw [hall i hi] at hfree
      cases hfree

/-- A run passes through the rounds that start. -/
theorem RoundStarts.rounds {s₀ s : GroupTables} {rg fuel : Nat} (h : RoundStarts p rg s)
    (hrun : p.rounds fuel 0 .initial = some s₀) : ∃ fuel', p.rounds fuel' rg s = some s₀ := by
  induction h with
  | first => exact ⟨fuel, hrun⟩
  | next _ hround ih =>
    obtain ⟨fuel', heq⟩ := ih
    cases fuel' with
    | zero => cases heq
    | succ fuel' =>
      rw [BatchInput.rounds, hround] at heq
      exact ⟨fuel', heq⟩

/-- **Where the batches are found**, the tables hold the groups. -/
theorem fits_of_findRepairBatchs {batches : List (List Nat)}
    (h : p.findRepairBatchs = some batches) : p.Fits := by
  intro s hstart i hi
  by_contra hfree
  rw [Bool.not_eq_true] at hfree
  obtain ⟨s₀, hrun, -⟩ := Option.bind_eq_some_iff.1 h
  obtain ⟨fuel, heq⟩ := hstart.rounds hrun
  cases fuel with
  | zero => cases heq
  | succ fuel =>
    rw [BatchInput.rounds, BatchInput.round,
      fillGroup_none (lt_irrefl _) (List.mem_range.2 hi) hfree] at heq
    cases heq

/-! ## The batches -/

section
variable {s : GroupTables} (h : p.Finished rg s)
include h

theorem Finished.placed_eq {rg' : Nat} (hle : rg ≤ rg') : placed s rg' = placed s rg := by
  induction rg', hle using Nat.le_induction with
  | base => rfl
  | succ rg' hle ih =>
    have hnil : s.repairGroup rg' = [] := by
      rcases Nat.eq_or_lt_of_le hle with rfl | hlt
      · exact h.last
      · exact (h.filling.later rg' hlt).1
    rw [placed_succ, hnil, List.append_nil, ih]

theorem Finished.flatten : (p.formatReconstructionSets s).flatten = placed s rg := by
  unfold formatReconstructionSets
  rw [List.flatten_filter_ne_nil, ← List.flatMap_def]
  exact h.placed_eq h.within

theorem Finished.mem {i : Nat} :
    i ∈ (p.formatReconstructionSets s).flatten ↔ s.ifselect i = true := by
  rw [h.flatten, h.filling.selected, h.last, List.append_nil]

theorem Finished.related {i : Nat} (hsel : s.ifselect i = true) : i < p.numRelatedStripes :=
  h.filling.related i ((h.filling.selected i).1 hsel)

theorem Finished.nodup : (p.formatReconstructionSets s).flatten.Nodup := by
  rw [h.flatten]
  exact (List.nodup_append.1 h.filling.nodup).1

theorem Finished.packed {batch : List Nat} (hb : batch ∈ p.formatReconstructionSets s) :
    p.Packed batch := by
  obtain ⟨rg', -, rfl⟩ := List.mem_map.1 (List.mem_filter.1 hb).1
  exact h.filling.packed rg'

end

/-- **The batches** are the groups of a run that has come to its end. -/
theorem Numbered.findRepairBatchs (hp : p.Numbered) (hsize : 0 < p.sizes.numStripesPerGroup)
    (hfits : p.Fits) : ∃ rg s, p.findRepairBatchs = some (p.formatReconstructionSets s) ∧
      p.Finished rg s := by
  obtain ⟨rg, s, heq, hfin⟩ := RoundStarts.first.finished hp hsize hfits (p.numRelatedStripes + 1)
    (Nat.lt_succ_of_le (Nat.sub_le _ _))
  refine ⟨rg, s, ?_, hfin⟩
  rw [BatchInput.findRepairBatchs, heq]
  rfl

end

end BatchInput

end StripeRepair

import StripeRepair.Common.RepairDag
import StripeRepair.Sol.EvaluateChange

/-!
# The preview of a group

`evaluateChange2` previews one colour for several vertices. It counts the parents of each of
them by their old colours and the children of the first one only, and when the first one had
a colour it takes sender and receiver of a child's transfer for each other.

* `missed`, `surplus`: the transfers of a vertex that the preview leaves out and those that it
  counts and are not there.
* `evaluateChange2_iff`: the preview is right exactly if these balance at every node.
* `balanced_uncolored_iff`: for a group without colours this is so when the first member has all
  children that newly send to the group.
-/

namespace StripeRepair

open PRSolution (colorAt)

namespace ECDAG

section
variable (d : ECDAG) (coloring : Coloring) (group : List Nat) (new : Int)

/-- `v` sends to `new` as soon as one of its parents has this colour. -/
def Joins (v : Nat) : Prop :=
  colorAt coloring v ≠ -1 ∧ colorAt coloring v ≠ new ∧ d.countColor coloring v new = 0

instance (v : Nat) : Decidable (d.Joins coloring new v) := by
  unfold Joins
  infer_instance

/-- `v` sends to a parent of the group, and of its parents only this one has the colour `old`. -/
def Leaves (old : Int) (v : Nat) : Prop :=
  colorAt coloring v ≠ -1 ∧ colorAt coloring v ≠ old ∧ d.countColor coloring v old = 1

instance (old : Int) (v : Nat) : Decidable (d.Leaves coloring old v) := by
  unfold Leaves
  infer_instance

/-- The colours of the parents that only members of the group have. -/
def lostColors (v : Nat) : List Int :=
  (d.parentColors (colorAt coloring) v).filter fun a =>
    a ≠ -1 ∧ a ≠ new ∧ ∀ p ∈ d.parentIds v, colorAt coloring p = a → p ∈ group

/-- The transfers of `v` that are left out: those of a child that the first member does not
have, and, when the first member had a colour, those the wrong way round. -/
def missed (v : Nat) : List (Int × Int) :=
  let first := group.getD 0 0
  let old := colorAt coloring first
  (if v ∉ group ∧ (∃ g ∈ group, v ∈ d.childIndices g) ∧
      ¬(old = -1 ∧ v ∈ d.childIndices first) ∧ d.Joins coloring new v then
    [(colorAt coloring v, new)] else []) ++
  if v ∈ d.childIndices first ∧ old ≠ -1 ∧ d.Leaves coloring old v then
    [(old, colorAt coloring v)] else []

/-- The transfers of `v` that are not there: those to colours that the group loses, and those
of a child of the first member that the group holds itself or that go the wrong way. -/
def surplus (v : Nat) : List (Int × Int) :=
  let first := group.getD 0 0
  let old := colorAt coloring first
  let src := if v ∈ group then new else colorAt coloring v
  (if src = -1 then [] else
    ((d.lostColors coloring group new v).filter fun a => a ≠ src).map fun a => (src, a)) ++
  if v ∈ d.childIndices first ∧ d.Joins coloring new v ∧ (old ≠ -1 ∨ v ∈ group) then
    [if old = -1 then (colorAt coloring v, new) else (new, colorAt coloring v)] else []

end

/-! ## What the preview counts -/

/-- What `changeGroup` counts for a child of the first member. -/
def childWeight2 (d : ECDAG) (coloring : Coloring) (old new : Int) (w : Weight) (child : Nat) :
    Int :=
  let cc := colorAt coloring child
  if old = -1 then if d.Joins coloring new child then w cc new else 0
  else (if d.Joins coloring new child then w new cc else 0) -
    if d.Leaves coloring old child then w old cc else 0

section
variable (d : ECDAG) (coloring : Coloring)

theorem tracks_childMove2 (old new : Int) (t : Cells) (μ : Weight → Int) (child : Nat)
    (h : t.Tracks μ) :
    (d.childMove (fun t src dst x => t.move dst src x) coloring old new t child).Tracks
      fun w => μ w + d.childWeight2 coloring old new w child := by
  unfold childMove childWeight2 Joins Leaves
  dsimp only
  by_cases hcc : colorAt coloring child = -1
  · rw [if_pos hcc]
    exact h.congr fun w => by simp [hcc]
  · rw [if_neg hcc]
    by_cases hold : old = -1
    · rw [if_pos hold]
      refine (h.step _ _ _ _).congr fun w => ?_
      simp [hcc, hold, and_comm, eq_comm]
    · rw [if_neg hold]
      refine ((h.step _ _ _ _).step _ _ _ _).congr fun w => ?_
      simp only [hcc, hold, ne_eq, not_false_eq_true, true_and, if_false,
        and_comm, eq_comm (a := colorAt coloring child)]
      split <;> split <;> omega

/-- **The preview** as sums over the transfers. -/
theorem tracks_changeGroup {t : Cells} {μ : Weight → Int} (h : t.Tracks μ) (group : List Nat)
    (new : Int) : (d.changeGroup coloring t group new).Tracks fun w =>
      μ w + (group.map fun idx => ((d.parentColors (colorAt coloring) idx).map
        (parentWeight (colorAt coloring idx) new w)).sum).sum +
      ((d.childIndices (group.getD 0 0)).map
        (d.childWeight2 coloring (colorAt coloring (group.getD 0 0)) new w)).sum :=
  Cells.Tracks.foldl (d.tracks_childMove2 coloring _ new) _
    (Cells.Tracks.foldl (fun _ _ idx ht =>
      Cells.Tracks.foldl (tracks_parentMove (colorAt coloring idx) new)
        (d.parentColors (colorAt coloring) idx) ht) _ h)

end

/-! ## One vertex -/

/-- The weight of a list of transfers. -/
def weigh (w : Weight) (es : List (Int × Int)) : Int := (es.map fun e => w e.1 e.2).sum

theorem weigh_append (w : Weight) (es es' : List (Int × Int)) :
    weigh w (es ++ es') = weigh w es + weigh w es' := by
  rw [weigh, List.map_append, List.sum_append]
  rfl

theorem weigh_ite (w : Weight) (p : Prop) [Decidable p] (e : Int × Int) :
    weigh w (if p then [e] else []) = if p then w e.1 e.2 else 0 := by
  unfold weigh
  split <;> simp

section
variable {d : ECDAG} {coloring : Coloring} {group : List Nat} {new : Int} {v : Nat}

variable (d coloring group v) in
/-- The colours of the parents outside the group. -/
def keptColors : Finset Int :=
  ((d.parentIds v).toFinset.filter fun p => p ∉ group).image (colorAt coloring)

variable (d coloring v) in
/-- The colours of the parents. -/
def allColors : Finset Int := (d.parentIds v).toFinset.image (colorAt coloring)

theorem keptColors_subset : keptColors d coloring group v ⊆ allColors d coloring v :=
  Finset.image_subset_image (Finset.filter_subset _ _)

theorem mem_lostColors {a : Int} : a ∈ d.lostColors coloring group new v ↔
    a ∈ allColors d coloring v \ keptColors d coloring group v ∧ a ≠ -1 ∧ a ≠ new := by
  unfold lostColors allColors keptColors
  simp only [List.mem_filter, mem_parentColors, decide_eq_true_eq, Finset.mem_sdiff,
    Finset.mem_image, Finset.mem_filter, List.mem_toFinset, not_exists, not_and]
  constructor
  · rintro ⟨⟨p, hp, he⟩, h1, h2, h3⟩
    exact ⟨⟨⟨p, hp, he⟩, fun q hq hqa => hq.2 (h3 q hq.1 hqa)⟩, h1, h2⟩
  · rintro ⟨⟨h1, h2⟩, h3, h4⟩
    refine ⟨h1, h3, h4, fun p hp hpa => ?_⟩
    by_contra hno
    exact h2 p ⟨hp, hno⟩ hpa

theorem countColor_eq_zero_iff : d.countColor coloring v new = 0 ↔ new ∉ allColors d coloring v :=
  countColor_zero_iff

/-- What is sent to lost colours. -/
theorem weigh_lost (w : Weight) (src : Int) :
    weigh w (((d.lostColors coloring group new v).filter fun a => a ≠ src).map fun a => (src, a)) =
      ∑ a ∈ allColors d coloring v \ keptColors d coloring group v,
        if a ≠ -1 ∧ a ≠ new ∧ a ≠ src then w src a else 0 := by
  have hnodup : ((d.lostColors coloring group new v).filter fun a => a ≠ src).Nodup :=
    ((d.nodup_parentColors _ v).filter _).filter _
  rw [← Finset.sum_filter, weigh, List.map_map]
  show (List.map (fun a => w src a) _).sum = _
  rw [← List.sum_toFinset _ hnodup]
  congr 1
  ext a
  simp only [List.mem_toFinset, List.mem_filter, mem_lostColors, decide_eq_true_eq,
    Finset.mem_filter]
  tauto

/-- **The colours of the parents** are those outside the group, the lost ones and maybe `new`. -/
theorem sum_allColors (w : Weight) (src : Int) :
    ∑ a ∈ allColors d coloring v, gain w src a =
      ∑ a ∈ keptColors d coloring group v, gain w src a +
      (if new ∈ allColors d coloring v ∧ new ∉ keptColors d coloring group v then gain w src new
        else 0) +
      weigh w (((d.lostColors coloring group new v).filter fun a => a ≠ src).map
        fun a => (src, a)) := by
  have hsplit := Finset.sum_sdiff (f := gain w src) (@keptColors_subset d coloring group v)
  have hterm : ∀ a, gain w src a = (if a = new then gain w src new else 0) +
      if a ≠ -1 ∧ a ≠ new ∧ a ≠ src then w src a else 0 := by
    intro a
    by_cases ha : a = new
    · simp [ha]
    · rw [if_neg ha, zero_add, gain_eq]
      refine if_congr ?_ rfl rfl
      tauto
  have hlost : ∑ a ∈ allColors d coloring v \ keptColors d coloring group v, gain w src a =
      (if new ∈ allColors d coloring v ∧ new ∉ keptColors d coloring group v then gain w src new
        else 0) + ∑ a ∈ allColors d coloring v \ keptColors d coloring group v,
        if a ≠ -1 ∧ a ≠ new ∧ a ≠ src then w src a else 0 := by
    rw [Finset.sum_congr rfl fun a _ => hterm a, Finset.sum_add_distrib, Finset.sum_ite_eq']
    simp only [Finset.mem_sdiff]
  rw [weigh_lost, ← hsplit, hlost]
  omega

section
variable {color' : Nat → Int} (hcolor : ∀ u, color' u = if u ∈ group then new else colorAt coloring u)
include hcolor

/-- The colours of the parents after the group has the colour `new`. -/
theorem image_recolored : (d.parentIds v).toFinset.image color' =
    if ∃ p ∈ d.parentIds v, p ∈ group then insert new (keptColors d coloring group v)
    else keptColors d coloring group v := by
  ext a
  simp only [Finset.mem_image, List.mem_toFinset, hcolor]
  split
  · next h =>
    obtain ⟨q, hq, hqg⟩ := h
    simp only [Finset.mem_insert, keptColors, Finset.mem_image, Finset.mem_filter,
      List.mem_toFinset]
    constructor
    · rintro ⟨p, hp, rfl⟩
      split
      · exact Or.inl rfl
      · next hno => exact Or.inr ⟨p, ⟨hp, hno⟩, rfl⟩
    · rintro (rfl | ⟨p, ⟨hp, hno⟩, rfl⟩)
      · exact ⟨q, hq, if_pos hqg⟩
      · exact ⟨p, hp, if_neg hno⟩
  · next h =>
    simp only [keptColors, Finset.mem_image, Finset.mem_filter, List.mem_toFinset]
    constructor
    · rintro ⟨p, hp, rfl⟩
      have hno : p ∉ group := fun hg => h ⟨p, hp, hg⟩
      exact ⟨p, ⟨hp, hno⟩, (if_neg hno).symm⟩
    · rintro ⟨p, ⟨hp, hno⟩, rfl⟩
      exact ⟨p, hp, if_neg hno⟩

/-- **What is sent to the parents**: lost colours are gone, and `new` is there. -/
theorem sum_recolored (w : Weight) (src : Int) :
    ∑ a ∈ (d.parentIds v).toFinset.image color', gain w src a +
      weigh w (((d.lostColors coloring group new v).filter fun a => a ≠ src).map
        fun a => (src, a)) =
      ∑ a ∈ allColors d coloring v, gain w src a +
        if (∃ p ∈ d.parentIds v, p ∈ group) ∧ new ∉ allColors d coloring v then gain w src new
        else 0 := by
  have hall := @sum_allColors d coloring group new v w src
  have hsub := @keptColors_subset d coloring group v
  rw [image_recolored hcolor]
  by_cases hmem : ∃ p ∈ d.parentIds v, p ∈ group
  · rw [if_pos hmem, sum_insert_ite]
    by_cases hk : new ∈ keptColors d coloring group v
    · have ha := hsub hk
      simp only [hk, ha, not_true_eq_false, and_false, if_true, if_false] at hall ⊢
      omega
    · by_cases ha : new ∈ allColors d coloring v
      · simp only [hk, ha, hmem, not_true_eq_false, not_false_eq_true, and_false, and_true,
          if_true, if_false] at hall ⊢
        omega
      · simp only [hk, ha, hmem, not_false_eq_true, and_true, if_true, if_false] at hall ⊢
        omega
  · -- without a member among the parents nothing is lost
    have hkept : keptColors d coloring group v = allColors d coloring v := by
      unfold keptColors allColors
      rw [Finset.filter_true_of_mem]
      exact fun p hp hg => hmem ⟨p, List.mem_toFinset.1 hp, hg⟩
    rw [if_neg hmem, if_neg fun h => hmem h.1]
    rw [hkept] at hall ⊢
    simp only [and_not_self, if_false] at hall
    omega

/-- **A member of the group** sends to the old colours of its parents in the preview. -/
theorem Consistent.sent_member (hd : d.Consistent) (hnew : new ≠ -1) (hv : v ∈ group)
    (w : Weight) : d.sent color' w v +
      weigh w (((d.lostColors coloring group new v).filter fun a => a ≠ new).map
        fun a => (new, a)) =
      d.sent (colorAt coloring) w v + ((d.parentColors (colorAt coloring) v).map
        (parentWeight (colorAt coloring v) new w)).sum := by
  have hupdate := @Consistent.sent_vertex d hd (colorAt coloring)
    (Function.update (colorAt coloring) v new) v
    (fun u hu => Function.update_of_ne hu _ _) (by rw [Function.update_self]; exact hnew) w
  have himage : (d.parentIds v).toFinset.image (Function.update (colorAt coloring) v new) =
      allColors d coloring v := by
    refine Finset.image_congr fun p hp => Function.update_of_ne ?_ _ _
    rintro rfl
    exact hd.not_mem_parentIds p (List.mem_toFinset.1 hp)
  rw [Function.update_self, sent_eq_sum, Function.update_self, if_neg hnew, himage] at hupdate
  have hsum := @sum_recolored d coloring group new v color' hcolor w new
  have hself : gain w new new = 0 := by simp [gain_eq]
  rw [hself, ite_self, add_zero] at hsum
  rw [sent_eq_sum, hcolor v, if_pos hv, if_neg hnew, hsum, hupdate]

/-- **A vertex outside the group** sends to `new` instead of the lost colours. -/
theorem sent_outside (hnew : new ≠ -1) (hv : v ∉ group) (w : Weight) : d.sent color' w v +
    weigh w (if colorAt coloring v = -1 then [] else
      ((d.lostColors coloring group new v).filter fun a => a ≠ colorAt coloring v).map
        fun a => (colorAt coloring v, a)) =
      d.sent (colorAt coloring) w v +
        if (∃ p ∈ d.parentIds v, p ∈ group) ∧ d.Joins coloring new v then
          w (colorAt coloring v) new else 0 := by
  rw [sent_eq_sum, sent_eq_sum, hcolor v, if_neg hv]
  by_cases hcc : colorAt coloring v = -1
  · simp [hcc, Joins, weigh]
  · rw [if_neg hcc, if_neg hcc, if_neg hcc, sum_recolored hcolor, gain_eq]
    congr 1
    by_cases hmem : (∃ p ∈ d.parentIds v, p ∈ group) ∧ new ∉ allColors d coloring v
    · have hcount := countColor_eq_zero_iff.2 hmem.2
      rw [if_pos hmem]
      refine if_congr ?_ rfl rfl
      simp only [hmem.1, true_and, Joins, hcount, hcc, hnew, ne_eq, not_false_eq_true, and_true,
        eq_comm (a := colorAt coloring v)]
    · rw [if_neg hmem, if_neg]
      rintro ⟨h1, h2⟩
      exact hmem ⟨h1, countColor_eq_zero_iff.1 h2.2.2⟩

/-- **One vertex**: what it sends and the surplus of the preview are what the preview counts and
what it leaves out. -/
theorem Consistent.sent_group (hd : d.Consistent) (hnew : new ≠ -1)
    (hfirst : group.getD 0 0 ∈ group) (v : Nat) (w : Weight) :
    d.sent color' w v + weigh w (d.surplus coloring group new v) =
      d.sent (colorAt coloring) w v +
      (if v ∈ group then ((d.parentColors (colorAt coloring) v).map
        (parentWeight (colorAt coloring v) new w)).sum else 0) +
      (if v ∈ d.childIndices (group.getD 0 0) then
        d.childWeight2 coloring (colorAt coloring (group.getD 0 0)) new w v else 0) +
      weigh w (d.missed coloring group new v) := by
  have hchild : (∃ p ∈ d.parentIds v, p ∈ group) ↔ ∃ g ∈ group, v ∈ d.childIndices g := by
    constructor
    · rintro ⟨p, hp, hg⟩
      exact ⟨p, hg, hd.mem_parentIds.1 hp⟩
    · rintro ⟨g, hg, hv⟩
      exact ⟨g, hd.mem_parentIds.2 hv, hg⟩
  have hfirstChild : v ∈ d.childIndices (group.getD 0 0) → ∃ g ∈ group, v ∈ d.childIndices g :=
    fun h => ⟨_, hfirst, h⟩
  unfold surplus missed
  dsimp only
  rw [weigh_append, weigh_append, weigh_ite, weigh_ite, weigh_ite]
  unfold childWeight2
  generalize colorAt coloring (group.getD 0 0) = old
  by_cases hv : v ∈ group
  · have hmember := hd.sent_member hcolor hnew hv w
    simp only [hv, if_true, if_neg hnew, not_true_eq_false, false_and, if_false, or_true, and_true]
    generalize weigh w (List.map _ (List.filter _ _)) = lost at hmember ⊢
    by_cases hch : v ∈ d.childIndices (group.getD 0 0)
    · by_cases hold : old = -1
      · simp only [hch, hold, if_true, true_and, ne_eq, not_true_eq_false, false_and, if_false]
        omega
      · simp only [hch, hold, if_true, true_and, ne_eq, not_false_eq_true, if_false]
        omega
    · simp only [hch, false_and, if_false]
      omega
  · have houtside := @sent_outside d coloring group new v color' hcolor hnew hv w
    simp only [hchild] at houtside
    simp only [hv, if_false, not_false_eq_true, true_and, or_false]
    generalize weigh w (if colorAt coloring v = -1 then [] else _) = lost at houtside ⊢
    by_cases hch : v ∈ d.childIndices (group.getD 0 0)
    · have hmem := hfirstChild hch
      by_cases hold : old = -1
      · simp only [hch, hold, hmem, if_true, true_and, ne_eq, not_true_eq_false, false_and,
          and_false, if_false] at houtside ⊢
        omega
      · simp only [hch, hold, hmem, if_true, true_and, ne_eq, not_false_eq_true, and_true,
          if_false] at houtside ⊢
        omega
    · simp only [hch, false_and, and_false, not_false_eq_true, true_and, if_false] at houtside ⊢
      omega

end

end

/-! ## All vertices -/

theorem weigh_flatMap (w : Weight) (l : List Nat) (f : Nat → List (Int × Int)) :
    weigh w (l.flatMap f) = (l.map fun v => weigh w (f v)).sum := by
  induction l with
  | nil => rfl
  | cons v l ih => rw [List.flatMap_cons, weigh_append, ih, List.map_cons, List.sum_cons]

theorem weigh_from (x : Int) (es : List (Int × Int)) :
    weigh (.from x) es = es.countP fun e => e.1 = x := by
  induction es with
  | nil => rfl
  | cons e es ih =>
    rw [← List.singleton_append, weigh_append, ih, List.countP_append, Nat.cast_add]
    congr 1
    unfold weigh Weight.from
    by_cases he : e.1 = x <;> simp [he]

theorem weigh_into (x : Int) (es : List (Int × Int)) :
    weigh (.into x) es = es.countP fun e => e.2 = x := by
  induction es with
  | nil => rfl
  | cons e es ih =>
    rw [← List.singleton_append, weigh_append, ih, List.countP_append, Nat.cast_add]
    congr 1
    unfold weigh Weight.into
    by_cases he : e.2 = x <;> simp [he]

/-- A part of the vertices. -/
theorem sum_mem {keys l : List Nat} (hkeys : keys.Nodup) (hl : l.Nodup) (hsub : ∀ v ∈ l, v ∈ keys)
    (f : Nat → Int) : (keys.map fun v => if v ∈ l then f v else 0).sum = (l.map f).sum := by
  rw [← List.sum_toFinset _ hkeys, ← List.sum_toFinset _ hl]
  simp only [← List.mem_toFinset (l := l)]
  rw [Finset.sum_ite_mem, Finset.inter_eq_right.2]
  intro v hv
  exact List.mem_toFinset.2 (hsub v (List.mem_toFinset.1 hv))

section
variable {d : ECDAG} {coloring : Coloring} {group : List Nat} {new : Int} {color' : Nat → Int}

/-- **The whole colouring**: the surplus and what is left out are all the difference. -/
theorem Consistent.sum_sent_group (hd : d.Consistent) (hnew : new ≠ -1)
    (hcolor : ∀ u, color' u = if u ∈ group then new else colorAt coloring u)
    (hfirst : group.getD 0 0 ∈ group) (hgroup : group.Nodup)
    (hch : (d.childIndices (group.getD 0 0)).Nodup) {keys : List Nat} (hkeys : keys.Nodup)
    (hmem : ∀ v, v ∈ keys ↔ v ∈ d.nodeIds) (hsub : ∀ v ∈ group, v ∈ d.nodeIds) (w : Weight) :
    (keys.map (d.sent color' w)).sum + weigh w (keys.flatMap (d.surplus coloring group new)) =
      (keys.map (d.sent (colorAt coloring) w)).sum +
      (group.map fun idx => ((d.parentColors (colorAt coloring) idx).map
        (parentWeight (colorAt coloring idx) new w)).sum).sum +
      ((d.childIndices (group.getD 0 0)).map
        (d.childWeight2 coloring (colorAt coloring (group.getD 0 0)) new w)).sum +
      weigh w (keys.flatMap (d.missed coloring group new)) := by
  rw [weigh_flatMap, weigh_flatMap, ← sum_mem hkeys hgroup fun v hv => (hmem v).2 (hsub v hv),
    ← sum_mem hkeys hch fun v hv => (hmem v).2 (hd.closed _ v hv), ← List.sum_map_add,
    ← List.sum_map_add, ← List.sum_map_add, ← List.sum_map_add]
  congr 1
  exact List.map_congr_left fun v _ => hd.sent_group hcolor hnew hfirst v w

end

end ECDAG

/-- As many transfers of each list go from each node, and to each node. -/
def Balanced (clusterSize : Nat) (es es' : List (Int × Int)) : Prop :=
  ∀ i : Nat, i < clusterSize →
    es.countP (fun e => e.1 = (i : Int)) = es'.countP (fun e => e.1 = (i : Int)) ∧
    es.countP (fun e => e.2 = (i : Int)) = es'.countP (fun e => e.2 = (i : Int))

/-- Each vertex of the group gets the colour `new`. -/
def recolorAll (coloring : Coloring) (group : List Nat) (new : Int) : Coloring :=
  group.foldl (fun r v => r.insert v new) coloring

theorem colorAt_recolorAll (coloring : Coloring) (group : List Nat) (new : Int) (u : Nat) :
    colorAt (recolorAll coloring group new) u = if u ∈ group then new else colorAt coloring u := by
  unfold recolorAll
  induction group generalizing coloring with
  | nil => rfl
  | cons v group ih =>
    rw [List.foldl_cons, ih, PRSolution.colorAt_insert]
    by_cases hu : u ∈ group <;> by_cases hv : u = v <;> simp [hu, hv]

theorem keys_recolorAll {coloring : Coloring} {group : List Nat} (h : ∀ v ∈ group, v ∈ coloring)
    (new : Int) : (recolorAll coloring group new).keys.Perm coloring.keys := by
  unfold recolorAll
  induction group generalizing coloring with
  | nil => exact List.Perm.refl _
  | cons v group ih =>
    rw [List.foldl_cons]
    have hv := StripeTables.keys_perm_insert (h v (List.mem_cons_self ..)) new
    refine (ih fun u hu => ?_).trans hv
    exact (AList.mem_insert _).2 (Or.inr (h u (List.mem_cons_of_mem _ hu)))

namespace StripeTables

/-! ## The preview -/

section
variable {d : ECDAG} {s : StripeTables} {N : Nat} (t : Cells) (ht : s.Total d) (hd : d.Consistent)
include ht hd

theorem reads_previewChild2 {child : Nat} (hch : child ∈ s.coloring)
    (hcol : NodeColor (colorAt s.coloring child)) {old new : Int} (hold : 0 ≤ old)
    (hnew : 0 ≤ new) : Reads s (previewChild2 d old new (t.table N) child)
      ((d.childMove (fun t src dst x => t.move dst src x) s.coloring old new t child).table N) := by
  unfold previewChild2 ECDAG.childMove
  refine (reads_colorOf hch).bind ?_
  dsimp only
  by_cases h : colorAt s.coloring child = -1
  · rw [if_pos h, if_pos h]
    exact .pure _
  · have hold' : old ≠ -1 := by omega
    rw [if_neg h, if_neg h, if_neg hold']
    refine (reads_countBoth ht hd child old new).bind ?_
    have hfirst : (if d.countColor s.coloring child old = 1 ∧ old ≠ colorAt s.coloring child then
        addAt (addAt (t.table N) old 0 (-1)) (colorAt s.coloring child) 1 (-1) else t.table N) =
        (if d.countColor s.coloring child old = 1 ∧ old ≠ colorAt s.coloring child then
          t.move old (colorAt s.coloring child) (-1) else t).table N := by
      split
      · exact (addAt_move t hold (hcol.nonneg h) (-1)).1
      · rfl
    dsimp only
    rw [hfirst]
    split
    · rw [← (addAt_move _ hnew (hcol.nonneg h) 1).1]
      exact .pure _
    · exact .pure _

/-- **The preview of the group**: nothing is changed, and the table is that of `changeGroup`. -/
theorem reads_evaluateChange2 {ord : HashOrder EvalWalk} (hN : s.Within N)
    (hcol : ∀ v ∈ d.nodeIds, NodeColor (colorAt s.coloring v)) {group : List Nat}
    (hgroup : ∀ v ∈ group, v ∈ d.nodeIds) (hfirst : group.getD 0 0 ∈ group) {new : Int}
    (hnew : 0 ≤ new) : Reads s (evaluateChange2 d ord N group new)
      (d.evaluateChange2 s.coloring s.cells N group new) := by
  have hmem : ∀ child ∈ d.childIndices (group.getD 0 0), child ∈ s.coloring := fun child hc =>
    (ht child).2 (hd.closed _ child hc)
  have hchild : ∀ child ∈ d.childIndices (group.getD 0 0), NodeColor (colorAt s.coloring child) :=
    fun child hc => hcol child (hd.closed _ child hc)
  unfold evaluateChange2 ECDAG.evaluateChange2 ECDAG.changeGroup
  refine Reads.get.bind ?_
  rw [copyTables_eq ord hN]
  refine (reads_loop (fun idx hidx t => (reads_colorOf ((ht idx).2 (hgroup idx hidx))).bind
    (reads_previewParents t ht hd hcol (hcol idx (hgroup idx hidx)) (.inr hnew))) s.cells).bind ?_
  refine (reads_colorOf ((ht _).2 (hgroup _ hfirst))).bind ?_
  dsimp only
  split
  · next h =>
    rw [h]
    exact reads_loop (fun child hc t => reads_previewAdd t ht hd (hmem child hc)
      (hchild child hc) hnew) _
  · next h =>
    exact reads_loop (fun child hc t => reads_previewChild2 t ht hd (hmem child hc)
      (hchild child hc) ((hcol _ (hgroup _ hfirst)).nonneg h) hnew) _

end

/-- The stripe with the group in the colour `new`. -/
def recolored (s : StripeTables) (group : List Nat) (new : Int) : StripeTables :=
  { s with coloring := recolorAll s.coloring group new }

section
variable {d : ECDAG} (hd : d.Consistent) (hch : ∀ v, (d.childIndices v).Nodup)
  {s : StripeTables} (ht : s.Total d) {group : List Nat} (hnodup : group.Nodup)
  (hsub : ∀ v ∈ group, v ∈ d.nodeIds) (hfirst : group.getD 0 0 ∈ group) {new : Int}
  (hnew : new ≠ -1)
include hd hch ht hnodup hsub hfirst hnew

/-- **The counters** of the recoloured stripe and those of the preview, node by node. -/
theorem cells_recolored (ord ord' : HashOrder EvalWalk) (x : Int) :
    let truth := d.evaluateCells ord' (recolorAll s.coloring group new)
    let preview := d.changeGroup s.coloring (d.evaluateCells ord s.coloring) group new
    let missed := d.nodeIds.flatMap (d.missed s.coloring group new)
    let surplus := d.nodeIds.flatMap (d.surplus s.coloring group new)
    truth.out x + surplus.countP (fun e => e.1 = x) =
        preview.out x + missed.countP (fun e => e.1 = x) ∧
      truth.inn x + surplus.countP (fun e => e.2 = x) =
        preview.inn x + missed.countP (fun e => e.2 = x) := by
  intro truth preview missed surplus
  have hnodes : s.coloring.keys.Perm d.nodeIds :=
    (List.perm_ext_iff_of_nodup (AList.keys_nodup _) hd.nodup).2 fun v => ht v
  have hnodes' : (recolorAll s.coloring group new).keys.Perm d.nodeIds :=
    (keys_recolorAll (fun v hv => (ht v).2 (hsub v hv)) new).trans hnodes
  have hpreview := d.tracks_changeGroup s.coloring (d.tracks_evaluateCells ord s.coloring) group new
  have htruth := d.tracks_evaluateCells ord' (recolorAll s.coloring group new)
  simp only [(hnodes.map _).sum_eq] at hpreview
  simp only [(hnodes'.map _).sum_eq] at htruth
  have hsum := fun w => hd.sum_sent_group hnew (colorAt_recolorAll s.coloring group new) hfirst
    hnodup (hch _) hd.nodup (fun _ => Iff.rfl) hsub w
  constructor
  · rw [← ECDAG.weigh_from, ← ECDAG.weigh_from, htruth.out, hpreview.out]
    exact hsum _
  · rw [← ECDAG.weigh_into, ← ECDAG.weigh_into, htruth.inn, hpreview.inn]
    exact hsum _

end

/-- The parents of a vertex are distinct vertices. -/
theorem parents_group {d : ECDAG} (hd : d.Consistent) (hch : ∀ v, (d.childIndices v).Nodup)
    {child : Nat} {group : List Nat} (hgroup : group.Perm (d.parentIds child)) (hne : group ≠ []) :
    group.Nodup ∧ (∀ v ∈ group, v ∈ d.nodeIds) ∧ group.getD 0 0 ∈ group := by
  refine ⟨hgroup.nodup_iff.2 (List.nodup_iff_count_le_one.2 fun g => ?_), fun g hg => ?_, ?_⟩
  · rw [hd.edges]
    exact List.nodup_iff_count_le_one.1 (hch g) child
  · exact ECDAG.mem_nodeIds_of_childIndices (hd.mem_parentIds.1 (hgroup.mem_iff.1 hg))
  · obtain ⟨g, group, rfl⟩ := List.exists_cons_of_ne_nil hne
    exact List.mem_cons_self ..

/-- **The preview of a group**, the parents of a vertex in any order, is right exactly if the
transfers it leaves out and those it counts too much balance at every node. -/
theorem evaluateChange2_iff {d : ECDAG} (hd : d.Consistent) (hch : ∀ v, (d.childIndices v).Nodup)
    {ord : HashOrder EvalWalk} {s : StripeTables} (ht : s.Total d) (hs : s.Evaluated d ord)
    {N : Nat} (hN : s.Within N) (hcol : ∀ v ∈ d.nodeIds, InCluster N (colorAt s.coloring v))
    {child : Nat} {group : List Nat} (hgroup : group.Perm (d.parentIds child)) (hne : group ≠ [])
    {new : Int} (hnew : 0 ≤ new ∧ new < N) (ord' : HashOrder EvalWalk) :
    (evaluateChange2 d ord N group new).run s =
      ((List.range N).map fun i : Nat =>
        [((s.recolored group new).evaluateColoring d ord').outMap.get i,
          ((s.recolored group new).evaluateColoring d ord').inMap.get i], s) ↔
    Balanced N (d.nodeIds.flatMap (d.missed s.coloring group new))
      (d.nodeIds.flatMap (d.surplus s.coloring group new)) := by
  obtain ⟨hnodup, hsub, hfirst⟩ := parents_group hd hch hgroup hne
  have hread : (evaluateChange2 d ord N group new).run s =
      (d.evaluateChange2 s.coloring s.cells N group new, s) :=
    reads_evaluateChange2 ht hd hN (fun v hv => (hcol v hv).nodeColor) hsub hfirst hnew.1
  have hcells := cells_recolored hd hch ht hnodup hsub hfirst (show new ≠ -1 by omega) ord ord'
  have htruth := cells_evaluateColoring (d := d) ord' (s.recolored group new)
  have hout : ∀ i : Int, ((s.recolored group new).evaluateColoring d ord').outMap.get i =
      (d.evaluateCells ord' (recolorAll s.coloring group new)).out i :=
    fun i => congrFun (congrArg Cells.out htruth) i
  have hinn : ∀ i : Int, ((s.recolored group new).evaluateColoring d ord').inMap.get i =
      (d.evaluateCells ord' (recolorAll s.coloring group new)).inn i :=
    fun i => congrFun (congrArg Cells.inn htruth) i
  rw [hread, Prod.mk.injEq, and_iff_left rfl, ECDAG.evaluateChange2, Cells.table, hs.cells_eq,
    List.map_inj_left]
  unfold Balanced
  refine forall_congr' fun i => ?_
  rw [List.mem_range]
  refine imp_congr_right fun _ => ?_
  obtain ⟨h1, h2⟩ := hcells i
  simp only [hout, hinn, List.cons.injEq, and_true]
  omega

/-- **A group without colours**: what balances is nothing, and nothing is left out when every
vertex that newly sends to the group sends to its first member. -/
theorem balanced_uncolored_iff {d : ECDAG} (hd : d.Consistent) {s : StripeTables}
    {group : List Nat} (hfirst : group.getD 0 0 ∈ group)
    (hfree : ∀ g ∈ group, colorAt s.coloring g = -1) {N : Nat} {new : Int}
    (hnew : 0 ≤ new ∧ new < N) :
    Balanced N (d.nodeIds.flatMap (d.missed s.coloring group new))
      (d.nodeIds.flatMap (d.surplus s.coloring group new)) ↔
    ∀ g ∈ group, ∀ v ∈ d.childIndices g, d.Joins s.coloring new v →
      v ∈ d.childIndices (group.getD 0 0) := by
  have hsurplus : d.nodeIds.flatMap (d.surplus s.coloring group new) = [] := by
    refine List.flatMap_eq_nil_iff.2 fun v _ => ?_
    have hlost : d.lostColors s.coloring group new v = [] := by
      refine List.filter_eq_nil_iff.2 fun a ha => ?_
      obtain ⟨p, hp, rfl⟩ := d.mem_parentColors.1 ha
      rw [decide_eq_true_eq]
      rintro ⟨hne, -, hall⟩
      exact hne (hfree p (hall p hp rfl))
    have hheld : ¬ (v ∈ d.childIndices (group.getD 0 0) ∧ d.Joins s.coloring new v ∧
        ((-1 : Int) ≠ -1 ∨ v ∈ group)) := by
      rintro ⟨-, hjoins, h | h⟩
      · exact h rfl
      · exact hjoins.1 (hfree v h)
    unfold ECDAG.surplus
    dsimp only
    rw [hlost, hfree _ hfirst, if_neg hheld, List.append_nil]
    exact ite_self []
  have hmissed : ∀ v, d.missed s.coloring group new v =
      if v ∉ group ∧ (∃ g ∈ group, v ∈ d.childIndices g) ∧ v ∉ d.childIndices (group.getD 0 0) ∧
        d.Joins s.coloring new v then [(colorAt s.coloring v, new)] else [] := by
    intro v
    unfold ECDAG.missed
    dsimp only
    rw [hfree _ hfirst]
    simp
  rw [hsurplus]
  constructor
  · intro hbal g hg v hv hjoins
    by_contra hno
    have hgroup : v ∉ group := fun h => hjoins.1 (hfree v h)
    have hmem : (colorAt s.coloring v, new) ∈ d.nodeIds.flatMap (d.missed s.coloring group new) := by
      refine List.mem_flatMap.2 ⟨v, hd.closed g v hv, ?_⟩
      rw [hmissed, if_pos ⟨hgroup, ⟨g, hg, hv⟩, hno, hjoins⟩]
      exact List.mem_singleton_self _
    obtain ⟨i, rfl⟩ := Int.eq_ofNat_of_zero_le hnew.1
    have hcount := (hbal i (by omega)).2
    rw [List.countP_nil, List.countP_eq_zero] at hcount
    exact hcount _ hmem (decide_eq_true rfl)
  · intro h
    have hnone : d.nodeIds.flatMap (d.missed s.coloring group new) = [] := by
      refine List.flatMap_eq_nil_iff.2 fun v _ => ?_
      rw [hmissed, if_neg]
      rintro ⟨-, ⟨g, hg, hv⟩, hno, hjoins⟩
      exact hno (h g hg v hv hjoins)
    rw [hnone]
    exact fun i _ => ⟨rfl, rfl⟩

/-- The repair of the two parities of a (5, 3) stripe: packet 0 is shared, packet 2 belongs to the
second parity only. -/
def twoParities : ECDAG :=
  (genRepairECDAG (fun _ _ => .build [⟨3, [0, 1], [1, 1]⟩, ⟨4, [0, 2], [1, 1]⟩]) 5 1
    {3, 4}).refreshECDAG

/-- The blocks are on the nodes 0 to 2 and repaired on 5 and 6; the parities have no node yet. -/
def uncoloredParities : StripeTables :=
  evaluateColoring twoParities (.insertion _)
    { toCounters := .empty
      coloring := [⟨0, 0⟩, ⟨1, 1⟩, ⟨3, -1⟩, ⟨2, 2⟩, ⟨4, -1⟩, ⟨REQUESTOR - 3, 5⟩,
        ⟨REQUESTOR - 4, 6⟩].toAList
      bdwt := 0, load := 0 }

theorem consistent_twoParities : twoParities.Consistent :=
  (@RepairDag.of_decodes (fun _ _ => .build [⟨3, [0, 1], [1, 1]⟩, ⟨4, [0, 2], [1, 1]⟩]) 5 1 {3, 4}
    (by decide) (by decide) _ rfl
    ⟨by decide, by decide, by decide, by decide⟩).wellFormed.consistent

theorem nodup_childIndices {d : ECDAG} (h : ∀ nd ∈ d.ecNodeMap, nd.childNodes.Nodup) (v : Nat) :
    (d.childIndices v).Nodup := by
  unfold ECDAG.childIndices
  cases hv : d.node? v with
  | none => exact List.nodup_nil
  | some nd => exact h nd (List.mem_of_find?_eq_some hv)

theorem total_uncoloredParities : uncoloredParities.Total twoParities := by
  have hkeys : uncoloredParities.coloring.keys = twoParities.nodeIds := by decide +kernel
  intro v
  rw [← hkeys]
  exact Iff.rfl

theorem within_uncoloredParities : uncoloredParities.Within 7 := by
  have hall : ∀ c ∈ uncoloredParities.inMap.keys ++ uncoloredParities.outMap.keys,
      0 ≤ c ∧ c < (7 : Nat) := by decide +kernel
  exact fun c hc => hall c (List.mem_append.2 (hc.imp id id))

/-- On node 2 packet 2 is there already. -/
theorem evaluateChange2_iff_parities :
    (evaluateChange2 twoParities (.insertion _) 7 (twoParities.parentIds 0) 2).run
        uncoloredParities =
      ((List.range 7).map fun i : Nat => [((uncoloredParities.recolored (twoParities.parentIds 0)
          2).evaluateColoring twoParities (.insertion _)).outMap.get i,
        ((uncoloredParities.recolored (twoParities.parentIds 0) 2).evaluateColoring twoParities
          (.insertion _)).inMap.get i], uncoloredParities) := by
  refine (evaluateChange2_iff consistent_twoParities (nodup_childIndices (by decide +kernel))
    total_uncoloredParities (evaluated_evaluateColoring _ _ _) within_uncoloredParities ?_
    (List.Perm.refl _) (by decide +kernel) (by decide) (.insertion _)).2 ?_
  · have hcol : ∀ v ∈ twoParities.nodeIds, colorAt uncoloredParities.coloring v = -1 ∨
        0 ≤ colorAt uncoloredParities.coloring v ∧
          colorAt uncoloredParities.coloring v < (7 : Nat) := by decide +kernel
    exact hcol
  · unfold Balanced
    decide +kernel

/-- On node 1 the preview leaves out what packet 2 is sent for. -/
theorem parities_preview_wrong :
    ¬ (evaluateChange2 twoParities (.insertion _) 7 (twoParities.parentIds 0) 1).run
        uncoloredParities =
      ((List.range 7).map fun i : Nat => [((uncoloredParities.recolored (twoParities.parentIds 0)
          1).evaluateColoring twoParities (.insertion _)).outMap.get i,
        ((uncoloredParities.recolored (twoParities.parentIds 0) 1).evaluateColoring twoParities
          (.insertion _)).inMap.get i], uncoloredParities) := by
  intro h
  have htable := congrArg Prod.fst h
  revert htable
  decide +kernel

end StripeTables

end StripeRepair

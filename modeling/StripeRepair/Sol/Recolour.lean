import StripeRepair.Ec.Levels
import StripeRepair.Sol.ChooseColor
import Mathlib.Tactic.Linarith

/-!
# What a new colour changes

The counters of a colouring are sums over its transfers. Here they are weighed: for a
weight `w` of a transfer from node to node, `sent` is the weight of what a vertex sends, and
`Tracks` says that counters are read off such sums.

* `sent_vertex`, `sent_child`: what a vertex and its child send after the vertex gets a
  colour.
* `sum_sent`: the whole colouring.
-/

namespace StripeRepair

open PRSolution (colorAt)

/-! ## Weights -/

/-- What a transfer from a node to a node counts for. -/
abbrev Weight := Int → Int → Int

def Weight.from (x : Int) : Weight := fun src _ => if src = x then 1 else 0

def Weight.into (x : Int) : Weight := fun _ dst => if dst = x then 1 else 0

/-- The counters are the sums `μ`. -/
structure Cells.Tracks (t : Cells) (μ : Weight → Int) : Prop where
  out : ∀ x, t.out x = μ (.from x)
  inn : ∀ x, t.inn x = μ (.into x)

namespace Cells

theorem tracks_zero : Cells.zero.Tracks fun _ => 0 := ⟨fun _ => rfl, fun _ => rfl⟩

theorem Tracks.congr {t : Cells} {μ ν : Weight → Int} (h : t.Tracks μ) (hμ : ∀ w, μ w = ν w) :
    t.Tracks ν := ⟨fun x => (h.out x).trans (hμ _), fun x => (h.inn x).trans (hμ _)⟩

theorem Tracks.ext {t t' : Cells} {μ : Weight → Int} (h : t.Tracks μ) (h' : t'.Tracks μ) :
    t = t' := by
  obtain ⟨out, inn⟩ := t
  obtain ⟨out', inn'⟩ := t'
  congr 1
  · funext x
    exact (h.out x).trans (h'.out x).symm
  · funext x
    exact (h.inn x).trans (h'.inn x).symm

theorem Tracks.move {t : Cells} {μ : Weight → Int} (h : t.Tracks μ) (src dst x : Int) :
    (t.move src dst x).Tracks fun w => μ w + x * w src dst where
  out y := by
    show Function.update t.out src (t.out src + x) y = _ + x * if src = y then 1 else 0
    rw [Function.update_apply, ← h.out]
    by_cases hy : y = src
    · rw [if_pos hy, if_pos hy.symm, hy, mul_one]
    · rw [if_neg hy, if_neg (Ne.symm hy), mul_zero, add_zero]
  inn y := by
    show Function.update t.inn dst (t.inn dst + x) y = _ + x * if dst = y then 1 else 0
    rw [Function.update_apply, ← h.inn]
    by_cases hy : y = dst
    · rw [if_pos hy, if_pos hy.symm, hy, mul_one]
    · rw [if_neg hy, if_neg (Ne.symm hy), mul_zero, add_zero]

/-- A move under a condition. -/
theorem Tracks.step {t : Cells} {μ : Weight → Int} (h : t.Tracks μ) (p : Prop) [Decidable p]
    (src dst x : Int) : (if p then t.move src dst x else t).Tracks fun w =>
      μ w + if p then x * w src dst else 0 := by
  split
  · exact h.move src dst x
  · exact h.congr fun w => (add_zero _).symm

/-- A loop of such steps. -/
theorem Tracks.foldl {α : Type} {f : Cells → α → Cells} {g : Weight → α → Int}
    (hf : ∀ t μ a, Tracks t μ → (f t a).Tracks fun w => μ w + g w a) (l : List α) {t : Cells}
    {μ : Weight → Int} (h : t.Tracks μ) : (l.foldl f t).Tracks fun w => μ w + (l.map (g w)).sum := by
  induction l generalizing t μ with
  | nil => exact h.congr fun w => (add_zero _).symm
  | cons a l ih =>
    rw [List.foldl_cons]
    refine (ih (hf t μ a h)).congr fun w => ?_
    rw [List.map_cons, List.sum_cons, add_assoc]

theorem from_injective : Function.Injective Weight.from := by
  intro x y h
  have := congrFun (congrFun h x) 0
  simpa [Weight.from] using this

theorem into_injective : Function.Injective Weight.into := by
  intro x y h
  have := congrFun (congrFun h 0) x
  simpa [Weight.into] using this

theorem from_ne_into (x y : Int) : Weight.from x ≠ Weight.into y := by
  intro h
  have := congrFun (congrFun h x) (y + 1)
  simp [Weight.from, Weight.into] at this

/-- All counters are such sums. -/
theorem exists_tracks (t : Cells) : ∃ μ, t.Tracks μ := by
  classical
  refine ⟨fun w => if h : ∃ x, w = Weight.from x then t.out h.choose
    else if h : ∃ x, w = Weight.into x then t.inn h.choose else 0, fun x => ?_, fun x => ?_⟩
  · have h : ∃ y, Weight.from x = Weight.from y := ⟨x, rfl⟩
    rw [dif_pos h, ← from_injective h.choose_spec]
  · have h : ∃ y, Weight.into x = Weight.into y := ⟨x, rfl⟩
    have hnot : ¬ ∃ y, Weight.into x = Weight.from y := fun ⟨y, hy⟩ => from_ne_into y x hy.symm
    rw [dif_neg hnot, dif_pos h, ← into_injective h.choose_spec]

/-- A loop of steps does not depend on the order. -/
theorem foldl_perm {α : Type} {f : Cells → α → Cells} {g : Weight → α → Int}
    (hf : ∀ t μ a, Tracks t μ → (f t a).Tracks fun w => μ w + g w a) {l l' : List α}
    (h : l.Perm l') (t : Cells) : l.foldl f t = l'.foldl f t := by
  obtain ⟨μ, hμ⟩ := t.exists_tracks
  refine (Tracks.foldl hf l hμ).ext ((Tracks.foldl hf l' hμ).congr fun w => ?_)
  rw [(h.map _).sum_eq]

end Cells

/-! ## What is sent -/

namespace ECDAG

/-- What `evaluateColoring` counts for one colour of the parents. -/
def gain (w : Weight) (mycolor parentColor : Int) : Int :=
  if Stripe.counted mycolor parentColor then w mycolor parentColor else 0

theorem gain_eq (w : Weight) (cc c : Int) :
    gain w cc c = if c ≠ cc ∧ c ≠ -1 then w cc c else 0 := by
  unfold gain Stripe.counted
  refine if_congr ?_ rfl rfl
  rw [decide_eq_true_eq, ne_comm]

/-- The weight of what `v` sends. -/
def sent (d : ECDAG) (color : Nat → Int) (w : Weight) (v : Nat) : Int :=
  if color v = -1 then 0 else ((d.parentColors color v).map (gain w (color v))).sum

/-- What `parentMove` counts. -/
def parentWeight (old new : Int) (w : Weight) (c : Int) : Int :=
  if c = -1 then 0
  else (if c ≠ new ∧ new ≠ -1 then w new c else 0) - if c ≠ old ∧ old ≠ -1 then w old c else 0

/-- What `childMove` counts. -/
def childWeight (d : ECDAG) (coloring : Coloring) (old new : Int) (w : Weight) (child : Nat) :
    Int :=
  let cc := colorAt coloring child
  if cc = -1 then 0
  else (if d.countColor coloring child new = 0 ∧ new ≠ cc then w cc new else 0) -
    if old ≠ -1 ∧ d.countColor coloring child old = 1 ∧ old ≠ cc then w cc old else 0

theorem tracks_parentMove (old new : Int) (t : Cells) (μ : Weight → Int) (c : Int)
    (h : t.Tracks μ) : (parentMove old new t c).Tracks fun w => μ w + parentWeight old new w c := by
  unfold parentMove parentWeight
  split
  · exact h.congr fun w => (add_zero _).symm
  · refine ((h.step _ _ _ _).step _ _ _ _).congr fun w => ?_
    split <;> split <;> omega

section
variable (d : ECDAG)

theorem tracks_childMove (coloring : Coloring) (old new : Int) (t : Cells) (μ : Weight → Int)
    (child : Nat) (h : t.Tracks μ) : (d.childMove Cells.move coloring old new t child).Tracks
      fun w => μ w + d.childWeight coloring old new w child := by
  unfold childMove childWeight
  dsimp only
  split
  · exact h.congr fun w => (add_zero _).symm
  · split
    · next h1 =>
      refine (h.step _ _ _ _).congr fun w => ?_
      simp only [h1, ne_eq, not_true_eq_false, false_and, if_false, sub_zero, one_mul]
    · next h1 =>
      refine ((h.step _ _ _ _).step _ _ _ _).congr fun w => ?_
      simp only [ne_eq, h1, not_false_eq_true, true_and]
      split <;> split <;> omega

/-- **The difference a new colour makes**, as the code counts it. -/
theorem tracks_changeCells (coloring : Coloring) {t : Cells} {μ : Weight → Int}
    (h : t.Tracks μ) (idx : Nat) (new : Int) :
    (d.changeCells coloring t idx new).Tracks fun w =>
      μ w + ((d.parentColors (colorAt coloring) idx).map
        (parentWeight (colorAt coloring idx) new w)).sum +
      ((d.childIndices idx).map (d.childWeight coloring (colorAt coloring idx) new w)).sum :=
  Cells.Tracks.foldl (d.tracks_childMove coloring _ new) _
    (Cells.Tracks.foldl (tracks_parentMove _ new) _ h)

/-- The counters of a colouring. -/
theorem tracks_evaluateCells (ord : HashOrder EvalWalk) (coloring : Coloring) :
    (d.evaluateCells ord coloring).Tracks fun w =>
      (coloring.keys.map (d.sent (colorAt coloring) w)).sum := by
  have hvertex : ∀ (t : Cells) (μ : Weight → Int) (v : Nat), t.Tracks μ →
      (d.evalVertex (colorAt coloring) Stripe.counted (fun t e => t.move e.1 e.2 1) t v).Tracks
        fun w => μ w + d.sent (colorAt coloring) w v := by
    intro t μ v h
    unfold evalVertex sent
    split
    · exact h.congr fun w => (add_zero _).symm
    · refine Cells.Tracks.foldl (g := fun w c => gain w (colorAt coloring v) c) ?_ _ h
      intro t μ c h
      refine (h.step _ _ _ _).congr fun w => ?_
      rw [one_mul, gain]
  refine (Cells.Tracks.foldl hvertex _ Cells.tracks_zero).congr fun w => ?_
  rw [zero_add, ((ord.perm .coloring coloring.keys).map _).sum_eq]

theorem nodup_parentColors (color : Nat → Int) (v : Nat) : (d.parentColors color v).Nodup :=
  Stripe.nodup_nodeidlist ⟨d, [], color, List.nodup_nil, List.not_mem_nil⟩ v

theorem mem_parentColors {color : Nat → Int} {v : Nat} {c : Int} :
    c ∈ d.parentColors color v ↔ ∃ p ∈ d.parentIds v, color p = c :=
  Stripe.mem_nodeidlist ⟨d, [], color, List.nodup_nil, List.not_mem_nil⟩

theorem sent_eq_sum (color : Nat → Int) (w : Weight) (v : Nat) : d.sent color w v =
    if color v = -1 then 0
    else ∑ c ∈ (d.parentIds v).toFinset.image color, gain w (color v) c := by
  unfold sent
  congr 1
  rw [← List.sum_toFinset _ (d.nodup_parentColors color v)]
  congr 1
  ext c
  simp [mem_parentColors]

end

/-! ## A new colour -/

section
variable {d : ECDAG} (hd : d.Consistent)
include hd

theorem Consistent.not_mem_parentIds (v : Nat) : v ∉ d.parentIds v := fun h =>
  hd.acyclic v (.single (hd.mem_parentIds.1 h))

theorem Consistent.ne_of_mem_childIndices {p c : Nat} (h : c ∈ d.childIndices p) : c ≠ p := by
  rintro rfl
  exact hd.not_mem_parentIds c (hd.mem_parentIds.2 h)

/-- **The vertex itself**: its parents keep their colours. -/
theorem Consistent.sent_vertex {color color' : Nat → Int} {idx : Nat}
    (hsame : ∀ v, v ≠ idx → color' v = color v) (hnew : color' idx ≠ -1) (w : Weight) :
    d.sent color' w idx = d.sent color w idx +
      ((d.parentColors color idx).map (parentWeight (color idx) (color' idx) w)).sum := by
  have hparents : d.parentColors color' idx = d.parentColors color idx := by
    unfold parentColors
    refine List.foldl_ext _ _ _ fun l p hp => ?_
    rw [hsame p fun h => hd.not_mem_parentIds idx (h ▸ hp)]
  have hterm : ∀ c, parentWeight (color idx) (color' idx) w c =
      gain w (color' idx) c - if color idx = -1 then 0 else gain w (color idx) c := by
    intro c
    unfold parentWeight gain Stripe.counted
    simp only [decide_eq_true_eq]
    by_cases hc : c = -1
    · simp [hc]
    · by_cases hold : color idx = -1
      · simp [hc, hold, hnew, eq_comm]
      · simp [hc, hold, hnew, eq_comm]
  unfold sent
  rw [hparents, if_neg hnew]
  rw [List.map_congr_left fun c _ => hterm c]
  generalize d.parentColors color idx = l
  induction l with
  | nil => simp
  | cons c l ih =>
    simp only [List.map_cons, List.sum_cons]
    rw [ih]
    split <;> omega

end

/-- The colours of the parents other than `idx`. -/
def otherColors (d : ECDAG) (color : Nat → Int) (idx v : Nat) : Finset Int :=
  ((d.parentIds v).toFinset.erase idx).image color

theorem otherColors_congr {d : ECDAG} {color color' : Nat → Int} {idx : Nat}
    (hsame : ∀ v, v ≠ idx → color' v = color v) (v : Nat) :
    d.otherColors color' idx v = d.otherColors color idx v :=
  Finset.image_congr fun p hp => hsame p (Finset.ne_of_mem_erase hp)

theorem image_parents {d : ECDAG} {idx v : Nat} (h : idx ∈ d.parentIds v) (color : Nat → Int) :
    (d.parentIds v).toFinset.image color = insert (color idx) (d.otherColors color idx v) := by
  rw [otherColors, ← Finset.image_insert, Finset.insert_erase (List.mem_toFinset.2 h)]

theorem sum_insert_ite (g : Int → Int) (a : Int) (S : Finset Int) :
    ∑ c ∈ insert a S, g c = ∑ c ∈ S, g c + if a ∈ S then 0 else g a := by
  by_cases h : a ∈ S
  · rw [Finset.insert_eq_of_mem h, if_pos h, add_zero]
  · rw [Finset.sum_insert h, if_neg h, add_comm]

/-- No parent has the colour. -/
theorem countColor_zero_iff {d : ECDAG} {coloring : Coloring} {child : Nat} {c : Int} :
    d.countColor coloring child c = 0 ↔ c ∉ (d.parentIds child).toFinset.image (colorAt coloring) := by
  rw [countColor, List.countP_eq_zero]
  simp only [decide_eq_true_eq, Finset.mem_image, List.mem_toFinset, not_exists, not_and]

/-- A parent counts as often as the vertex is its child. -/
theorem count_le_countColor (d : ECDAG) (coloring : Coloring) (idx child : Nat) :
    (d.parentIds child).count idx ≤ d.countColor coloring child (colorAt coloring idx) := by
  rw [countColor, List.count]
  refine List.countP_mono_left fun p _ hpi => ?_
  rw [beq_iff_eq.1 hpi]
  exact decide_eq_true rfl

section
variable {d : ECDAG} {coloring : Coloring} {idx child : Nat}
  (hone : (d.parentIds child).count idx = 1)
include hone

theorem mem_parentIds_of_count : idx ∈ d.parentIds child :=
  List.count_pos_iff.1 (by omega)

/-- Only `idx` has its colour. -/
theorem countColor_eq_one : d.countColor coloring child (colorAt coloring idx) = 1 ↔
    colorAt coloring idx ∉ d.otherColors (colorAt coloring) idx child := by
  have hidx : ((d.parentIds child).filter fun p => p = idx).countP
      (fun p => colorAt coloring p = colorAt coloring idx) = 1 := by
    rw [← hone, List.count, List.countP_filter]
    refine List.countP_congr fun p _ => ?_
    simp only [Bool.and_eq_true, decide_eq_true_eq, beq_iff_eq, and_iff_right_iff_imp]
    rintro rfl
    rfl
  have hsplit := List.countP_eq_countP_filter_add (d.parentIds child)
    (fun p => decide (colorAt coloring p = colorAt coloring idx)) fun p => decide (p = idx)
  rw [countColor, hsplit, hidx, otherColors, Nat.add_eq_left, List.countP_eq_zero]
  simp only [List.mem_filter, Bool.not_eq_true', decide_eq_false_iff_not, decide_eq_true_eq,
    Finset.mem_image, Finset.mem_erase, List.mem_toFinset, not_exists, not_and]
  exact ⟨fun h p hp => h p ⟨hp.2, hp.1⟩, fun h p hp => h p ⟨hp.2, hp.1⟩⟩

theorem countColor_eq_zero (c : Int) : d.countColor coloring child c = 0 ↔
    c ≠ colorAt coloring idx ∧ c ∉ d.otherColors (colorAt coloring) idx child := by
  rw [countColor_zero_iff, image_parents (mem_parentIds_of_count hone), Finset.mem_insert, not_or]

/-- What the code takes away from a child although the vertex keeps its colour. -/
def keptWeight (d : ECDAG) (coloring : Coloring) (old new : Int) (w : Weight) (child : Nat) :
    Int :=
  let cc := colorAt coloring child
  if new = old ∧ cc ≠ -1 ∧ d.countColor coloring child old = 1 ∧ old ≠ cc then w cc old else 0

/-- **A child of the vertex.** -/
theorem sent_child {color' : Nat → Int} (hne : child ≠ idx)
    (hsame : ∀ v, v ≠ idx → color' v = colorAt coloring v) (hnew : color' idx ≠ -1) (w : Weight) :
    d.sent color' w child = d.sent (colorAt coloring) w child +
      d.childWeight coloring (colorAt coloring idx) (color' idx) w child +
      d.keptWeight coloring (colorAt coloring idx) (color' idx) w child := by
  have hmem := mem_parentIds_of_count hone
  have h1 : d.countColor coloring child (colorAt coloring idx) = 1 ↔ _ := countColor_eq_one hone
  have h0 : d.countColor coloring child (color' idx) = 0 ↔ _ := countColor_eq_zero hone (color' idx)
  rw [sent_eq_sum, sent_eq_sum, image_parents hmem, image_parents hmem, otherColors_congr hsame,
    hsame child hne, sum_insert_ite, sum_insert_ite]
  unfold childWeight keptWeight
  dsimp only
  simp only [h0, h1]
  generalize d.otherColors (colorAt coloring) idx child = R
  generalize colorAt coloring idx = old
  generalize color' idx = new at *
  generalize colorAt coloring child = cc
  by_cases hcc : cc = -1
  · simp [hcc]
  · simp only [hcc, if_false, gain_eq, ne_eq, not_false_eq_true, true_and, hnew, and_true]
    by_cases hold : new = old
    · subst hold
      by_cases hR : new ∈ R <;> simp [hR, hnew]
    · simp only [hold, not_false_eq_true, true_and, false_and, if_false, add_zero]
      have hout : (if ¬old = -1 ∧ old ∉ R ∧ ¬old = cc then w cc old else 0) =
          if old ∈ R then 0 else if ¬old = cc ∧ ¬old = -1 then w cc old else 0 := by
        grind
      have hin : (if new ∉ R ∧ ¬new = cc then w cc new else 0) =
          if new ∈ R then 0 else if ¬new = cc then w cc new else 0 := by
        grind
      rw [hout, hin]
      omega

end

/-- What neither is the vertex nor sends to it. -/
theorem sent_other {d : ECDAG} {color color' : Nat → Int} {idx v : Nat} (hv : v ≠ idx)
    (hp : idx ∉ d.parentIds v) (hsame : ∀ v, v ≠ idx → color' v = color v) (w : Weight) :
    d.sent color' w v = d.sent color w v := by
  have himage : (d.parentIds v).toFinset.image color' = (d.parentIds v).toFinset.image color := by
    refine Finset.image_congr fun p hpm => hsame p ?_
    rintro rfl
    exact hp (List.mem_toFinset.1 hpm)
  rw [sent_eq_sum, sent_eq_sum, himage, hsame v hv]

section
variable {d : ECDAG} (hd : d.Consistent) {idx : Nat} (hidx : idx ∈ d.nodeIds)
  {keys : List Nat} (hkeys : keys.Nodup) (hmem : ∀ v, v ∈ keys ↔ v ∈ d.nodeIds)
  {coloring : Coloring} {color' : Nat → Int}
  (hsame : ∀ v, v ≠ idx → color' v = colorAt coloring v) (hnew : color' idx ≠ -1)
include hd hidx hkeys hmem hsame hnew

/-- What the vertex and its children send is all that changes. -/
theorem Consistent.sum_sent_sub (w : Weight) : (keys.map (d.sent color' w)).sum =
    (keys.map (d.sent (colorAt coloring) w)).sum +
      ((d.parentColors (colorAt coloring) idx).map
        (parentWeight (colorAt coloring idx) (color' idx) w)).sum +
      ∑ v ∈ (d.childIndices idx).toFinset,
        (d.sent color' w v - d.sent (colorAt coloring) w v) := by
  have hidxCh : idx ∉ (d.childIndices idx).toFinset := fun h =>
    hd.not_mem_parentIds idx (hd.mem_parentIds.2 (List.mem_toFinset.1 h))
  have hsub : insert idx (d.childIndices idx).toFinset ⊆ keys.toFinset := by
    intro v hv
    rw [List.mem_toFinset, hmem]
    rcases Finset.mem_insert.1 hv with rfl | hv
    · exact hidx
    · exact hd.closed idx v (List.mem_toFinset.1 hv)
  have hdiff : ∑ v ∈ keys.toFinset, (d.sent color' w v - d.sent (colorAt coloring) w v) =
      ∑ v ∈ insert idx (d.childIndices idx).toFinset,
        (d.sent color' w v - d.sent (colorAt coloring) w v) := by
    refine (Finset.sum_subset hsub fun v _ hv => ?_).symm
    rw [Finset.mem_insert, List.mem_toFinset, not_or] at hv
    have hp : idx ∉ d.parentIds v := fun h => hv.2 (hd.mem_parentIds.1 h)
    rw [sent_other hv.1 hp hsame, sub_self]
  rw [Finset.sum_insert hidxCh, Finset.sum_sub_distrib, hd.sent_vertex hsame hnew] at hdiff
  rw [← List.sum_toFinset _ hkeys, ← List.sum_toFinset _ hkeys]
  linarith only [hdiff]

/-- **The whole colouring**: the vertex, its children, and what the code takes away too much. -/
theorem Consistent.sum_sent (hch : (d.childIndices idx).Nodup) (w : Weight) :
    (keys.map (d.sent color' w)).sum =
    (keys.map (d.sent (colorAt coloring) w)).sum +
      ((d.parentColors (colorAt coloring) idx).map
        (parentWeight (colorAt coloring idx) (color' idx) w)).sum +
      ((d.childIndices idx).map
        (d.childWeight coloring (colorAt coloring idx) (color' idx) w)).sum +
      ((d.childIndices idx).map
        (d.keptWeight coloring (colorAt coloring idx) (color' idx) w)).sum := by
  have hchildren : ∑ v ∈ (d.childIndices idx).toFinset,
      (d.sent color' w v - d.sent (colorAt coloring) w v) =
      ∑ v ∈ (d.childIndices idx).toFinset,
        (d.childWeight coloring (colorAt coloring idx) (color' idx) w v +
          d.keptWeight coloring (colorAt coloring idx) (color' idx) w v) := by
    refine Finset.sum_congr rfl fun v hv => ?_
    have hv := List.mem_toFinset.1 hv
    have hone : (d.parentIds v).count idx = 1 := by
      rw [hd.edges]
      exact List.count_eq_one_of_mem hch hv
    rw [sent_child hone (hd.ne_of_mem_childIndices hv) hsame hnew]
    omega
  rw [hd.sum_sent_sub hidx hkeys hmem hsame hnew, hchildren, Finset.sum_add_distrib,
    ← List.sum_toFinset _ hch, ← List.sum_toFinset _ hch, ← add_assoc]

end

/-! ## No counter gets negative -/

theorem gain_nonneg {w : Weight} (hw : ∀ a b, 0 ≤ w a b) (cc c : Int) : 0 ≤ gain w cc c := by
  unfold gain
  split
  · exact hw _ _
  · exact le_refl _

theorem sent_nonneg {d : ECDAG} {w : Weight} (hw : ∀ a b, 0 ≤ w a b) (color : Nat → Int)
    (v : Nat) : 0 ≤ d.sent color w v := by
  unfold sent
  split
  · exact le_refl _
  · refine List.sum_nonneg fun x hx => ?_
    obtain ⟨c, -, rfl⟩ := List.mem_map.1 hx
    exact gain_nonneg hw _ _

/-- What is taken away from the vertex is what it sent. -/
theorem sum_parentWeight_ge {d : ECDAG} {w : Weight} (hw : ∀ a b, 0 ≤ w a b) (color : Nat → Int)
    (idx : Nat) (new : Int) : 0 ≤ d.sent color w idx +
      ((d.parentColors color idx).map (parentWeight (color idx) new w)).sum := by
  unfold sent
  generalize d.parentColors color idx = l
  induction l with
  | nil => simp
  | cons c l ih =>
    have h1 := gain_nonneg hw new c
    have h2 := gain_nonneg hw (color idx) c
    have hstep : 0 ≤ (if color idx = -1 then 0 else gain w (color idx) c) +
        parentWeight (color idx) new w c := by
      rw [gain_eq] at *
      unfold parentWeight
      grind
    simp only [List.map_cons, List.sum_cons]
    split at ih
    · next h =>
      rw [if_pos h] at hstep ⊢
      omega
    · next h =>
      rw [if_neg h] at hstep ⊢
      omega

section
variable {d : ECDAG} {coloring : Coloring} {w : Weight} (hw : ∀ a b, 0 ≤ w a b)
include hw

/-- What is taken away from a child is part of what it sent. -/
theorem childWeight_ge {idx child : Nat} (hp : idx ∈ d.parentIds child) (new : Int) :
    -(if d.countColor coloring child (colorAt coloring idx) = 1 then
      d.sent (colorAt coloring) w child else 0) ≤
        d.childWeight coloring (colorAt coloring idx) new w child := by
  have hsent := sent_nonneg (d := d) hw (colorAt coloring) child
  have hnew := hw (colorAt coloring child) new
  unfold childWeight
  by_cases hcc : colorAt coloring child = -1
  · simp only [hcc, if_true]
    split <;> omega
  · have hold : colorAt coloring idx ≠ -1 → colorAt coloring idx ≠ colorAt coloring child →
        w (colorAt coloring child) (colorAt coloring idx) ≤ d.sent (colorAt coloring) w child := by
      intro h1 h2
      rw [sent_eq_sum, if_neg hcc]
      have hmem : colorAt coloring idx ∈ (d.parentIds child).toFinset.image (colorAt coloring) :=
        Finset.mem_image_of_mem _ (List.mem_toFinset.2 hp)
      refine le_trans ?_ (Finset.single_le_sum (fun c _ => gain_nonneg hw _ c) hmem)
      rw [gain_eq, if_pos ⟨h2, h1⟩]
    simp only [hcc, if_false]
    grind

end

section
variable {d : ECDAG} (hd : d.Consistent) {idx : Nat} (hidx : idx ∈ d.nodeIds)
  {keys : List Nat} (hkeys : keys.Nodup) (hmem : ∀ v, v ∈ keys ↔ v ∈ d.nodeIds)
  {coloring : Coloring} {w : Weight} (hw : ∀ a b, 0 ≤ w a b)
include hd hidx hkeys hmem hw

/-- **No counter gets negative**, also when a child is repeated. -/
theorem Consistent.changed_nonneg (new : Int) :
    0 ≤ (keys.map (d.sent (colorAt coloring) w)).sum +
      ((d.parentColors (colorAt coloring) idx).map
        (parentWeight (colorAt coloring idx) new w)).sum +
      ((d.childIndices idx).map (d.childWeight coloring (colorAt coloring idx) new w)).sum := by
  have hidxCh : idx ∉ (d.childIndices idx).toFinset := fun h =>
    hd.not_mem_parentIds idx (hd.mem_parentIds.2 (List.mem_toFinset.1 h))
  have hsub : insert idx (d.childIndices idx).toFinset ⊆ keys.toFinset := by
    intro v hv
    rw [List.mem_toFinset, hmem]
    rcases Finset.mem_insert.1 hv with rfl | hv
    · exact hidx
    · exact hd.closed idx v (List.mem_toFinset.1 hv)
  have hall := Finset.sum_le_sum_of_subset_of_nonneg hsub fun v _ _ =>
    sent_nonneg (d := d) hw (colorAt coloring) v
  rw [Finset.sum_insert hidxCh, List.sum_toFinset _ hkeys] at hall
  have hparents := sum_parentWeight_ge (d := d) hw (colorAt coloring) idx new
  have hchildren : -∑ v ∈ (d.childIndices idx).toFinset, d.sent (colorAt coloring) w v ≤
      ((d.childIndices idx).map (d.childWeight coloring (colorAt coloring idx) new w)).sum := by
    rw [Finset.sum_list_map_count, ← Finset.sum_neg_distrib]
    refine Finset.sum_le_sum fun v hv => ?_
    have hv := List.mem_toFinset.1 hv
    have hp := hd.mem_parentIds.2 hv
    have hge : _ ≤ d.childWeight coloring (colorAt coloring idx) new w v := childWeight_ge hw hp new
    have hsent := sent_nonneg (d := d) hw (colorAt coloring) v
    have hpos : 0 < (d.childIndices idx).count v := List.count_pos_iff.2 hv
    rw [nsmul_eq_mul]
    split at hge
    · next h1 =>
      -- the vertex has the colour itself, so it is not repeated
      have hle : (d.childIndices idx).count v ≤ 1 := by
        rw [← hd.edges, ← h1]
        exact d.count_le_countColor coloring idx v
      have hcount : (d.childIndices idx).count v = 1 := by omega
      rw [hcount, Nat.cast_one, one_mul]
      exact hge
    · rw [neg_zero] at hge
      have := mul_nonneg (Int.natCast_nonneg ((d.childIndices idx).count v)) hge
      omega
  linarith only [hall, hparents, hchildren]

end

/-! ## No counter gets too small -/

section
variable {d : ECDAG} {coloring : Coloring} {w : Weight} (hw : ∀ a b, 0 ≤ w a b)
include hw

/-- Nothing is taken away from a child with another parent of the colour. -/
theorem childWeight_nonneg {old : Int} {child : Nat} (h : d.countColor coloring child old ≠ 1)
    (new : Int) : 0 ≤ d.childWeight coloring old new w child := by
  have hnew := hw (colorAt coloring child) new
  unfold childWeight
  simp only [h, false_and, and_false, if_false, sub_zero]
  split
  · exact le_refl _
  · split
    · exact hnew
    · exact le_refl _

/-- **A child of the vertex** sends no more than the code counts, if no transfer is dropped. -/
theorem sent_child_le {idx child : Nat} (hp : idx ∈ d.parentIds child) (hne : child ≠ idx)
    {color' : Nat → Int} (hsame : ∀ v, v ≠ idx → color' v = colorAt coloring v)
    (hnew : color' idx ≠ -1) (hdrop : color' idx = colorAt coloring idx →
      colorAt coloring child ≠ -1 → colorAt coloring child ≠ color' idx →
      d.countColor coloring child (color' idx) ≠ 1) :
    d.sent color' w child ≤ d.sent (colorAt coloring) w child +
      d.childWeight coloring (colorAt coloring idx) (color' idx) w child := by
  by_cases hone : (d.parentIds child).count idx = 1
  · rw [sent_child hone hne hsame hnew]
    have hkept : d.keptWeight coloring (colorAt coloring idx) (color' idx) w child = 0 := by
      refine if_neg ?_
      rintro ⟨h1, h2, h3, h4⟩
      exact hdrop h1 h2 (h1 ▸ Ne.symm h4) (h1 ▸ h3)
    omega
  · -- the child is repeated, so nothing is taken away
    have hcount : d.countColor coloring child (colorAt coloring idx) ≠ 1 := by
      have := d.count_le_countColor coloring idx child
      have := List.count_pos_iff.2 hp
      omega
    have hweight := childWeight_nonneg hw hcount (color' idx)
    have hgain : ∀ c, 0 ≤ gain w (colorAt coloring child) c := gain_nonneg hw _
    rw [sent_eq_sum, sent_eq_sum, image_parents hp, otherColors_congr hsame, hsame child hne]
    by_cases hcc : colorAt coloring child = -1
    · rw [if_pos hcc, if_pos hcc]
      omega
    · rw [if_neg hcc, if_neg hcc]
      by_cases hin : color' idx ∈ (d.parentIds child).toFinset.image (colorAt coloring)
      · have hsub : insert (color' idx) (d.otherColors (colorAt coloring) idx child) ⊆
            (d.parentIds child).toFinset.image (colorAt coloring) := by
          rw [image_parents hp] at hin ⊢
          exact Finset.insert_subset hin (Finset.subset_insert _ _)
        have hle := Finset.sum_le_sum_of_subset_of_nonneg hsub fun c _ _ => hgain c
        omega
      · have hsub : insert (color' idx) (d.otherColors (colorAt coloring) idx child) ⊆
            insert (color' idx) ((d.parentIds child).toFinset.image (colorAt coloring)) := by
          rw [image_parents hp]
          exact Finset.insert_subset_insert _ (Finset.subset_insert _ _)
        have hle := Finset.sum_le_sum_of_subset_of_nonneg hsub fun c _ _ => hgain c
        rw [Finset.sum_insert hin] at hle
        have hadd : d.childWeight coloring (colorAt coloring idx) (color' idx) w child =
            gain w (colorAt coloring child) (color' idx) := by
          unfold childWeight
          simp only [hcc, hcount, countColor_zero_iff.2 hin, gain_eq, hnew, if_false, false_and,
            and_false, sub_zero, true_and, ne_eq, not_false_eq_true, and_true]
        omega

end

section
variable {d : ECDAG} (hd : d.Consistent) {idx : Nat} (hidx : idx ∈ d.nodeIds)
  {keys : List Nat} (hkeys : keys.Nodup) (hmem : ∀ v, v ∈ keys ↔ v ∈ d.nodeIds)
  {coloring : Coloring} {color' : Nat → Int}
  (hsame : ∀ v, v ≠ idx → color' v = colorAt coloring v) (hnew : color' idx ≠ -1)
  {w : Weight} (hw : ∀ a b, 0 ≤ w a b)
include hd hidx hkeys hmem hsame hnew hw

/-- **No counter gets too small**, also when a child is repeated, if no transfer is dropped. -/
theorem Consistent.sum_sent_le (hdrop : color' idx = colorAt coloring idx →
      ∀ child ∈ d.childIndices idx, colorAt coloring child ≠ -1 →
      colorAt coloring child ≠ color' idx → d.countColor coloring child (color' idx) ≠ 1) :
    (keys.map (d.sent color' w)).sum ≤ (keys.map (d.sent (colorAt coloring) w)).sum +
      ((d.parentColors (colorAt coloring) idx).map
        (parentWeight (colorAt coloring idx) (color' idx) w)).sum +
      ((d.childIndices idx).map
        (d.childWeight coloring (colorAt coloring idx) (color' idx) w)).sum := by
  rw [hd.sum_sent_sub hidx hkeys hmem hsame hnew]
  refine Int.add_le_add_left ?_ _
  rw [Finset.sum_list_map_count]
  refine Finset.sum_le_sum fun v hv => ?_
  have hv := List.mem_toFinset.1 hv
  have hp := hd.mem_parentIds.2 hv
  have hle := sent_child_le hw hp (hd.ne_of_mem_childIndices hv) hsame hnew
    fun h => hdrop h v hv
  have hpos : 0 < (d.childIndices idx).count v := List.count_pos_iff.2 hv
  rw [nsmul_eq_mul]
  by_cases hone : (d.childIndices idx).count v = 1
  · rw [hone, Nat.cast_one, one_mul]
    omega
  · have hcount : d.countColor coloring v (colorAt coloring idx) ≠ 1 := by
      have := d.count_le_countColor coloring idx v
      rw [hd.edges] at this
      omega
    have hweight := childWeight_nonneg hw hcount (color' idx)
    have hmul : d.childWeight coloring (colorAt coloring idx) (color' idx) w v ≤
        ((d.childIndices idx).count v : Int) *
          d.childWeight coloring (colorAt coloring idx) (color' idx) w v :=
      le_mul_of_one_le_left hweight (by omega)
    omega

end

end ECDAG

end StripeRepair

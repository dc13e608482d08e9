import Mathlib.Data.List.Basic
import Mathlib.Data.Prod.Basic
import Mathlib.Order.Basic
import Mathlib.Order.Lattice

/-!
# Pareto fronts as sorted lists

An item has a point of two numbers, both of which should be small. A point weakly dominates the
points that are not below it in the product order. A front is a list of items, the first number
rising and the second falling.

* `Front.split`, `Front.split_covered`, `Front.split_not_covered`: where a point stands in a front.
* `Front.replace`: putting an item in the place of those it dominates.
* `Covered.replace`: what was dominated stays dominated.
-/

namespace Pareto

section
variable {ι α β : Type} [LinearOrder α] [LinearOrder β] (val : ι → α × β)

/-- The first number rises and the second falls. -/
def Front (l : List ι) : Prop :=
  l.Pairwise fun a b => (val a).1 < (val b).1 ∧ (val b).2 < (val a).2

/-- An item of the list weakly dominates the point. -/
def Covered (l : List ι) (x : α × β) : Prop := ∃ a ∈ l, val a ≤ x

/-- All items are on the left of the point, none dominates it. -/
def Left (l : List ι) (x : α × β) : Prop := ∀ a ∈ l, (val a).1 < x.1 ∧ x.2 < (val a).2

/-- All items are on the right of the point, none dominates it. -/
def Right (l : List ι) (x : α × β) : Prop := ∀ a ∈ l, x.1 < (val a).1 ∧ (val a).2 < x.2

/-- The point weakly dominates all items. -/
def Under (l : List ι) (x : α × β) : Prop := ∀ a ∈ l, x ≤ val a

variable {val} {l pre mid post : List ι} {x : α × β}

theorem Covered.mono (h : Covered val l x) {y : α × β} (hxy : x ≤ y) : Covered val l y := by
  obtain ⟨a, ha, hle⟩ := h
  exact ⟨a, ha, hle.trans hxy⟩

theorem not_covered_left (h : Left val l x) : ¬ Covered val l x := by
  rintro ⟨a, ha, hle⟩
  exact absurd hle.2 (not_le.2 (h a ha).2)

theorem not_covered_right (h : Right val l x) : ¬ Covered val l x := by
  rintro ⟨a, ha, hle⟩
  exact absurd hle.1 (not_le.2 (h a ha).1)

/-- What is right of an item on the right is on the right too. -/
theorem Front.right_cons {a : ι} (hF : Front val (a :: l)) (h1 : x.1 < (val a).1)
    (h2 : (val a).2 < x.2) : Right val (a :: l) x := by
  intro b hb
  rcases List.mem_cons.1 hb with rfl | hb
  · exact ⟨h1, h2⟩
  · obtain ⟨hab1, hab2⟩ := List.rel_of_pairwise_cons hF hb
    exact ⟨h1.trans hab1, hab2.trans h2⟩

/-- From the first item that is not on the left on, the items under the point come first. -/
theorem Front.split_right (hF : Front val l) (hc : ¬ Covered val l x)
    (hle : ∀ a ∈ l, x.1 ≤ (val a).1) :
    ∃ mid post, l = mid ++ post ∧ Under val mid x ∧ Right val post x := by
  induction l with
  | nil => exact ⟨[], [], rfl, by simp [Under], by simp [Right]⟩
  | cons a l ih =>
    have ha := hle a (List.mem_cons_self ..)
    rcases le_or_gt x.2 (val a).2 with h | h
    · have hc' : ¬ Covered val l x := by
        rintro ⟨b, hb, hbx⟩
        exact hc ⟨b, List.mem_cons_of_mem _ hb, hbx⟩
      obtain ⟨mid, post, rfl, hm, hp⟩ := ih (List.Pairwise.of_cons hF) hc' fun b hb =>
        hle b (List.mem_cons_of_mem _ hb)
      refine ⟨a :: mid, post, rfl, ?_, hp⟩
      intro b hb
      rcases List.mem_cons.1 hb with rfl | hb
      · exact ⟨ha, h⟩
      · exact hm b hb
    · have hlt : x.1 < (val a).1 := by
        refine lt_of_le_of_ne ha fun heq => hc ⟨a, List.mem_cons_self .., ?_⟩
        exact ⟨heq.ge, h.le⟩
      exact ⟨[], a :: l, rfl, by simp [Under], hF.right_cons hlt h⟩

/-- **Where a point stands in a front.** Behind the items on its left comes one that dominates
it, or the items that it dominates and then the items on its right. -/
theorem Front.split (hF : Front val l) (x : α × β) :
    (∃ pre a post, l = pre ++ a :: post ∧ Left val pre x ∧ val a ≤ x) ∨
      ∃ pre mid post, l = pre ++ mid ++ post ∧ Left val pre x ∧ Under val mid x ∧
        Right val post x := by
  induction l with
  | nil => exact Or.inr ⟨[], [], [], rfl, by simp [Left], by simp [Under], by simp [Right]⟩
  | cons a l ih =>
    by_cases hax : val a ≤ x
    · exact Or.inl ⟨[], a, l, rfl, by simp [Left], hax⟩
    rcases lt_or_ge (val a).1 x.1 with h1 | h1
    · have h2 : x.2 < (val a).2 := by
        by_contra h
        exact hax ⟨h1.le, not_lt.1 h⟩
      have hcons : ∀ {pre}, Left val pre x → Left val (a :: pre) x := by
        intro pre hpre b hb
        rcases List.mem_cons.1 hb with rfl | hb
        · exact ⟨h1, h2⟩
        · exact hpre b hb
      rcases ih (List.Pairwise.of_cons hF) with ⟨pre, b, post, rfl, hpre, hb⟩ |
        ⟨pre, mid, post, rfl, hpre, hm, hp⟩
      · exact Or.inl ⟨a :: pre, b, post, rfl, hcons hpre, hb⟩
      · exact Or.inr ⟨a :: pre, mid, post, rfl, hcons hpre, hm, hp⟩
    · have hle : ∀ b ∈ a :: l, x.1 ≤ (val b).1 := by
        intro b hb
        rcases List.mem_cons.1 hb with rfl | hb
        · exact h1
        · exact h1.trans (List.rel_of_pairwise_cons hF hb).1.le
      have hc : ¬ Covered val (a :: l) x := by
        rintro ⟨b, hb, hbx⟩
        rcases List.mem_cons.1 hb with rfl | hb
        · exact hax hbx
        · exact absurd hbx.1 (not_le.2 (h1.trans_lt (List.rel_of_pairwise_cons hF hb).1))
      obtain ⟨mid, post, hl, hm, hp⟩ := hF.split_right hc hle
      exact Or.inr ⟨[], mid, post, hl, by simp [Left], hm, hp⟩

/-- A point that is dominated: behind the items on its left comes one that dominates it. -/
theorem Front.split_covered (hF : Front val l) (hc : Covered val l x) :
    ∃ pre a post, l = pre ++ a :: post ∧ Left val pre x ∧ val a ≤ x := by
  rcases hF.split x with h | ⟨pre, mid, post, rfl, hpre, hm, hp⟩
  · exact h
  obtain ⟨a, ha, hax⟩ := hc
  rw [List.mem_append, List.mem_append] at ha
  rcases ha with (ha | ha) | ha
  · exact absurd ⟨a, ha, hax⟩ (not_covered_left hpre)
  · obtain ⟨b, mid, rfl⟩ := List.exists_cons_of_ne_nil (List.ne_nil_of_mem ha)
    refine ⟨pre, b, mid ++ post, by simp, hpre, ?_⟩
    rcases List.mem_cons.1 ha with rfl | ha
    · exact hax
    · have hmid := (List.pairwise_append.1 (List.pairwise_append.1 hF).1).2.1
      have hlt := (List.rel_of_pairwise_cons hmid ha).1
      exact absurd (hlt.trans_le hax.1) (not_lt.2 (hm b (List.mem_cons_self ..)).1)
  · exact absurd ⟨a, ha, hax⟩ (not_covered_right hp)

/-- A point that is not dominated, strictly below those it dominates. -/
theorem Front.split_not_covered (hF : Front val l) (hc : ¬ Covered val l x) :
    ∃ pre mid post, l = pre ++ mid ++ post ∧ Left val pre x ∧ (∀ a ∈ mid, x < val a) ∧
      Right val post x := by
  rcases hF.split x with ⟨pre, a, post, rfl, -, ha⟩ | ⟨pre, mid, post, rfl, hpre, hm, hp⟩
  · exact absurd ⟨a, by simp, ha⟩ hc
  · refine ⟨pre, mid, post, rfl, hpre, fun a ha => lt_of_le_of_ne (hm a ha) ?_, hp⟩
    rintro rfl
    exact hc ⟨a, by simp [ha], le_rfl⟩

/-- **An item in the place of those it dominates.** -/
theorem Front.replace (hF : Front val (pre ++ mid ++ post)) {p : ι}
    (hl : Left val pre (val p)) (hr : Right val post (val p)) :
    Front val (pre ++ p :: post) := by
  obtain ⟨hpm, hpost, hcross⟩ := List.pairwise_append.1 hF
  refine List.pairwise_append.2 ⟨(List.pairwise_append.1 hpm).1, ?_, ?_⟩
  · exact List.pairwise_cons.2 ⟨hr, hpost⟩
  · intro a ha b hb
    rcases List.mem_cons.1 hb with rfl | hb
    · exact hl a ha
    · exact hcross a (List.mem_append_left _ ha) b hb

/-- **What was dominated stays dominated.** -/
theorem Covered.replace {y : α × β} (h : Covered val (pre ++ mid ++ post) y) {p : ι}
    (hm : Under val mid (val p)) : Covered val (pre ++ p :: post) y := by
  obtain ⟨a, ha, hay⟩ := h
  rcases List.mem_append.1 ha with ha | ha
  · rcases List.mem_append.1 ha with ha | ha
    · exact ⟨a, List.mem_append_left _ ha, hay⟩
    · exact ⟨p, List.mem_append_right _ (List.mem_cons_self ..), (hm a ha).trans hay⟩
  · exact ⟨a, List.mem_append_right _ (List.mem_cons_of_mem _ ha), hay⟩

theorem covered_self (pre post : List ι) (p : ι) : Covered val (pre ++ p :: post) (val p) :=
  ⟨p, List.mem_append_right _ (List.mem_cons_self ..), le_rfl⟩

/-- A front reads the points of its items only. -/
theorem front_congr {val' : ι → α × β} (h : ∀ a ∈ l, val' a = val a) :
    Front val' l ↔ Front val l := by
  unfold Front
  refine List.Pairwise.iff_of_mem fun {a b} ha hb => ?_
  rw [h a ha, h b hb]

theorem covered_congr {val' : ι → α × β} (h : ∀ a ∈ l, val' a = val a) :
    Covered val' l x ↔ Covered val l x := by
  unfold Covered
  refine exists_congr fun a => and_congr_right fun ha => ?_
  rw [h a ha]

end

end Pareto

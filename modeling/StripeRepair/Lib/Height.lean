import StripeRepair.Lib.LinearProgram
import Mathlib.Data.List.Nodup
import Mathlib.Logic.Function.Basic
import Mathlib.Order.Bounds.Basic
import Mathlib.Order.WellFoundedSet

/-!
# Heights in an ordered list

A list of items in which the sources of an item are the targets of earlier items
is a DAG in the order of its creation.  `height` is the length of the longest path
from a target down to one without sources.

* `Ordered.induction`: what holds of a target when it holds of its sources.
* `height_lt`, `exists_height_pred`: a source is lower, and some source is just one lower.

Where there is no order to start from, `Measures` says what a height is.

* `Measures.isGreatest`: it is the length of the longest path down.
* `exists_measures`: there is one when no path goes on forever.
-/

namespace LinearProgram

section
variable {ι V : Type} {dst : ι → V} {srcs : ι → List V}

theorem Ordered.induction {S P : V → Prop} {l : List ι} (h : Ordered dst srcs S l)
    (hS : ∀ v, S v → P v) (step : ∀ i ∈ l, (∀ c ∈ srcs i, P c) → P (dst i)) :
    ∀ i ∈ l, P (dst i) := by
  induction l generalizing S with
  | nil =>
    intro i hi
    cases hi
  | cons j l ih =>
    have hj : P (dst j) := step j (List.mem_cons_self ..) fun c hc => hS c (h.1 c hc)
    intro i hi
    rcases List.mem_cons.1 hi with rfl | hi
    · exact hj
    · refine ih h.2 ?_ (fun k hk => step k (List.mem_cons_of_mem _ hk)) i hi
      rintro v (hv | rfl)
      · exact hS v hv
      · exact hj

theorem Ordered.srcs_mem {S : V → Prop} {l : List ι} (h : Ordered dst srcs S l) :
    ∀ i ∈ l, ∀ c ∈ srcs i, S c ∨ c ∈ l.map dst := by
  induction l generalizing S with
  | nil =>
    intro i hi
    cases hi
  | cons j l ih =>
    intro i hi c hc
    rcases List.mem_cons.1 hi with rfl | hi
    · exact Or.inl (h.1 c hc)
    · rcases ih h.2 i hi c hc with (hS | rfl) | hm
      · exact Or.inl hS
      · exact Or.inr (List.mem_cons_self ..)
      · exact Or.inr (List.mem_cons_of_mem _ hm)

/-- An item whose target is nobody's source can be left out. -/
theorem Ordered.filter_ne [DecidableEq V] {S T : V → Prop} {l : List ι} {h : V}
    (hl : Ordered dst srcs S l) (hh : ∀ i ∈ l, h ∉ srcs i) (hST : ∀ v, v ≠ h → S v → T v) :
    Ordered dst srcs T (l.filter fun i => dst i ≠ h) := by
  induction l generalizing S T with
  | nil => trivial
  | cons i l ih =>
    have hl' : ∀ j ∈ l, h ∉ srcs j := fun j hj => hh j (List.mem_cons_of_mem _ hj)
    rw [List.filter_cons]
    split
    · refine ⟨fun c hc => hST c ?_ (hl.1 c hc), ih hl.2 hl' ?_⟩
      · exact fun he => hh i (List.mem_cons_self ..) (he ▸ hc)
      · rintro v hv (hS | rfl)
        · exact Or.inl (hST v hv hS)
        · exact Or.inr rfl
    · next hi =>
      refine ih hl.2 hl' ?_
      rintro v hv (hS | rfl)
      · exact hST v hv hS
      · exact absurd hv (by simpa using hi)

/-- Of a list of targets some can be left out if they are there from the start. -/
theorem Ordered.filter {srcs : V → List V} {S : V → Prop} {l : List V}
    (hl : Ordered id srcs S l) (p : V → Bool) :
    Ordered id srcs (fun v => S v ∨ ¬ p v) (l.filter p) := by
  induction l generalizing S with
  | nil => trivial
  | cons i l ih =>
    have htail := ih hl.2
    rw [List.filter_cons]
    split
    · refine ⟨fun c hc => Or.inl (hl.1 c hc), htail.mono ?_⟩
      rintro v ((hv | hv) | hv)
      · exact Or.inl (Or.inl hv)
      · exact Or.inr hv
      · exact Or.inl (Or.inr hv)
    · next hi =>
      refine htail.mono ?_
      rintro v ((hv | rfl) | hv)
      · exact Or.inl hv
      · exact Or.inr hi
      · exact Or.inr hv

/-- One above the highest of `cs`. -/
def above (h : V → Nat) (cs : List V) : Nat := cs.foldr (fun c m => max (h c + 1) m) 0

theorem above_le_iff {h : V → Nat} {cs : List V} {m : Nat} :
    above h cs ≤ m ↔ ∀ c ∈ cs, h c < m := by
  induction cs with
  | nil => simp [above]
  | cons c cs ih =>
    have hc : above h (c :: cs) = max (h c + 1) (above h cs) := rfl
    rw [hc, List.forall_mem_cons, ← ih]
    omega

theorem lt_above {h : V → Nat} {cs : List V} {c : V} (hc : c ∈ cs) : h c < above h cs :=
  above_le_iff.1 (Nat.le_refl _) c hc

theorem above_eq {h : V → Nat} {cs : List V} {m : Nat}
    (hle : ∀ c ∈ cs, h c ≤ m) {c : V} (hc : c ∈ cs) (hm : h c = m) : above h cs = m + 1 := by
  refine Nat.le_antisymm (above_le_iff.2 fun c hc => Nat.lt_succ_of_le (hle c hc)) ?_
  rw [← hm]
  exact lt_above hc

theorem above_congr {h h' : V → Nat} {cs : List V} (hh : ∀ c ∈ cs, h c = h' c) :
    above h cs = above h' cs := by
  induction cs with
  | nil => rfl
  | cons c cs ih =>
    simp only [above, List.foldr_cons, hh c (List.mem_cons_self ..)] at ih ⊢
    rw [ih fun b hb => hh b (List.mem_cons_of_mem _ hb)]

theorem exists_above {h : V → Nat} {cs : List V} {m : Nat} (hm : above h cs = m + 1) :
    ∃ c ∈ cs, h c = m := by
  by_contra hno
  push Not at hno
  have hle : above h cs ≤ m := above_le_iff.2 fun c hc => by
    have h1 := lt_above (h := h) hc
    have h2 := hno c hc
    omega
  omega

variable [DecidableEq V]

variable (dst srcs) in
/-- The longest path down from a target; 0 outside the list. -/
def height (l : List ι) : V → Nat :=
  l.foldl (fun h i => Function.update h (dst i) (above h (srcs i))) fun _ => 0

theorem height_concat (l : List ι) (i : ι) :
    height dst srcs (l ++ [i]) =
      Function.update (height dst srcs l) (dst i) (above (height dst srcs l) (srcs i)) := by
  rw [height, List.foldl_append]
  rfl

theorem height_of_not_mem {l : List ι} {v : V} (hv : v ∉ l.map dst) :
    height dst srcs l v = 0 := by
  induction l using List.reverseRecOn with
  | nil => rfl
  | append_singleton l i ih =>
    rw [List.map_append, List.mem_append, not_or] at hv
    have hvi : v ≠ dst i := fun h => hv.2 (List.mem_singleton.2 h)
    rw [height_concat, Function.update_of_ne hvi]
    exact ih hv.1

section
variable {l : List ι} (hord : Ordered dst srcs (fun _ => False) l) (hnodup : (l.map dst).Nodup)
include hord hnodup

theorem height_dst : ∀ i ∈ l, height dst srcs l (dst i) = above (height dst srcs l) (srcs i) := by
  induction l using List.reverseRecOn with
  | nil =>
    intro i hi
    cases hi
  | append_singleton l j ih =>
    obtain ⟨hl, hj, -⟩ := ordered_append.1 hord
    rw [List.map_append, List.nodup_append] at hnodup
    obtain ⟨hnl, -, hne⟩ := hnodup
    have hj : ∀ c ∈ srcs j, c ∈ l.map dst := fun c hc => (hj c hc).resolve_left id
    -- the new target is no target or source of the list before it
    have hkeep : ∀ v ∈ l.map dst,
        height dst srcs (l ++ [j]) v = height dst srcs l v := by
      intro v hv
      rw [height_concat, Function.update_of_ne (hne v hv _ (List.mem_singleton_self _))]
    intro i hi
    rcases List.mem_append.1 hi with hi | hi
    · rw [hkeep _ (List.mem_map_of_mem hi), ih hl hnl i hi]
      refine above_congr fun c hc => (hkeep c ?_).symm
      exact (hl.srcs_mem i hi c hc).resolve_left id
    · rw [List.mem_singleton.1 hi]
      conv_lhs => rw [height_concat, Function.update_self]
      exact above_congr fun c hc => (hkeep c (hj c hc)).symm

theorem height_lt {i : ι} (hi : i ∈ l) {c : V} (hc : c ∈ srcs i) :
    height dst srcs l c < height dst srcs l (dst i) := by
  rw [height_dst hord hnodup i hi]
  exact lt_above hc

theorem height_eq_zero {i : ι} (hi : i ∈ l) :
    height dst srcs l (dst i) = 0 ↔ srcs i = [] := by
  rw [height_dst hord hnodup i hi]
  constructor
  · intro h0
    refine List.eq_nil_iff_forall_not_mem.2 fun c hc => ?_
    have := lt_above (h := height dst srcs l) hc
    omega
  · intro h0
    rw [h0]
    rfl

theorem exists_height_pred {i : ι} (hi : i ∈ l) {m : Nat}
    (hm : height dst srcs l (dst i) = m + 1) : ∃ c ∈ srcs i, height dst srcs l c = m := by
  rw [height_dst hord hnodup i hi] at hm
  exact exists_above hm

/-- Every height below one that occurs occurs too. -/
theorem exists_height_eq {m : Nat} {i : ι} (hi : i ∈ l) (hm : m ≤ height dst srcs l (dst i)) :
    ∃ j ∈ l, height dst srcs l (dst j) = m := by
  revert hm
  refine hord.induction (P := fun v => m ≤ height dst srcs l v →
    ∃ j ∈ l, height dst srcs l (dst j) = m) (fun _ h => h.elim) ?_ i hi
  intro i hi ih hle
  by_cases he : height dst srcs l (dst i) = m
  · exact ⟨i, hi, he⟩
  · obtain ⟨c, hc, hcm⟩ := exists_height_pred hord hnodup hi
      (show height dst srcs l (dst i) = (height dst srcs l (dst i) - 1) + 1 by omega)
    exact ih c hc (by omega)

end

end

/-! ## Heights without an order -/

section
variable {V : Type}

/-- A path of length `m` down from `v` to one without children. -/
inductive DownPath (ch : V → List V) : V → Nat → Prop
  | stop {v : V} (h : ch v = []) : DownPath ch v 0
  | down {v c : V} {m : Nat} (hc : c ∈ ch v) (h : DownPath ch c m) : DownPath ch v (m + 1)

/-- Each height is one above the highest of the children. -/
def Measures (ch : V → List V) (h : V → Nat) : Prop := ∀ v, h v = above h (ch v)

section
variable {ch : V → List V} {h : V → Nat} (hh : Measures ch h)
include hh

theorem Measures.lt {v c : V} (hc : c ∈ ch v) : h c < h v := by
  rw [hh v]
  exact lt_above hc

theorem Measures.eq_zero (v : V) : h v = 0 ↔ ch v = [] := by
  constructor
  · intro h0
    refine List.eq_nil_iff_forall_not_mem.2 fun c hc => ?_
    have := hh.lt hc
    omega
  · intro h0
    rw [hh v, h0]
    rfl

theorem Measures.exists_pred {v : V} {m : Nat} (hm : h v = m + 1) : ∃ c ∈ ch v, h c = m := by
  rw [hh v] at hm
  exact exists_above hm

/-- Every height below one that occurs occurs too, at the end of a path down. -/
theorem Measures.exists_eq {P : V → Prop} (hP : ∀ v c, P v → c ∈ ch v → P c) {m : Nat} {v : V}
    (hv : P v) (hm : m ≤ h v) : ∃ u, P u ∧ h u = m := by
  obtain ⟨k, hk⟩ := Nat.exists_eq_add_of_le hm
  induction k generalizing v with
  | zero => exact ⟨v, hv, by omega⟩
  | succ k ih =>
    obtain ⟨c, hc, hck⟩ := hh.exists_pred (show h v = m + k + 1 by omega)
    exact ih (hP v c hv hc) (by omega) hck

/-- **The longest path down.** -/
theorem Measures.isGreatest (v : V) : IsGreatest {m | DownPath ch v m} (h v) := by
  constructor
  · have hpath : ∀ m v, h v = m → DownPath ch v m := by
      intro m
      induction m with
      | zero => exact fun v hv => .stop ((hh.eq_zero v).1 hv)
      | succ m ih =>
        intro v hv
        obtain ⟨c, hc, hcm⟩ := hh.exists_pred hv
        exact .down hc (ih c hcm)
    exact hpath _ v rfl
  · intro m hm
    induction hm with
    | stop => exact Nat.zero_le _
    | down hc _ ih =>
      have := hh.lt hc
      omega

theorem Measures.unique {h' : V → Nat} (hh' : Measures ch h') : h = h' :=
  funext fun v => (hh.isGreatest v).unique (hh'.isGreatest v)

end

/-- **When no path down goes on forever** there are heights. -/
theorem exists_measures {ch : V → List V} (hwf : WellFounded fun c v => c ∈ ch v) :
    ∃ h, Measures ch h := by
  refine ⟨hwf.fix fun v ih => ((ch v).attach.map fun c => ih c.1 c.2 + 1).foldr max 0, fun v => ?_⟩
  rw [hwf.fix_eq]
  generalize hwf.fix _ = h
  have hmap : ((ch v).attach.map fun c => h c.1 + 1) = (ch v).map fun c => h c + 1 := by
    simp
  rw [hmap, List.foldr_map]
  rfl

/-- A relation with finitely many things above others has no path that goes on forever, when it
has no cycle. -/
theorem wellFounded_of_acyclic {r : V → V → Prop} {s : Set V} (hs : s.Finite)
    (hmem : ∀ a b, r a b → a ∈ s ∧ b ∈ s) (hacyclic : ∀ v, ¬ Relation.TransGen r v v) :
    WellFounded r := by
  have hirrefl : Std.Irrefl (Relation.TransGen r) := ⟨hacyclic⟩
  have htrans : IsTrans V (Relation.TransGen r) := ⟨fun _ _ _ => Relation.TransGen.trans⟩
  have hstrict : IsStrictOrder V (Relation.TransGen r) := {}
  have hon : s.WellFoundedOn (Relation.TransGen r) := hs.wellFoundedOn
  have hacc : ∀ a ∈ s, Acc r a := by
    intro a ha
    refine hon.induction ha fun b hb ih => ⟨b, fun c hc => ?_⟩
    exact ih c (hmem c b hc).1 (.single hc)
  exact ⟨fun a => ⟨a, fun b hb => hacc b (hmem b a hb).1⟩⟩

end

end LinearProgram

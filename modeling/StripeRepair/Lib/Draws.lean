import Mathlib

/-!
# Draws without replacement

The candidates are what is not to be avoided. A random number chooses one by its position, and
then it is to be avoided too.

* `nodup_draw`, `mem_of_mem_draw`: as many distinct candidates as are wanted.
* `only_candidate`: a position that is drawn with one value only.
-/

namespace Draws

variable {α : Type}

section
variable (candidates : List α → List α) (dflt : α) (rand : Nat → Nat)

/-- Draw number `i`. -/
def pick (i : Nat) (avoid : List α) : α :=
  (candidates avoid).getD (rand i % (candidates avoid).length) dflt

/-- `n` draws, from number `i` on. -/
def draw : Nat → List α → Nat → List α
  | _, _, 0 => []
  | i, avoid, n + 1 =>
    pick candidates dflt rand i avoid ::
      draw (i + 1) (avoid ++ [pick candidates dflt rand i avoid]) n

end

/-- The candidates are distinct, and the one that is drawn is taken out. -/
structure Shrinks [DecidableEq α] (candidates : List α → List α) : Prop where
  nodup : ∀ avoid, (candidates avoid).Nodup
  erase : ∀ avoid, ∀ r ∈ candidates avoid, candidates (avoid ++ [r]) = (candidates avoid).erase r

section
variable {candidates : List α → List α} {dflt : α} {rand : Nat → Nat}

theorem pick_mem {i : Nat} {avoid : List α} (h : candidates avoid ≠ []) :
    pick candidates dflt rand i avoid ∈ candidates avoid := by
  have hlt := Nat.mod_lt (rand i) (List.length_pos_iff.2 h)
  rw [pick, List.getD_eq_getElem _ _ hlt]
  exact List.getElem_mem _

@[simp] theorem length_draw (n i : Nat) (avoid : List α) :
    (draw candidates dflt rand i avoid n).length = n := by
  induction n generalizing i avoid with
  | zero => rfl
  | succ n ih => rw [draw, List.length_cons, ih]

variable [DecidableEq α] (hs : Shrinks candidates)
include hs

theorem Shrinks.length_snoc {avoid : List α} {r : α} (hr : r ∈ candidates avoid) :
    (candidates (avoid ++ [r])).length = (candidates avoid).length - 1 := by
  rw [hs.erase avoid r hr, List.length_erase_of_mem hr]

theorem Shrinks.mem_snoc {avoid : List α} {r x : α} (hr : r ∈ candidates avoid)
    (hx : x ∈ candidates (avoid ++ [r])) : x ≠ r ∧ x ∈ candidates avoid := by
  rw [hs.erase avoid r hr] at hx
  exact (hs.nodup avoid).mem_erase_iff.1 hx

theorem mem_of_mem_draw {n i : Nat} {avoid : List α} (hn : n ≤ (candidates avoid).length) {r : α}
    (hr : r ∈ draw candidates dflt rand i avoid n) : r ∈ candidates avoid := by
  induction n generalizing i avoid with
  | zero => exact absurd hr List.not_mem_nil
  | succ n ih =>
    have hpick : pick candidates dflt rand i avoid ∈ candidates avoid :=
      pick_mem (List.length_pos_iff.1 (by omega))
    rcases List.mem_cons.1 hr with rfl | hr
    · exact hpick
    · exact (hs.mem_snoc hpick (ih (by rw [hs.length_snoc hpick]; omega) hr)).2

/-- **The draws are distinct.** -/
theorem nodup_draw {n i : Nat} {avoid : List α} (hn : n ≤ (candidates avoid).length) :
    (draw candidates dflt rand i avoid n).Nodup := by
  induction n generalizing i avoid with
  | zero => exact List.nodup_nil
  | succ n ih =>
    have hpick : pick candidates dflt rand i avoid ∈ candidates avoid :=
      pick_mem (List.length_pos_iff.1 (by omega))
    have hrest : n ≤ (candidates (avoid ++ [pick candidates dflt rand i avoid])).length := by
      rw [hs.length_snoc hpick]
      omega
    refine List.nodup_cons.2 ⟨fun hm => ?_, ih hrest⟩
    exact (hs.mem_snoc hpick (mem_of_mem_draw hs hrest hm)).1 rfl

/-- **A draw that is the same for all random numbers** is of the only candidate. -/
theorem only_candidate {n j : Nat} {avoid : List α} {b : α} (hj : j < n)
    (hn : n ≤ (candidates avoid).length)
    (h : ∀ rand, (draw candidates dflt rand 0 avoid n)[j]? = some b) :
    n = 1 ∧ candidates avoid = [b] := by
  have hmem : ∀ rand, b ∈ draw candidates dflt rand 0 avoid n := fun rand =>
    List.mem_of_getElem? (h rand)
  obtain ⟨k, hk, hkb⟩ := List.getElem_of_mem (mem_of_mem_draw hs hn (hmem fun _ => 0))
  -- with `k'` at each draw, the first one is the candidate at `k'`
  have hfirst : ∀ k' (hk' : k' < (candidates avoid).length),
      (draw candidates dflt (fun _ => k') 0 avoid n)[0]? = some ((candidates avoid).get ⟨k', hk'⟩) := by
    intro k' hk'
    obtain ⟨m, rfl⟩ : ∃ m, n = m + 1 := ⟨n - 1, by omega⟩
    rw [draw, List.getElem?_cons_zero, pick, Nat.mod_eq_of_lt hk', List.getD_eq_getElem _ _ hk']
    rfl
  have hone : (candidates avoid).length = 1 := by
    by_contra hne
    rcases Nat.eq_zero_or_pos j with rfl | hpos
    · obtain ⟨k', hk', hne'⟩ : ∃ k' < (candidates avoid).length, k' ≠ k := by
        rcases Nat.eq_zero_or_pos k with rfl | hk0
        · exact ⟨1, by omega, by omega⟩
        · exact ⟨0, by omega, by omega⟩
      have heq := (h fun _ => k').symm.trans (hfirst k' hk')
      rw [← hkb] at heq
      exact hne' ((hs.nodup avoid).getElem_inj_iff.1 (Option.some.inj heq)).symm
    · -- the first draw is the candidate already, and it is not drawn again
      have heq := (hfirst k hk).trans (congrArg some hkb)
      have hlt : 0 < (draw candidates dflt (fun _ => k) 0 avoid n).length := by
        rw [length_draw]
        omega
      have := (List.getElem?_inj hlt (nodup_draw hs hn)).1 (heq.trans (h fun _ => k).symm)
      omega
  refine ⟨by omega, ?_⟩
  obtain ⟨c, hc⟩ := List.length_eq_one_iff.1 hone
  have hb := mem_of_mem_draw hs hn (hmem fun _ => 0)
  rw [hc] at hb ⊢
  rw [List.mem_singleton.1 hb]

end

end Draws

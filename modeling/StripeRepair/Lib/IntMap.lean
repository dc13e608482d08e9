import StripeRepair.Lib.BestSoFar
import Mathlib

/-!
# Maps of counters that go up and down

`m[k] += x` on a map whose default is 0, and the two numbers a walk reads off such maps:
the sum of the entries of one and the largest entry of two.

* `get_bump`: the counter under a key.
* `sum_values_congr`, `IsTop.unique`: both numbers depend on the counters only, not on the
  keys that are there and not on the walk.
-/

abbrev IntMap (κ : Type) := AList fun _ : κ => Int

namespace IntMap

section
variable {κ : Type} [DecidableEq κ]

def get (m : IntMap κ) (k : κ) : Int := (m.lookup k).getD 0

/-- `m[k] += x` -/
def bump (m : IntMap κ) (k : κ) (x : Int) : IntMap κ := m.insert k (m.get k + x)

def values (m : IntMap κ) : List Int := m.entries.map Sigma.snd

theorem get_empty (k : κ) : get (∅ : IntMap κ) k = 0 := by
  rw [get, AList.lookup_empty]
  rfl

theorem get_of_not_mem {m : IntMap κ} {k : κ} (h : k ∉ m) : m.get k = 0 := by
  rw [get, AList.lookup_eq_none.2 h]
  rfl

theorem get_bump (m : IntMap κ) (k : κ) (x : Int) :
    (m.bump k x).get = Function.update m.get k (m.get k + x) := by
  funext k'
  rw [Function.update_apply]
  unfold bump
  split
  · next h =>
    subst h
    rw [get, AList.lookup_insert]
    rfl
  · next h => rw [get, AList.lookup_insert_ne h, get]

theorem mem_bump {m : IntMap κ} {k k' : κ} {x : Int} : k' ∈ m.bump k x ↔ k' = k ∨ k' ∈ m :=
  AList.mem_insert m

/-- The values are those under the keys. -/
theorem values_eq (m : IntMap κ) : m.values = m.keys.map m.get := by
  rw [values, AList.keys, List.keys, List.map_map]
  refine List.map_congr_left fun e he => ?_
  show e.2 = (m.lookup e.1).getD 0
  rw [AList.mem_lookup_iff.2 he]
  rfl

theorem mem_values {m : IntMap κ} {x : Int} : x ∈ m.values ↔ ∃ k ∈ m, m.get k = x := by
  rw [values_eq, List.mem_map]
  rfl

theorem sum_values {m : IntMap κ} {S : Finset κ} (h : ∀ k ∈ m, k ∈ S) :
    m.values.sum = ∑ k ∈ S, m.get k := by
  rw [values_eq, ← List.sum_toFinset _ m.keys_nodup]
  refine Finset.sum_subset ?_ ?_
  · intro k hk
    exact h k (List.mem_toFinset.1 hk)
  · intro k _ hk
    exact get_of_not_mem fun hm => hk (List.mem_toFinset.2 hm)

/-- Keys with the counter 0 do not matter. -/
theorem sum_values_congr {m m' : IntMap κ} (h : m.get = m'.get) : m.values.sum = m'.values.sum := by
  have hm : ∀ k ∈ m, k ∈ m.keys.toFinset ∪ m'.keys.toFinset := fun k hk =>
    Finset.mem_union_left _ (List.mem_toFinset.2 hk)
  have hm' : ∀ k ∈ m', k ∈ m.keys.toFinset ∪ m'.keys.toFinset := fun k hk =>
    Finset.mem_union_right _ (List.mem_toFinset.2 hk)
  rw [sum_values hm, sum_values hm', h]

/-! ## The largest counter -/

/-- `p` is the largest of the counters `f` and `g` and 0. -/
structure IsTop (f g : κ → Int) (p : Int) : Prop where
  nonneg : 0 ≤ p
  le : ∀ k, f k ≤ p ∧ g k ≤ p
  mem : p = 0 ∨ ∃ k, f k = p ∨ g k = p

omit [DecidableEq κ] in
theorem IsTop.unique {f g : κ → Int} {p q : Int} (hp : IsTop f g p) (hq : IsTop f g q) : p = q := by
  have hle : ∀ {p q : Int}, IsTop f g p → IsTop f g q → p ≤ q := by
    intro p q hp hq
    rcases hp.mem with h0 | ⟨k, h | h⟩
    · rw [h0]
      exact hq.nonneg
    · exact h ▸ (hq.le k).1
    · exact h ▸ (hq.le k).2
  exact le_antisymm (hle hp hq) (hle hq hp)

/-- `if (item.second > load) load = item.second` -/
def raise (load x : Int) : Int := if x > load then x else load

theorem raise_eq_max : raise = max := by
  funext load x
  exact BestSoFar.ite_gt_eq_max load x

/-- **A walk through one map and then another ends at the top.** -/
theorem isTop_foldl_raise {m m' : IntMap κ} {l l' : List Int} (hl : l.Perm m.values)
    (hl' : l'.Perm m'.values) : IsTop m.get m'.get (l'.foldl raise (l.foldl raise 0)) := by
  rw [raise_eq_max]
  obtain ⟨h0, h1, h2⟩ := BestSoFar.foldl_max l 0
  obtain ⟨h3, h4, h5⟩ := BestSoFar.foldl_max l' (l.foldl max 0)
  have hget : ∀ {m : IntMap κ} {l : List Int} {p : Int}, l.Perm m.values → 0 ≤ p →
      (∀ x ∈ l, x ≤ p) → ∀ k, m.get k ≤ p := by
    intro m l p hl hp h k
    by_cases hk : k ∈ m
    · exact h _ (hl.mem_iff.2 (mem_values.2 ⟨k, hk, rfl⟩))
    · rw [get_of_not_mem hk]
      exact hp
  refine ⟨h0.trans h3, fun k => ⟨(hget hl h0 h1 k).trans h3, hget hl' (h0.trans h3) h4 k⟩, ?_⟩
  rcases h5 with h5 | h5
  · rw [h5]
    refine h2.imp_right fun h => ?_
    obtain ⟨k, -, hk⟩ := mem_values.1 (hl.mem_iff.1 h)
    exact ⟨k, Or.inl hk⟩
  · obtain ⟨k, -, hk⟩ := mem_values.1 (hl'.mem_iff.1 h5)
    exact Or.inr ⟨k, Or.inr hk⟩

end

end IntMap

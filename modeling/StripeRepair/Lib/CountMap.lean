import StripeRepair.Lib.PushMap
import StripeRepair.Lib.BestSoFar
import Mathlib

/-!
# Maps of counters

A loop counts events under their keys, `m[k]++`, and a second loop walks through the
map to add the counts up and to find the largest one.

* `get_foldl_incr`: the count under a key.
* `sum_counts_foldl_incr`: the counts add up to the number of events.
* `get_foldl_add`: the counts after another map has been added.
* `IsPeak.unique`: the largest count is what the counts make it, whatever the walk.
-/

abbrev CountMap (κ : Type) := AList fun _ : κ => Nat

namespace CountMap

section
variable {κ : Type} [DecidableEq κ]

def get (m : CountMap κ) (k : κ) : Nat := (m.lookup k).getD 0

/-- `m[k]++`, or a first count under a key that is not there. -/
def incr (m : CountMap κ) (k : κ) : CountMap κ :=
  if k ∈ m then m.insert k (m.get k + 1) else m.insert k 1

def counts (m : CountMap κ) : List Nat := m.entries.map Sigma.snd

theorem get_empty (k : κ) : get (∅ : CountMap κ) k = 0 := by
  rw [get, AList.lookup_empty]
  rfl

theorem get_of_not_mem {m : CountMap κ} {k : κ} (h : k ∉ m) : m.get k = 0 := by
  rw [get, AList.lookup_eq_none.2 h]
  rfl

theorem incr_eq (m : CountMap κ) (k : κ) : m.incr k = m.insert k (m.get k + 1) := by
  unfold incr
  split
  · rfl
  · next h => rw [get_of_not_mem h]

theorem get_incr (m : CountMap κ) (k k' : κ) :
    (m.incr k).get k' = m.get k' + if k' = k then 1 else 0 := by
  rw [incr_eq]
  split
  · next h =>
    subst h
    rw [get, AList.lookup_insert]
    rfl
  · next h => rw [get, AList.lookup_insert_ne h, get, Nat.add_zero]

theorem get_foldl_incr (l : List κ) (m : CountMap κ) (k : κ) :
    (l.foldl incr m).get k = m.get k + l.count k := by
  induction l generalizing m with
  | nil => rfl
  | cons a l ih =>
    rw [List.foldl_cons, ih, get_incr, List.count_cons]
    by_cases h : a = k
    · simp only [h, if_true, beq_self_eq_true]
      omega
    · simp only [h, Ne.symm h, if_false, beq_iff_eq]
      omega

theorem sum_kerase (l : List (Σ _ : κ, Nat)) (k : κ) :
    ((l.kerase k).map Sigma.snd).sum + (l.dlookup k).getD 0 = (l.map Sigma.snd).sum := by
  induction l with
  | nil => rfl
  | cons e l ih =>
    obtain ⟨a, n⟩ := e
    by_cases h : k = a
    · subst h
      have herase : List.kerase k ((⟨k, n⟩ : Σ _ : κ, Nat) :: l) = l := List.kerase_cons_eq rfl
      rw [herase, List.dlookup_cons_eq, List.map_cons, List.sum_cons]
      exact Nat.add_comm _ _
    · rw [List.kerase_cons_ne h, List.dlookup_cons_ne _ _ h]
      simp only [List.map_cons, List.sum_cons]
      omega

theorem sum_counts_incr (m : CountMap κ) (k : κ) :
    (m.incr k).counts.sum = m.counts.sum + 1 := by
  have herase := sum_kerase m.entries k
  rw [incr_eq, counts, AList.entries_insert, List.map_cons, List.sum_cons]
  show m.get k + 1 + _ = (m.entries.map Sigma.snd).sum + 1
  rw [← herase]
  show _ = _ + m.get k + 1
  omega

theorem sum_counts_foldl_incr (l : List κ) (m : CountMap κ) :
    (l.foldl incr m).counts.sum = m.counts.sum + l.length := by
  induction l generalizing m with
  | nil => rfl
  | cons a l ih =>
    rw [List.foldl_cons, ih, sum_counts_incr, List.length_cons]
    omega

/-! ## Adding a map -/

/-- `m[k] += n` -/
def add (m : CountMap κ) (k : κ) (n : Nat) : CountMap κ := m.insert k (m.get k + n)

theorem get_add (m : CountMap κ) (k k' : κ) (n : Nat) :
    (m.add k n).get k' = m.get k' + if k = k' then n else 0 := by
  unfold add
  split
  · next h =>
    subst h
    rw [get, AList.lookup_insert]
    rfl
  · next h => rw [get, AList.lookup_insert_ne (Ne.symm h), get, Nat.add_zero]

theorem mem_add {m : CountMap κ} {k k' : κ} {n : Nat} : k' ∈ m.add k n ↔ k' = k ∨ k' ∈ m :=
  AList.mem_insert m

/-- `m[e.1] += e.2` for each entry `e` -/
def addAll (m : CountMap κ) (es : List (Σ _ : κ, Nat)) : CountMap κ :=
  es.foldl (fun m e => m.add e.1 e.2) m

theorem mem_addAll {es : List (Σ _ : κ, Nat)} {m : CountMap κ} {k : κ} :
    k ∈ m.addAll es ↔ k ∈ m ∨ k ∈ es.map Sigma.fst := by
  induction es generalizing m with
  | nil => simp [addAll]
  | cons e es ih =>
    show k ∈ (m.add e.1 e.2).addAll es ↔ _
    rw [ih, mem_add, List.map_cons, List.mem_cons]
    tauto

theorem sum_entries (es : List (Σ _ : κ, Nat)) (h : es.NodupKeys) (k : κ) :
    (es.map fun e => if e.1 = k then e.2 else 0).sum = (es.dlookup k).getD 0 := by
  induction es with
  | nil => rfl
  | cons e es ih =>
    obtain ⟨a, n⟩ := e
    obtain ⟨hnot, htail⟩ := List.nodupKeys_cons.1 h
    rw [List.map_cons, List.sum_cons, ih htail]
    by_cases hk : a = k
    · subst hk
      rw [if_pos rfl, List.dlookup_cons_eq, List.dlookup_eq_none.2 hnot]
      rfl
    · rw [if_neg hk, List.dlookup_cons_ne _ _ (Ne.symm hk), Nat.zero_add]

theorem get_addAll (es : List (Σ _ : κ, Nat)) (m : CountMap κ) (k : κ) :
    (m.addAll es).get k = m.get k + (es.map fun e => if e.1 = k then e.2 else 0).sum := by
  induction es generalizing m with
  | nil => rfl
  | cons e es ih =>
    show ((m.add e.1 e.2).addAll es).get k = _
    rw [ih, get_add, List.map_cons, List.sum_cons, Nat.add_assoc]

/-- **A walk through `m'` adds its counts**, whatever its order. -/
theorem sum_walk {m' : CountMap κ} {es : List (Σ _ : κ, Nat)} (h : es.Perm m'.entries) (k : κ) :
    (es.map fun e => if e.1 = k then e.2 else 0).sum = m'.get k := by
  rw [(h.map _).sum_eq]
  exact sum_entries _ m'.nodupKeys k

theorem get_foldl_add {m m' : CountMap κ} {es : List (Σ _ : κ, Nat)} (h : es.Perm m'.entries)
    (k : κ) : (m.addAll es).get k = m.get k + m'.get k := by
  rw [get_addAll, sum_walk h]

/-- The counts are those under the keys. -/
theorem counts_eq (m : CountMap κ) : m.counts = m.keys.map m.get := by
  rw [counts, AList.keys, List.keys, List.map_map]
  refine List.map_congr_left fun e he => ?_
  show e.2 = (m.lookup e.1).getD 0
  rw [AList.mem_lookup_iff.2 he]
  rfl

/-- The sum over keys that hold all of the map. -/
theorem sum_counts_eq {m : CountMap κ} {l : List κ} (hl : l.Nodup) (h : ∀ k ∈ m, k ∈ l) :
    m.counts.sum = (l.map m.get).sum := by
  rw [counts_eq, ← List.sum_toFinset _ m.keys_nodup, ← List.sum_toFinset _ hl]
  refine Finset.sum_subset ?_ ?_
  · intro k hk
    exact List.mem_toFinset.2 (h k (List.mem_toFinset.1 hk))
  · intro k _ hk
    exact get_of_not_mem fun hm => hk (List.mem_toFinset.2 hm)

/-! ## The largest count -/

/-- `p` is the largest of the counts `f` and `g`, or 0 if there are none. -/
def IsPeak (f g : κ → Nat) (p : Nat) : Prop :=
  (∀ k, f k ≤ p ∧ g k ≤ p) ∧ (p = 0 ∨ ∃ k, f k = p ∨ g k = p)

omit [DecidableEq κ] in
theorem IsPeak.unique {f g : κ → Nat} {p q : Nat} (hp : IsPeak f g p) (hq : IsPeak f g q) :
    p = q := by
  have hle : ∀ {p q : Nat}, IsPeak f g p → IsPeak f g q → p ≤ q := by
    rintro p q ⟨-, h0 | ⟨k, h | h⟩⟩ ⟨hb, -⟩
    · omega
    · exact h ▸ (hb k).1
    · exact h ▸ (hb k).2
  exact Nat.le_antisymm (hle hp hq) (hle hq hp)

/-- `if (item.second > load) load = item.second` -/
def raise (load n : Nat) : Nat := if n > load then n else load

theorem raise_eq_max : raise = max := by
  funext load n
  exact BestSoFar.ite_gt_eq_max load n

theorem mem_counts {m : CountMap κ} {n : Nat} : n ∈ m.counts ↔ ∃ k ∈ m, m.get k = n := by
  rw [counts_eq, List.mem_map]
  rfl

omit [DecidableEq κ] in
/-- A walk through the values of `f` and then through those of `g`. -/
theorem isPeak_raise {f g : κ → Nat} {l l' : List Nat} (hl : ∀ n ∈ l, ∃ k, f k = n)
    (hf : ∀ k, f k = 0 ∨ f k ∈ l) (hl' : ∀ n ∈ l', ∃ k, g k = n) (hg : ∀ k, g k = 0 ∨ g k ∈ l') :
    IsPeak f g (l'.foldl raise (l.foldl raise 0)) := by
  rw [raise_eq_max]
  obtain ⟨-, h1, h2⟩ := BestSoFar.foldl_max l 0
  obtain ⟨h3, h4, h5⟩ := BestSoFar.foldl_max l' (l.foldl max 0)
  refine ⟨fun k => ⟨?_, ?_⟩, ?_⟩
  · rcases hf k with h | h
    · omega
    · exact (h1 _ h).trans h3
  · rcases hg k with h | h
    · omega
    · exact h4 _ h
  · rcases h5 with h5 | h5
    · rw [h5]
      refine h2.imp_right fun h => ?_
      obtain ⟨k, hk⟩ := hl _ h
      exact ⟨k, Or.inl hk⟩
    · obtain ⟨k, hk⟩ := hl' _ h5
      exact Or.inr ⟨k, Or.inr hk⟩

/-- **A walk through one map and then another ends at the peak.** -/
theorem isPeak_foldl_raise {m m' : CountMap κ} {l l' : List Nat} (hl : l.Perm m.counts)
    (hl' : l'.Perm m'.counts) : IsPeak m.get m'.get (l'.foldl raise (l.foldl raise 0)) := by
  have hval : ∀ {m : CountMap κ} {l : List Nat}, l.Perm m.counts →
      (∀ n ∈ l, ∃ k, m.get k = n) ∧ ∀ k, m.get k = 0 ∨ m.get k ∈ l := by
    intro m l h
    refine ⟨fun n hn => ?_, fun k => ?_⟩
    · obtain ⟨k, -, hk⟩ := mem_counts.1 (h.mem_iff.1 hn)
      exact ⟨k, hk⟩
    · by_cases hk : k ∈ m
      · exact Or.inr (h.mem_iff.2 (mem_counts.2 ⟨k, hk, rfl⟩))
      · exact Or.inl (get_of_not_mem hk)
  exact isPeak_raise (hval hl).1 (hval hl).2 (hval hl').1 (hval hl').2

end

end CountMap

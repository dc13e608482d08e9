import Mathlib.Data.List.AList
import Mathlib.Data.List.Induction
import Mathlib.Data.List.Dedup
import Mathlib.Data.List.Perm.Basic

/-!
# Maps filled by `push_back`

Many loops fill a map from keys to lists: `m[k].push_back(a)` for each element `a`
and each key `k` it has, and then walk through the map.  The order of that walk is
not specified (`HashOrder`), only the list under a key is.

* `get_collect`: the list under a key.
* `filter_order_entries`: each key is met once on the walk, with its list.
-/

/-- The order in which the walk `s` through an unordered map meets its entries. -/
structure HashOrder (σ : Type) where
  order : {ε : Type} → σ → List ε → List ε
  perm : ∀ {ε : Type} (s : σ) (l : List ε), (order s l).Perm l

/-- The order of insertion, or its reverse. -/
def HashOrder.insertion (σ : Type) : HashOrder σ := ⟨fun _ l => l, fun _ l => List.Perm.refl l⟩

@[simp] theorem HashOrder.mem_order {σ ε : Type} (h : HashOrder σ) (s : σ) (l : List ε) (e : ε) :
    e ∈ h.order s l ↔ e ∈ l := (h.perm s l).mem_iff

abbrev PushMap (κ α : Type) := AList fun _ : κ => List α

namespace PushMap

theorem nodup_entries {κ α : Type} (m : PushMap κ α) : m.entries.Nodup :=
  List.Nodup.of_map _ m.keys_nodup

section
variable {κ α : Type} [DecidableEq κ]

/-- `m[k]`, the empty list when the key is not there. -/
def get (m : PushMap κ α) (k : κ) : List α := (m.lookup k).getD []

/-- `m[k].push_back(a)` -/
def pushBack (m : PushMap κ α) (k : κ) (a : α) : PushMap κ α := m.insert k (m.get k ++ [a])

/-- Push each element back under each of its keys. -/
def collect (keysOf : α → List κ) (l : List α) : PushMap κ α :=
  l.foldl (fun m a => (keysOf a).foldl (fun m k => m.pushBack k a) m) ∅

theorem get_empty (k : κ) : get (∅ : PushMap κ α) k = [] := by
  rw [get, AList.lookup_empty]
  rfl

theorem get_pushBack (m : PushMap κ α) (k k' : κ) (a : α) :
    (m.pushBack k a).get k' = if k' = k then m.get k ++ [a] else m.get k' := by
  unfold pushBack
  split
  · next h =>
    subst h
    rw [get, AList.lookup_insert]
    rfl
  · next h => rw [get, AList.lookup_insert_ne h, get]

theorem mem_pushBack (m : PushMap κ α) (k k' : κ) (a : α) :
    k' ∈ m.pushBack k a ↔ k' = k ∨ k' ∈ m := AList.mem_insert m

theorem get_foldl_pushBack (m : PushMap κ α) (ks : List κ) (a : α) (k : κ) (hks : ks.Nodup) :
    (ks.foldl (fun m k => m.pushBack k a) m).get k =
      m.get k ++ (if k ∈ ks then [a] else []) := by
  induction ks generalizing m with
  | nil => simp
  | cons b ks ih =>
    obtain ⟨hb, hks⟩ := List.nodup_cons.1 hks
    rw [List.foldl_cons, ih _ hks, get_pushBack]
    by_cases hkb : k = b
    · subst hkb
      simp [hb]
    · simp [hkb]

theorem mem_foldl_pushBack (m : PushMap κ α) (ks : List κ) (a : α) (k : κ) :
    k ∈ ks.foldl (fun m k => m.pushBack k a) m ↔ k ∈ m ∨ k ∈ ks := by
  induction ks generalizing m with
  | nil => simp
  | cons b ks ih =>
    rw [List.foldl_cons, ih, mem_pushBack, List.mem_cons]
    constructor
    · rintro ((h | h) | h)
      · exact Or.inr (Or.inl h)
      · exact Or.inl h
      · exact Or.inr (Or.inr h)
    · rintro (h | h | h)
      · exact Or.inl (Or.inr h)
      · exact Or.inl (Or.inl h)
      · exact Or.inr h

theorem collect_concat (keysOf : α → List κ) (l : List α) (a : α) :
    collect keysOf (l ++ [a]) =
      (keysOf a).foldl (fun m k => m.pushBack k a) (collect keysOf l) := by
  simp [collect, List.foldl_append]

/-- **The list under a key**: the elements with that key, in order. -/
theorem get_collect {keysOf : α → List κ} {l : List α} (hk : ∀ a ∈ l, (keysOf a).Nodup) (k : κ) :
    (collect keysOf l).get k = l.filter fun a => k ∈ keysOf a := by
  induction l using List.reverseRecOn with
  | nil => exact get_empty k
  | append_singleton l a ih =>
    rw [collect_concat, get_foldl_pushBack _ _ _ _ (hk a (by simp)),
      ih fun b hb => hk b (List.mem_append_left _ hb), List.filter_append]
    by_cases h : k ∈ keysOf a <;> simp [h]

theorem mem_collect {keysOf : α → List κ} {l : List α} {k : κ} :
    k ∈ collect keysOf l ↔ ∃ a ∈ l, k ∈ keysOf a := by
  induction l using List.reverseRecOn with
  | nil => simp [collect, AList.notMem_empty]
  | append_singleton l a ih =>
    rw [collect_concat, mem_foldl_pushBack, ih]
    simp only [List.mem_append, List.mem_singleton, or_and_right, exists_or, exists_eq_left]

theorem mem_entries (m : PushMap κ α) (e : Σ _ : κ, List α) :
    e ∈ m.entries ↔ e.1 ∈ m ∧ e.2 = m.get e.1 := by
  obtain ⟨k, l⟩ := e
  rw [← AList.mem_lookup_iff, get]
  constructor
  · intro h
    refine ⟨AList.lookup_isSome.1 (Option.isSome_iff_exists.2 ⟨l, h⟩), ?_⟩
    show l = (m.lookup k).getD []
    rw [show m.lookup k = some l from h]
    rfl
  · rintro ⟨hk, he⟩
    obtain ⟨l', hl'⟩ := Option.isSome_iff_exists.1 (AList.lookup_isSome.2 hk)
    rw [show (⟨k, l⟩ : Σ _ : κ, List α).1 = k from rfl, hl'] at he
    show m.lookup k = some l
    rw [hl', show l = l' from he]

/-- **A walk through a map meets each key once**, with its list. -/
theorem filter_order_entries {σ : Type} (h : HashOrder σ) (s : σ) (m : PushMap κ α) (k : κ) :
    ((h.order s m.entries).filter fun e => e.1 = k) = if k ∈ m then [⟨k, m.get k⟩] else [] := by
  have hnd : ((h.order s m.entries).filter fun e => e.1 = k).Nodup :=
    ((h.perm s m.entries).nodup_iff.2 m.nodup_entries).filter _
  have hmem : ∀ e, e ∈ ((h.order s m.entries).filter fun e => e.1 = k) ↔
      k ∈ m ∧ e = ⟨k, m.get k⟩ := by
    rintro ⟨k', l⟩
    rw [List.mem_filter, HashOrder.mem_order, mem_entries, decide_eq_true_iff]
    constructor
    · rintro ⟨⟨h1, h2⟩, h3⟩
      obtain rfl : k' = k := h3
      exact ⟨h1, by rw [show l = m.get k' from h2]⟩
    · rintro ⟨h1, h2⟩
      cases h2
      exact ⟨⟨h1, rfl⟩, rfl⟩
  split
  · next hk =>
    have hp : ((h.order s m.entries).filter fun e => e.1 = k).Perm [⟨k, m.get k⟩] := by
      refine (List.perm_ext_iff_of_nodup hnd (List.nodup_singleton _)).2 fun e => ?_
      rw [hmem e, List.mem_singleton]
      exact and_iff_right hk
    exact List.perm_singleton.1 hp
  · next hk => exact List.eq_nil_iff_forall_not_mem.2 fun e he => hk ((hmem e).1 he).1

/-- With one key each, the entries of the map split the list into parts. -/
theorem flatMap_entries_perm {key : α → κ} {l : List α} (hl : l.Nodup) :
    ((collect (fun a => [key a]) l).entries.flatMap Sigma.snd).Perm l := by
  have hget : ∀ k, (collect (fun a => [key a]) l).get k = l.filter fun a => k ∈ [key a] :=
    get_collect fun a _ => List.nodup_singleton _
  have hentry : ∀ e ∈ (collect (fun a => [key a]) l).entries, ∀ a,
      a ∈ e.2 ↔ a ∈ l ∧ e.1 = key a := by
    intro e he a
    rw [((mem_entries _ e).1 he).2, hget, List.mem_filter, decide_eq_true_iff, List.mem_singleton]
  refine (List.perm_ext_iff_of_nodup ?_ hl).2 fun a => ?_
  · refine List.nodup_flatMap.2 ⟨fun e he => ?_, ?_⟩
    · rw [((mem_entries _ e).1 he).2, hget]
      exact hl.filter _
    · refine (nodup_entries _).pairwise_of_forall_ne fun e he e' he' hne a ha ha' => hne ?_
      have hk : e.1 = e'.1 := ((hentry e he a).1 ha).2.trans ((hentry e' he' a).1 ha').2.symm
      obtain ⟨k, v⟩ := e
      obtain ⟨k', v'⟩ := e'
      obtain rfl : k = k' := hk
      rw [show v = _ from ((mem_entries _ _).1 he).2, show v' = _ from ((mem_entries _ _).1 he').2]
  · rw [List.mem_flatMap]
    constructor
    · rintro ⟨e, he, ha⟩
      exact ((hentry e he a).1 ha).1
    · intro ha
      have he : (⟨key a, (collect (fun a => [key a]) l).get (key a)⟩ : Σ _ : κ, List α) ∈
          (collect (fun a => [key a]) l).entries :=
        (mem_entries _ _).2 ⟨mem_collect.2 ⟨a, ha, List.mem_singleton_self _⟩, rfl⟩
      exact ⟨_, he, (hentry _ he a).2 ⟨ha, rfl⟩⟩

end

/-! ## Pushing a list of pairs -/

section
variable {κ α : Type} [DecidableEq κ]

/-- `m[k].push_back(a)` for each pair. -/
def pushAll (m : PushMap κ α) (l : List (κ × α)) : PushMap κ α :=
  l.foldl (fun m e => m.pushBack e.1 e.2) m

theorem get_pushAll (m : PushMap κ α) (l : List (κ × α)) (k : κ) :
    (m.pushAll l).get k = m.get k ++ (l.filter fun e => e.1 = k).map Prod.snd := by
  induction l generalizing m with
  | nil => simp [pushAll]
  | cons e l ih =>
    rw [pushAll, List.foldl_cons]
    show ((m.pushBack e.1 e.2).pushAll l).get k = _
    rw [ih, get_pushBack, List.filter_cons]
    by_cases hk : k = e.1
    · subst hk
      simp
    · simp [hk, Ne.symm hk]

/-- No key is there without an element. -/
theorem get_pushAll_ne_nil {m : PushMap κ α} (h : ∀ k ∈ m, m.get k ≠ []) (l : List (κ × α)) :
    ∀ k ∈ m.pushAll l, (m.pushAll l).get k ≠ [] := by
  induction l generalizing m with
  | nil => exact h
  | cons e l ih =>
    refine ih (m := m.pushBack e.1 e.2) fun k hk => ?_
    rw [get_pushBack]
    split
    · exact List.append_ne_nil_of_right_ne_nil _ (List.cons_ne_nil _ _)
    · next hne => exact h k (((mem_pushBack m e.1 k e.2).1 hk).resolve_left hne)

end

end PushMap

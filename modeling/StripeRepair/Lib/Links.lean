import Mathlib.Data.List.Basic
import Mathlib.Logic.Function.Basic

/-!
# Doubly linked lists

Two partial maps tell of each node the next and the previous one. They link a list of nodes when
consecutive nodes name each other.

* `Links.splice`: replacing the nodes between two nodes.
* `Path`: what a walk along the next nodes meets.
* `Chain.insert`, `Chain.remove`: the maps that hold the links of a list and nothing else.
-/

namespace Linked

section
variable {κ : Type} (next prev : κ → Option κ)

/-- Consecutive nodes name each other. -/
def Links : List κ → Prop
  | a :: b :: l => next a = some b ∧ prev b = some a ∧ Links (b :: l)
  | _ => True

/-- The nodes met behind `a`. -/
def Path : κ → List κ → Prop
  | _, [] => True
  | a, b :: l => next a = some b ∧ Path b l

variable {next prev} {next' prev' : κ → Option κ}

/-- Two linked stretches that share a node. -/
theorem links_append (l : List κ) (x : κ) (l' : List κ) :
    Links next prev (l ++ x :: l') ↔
      Links next prev (l ++ [x]) ∧ Links next prev (x :: l') := by
  induction l with
  | nil => simp [Links]
  | cons a l ih =>
    cases l with
    | nil => simp [Links, and_assoc]
    | cons b l =>
      simp only [List.cons_append, Links] at ih ⊢
      rw [ih]
      tauto

theorem Links.of_append {l l' : List κ} (h : Links next prev (l ++ l')) :
    Links next prev l' := by
  cases l' with
  | nil => trivial
  | cons x l' => exact ((links_append l x l').1 h).2

/-- Two neighbours. -/
theorem Links.adjacent {l l' : List κ} {x y : κ} (h : Links next prev (l ++ x :: y :: l')) :
    next x = some y ∧ prev y = some x := by
  obtain ⟨h1, h2, -⟩ := ((links_append l x (y :: l')).1 h).2
  exact ⟨h1, h2⟩

theorem Links.path {x : κ} {l : List κ} (h : Links next prev (x :: l)) : Path next x l := by
  induction l generalizing x with
  | nil => trivial
  | cons y l ih => exact ⟨h.1, ih h.2.2⟩

/-- The links before the last node. -/
theorem Links.congr_left {l : List κ} {x : κ} (h : Links next prev (l ++ [x]))
    (hn : ∀ a ∈ l, next' a = next a) (hp : ∀ a ∈ l ++ [x], prev' a = prev a) :
    Links next' prev' (l ++ [x]) := by
  induction l with
  | nil => trivial
  | cons a l ih =>
    cases l with
    | nil =>
      refine ⟨?_, ?_, trivial⟩
      · rw [hn a (List.mem_cons_self ..)]
        exact h.1
      · rw [hp x (by simp)]
        exact h.2.1
    | cons b l =>
      refine ⟨?_, ?_, ih h.2.2 ?_ ?_⟩
      · rw [hn a (List.mem_cons_self ..)]
        exact h.1
      · rw [hp b (by simp)]
        exact h.2.1
      · exact fun c hc => hn c (List.mem_cons_of_mem _ hc)
      · exact fun c hc => hp c (List.mem_cons_of_mem _ hc)

/-- The links behind the first node. -/
theorem Links.congr_right {l : List κ} {x : κ} (h : Links next prev (x :: l))
    (hn : ∀ a ∈ x :: l, next' a = next a) (hp : ∀ a ∈ l, prev' a = prev a) :
    Links next' prev' (x :: l) := by
  induction l generalizing x with
  | nil => trivial
  | cons b l ih =>
    refine ⟨?_, ?_, ih h.2.2 ?_ ?_⟩
    · rw [hn x (List.mem_cons_self ..)]
      exact h.1
    · rw [hp b (List.mem_cons_self ..)]
      exact h.2.1
    · exact fun c hc => hn c (List.mem_cons_of_mem _ hc)
    · exact fun c hc => hp c (List.mem_cons_of_mem _ hc)

/-- **New nodes between two nodes**: the links of the other nodes stay as they are. -/
theorem Links.splice {pre mid m post : List κ} {x y : κ}
    (h : Links next prev (pre ++ x :: (mid ++ y :: post)))
    (hmid : Links next' prev' (x :: (m ++ [y])))
    (hn : ∀ a ∈ pre ++ y :: post, next' a = next a)
    (hp : ∀ a ∈ pre ++ x :: post, prev' a = prev a) :
    Links next' prev' (pre ++ x :: (m ++ y :: post)) := by
  obtain ⟨hl, hr⟩ := (links_append pre x (mid ++ y :: post)).1 h
  have hy := ((links_append (x :: mid) y post).1 hr).2
  refine (links_append pre x _).2 ⟨hl.congr_left ?_ ?_, ?_⟩
  · exact fun a ha => hn a (List.mem_append_left _ ha)
  · intro a ha
    refine hp a ?_
    simp only [List.mem_append, List.mem_cons, List.not_mem_nil, or_false] at ha ⊢
    tauto
  · refine (links_append (x :: m) y post).2 ⟨hmid, hy.congr_right ?_ ?_⟩
    · exact fun a ha => hn a (List.mem_append_right _ ha)
    · exact fun a ha => hp a (List.mem_append_right _ (List.mem_cons_of_mem _ ha))

theorem Path.congr {x : κ} {l : List κ} (h : Path next x l) (hn : ∀ a ∈ x :: l, next' a = next a) :
    Path next' x l := by
  induction l generalizing x with
  | nil => trivial
  | cons b l ih =>
    refine ⟨?_, ih h.2 fun a ha => hn a (List.mem_cons_of_mem _ ha)⟩
    rw [hn x (List.mem_cons_self ..)]
    exact h.1

theorem Path.left {x : κ} {l r : List κ} (h : Path next x (l ++ r)) : Path next x l := by
  induction l generalizing x with
  | nil => trivial
  | cons b l ih => exact ⟨h.1, ih h.2⟩

theorem Path.append {x : κ} {l l' : List κ} (h : Path next x (l ++ l')) :
    Path next ((x :: l).getLast (List.cons_ne_nil x l)) l' := by
  induction l generalizing x with
  | nil => exact h
  | cons b l ih => exact ih h.2

section
variable (pre mid : List κ) {post : List κ} {x y s : κ}
  (h : Links next prev (pre ++ x :: (mid ++ y :: post)))
  (hd : (pre ++ x :: (mid ++ y :: post)).Nodup)
include h hd

/-- **A node in the place of the nodes between two nodes.** -/
theorem Links.insert (hs : s ∉ pre ++ x :: (mid ++ y :: post))
    (hxs : next' x = some s) (hsy : next' s = some y) (hsx : prev' s = some x)
    (hys : prev' y = some s) (hn : ∀ a, a ≠ x → a ≠ s → next' a = next a)
    (hp : ∀ a, a ≠ s → a ≠ y → a ∉ mid → prev' a = prev a) :
    Links next' prev' (pre ++ x :: s :: y :: post) := by
  refine h.splice (m := [s]) ⟨hxs, hsx, hsy, hys, trivial⟩ (fun a ha => hn a ?_ ?_)
    (fun a ha => hp a ?_ ?_ ?_)
  all_goals
    simp only [List.nodup_append, List.nodup_cons, List.mem_append, List.mem_cons] at hd hs ha
    grind

/-- **Removing the nodes between two nodes.** -/
theorem Links.remove (hxy : next' x = some y) (hyx : prev' y = some x)
    (hn : ∀ a, a ≠ x → a ∉ mid → next' a = next a)
    (hp : ∀ a, a ≠ y → a ∉ mid → prev' a = prev a) :
    Links next' prev' (pre ++ x :: y :: post) := by
  refine h.splice (m := []) ⟨hxy, hyx, trivial⟩ (fun a ha => hn a ?_ ?_) (fun a ha => hp a ?_ ?_)
  all_goals
    simp only [List.nodup_append, List.nodup_cons, List.mem_append, List.mem_cons] at hd ha
    grind

end

end

/-! ## Maps that hold a list and nothing else -/

section
variable {κ : Type} [DecidableEq κ] (head tail : κ)

/-- The links of a list between two ends. -/
structure Chain (next prev : κ → Option κ) (l : List κ) : Prop where
  links : Links next prev (head :: (l ++ [tail]))
  nodup : (head :: (l ++ [tail])).Nodup
  next_none : ∀ k, k ∉ head :: l → next k = none
  prev_none : ∀ k, k ∉ l ++ [tail] → prev k = none

variable {head tail} {next prev : κ → Option κ} {pre post P Q : List κ} {x y s : κ}

omit [DecidableEq κ] in
/-- The links behind a node. -/
theorem Chain.links_right (h : Chain head tail next prev (pre ++ x :: post)) :
    Links next prev (x :: (post ++ [tail])) := by
  have hlinks := h.links
  rw [List.append_assoc, List.cons_append, ← List.cons_append] at hlinks
  exact hlinks.of_append

omit [DecidableEq κ] in
/-- A node of the list has a previous one. -/
theorem Chain.prev_eq (h : Chain head tail next prev (pre ++ x :: post)) :
    prev x = some ((head :: pre).getLast (List.cons_ne_nil head pre)) := by
  have hlinks := h.links
  rw [List.append_assoc, List.cons_append, ← List.cons_append,
    ← List.dropLast_append_getLast (List.cons_ne_nil head pre), List.append_assoc] at hlinks
  exact hlinks.adjacent.2

variable (hx : head :: pre = P ++ [x]) (hy : post ++ [tail] = y :: Q)
include hx hy

open Function (update)

/-- **A new node** between two neighbours. -/
theorem Chain.insert (h : Chain head tail next prev (pre ++ post))
    (hs : s ∉ head :: (pre ++ post ++ [tail])) :
    Chain head tail (update (update next x (some s)) s (some y))
      (update (update prev s (some x)) y (some s)) (pre ++ s :: post) := by
  have hold : head :: (pre ++ post ++ [tail]) = P ++ x :: ([] ++ y :: Q) := by
    rw [List.append_assoc, hy, ← List.cons_append, hx, List.append_assoc]
    rfl
  have hnew : head :: (pre ++ s :: post ++ [tail]) = P ++ x :: s :: y :: Q := by
    rw [List.append_assoc, List.cons_append, hy, ← List.cons_append, hx, List.append_assoc]
    rfl
  have hlinks := h.links
  have hd := h.nodup
  have hxmem : x ∈ head :: pre := by simp [hx]
  have hymem : y ∈ post ++ [tail] := by simp [hy]
  have hxy : x ≠ s ∧ s ≠ y := by
    simp only [List.mem_append, List.mem_cons] at hs hxmem hymem
    grind
  refine ⟨?_, ?_, fun k hk => ?_, fun k hk => ?_⟩
  · rw [hold] at hlinks hd hs
    rw [hnew]
    refine Links.insert P [] hlinks hd hs ?_ ?_ ?_ ?_ ?_ ?_
    · rw [Function.update_of_ne hxy.1, Function.update_self]
    · rw [Function.update_self]
    · rw [Function.update_of_ne hxy.2, Function.update_self]
    · rw [Function.update_self]
    · exact fun a hax has => by rw [Function.update_of_ne has, Function.update_of_ne hax]
    · exact fun a has hay _ => by rw [Function.update_of_ne hay, Function.update_of_ne has]
  · simp only [List.nodup_append, List.nodup_cons, List.mem_append, List.mem_cons] at hd hs ⊢
    grind
  · simp only [List.mem_append, List.mem_cons] at hk hxmem
    rw [Function.update_of_ne (by grind), Function.update_of_ne (by grind)]
    refine h.next_none k ?_
    simp only [List.mem_append, List.mem_cons]
    tauto
  · simp only [List.mem_append, List.mem_cons] at hk hymem
    rw [Function.update_of_ne (by grind), Function.update_of_ne (by grind)]
    refine h.prev_none k ?_
    simp only [List.mem_append, List.mem_cons]
    tauto

/-- **Removing the node** between two neighbours. -/
theorem Chain.remove (h : Chain head tail next prev (pre ++ s :: post)) :
    Chain head tail (update (update next x (some y)) s none)
      (update (update prev y (some x)) s none) (pre ++ post) := by
  have hold : head :: (pre ++ s :: post ++ [tail]) = P ++ x :: ([s] ++ y :: Q) := by
    rw [List.append_assoc, List.cons_append, hy, ← List.cons_append, hx, List.append_assoc]
    rfl
  have hnew : head :: (pre ++ post ++ [tail]) = P ++ x :: y :: Q := by
    rw [List.append_assoc, hy, ← List.cons_append, hx, List.append_assoc]
    rfl
  have hlinks := h.links
  have hd := h.nodup
  have hxmem : x ∈ head :: pre := by simp [hx]
  have hymem : y ∈ post ++ [tail] := by simp [hy]
  have hxy : x ≠ s ∧ y ≠ s := by
    simp only [List.nodup_append, List.nodup_cons, List.mem_append, List.mem_cons] at hd hxmem hymem
    grind
  refine ⟨?_, ?_, fun k hk => ?_, fun k hk => ?_⟩
  · rw [hold] at hlinks hd
    rw [hnew]
    refine Links.remove P [s] hlinks hd ?_ ?_ ?_ ?_
    · rw [Function.update_of_ne hxy.1, Function.update_self]
    · rw [Function.update_of_ne hxy.2, Function.update_self]
    · intro a hax has
      rw [Function.update_of_ne (by simpa using has), Function.update_of_ne hax]
    · intro a hay has
      rw [Function.update_of_ne (by simpa using has), Function.update_of_ne hay]
  · simp only [List.nodup_append, List.nodup_cons, List.mem_append, List.mem_cons] at hd ⊢
    grind
  · by_cases hks : k = s
    · rw [hks, Function.update_self]
    · simp only [List.mem_append, List.mem_cons] at hk hxmem
      rw [Function.update_of_ne hks, Function.update_of_ne (by grind)]
      refine h.next_none k ?_
      simp only [List.mem_append, List.mem_cons]
      tauto
  · by_cases hks : k = s
    · rw [hks, Function.update_self]
    · simp only [List.mem_append, List.mem_cons] at hk hymem
      rw [Function.update_of_ne hks, Function.update_of_ne (by grind)]
      refine h.prev_none k ?_
      simp only [List.mem_append, List.mem_cons]
      tauto

end

end Linked

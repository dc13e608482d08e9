import Mathlib.Algebra.Module.Defs
import Mathlib.Algebra.BigOperators.Group.List.Basic
import Mathlib.Algebra.Module.BigOperators

/-!
# Straight-line linear programs

A program is a list of assignments `dst := Σ c • src` over a module; `run` performs
them in order from an environment that holds the inputs.

* `InOrder S prog`: every source is an input in `S` or was assigned before.
* `run_eq_of_consistent`: when a valuation `T` agrees with the inputs and satisfies
  every assignment as an equation, an ordered program computes `T`.
-/

namespace LinearProgram

section
variable {ι V : Type} {dst : ι → V} {srcs : ι → List V}

/-- Each source is in `S` or the target of an earlier item. -/
def Ordered (dst : ι → V) (srcs : ι → List V) (S : V → Prop) : List ι → Prop
  | [] => True
  | i :: is => (∀ a ∈ srcs i, S a) ∧ Ordered dst srcs (fun v => S v ∨ v = dst i) is

theorem Ordered.mono {S S' : V → Prop} {prog : List ι} (hS : ∀ v, S v → S' v)
    (h : Ordered dst srcs S prog) : Ordered dst srcs S' prog := by
  induction prog generalizing S S' with
  | nil => trivial
  | cons i is ih =>
    refine ⟨fun a ha => hS _ (h.1 a ha), ih ?_ h.2⟩
    rintro v (hv | hv)
    · exact Or.inl (hS v hv)
    · exact Or.inr hv

theorem ordered_of_forall {S : V → Prop} {prog : List ι}
    (h : ∀ i ∈ prog, ∀ a ∈ srcs i, S a) : Ordered dst srcs S prog := by
  induction prog generalizing S with
  | nil => trivial
  | cons i is ih =>
    refine ⟨h i (List.mem_cons_self ..), ih fun j hj a ha => Or.inl ?_⟩
    exact h j (List.mem_cons_of_mem _ hj) a ha

theorem ordered_append {S : V → Prop} {is js : List ι} :
    Ordered dst srcs S (is ++ js) ↔
      Ordered dst srcs S is ∧ Ordered dst srcs (fun v => S v ∨ v ∈ is.map dst) js := by
  induction is generalizing S with
  | nil => simp [Ordered]
  | cons i is ih =>
    simp only [List.cons_append, Ordered, ih, List.map_cons, List.mem_cons, and_assoc, or_assoc]

/-- Concatenation, when the second part may read what `S'` describes. -/
theorem ordered_append_of {S S' : V → Prop} {is js : List ι} (h1 : Ordered dst srcs S is)
    (hS : ∀ v, S' v → S v ∨ v ∈ is.map dst) (h2 : Ordered dst srcs S' js) :
    Ordered dst srcs S (is ++ js) :=
  ordered_append.2 ⟨h1, h2.mono hS⟩

/-- Blocks of which each reads what the blocks before it assign. -/
theorem ordered_flatMap_of {κ : Type} {S : V → Prop} {l : List κ} {f : κ → List ι}
    (h : ∀ l₁ a l₂, l = l₁ ++ a :: l₂ →
      Ordered dst srcs (fun v => S v ∨ ∃ b ∈ l₁, v ∈ (f b).map dst) (f a)) :
    Ordered dst srcs S (l.flatMap f) := by
  induction l generalizing S with
  | nil => trivial
  | cons a l ih =>
    rw [List.flatMap_cons]
    refine ordered_append.2 ⟨(h [] a l rfl).mono fun v hv => ?_, ih fun l₁ b l₂ hl => ?_⟩
    · exact hv.elim id fun ⟨b, hb, _⟩ => absurd hb List.not_mem_nil
    · refine (h (a :: l₁) b l₂ (by rw [hl, List.cons_append])).mono fun v hv => ?_
      rcases hv with hv | ⟨b', hb', hv⟩
      · exact Or.inl (Or.inl hv)
      · rcases List.mem_cons.1 hb' with rfl | hb'
        · exact Or.inl (Or.inr hv)
        · exact Or.inr ⟨b', hb', hv⟩

/-- Blocks that are each in order on their own. -/
theorem ordered_flatMap {κ : Type} {S : V → Prop} {l : List κ} {f : κ → List ι}
    (h : ∀ a ∈ l, Ordered dst srcs S (f a)) : Ordered dst srcs S (l.flatMap f) := by
  induction l with
  | nil => trivial
  | cons a l ih =>
    rw [List.flatMap_cons]
    refine ordered_append_of (h a (List.mem_cons_self ..)) (fun v hv => Or.inl hv) ?_
    exact ih fun b hb => h b (List.mem_cons_of_mem _ hb)

end

structure Instr (R V : Type) where
  dst : V
  args : List (R × V)
  deriving DecidableEq, Repr

section
variable {R V : Type}

def Instr.srcs (i : Instr R V) : List V := i.args.map Prod.snd

/-- The vertices a program assigns. -/
def targets (prog : List (Instr R V)) : List V := prog.map Instr.dst

/-- No vertex is read before it is assigned, apart from those in `S`. -/
def InOrder (S : V → Prop) (prog : List (Instr R V)) : Prop :=
  Ordered Instr.dst Instr.srcs S prog

@[simp] theorem targets_cons (i : Instr R V) (is : List (Instr R V)) :
    targets (i :: is) = i.dst :: targets is := rfl

@[simp] theorem targets_append (is js : List (Instr R V)) :
    targets (is ++ js) = targets is ++ targets js := List.map_append

end

section
variable {R V M : Type} [Semiring R] [AddCommMonoid M] [Module R M]

/-- The linear combination of the arguments. -/
def combine (args : List (R × V)) (env : V → M) : M :=
  (args.map fun a => a.1 • env a.2).sum

theorem combine_congr {args : List (R × V)} {env env' : V → M}
    (h : ∀ a ∈ args, env a.2 = env' a.2) : combine args env = combine args env' := by
  unfold combine
  congr 1
  exact List.map_congr_left fun a ha => by rw [h a ha]

/-- Coefficients and sources that come from one list. -/
theorem combine_zip_map {ι : Type} (l : List ι) (c : ι → R) (s : ι → V) (env : V → M) :
    combine ((l.map c).zip (l.map s)) env = (l.map fun i => c i • env (s i)).sum := by
  rw [List.zip_map', combine, List.map_map]
  rfl

variable [DecidableEq V]

/-- Perform the assignments in order. -/
def run (env : V → M) : List (Instr R V) → V → M
  | [] => env
  | i :: is => run (Function.update env i.dst (combine i.args env)) is

theorem run_append (env : V → M) (is js : List (Instr R V)) :
    run env (is ++ js) = run (run env is) js := by
  induction is generalizing env with
  | nil => rfl
  | cons i is ih => exact ih _

theorem run_of_not_mem {prog : List (Instr R V)} {v : V} (env : V → M)
    (h : v ∉ targets prog) : run env prog v = env v := by
  induction prog generalizing env with
  | nil => rfl
  | cons i is ih =>
    simp only [targets_cons, List.mem_cons, not_or] at h
    rw [run, ih _ h.2, Function.update_of_ne h.1]

/-- **Dead assignments**: what is left does not read the targets that are dropped. -/
theorem run_filter (dead : V → Prop) [DecidablePred dead] {prog : List (Instr R V)}
    (h : ∀ i ∈ prog, ¬ dead i.dst → ∀ a ∈ i.args, ¬ dead a.2) {env env' : V → M}
    (henv : ∀ v, ¬ dead v → env' v = env v) :
    ∀ v, ¬ dead v → run env' (prog.filter fun i => ¬ dead i.dst) v = run env prog v := by
  induction prog generalizing env env' with
  | nil => exact henv
  | cons i is ih =>
    have hi := h i (List.mem_cons_self ..)
    have his := @ih fun j hj => h j (List.mem_cons_of_mem _ hj)
    by_cases hd : dead i.dst
    · rw [List.filter_cons_of_neg (by simpa using hd)]
      refine his fun v hv => ?_
      rw [henv v hv, Function.update_of_ne]
      rintro rfl
      exact hv hd
    · rw [List.filter_cons_of_pos (by simpa using hd)]
      refine his fun v hv => ?_
      have hval : combine i.args env' = combine i.args env :=
        combine_congr fun a ha => henv _ (hi hd a ha)
      simp only [Function.update_apply, hval, henv v hv]

/-- What `T` says of the inputs and of each assignment, the run computes. -/
theorem run_eq_of_consistent {S : V → Prop} {T : V → M} {prog : List (Instr R V)} {env : V → M}
    (hord : InOrder S prog) (henv : ∀ v, S v → env v = T v)
    (hT : ∀ i ∈ prog, combine i.args T = T i.dst) :
    ∀ v, S v ∨ v ∈ targets prog → run env prog v = T v := by
  induction prog generalizing S env with
  | nil =>
    rintro v (hv | hv)
    · exact henv v hv
    · cases hv
  | cons i is ih =>
    obtain ⟨hargs, hord⟩ := hord
    have hval : combine i.args env = T i.dst := by
      rw [← hT i (List.mem_cons_self ..)]
      exact combine_congr fun a ha => henv _ (hargs _ (List.mem_map_of_mem ha))
    have henv' : ∀ v, S v ∨ v = i.dst →
        Function.update env i.dst (combine i.args env) v = T v := by
      intro v hv
      by_cases hvi : v = i.dst
      · rw [hvi, Function.update_self, hval]
      · rw [Function.update_of_ne hvi]
        exact henv v (hv.resolve_right hvi)
    intro v hv
    refine ih hord henv' (fun j hj => hT j (List.mem_cons_of_mem _ hj)) v ?_
    simpa only [targets_cons, List.mem_cons, or_assoc] using hv

/-- Where no vertex is assigned twice or read before its assignment, the result
satisfies every assignment as an equation. -/
theorem run_dst {prog : List (Instr R V)} (env : V → M) (hnodup : (targets prog).Nodup)
    (hord : InOrder (fun v => v ∉ targets prog) prog) :
    ∀ i ∈ prog, run env prog i.dst = combine i.args (run env prog) := by
  intro i hi
  obtain ⟨pre, post, rfl⟩ := List.append_of_mem hi
  rw [InOrder, ordered_append] at hord
  obtain ⟨-, hargs, -⟩ := hord
  simp only [targets_append, targets_cons] at hnodup hargs
  have hpost : i.dst ∉ targets post := by
    have := (List.nodup_append.1 hnodup).2.1
    exact (List.nodup_cons.1 this).1
  rw [run_append]
  show run _ post i.dst = combine i.args (run _ post)
  rw [run_of_not_mem _ hpost, Function.update_self]
  apply combine_congr
  intro a ha
  -- an argument is an input or an earlier target: nothing later changes it
  have hlater : a.2 ∉ i.dst :: targets post := by
    rcases hargs _ (List.mem_map_of_mem ha) with h | h
    · exact fun hm => h (List.mem_append_right _ hm)
    · exact fun hm => (List.nodup_append.1 hnodup).2.2 _ h _ hm rfl
  rw [run_of_not_mem _ fun hm => hlater (List.mem_cons_of_mem _ hm),
    Function.update_of_ne fun he => hlater (List.mem_cons.2 (Or.inl he))]

end

end LinearProgram

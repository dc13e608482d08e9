import Mathlib.Data.List.Basic

/-!
# Runs of a partial step function

A system is a step function `step : σ → α → Option σ`, where `none` means that
the action is not enabled in the state.  `run step s as` performs the actions
`as` in order, so the lists `as` with `run step s as = some s'` are the
interleavings that lead from `s` to `s'`.

* `run_inv`: what every step preserves holds in every state reached.
* `run_inv_of_meets`: the same when a step preserves it only under a condition
  `C` on the state it is taken from and every step of the run meets `C`.
* `run_prefix_inv`, `exists_run_of_meets`: an invariant that tells what has been
  done, and when a run gets to its end.
* `meets_congr`: two conditions that are the same under an invariant.
* `exists_not_of_not_meets`: a run that does not meet `C` has a first part that
  ends where the next step violates `C`.
-/

namespace Lts

section
variable {σ α : Type*} (step : σ → α → Option σ)

/-- Perform the actions in order; `none` when one of them is not enabled. -/
def run : σ → List α → Option σ
  | s, [] => some s
  | s, a :: as =>
    match step s a with
    | some s' => run s' as
    | none => none

/-- Every step of the run meets `C` in the state it is taken from. -/
def Meets (C : σ → α → Prop) : σ → List α → Prop
  | _, [] => True
  | s, a :: as =>
    C s a ∧
      match step s a with
      | some s' => Meets C s' as
      | none => True

instance decidableMeets (C : σ → α → Prop) [∀ s a, Decidable (C s a)] :
    ∀ (as : List α) (s : σ), Decidable (Meets step C s as)
  | [], _ => isTrue trivial
  | a :: as, s =>
    match h : step s a with
    | some s' =>
      have := decidableMeets C as s'
      decidable_of_iff (C s a ∧ Meets step C s' as) (by simp only [Meets, h])
    | none => decidable_of_iff (C s a) (by simp only [Meets, h, and_true])

/-- No action is enabled. -/
def Stuck (s : σ) : Prop := ∀ a, step s a = none

variable {step}

theorem run_cons {s s' : σ} {a : α} {as : List α} (h : run step s (a :: as) = some s') :
    ∃ s1, step s a = some s1 ∧ run step s1 as = some s' := by
  simp only [run] at h
  split at h
  · exact ⟨_, by assumption, h⟩
  · cases h

theorem run_append (s : σ) (as bs : List α) :
    run step s (as ++ bs) = (run step s as).bind fun s' => run step s' bs := by
  induction as generalizing s with
  | nil => rfl
  | cons a as ih =>
    simp only [List.cons_append, run]
    cases step s a with
    | none => rfl
    | some s1 => exact ih s1

/-- The run before an action, the action, and the run after it. -/
theorem run_append_cons (s : σ) (as : List α) (a : α) (bs : List α) :
    run step s (as ++ a :: bs) =
      ((run step s as).bind fun s' => step s' a).bind fun s' => run step s' bs := by
  rw [run_append, Option.bind_assoc]
  refine congrArg (run step s as).bind (funext fun s' => ?_)
  simp only [run]
  cases step s' a with
  | none => rfl
  | some s1 => rfl

theorem run_inv_of_meets {C : σ → α → Prop} {I : σ → Prop}
    (hstep : ∀ s a s', I s → C s a → step s a = some s' → I s') :
    ∀ {as : List α} {s s' : σ}, I s → Meets step C s as → run step s as = some s' → I s'
  | [], s, s', hI, _, h => by
    simp only [run, Option.some.injEq] at h
    exact h ▸ hI
  | a :: as, s, s', hI, hm, h => by
    obtain ⟨s1, h1, h2⟩ := run_cons h
    obtain ⟨hC, hm⟩ := hm
    rw [h1] at hm
    exact run_inv_of_meets hstep (hstep s a s1 hI hC h1) hm h2

theorem meets_append {C : σ → α → Prop} {s : σ} {as bs : List α} :
    Meets step C s (as ++ bs) ↔
      Meets step C s as ∧ ∀ s', run step s as = some s' → Meets step C s' bs := by
  induction as generalizing s with
  | nil => simp [Meets, run]
  | cons a as ih =>
    simp only [List.cons_append, Meets, run, and_assoc]
    cases step s a with
    | none => simp
    | some s1 => simp only [ih]

theorem meets_true (s : σ) (as : List α) : Meets step (fun _ _ => True) s as := by
  induction as generalizing s with
  | nil => trivial
  | cons a as ih =>
    refine ⟨trivial, ?_⟩
    cases step s a with
    | none => trivial
    | some s1 => exact ih s1

theorem run_inv {I : σ → Prop} (hstep : ∀ s a s', I s → step s a = some s' → I s')
    {as : List α} {s s' : σ} (hI : I s) (h : run step s as = some s') : I s' :=
  run_inv_of_meets (C := fun _ _ => True) (fun s a s' hI _ h => hstep s a s' hI h) hI
    (meets_true s as) h

/-- An action that is done once is not done before. -/
theorem not_mem_prefix {as pre post : List α} {a : α} (hnodup : as.Nodup)
    (hl : as = pre ++ a :: post) : a ∉ pre := by
  rw [hl, List.nodup_append] at hnodup
  intro hm
  exact hnodup.2.2 a hm a (List.mem_cons_self ..) rfl

/-- What a run preserves, `pre` being the actions that are done. -/
theorem run_prefix_inv {as : List α} (I : List α → σ → Prop)
    (hstep : ∀ pre a post s s', as = pre ++ a :: post → I pre s → step s a = some s' →
      I (pre ++ [a]) s') {s s' : σ} (hI : I [] s) (h : run step s as = some s') : I as s' := by
  have hall : ∀ rest pre s, as = pre ++ rest → I pre s → run step s rest = some s' → I as s' := by
    intro rest
    induction rest with
    | nil =>
      intro pre s hpre hI h
      simp only [run, Option.some.injEq] at h
      rw [List.append_nil] at hpre
      exact hpre ▸ h ▸ hI
    | cons a rest ih =>
      intro pre s hpre hI h
      obtain ⟨s1, h1, h2⟩ := run_cons h
      exact ih (pre ++ [a]) s1 (by rw [hpre]; simp) (hstep pre a rest s s1 hpre hI h1) h2
  exact hall as [] s rfl hI h

/-- What every step of a run meets, from an invariant of its states. -/
theorem meets_of_prefix_inv {C : σ → α → Prop} {as : List α} (I : List α → σ → Prop)
    (hstep : ∀ pre a post s s', as = pre ++ a :: post → I pre s → step s a = some s' →
      I (pre ++ [a]) s')
    (hC : ∀ pre a post s, as = pre ++ a :: post → I pre s → C s a) {s : σ} (hI : I [] s) :
    Meets step C s as := by
  have hall : ∀ rest pre s, as = pre ++ rest → I pre s → Meets step C s rest := by
    intro rest
    induction rest with
    | nil => exact fun _ _ _ _ => trivial
    | cons a rest ih =>
      intro pre s hpre hI
      refine ⟨hC pre a rest s hpre hI, ?_⟩
      cases h : step s a with
      | none => trivial
      | some s1 => exact ih (pre ++ [a]) s1 (by rw [hpre]; simp) (hstep pre a rest s s1 hpre hI h)
  exact hall as [] s rfl hI

/-- **A run gets to its end** when no step that meets `C` is stopped. -/
theorem exists_run_of_meets {C : σ → α → Prop} {as : List α} (I : List α → σ → Prop)
    (hstep : ∀ pre a post s, as = pre ++ a :: post → I pre s → C s a →
      ∃ s', step s a = some s' ∧ I (pre ++ [a]) s') {s : σ} (hI : I [] s)
    (hm : Meets step C s as) : ∃ s', run step s as = some s' ∧ I as s' := by
  have hall : ∀ rest pre s, as = pre ++ rest → I pre s → Meets step C s rest →
      ∃ s', run step s rest = some s' ∧ I as s' := by
    intro rest
    induction rest with
    | nil =>
      intro pre s hpre hI _
      rw [List.append_nil] at hpre
      exact ⟨s, rfl, hpre ▸ hI⟩
    | cons a rest ih =>
      rintro pre s hpre hI ⟨hC, hm⟩
      obtain ⟨s1, h1, hI1⟩ := hstep pre a rest s hpre hI hC
      rw [h1] at hm
      obtain ⟨s', h2, hI'⟩ := ih (pre ++ [a]) s1 (by rw [hpre]; simp) hI1 hm
      exact ⟨s', by simp only [run, h1, h2], hI'⟩
  exact hall as [] s rfl hI hm

/-- Under an invariant, what the steps of a run meet may be told in another way. -/
theorem meets_congr {C C' : σ → α → Prop} {I : σ → Prop} {as : List α}
    (hstep : ∀ s a s', I s → step s a = some s' → I s')
    (hC : ∀ a ∈ as, ∀ s, I s → (C s a ↔ C' s a)) {s : σ} (hI : I s) :
    Meets step C s as ↔ Meets step C' s as := by
  induction as generalizing s with
  | nil => exact Iff.rfl
  | cons a as ih =>
    refine and_congr (hC a List.mem_cons_self s hI) ?_
    cases h : step s a with
    | none => exact Iff.rfl
    | some s1 => exact ih (fun b hb => hC b (List.mem_cons_of_mem _ hb)) (hstep s a s1 hI h)

/-- A run that does not meet `C` reaches a state where its next step violates `C`. -/
theorem exists_not_of_not_meets {C : σ → α → Prop} {as : List α} {s s' : σ}
    (h : run step s as = some s') (hm : ¬ Meets step C s as) :
    ∃ pre a post s1, as = pre ++ a :: post ∧ run step s pre = some s1 ∧ ¬ C s1 a ∧
      run step s1 (a :: post) = some s' := by
  induction as generalizing s with
  | nil => exact absurd trivial hm
  | cons a as ih =>
    obtain ⟨s1, h1, h2⟩ := run_cons h
    by_cases hC : C s a
    · have hm1 : ¬ Meets step C s1 as := by
        intro hm1
        exact hm ⟨hC, by rw [h1]; exact hm1⟩
      obtain ⟨pre, b, post, s2, rfl, hpre, hb, hpost⟩ := ih h2 hm1
      exact ⟨a :: pre, b, post, s2, rfl, by simp only [run, h1, hpre], hb, hpost⟩
    · exact ⟨[], a, as, s, rfl, rfl, hC, h⟩

/-- When every step lowers `μ`, a run is no longer than `μ` at its start. -/
theorem length_le_of_decreasing {I : σ → Prop} {μ : σ → Nat}
    (hinv : ∀ s a s', I s → step s a = some s' → I s')
    (hμ : ∀ s a s', I s → step s a = some s' → μ s' < μ s) :
    ∀ {as : List α} {s s' : σ}, I s → run step s as = some s' → as.length + μ s' ≤ μ s
  | [], s, s', _, h => by
    simp only [run, Option.some.injEq] at h
    simp [h]
  | a :: as, s, s', hI, h => by
    obtain ⟨s1, h1, h2⟩ := run_cons h
    have hlt := hμ s a s1 hI h1
    have := length_le_of_decreasing hinv hμ (hinv s a s1 hI h1) h2
    simp only [List.length_cons]
    omega

end

end Lts

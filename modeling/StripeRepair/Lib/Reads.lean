import Mathlib.Data.List.Basic

/-!
# Programs that only read

A program that may write to a state, and in the state `s` does not: `Reads s x a` says that
`x` returns `a` and leaves `s` as it was.

* `Reads.bind`, `Reads.foldlM`: the rules for a sequence and for a loop.
* `Peeks`: a program that may write, but nothing that is looked at again.
* `Peeks.foldlM_eq`: a loop that peeks may start from the same state each time.
-/

section
variable {σ α β γ : Type}

def Reads (s : σ) (x : StateM σ α) (a : α) : Prop := x.run s = (a, s)

namespace Reads

variable {s : σ}

theorem pure (a : α) : Reads s (Pure.pure a) a := rfl

theorem get : Reads s MonadState.get s := rfl

theorem bind {x : StateM σ α} {f : α → StateM σ β} {a : α} {b : β} (hx : Reads s x a)
    (hf : Reads s (f a) b) : Reads s (x >>= f) b := by
  show (f (x.run s).1).run (x.run s).2 = (b, s)
  rw [show x.run s = (a, s) from hx]
  exact hf

/-- A loop: the body reads, and `g` is what it computes. -/
theorem foldlM {f : β → γ → StateM σ β} {g : β → γ → β} {l : List γ}
    (h : ∀ c ∈ l, ∀ b, Reads s (f b c) (g b c)) (b : β) : Reads s (l.foldlM f b) (l.foldl g b) := by
  induction l generalizing b with
  | nil => exact pure b
  | cons c l ih =>
    rw [List.foldlM_cons, List.foldl_cons]
    refine (h c (List.mem_cons_self ..) b).bind (ih (fun c' hc' => h c' ?_) _)
    exact List.mem_cons_of_mem _ hc'

end Reads

end

/-! ## Programs that peek

`E s t` says that a state `t` shows the same as `s`. -/

section
variable {σ α β γ : Type} {E : σ → σ → Prop}

/-- From states that show the same, `x` returns the same and leaves what is shown. -/
def Peeks (E : σ → σ → Prop) (x : StateM σ α) : Prop :=
  ∀ s t, E s t → (x.run t).1 = (x.run s).1 ∧ E s (x.run t).2

namespace Peeks

theorem pure (a : α) : Peeks E (Pure.pure a : StateM σ α) := fun _ _ h => ⟨rfl, h⟩

variable (hrefl : ∀ s, E s s)
include hrefl

theorem bind {x : StateM σ α} {f : α → StateM σ β} (hx : Peeks E x) (hf : ∀ a, Peeks E (f a)) :
    Peeks E (x >>= f) := by
  intro s t h
  obtain ⟨h1, h2⟩ := hx s t h
  obtain ⟨h3, h4⟩ := hf (x.run s).1 s _ h2
  have h5 := (hf (x.run s).1 s _ (hx s s (hrefl s)).2).1
  show ((f (x.run t).1).run (x.run t).2).1 = ((f (x.run s).1).run (x.run s).2).1 ∧
    E s ((f (x.run t).1).run (x.run t).2).2
  rw [h1, h3, h5]
  exact ⟨rfl, h4⟩

omit hrefl in
/-- What follows depends on what is shown of the state. -/
theorem get_bind {f : σ → StateM σ β} (hshown : ∀ s t, E s t → f t = f s)
    (hf : ∀ s, Peeks E (f s)) : Peeks E (MonadState.get >>= f) := by
  intro s t h
  show ((f t).run t).1 = ((f s).run s).1 ∧ E s ((f t).run t).2
  rw [hshown s t h]
  exact hf s s t h

theorem foldlM {f : β → γ → StateM σ β} (h : ∀ b c, Peeks E (f b c)) (l : List γ) (b : β) :
    Peeks E (l.foldlM f b) := by
  induction l generalizing b with
  | nil => exact pure b
  | cons c l ih =>
    rw [List.foldlM_cons]
    exact bind hrefl (h b c) fun b' => ih b'

omit hrefl in
/-- **A loop that peeks** computes as if each round started from the first state. -/
theorem foldlM_eq {f : γ → StateM σ α} (hf : ∀ c, Peeks E (f c)) (g : β → γ → α → β) (l : List γ)
    (b : β) {s t : σ} (h : E s t) :
    ((l.foldlM (fun b c => do return g b c (← f c)) b : StateM σ β).run t).1 =
      l.foldl (fun b c => g b c ((f c).run s).1) b := by
  induction l generalizing b t with
  | nil => rfl
  | cons c l ih =>
    obtain ⟨h1, h2⟩ := hf c s t h
    rw [List.foldlM_cons, List.foldl_cons, ← h1]
    exact ih (g b c ((f c).run t).1) h2

end Peeks

end

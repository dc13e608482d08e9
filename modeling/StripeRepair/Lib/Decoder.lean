import Mathlib

/-!
# Decoders that consume what they read

A decoder takes values from the front of a stream and may fail. The rules tell what a decoder
that is built from others consumes, whatever follows in the stream.

* `Consumes.bind`: one decoder after the other.
* `Consumes.times`: one decoder many times.
-/

abbrev Decoder (β α : Type) := StateT (List β) Option α

namespace Decoder

variable {β α γ : Type}

def times (r : Decoder β α) : Nat → Decoder β (List α)
  | 0 => pure []
  | n + 1 => do
    let a ← r
    let as ← times r n
    return a :: as

/-- `r` takes exactly `bs` from the stream, and gives `a`. -/
def Consumes (r : Decoder β α) (bs : List β) (a : α) : Prop :=
  ∀ rest, r.run (bs ++ rest) = some (a, rest)

variable {r : Decoder β α} {bs : List β} {a : α}

theorem Consumes.pure (a : α) : Consumes (pure a : Decoder β α) [] a := fun _ => rfl

theorem Consumes.bind {f : α → Decoder β γ} {bs' : List β} {c : γ} (hr : Consumes r bs a)
    (hf : Consumes (f a) bs' c) : Consumes (r >>= f) (bs ++ bs') c := by
  intro rest
  rw [StateT.run_bind, List.append_assoc, hr]
  exact hf rest

/-- The last step only puts the result together. -/
theorem Consumes.bind_pure {f : α → γ} (hr : Consumes r bs a) :
    Consumes (r >>= fun a => Pure.pure (f a)) bs (f a) := by
  have h : Consumes (r >>= fun a => Pure.pure (f a)) (bs ++ []) (f a) :=
    hr.bind (f := fun a => Pure.pure (f a)) (Consumes.pure (f a))
  rwa [List.append_nil] at h

theorem Consumes.times {δ : Type} (xs : List δ) (enc : δ → List β) (dec : δ → α)
    (h : ∀ x ∈ xs, Consumes r (enc x) (dec x)) :
    Consumes (times r xs.length) (xs.flatMap enc) (xs.map dec) := by
  induction xs with
  | nil => exact Consumes.pure []
  | cons x xs ih =>
    rw [List.flatMap_cons]
    refine (h x List.mem_cons_self).bind ?_
    exact (ih fun y hy => h y (List.mem_cons_of_mem _ hy)).bind_pure

end Decoder

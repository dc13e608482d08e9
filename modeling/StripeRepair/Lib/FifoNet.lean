import StripeRepair.Lib.Run
import Mathlib

/-!
# Threads that talk through queues

Each thread runs a straight-line program over its own registers and takes values out of
queues and puts values into queues; a thread that takes from an empty queue waits.  Any
thread may run next.

`S ch n` is what the `n`-th value of queue `ch` ought to be.  A program obeys `S` when it
puts these values into its queues, given that it finds them in the others.

* `inv_run`: if every program obeys `S`, and every queue is filled by one thread and
  emptied by one thread, the queues hold what they ought to under every schedule.
* `Counted.le_of_done`: when all threads have ended, no queue was emptied more often than
  filled.
* `Computes.obeys`, `obeys_rounds`: how to see that a program of many rounds obeys `S`.
-/

namespace FifoNet

inductive Instr (C X V : Type)
  | set (x : X) (f : (X → V) → V)
  | pop (ch : C) (x : X)
  | push (ch : C) (x : X)

structure Thread (C X V : Type) where
  prog : List (Instr C X V)
  regs : X → V

/-- All that was pushed to each queue, and how much of it was popped. -/
structure Net (ι C X V : Type) where
  threads : ι → Thread C X V
  pushed : C → List V
  popped : C → Nat

section
variable {ι C X V : Type}

/-- What is in a queue. -/
def Net.queue (s : Net ι C X V) (ch : C) : List V := (s.pushed ch).drop (s.popped ch)

/-- No queue holds anything yet. -/
def Net.start (progs : ι → List (Instr C X V)) (regs : ι → X → V) : Net ι C X V where
  threads i := ⟨progs i, regs i⟩
  pushed _ := []
  popped _ := 0

/-! ## The uses of a queue in a program -/

section
variable [DecidableEq C]

def Instr.popReg (ch : C) : Instr C X V → Option X
  | .pop ch' x => if ch' = ch then some x else none
  | _ => none

def Instr.pushReg (ch : C) : Instr C X V → Option X
  | .push ch' x => if ch' = ch then some x else none
  | _ => none

/-- The registers that take the values popped from `ch`, in order. -/
def popRegs (ch : C) (l : List (Instr C X V)) : List X := l.filterMap (Instr.popReg ch)

/-- The registers whose values are pushed to `ch`, in order. -/
def pushRegs (ch : C) (l : List (Instr C X V)) : List X := l.filterMap (Instr.pushReg ch)

section
variable (ch ch' : C) (x : X) (f : (X → V) → V) (l : List (Instr C X V))

@[simp] theorem popRegs_set : popRegs ch (.set x f :: l) = popRegs ch l := rfl

@[simp] theorem popRegs_push : popRegs ch (.push ch' x :: l) = popRegs ch l := rfl

@[simp] theorem popRegs_pop : popRegs ch (.pop ch' x :: l) =
    if ch' = ch then x :: popRegs ch l else popRegs ch l := by
  unfold popRegs
  by_cases h : ch' = ch <;> simp [Instr.popReg, h]

@[simp] theorem pushRegs_set : pushRegs ch (.set x f :: l) = pushRegs ch l := rfl

@[simp] theorem pushRegs_pop : pushRegs ch (.pop ch' x :: l) = pushRegs ch l := rfl

@[simp] theorem pushRegs_push : pushRegs ch (.push ch' x :: l) =
    if ch' = ch then x :: pushRegs ch l else pushRegs ch l := by
  unfold pushRegs
  by_cases h : ch' = ch <;> simp [Instr.pushReg, h]

end

theorem popRegs_append (ch : C) (l l' : List (Instr C X V)) :
    popRegs ch (l ++ l') = popRegs ch l ++ popRegs ch l' := List.filterMap_append ..

theorem pushRegs_append (ch : C) (l l' : List (Instr C X V)) :
    pushRegs ch (l ++ l') = pushRegs ch l ++ pushRegs ch l' := List.filterMap_append ..

end

/-! ## Steps -/

variable [DecidableEq ι] [DecidableEq C] [DecidableEq X]

/-- The next instruction of thread `i`. -/
def step (s : Net ι C X V) (i : ι) : Option (Net ι C X V) :=
  match (s.threads i).prog with
  | [] => none
  | .set x f :: l =>
    let regs := (s.threads i).regs
    some { s with threads := Function.update s.threads i ⟨l, Function.update regs x (f regs)⟩ }
  | .pop ch x :: l =>
    match (s.queue ch).head? with
    | none => none
    | some v =>
      some { s with
        threads := Function.update s.threads i ⟨l, Function.update (s.threads i).regs x v⟩
        popped := Function.update s.popped ch (s.popped ch + 1) }
  | .push ch x :: l =>
    let regs := (s.threads i).regs
    some { s with
      threads := Function.update s.threads i ⟨l, regs⟩
      pushed := Function.update s.pushed ch (s.pushed ch ++ [regs x]) }

/-- What a step can do. -/
theorem step_cases {s s' : Net ι C X V} {i : ι} (h : step s i = some s') :
    (∃ x f l, (s.threads i).prog = .set x f :: l ∧
      s' = { s with
        threads := Function.update s.threads i
          ⟨l, Function.update (s.threads i).regs x (f (s.threads i).regs)⟩ }) ∨
    (∃ ch x l v, (s.threads i).prog = .pop ch x :: l ∧ (s.pushed ch)[s.popped ch]? = some v ∧
      s' = { s with
        threads := Function.update s.threads i ⟨l, Function.update (s.threads i).regs x v⟩
        popped := Function.update s.popped ch (s.popped ch + 1) }) ∨
    (∃ ch x l, (s.threads i).prog = .push ch x :: l ∧
      s' = { s with
        threads := Function.update s.threads i ⟨l, (s.threads i).regs⟩
        pushed := Function.update s.pushed ch (s.pushed ch ++ [(s.threads i).regs x]) }) := by
  unfold step at h
  split at h
  · cases h
  · next x f l hp => exact Or.inl ⟨x, f, l, hp, (Option.some.inj h).symm⟩
  · next ch x l hp =>
    split at h
    · cases h
    · next v hv =>
      rw [Net.queue, List.head?_drop] at hv
      exact Or.inr (Or.inl ⟨ch, x, l, v, hp, hv, (Option.some.inj h).symm⟩)
  · next ch x l hp => exact Or.inr (Or.inr ⟨ch, x, l, hp, (Option.some.inj h).symm⟩)

/-- A thread that does not run stays as it is. -/
theorem run_threads {s s' : Net ι C X V} {schedule : List ι}
    (h : Lts.run step s schedule = some s') {i : ι} (hi : i ∉ schedule) :
    s'.threads i = s.threads i := by
  induction schedule generalizing s with
  | nil => rw [Option.some.inj h]
  | cons j schedule ih =>
    obtain ⟨s1, h1, h2⟩ := Lts.run_cons h
    rw [List.mem_cons, not_or] at hi
    rw [ih h2 hi.2]
    obtain ⟨x, f, l, -, rfl⟩ | ⟨ch, x, l, v, -, -, rfl⟩ | ⟨ch, x, l, -, rfl⟩ := step_cases h1
    · exact Function.update_of_ne hi.1 ..
    · exact Function.update_of_ne hi.1 ..
    · exact Function.update_of_ne hi.1 ..

/-! ## Programs that obey `S` -/

/-- The program pushes what `S` says, after `p` pops and `q` pushes on each queue, if it pops
what `S` says. -/
def Obeys (S : C → Nat → V) : List (Instr C X V) → (p q : C → Nat) → (X → V) → Prop
  | [], _, _, _ => True
  | .set x f :: l, p, q, regs => Obeys S l p q (Function.update regs x (f regs))
  | .pop ch x :: l, p, q, regs =>
    Obeys S l (Function.update p ch (p ch + 1)) q (Function.update regs x (S ch (p ch)))
  | .push ch x :: l, p, q, regs =>
    regs x = S ch (q ch) ∧ Obeys S l p (Function.update q ch (q ch + 1)) regs

variable {S : C → Nat → V}

/-- Only the queues of the program count. -/
theorem Obeys.congr {l : List (Instr C X V)} {p p' q q' : C → Nat} {regs : X → V}
    (h : Obeys S l p q regs) (hp : ∀ ch, popRegs ch l ≠ [] → p' ch = p ch)
    (hq : ∀ ch, pushRegs ch l ≠ [] → q' ch = q ch) : Obeys S l p' q' regs := by
  induction l generalizing p p' q q' regs with
  | nil => trivial
  | cons i l ih =>
    cases i with
    | set x f => exact ih h hp hq
    | pop ch x =>
      have hch : p' ch = p ch := hp ch (by simp)
      unfold Obeys
      rw [hch]
      refine ih h (fun ch' hne => ?_) hq
      by_cases he : ch' = ch
      · subst he
        simp
      · rw [Function.update_of_ne he, Function.update_of_ne he]
        exact hp ch' (by simpa [Ne.symm he] using hne)
    | push ch x =>
      have hch : q' ch = q ch := hq ch (by simp)
      unfold Obeys
      rw [hch]
      refine ⟨h.1, ih h.2 hp fun ch' hne => ?_⟩
      by_cases he : ch' = ch
      · subst he
        simp
      · rw [Function.update_of_ne he, Function.update_of_ne he]
        exact hq ch' (by simpa [Ne.symm he] using hne)

theorem Obeys.append {l l' : List (Instr C X V)} {p q : C → Nat} {regs : X → V}
    (h : Obeys S l p q regs)
    (h' : ∀ regs', Obeys S l' (fun ch => p ch + (popRegs ch l).length)
      (fun ch => q ch + (pushRegs ch l).length) regs') : Obeys S (l ++ l') p q regs := by
  induction l generalizing p q regs with
  | nil => exact h' regs
  | cons i l ih =>
    cases i with
    | set x f => exact ih h h'
    | pop ch x =>
      refine ih h fun regs' => (h' regs').congr (fun ch' _ => ?_) fun _ _ => rfl
      by_cases he : ch' = ch
      · subst he
        simp only [Function.update_self, popRegs_pop, if_pos, List.length_cons]
        omega
      · simp [he, Ne.symm he]
    | push ch x =>
      refine ⟨h.1, ih h.2 fun regs' => (h' regs').congr (fun _ _ => rfl) fun ch' _ => ?_⟩
      by_cases he : ch' = ch
      · subst he
        simp only [Function.update_self, pushRegs_push, if_pos, List.length_cons]
        omega
      · simp [he, Ne.symm he]

section
variable {body : Nat → List (Instr C X V)} {cp cq : C → Nat}

omit [DecidableEq X] in
theorem length_popRegs_rounds (hp : ∀ r ch, (popRegs ch (body r)).length = cp ch) (R : Nat)
    (ch : C) : (popRegs ch ((List.range R).flatMap body)).length = R * cp ch := by
  induction R with
  | zero => simp [popRegs]
  | succ R ih =>
    rw [List.range_succ, List.flatMap_append, popRegs_append, List.length_append, ih,
      List.flatMap_singleton, hp, Nat.succ_mul]

omit [DecidableEq X] in
theorem length_pushRegs_rounds (hq : ∀ r ch, (pushRegs ch (body r)).length = cq ch) (R : Nat)
    (ch : C) : (pushRegs ch ((List.range R).flatMap body)).length = R * cq ch := by
  induction R with
  | zero => simp [pushRegs]
  | succ R ih =>
    rw [List.range_succ, List.flatMap_append, pushRegs_append, List.length_append, ih,
      List.flatMap_singleton, hq, Nat.succ_mul]

/-- **Round by round.** -/
theorem obeys_rounds (hp : ∀ r ch, (popRegs ch (body r)).length = cp ch)
    (hq : ∀ r ch, (pushRegs ch (body r)).length = cq ch) (R : Nat)
    (h : ∀ r < R, ∀ regs, Obeys S (body r) (fun ch => r * cp ch) (fun ch => r * cq ch) regs)
    (regs : X → V) :
    Obeys S ((List.range R).flatMap body) (fun _ => 0) (fun _ => 0) regs := by
  induction R with
  | zero => trivial
  | succ R ih =>
    rw [List.range_succ, List.flatMap_append, List.flatMap_singleton]
    refine (ih fun r hr => h r (by omega)).append fun regs' => ?_
    refine (h R (by omega) regs').congr (fun ch _ => ?_) fun ch _ => ?_
    · rw [length_popRegs_rounds hp, Nat.zero_add]
    · rw [length_pushRegs_rounds hq, Nat.zero_add]

end

/-! ## Programs that compute given values -/

/-- When the registers `known` have the values `val`, so have all that are set, and only such
registers are pushed. -/
def Computes (val : X → V) : (known : X → Prop) → List (Instr C X V) → Prop
  | _, [] => True
  | known, .set x f :: l =>
    (∀ regs, (∀ y, known y → regs y = val y) → f regs = val x) ∧
      Computes val (fun y => known y ∨ y = x) l
  | known, .pop _ x :: l => Computes val (fun y => known y ∨ y = x) l
  | known, .push _ x :: l => known x ∧ Computes val known l

section
variable {val : X → V} {known known' : X → Prop}

omit [DecidableEq ι] [DecidableEq C] [DecidableEq X] in
theorem Computes.mono {l : List (Instr C X V)} (h : Computes val known l)
    (hk : ∀ y, known y → known' y) : Computes val known' l := by
  induction l generalizing known known' with
  | nil => trivial
  | cons i l ih =>
    cases i with
    | set x f =>
      refine ⟨fun regs hregs => h.1 regs fun y hy => hregs y (hk y hy), ih h.2 fun y hy => ?_⟩
      exact hy.imp_left (hk y)
    | pop ch x => exact ih (show Computes val _ l from h) fun y hy => hy.imp_left (hk y)
    | push ch x => exact ⟨hk x h.1, ih h.2 hk⟩

omit [DecidableEq ι] [DecidableEq C] [DecidableEq X] in
theorem Computes.append {l l' : List (Instr C X V)} (h : Computes val known l)
    (h' : Computes val known l') : Computes val known (l ++ l') := by
  induction l generalizing known with
  | nil => exact h'
  | cons i l ih =>
    cases i with
    | set x f => exact ⟨h.1, ih h.2 (h'.mono fun y hy => Or.inl hy)⟩
    | pop ch x => exact ih (show Computes val _ l from h) (h'.mono fun y hy => Or.inl hy)
    | push ch x => exact ⟨h.1, ih h.2 h'⟩

omit [DecidableEq ι] [DecidableEq C] [DecidableEq X] in
theorem Computes.flatMap {α : Type} {as : List α} {f : α → List (Instr C X V)}
    (h : ∀ a ∈ as, Computes val known (f a)) : Computes val known (as.flatMap f) := by
  induction as with
  | nil => trivial
  | cons a as ih =>
    rw [List.flatMap_cons]
    exact (h a (List.mem_cons_self ..)).append (ih fun b hb => h b (List.mem_cons_of_mem _ hb))

/-- **A program that computes the values in the queues obeys `S`.** -/
theorem Computes.obeys {l : List (Instr C X V)} {p q : C → Nat} {regs : X → V}
    (h : Computes val known l) (hregs : ∀ y, known y → regs y = val y)
    (hpop : ∀ ch n x, (popRegs ch l)[n]? = some x → S ch (p ch + n) = val x)
    (hpush : ∀ ch n x, (pushRegs ch l)[n]? = some x → S ch (q ch + n) = val x) :
    Obeys S l p q regs := by
  have hset : ∀ {known : X → Prop} {regs : X → V} {x : X}, (∀ y, known y → regs y = val y) →
      ∀ y, known y ∨ y = x → Function.update regs x (val x) y = val y := by
    intro known regs x hregs y hy
    by_cases he : y = x
    · rw [he, Function.update_self]
    · rw [Function.update_of_ne he]
      exact hregs y (hy.resolve_right he)
  induction l generalizing p q regs known with
  | nil => trivial
  | cons i l ih =>
    cases i with
    | set x f =>
      show Obeys S l p q (Function.update regs x (f regs))
      rw [h.1 regs hregs]
      exact ih h.2 (hset hregs) hpop hpush
    | pop ch x =>
      have hx : S ch (p ch) = val x := hpop ch 0 x (by simp)
      show Obeys S l (Function.update p ch (p ch + 1)) q (Function.update regs x (S ch (p ch)))
      rw [hx]
      refine ih (show Computes val _ l from h) (hset hregs) (fun ch' n y hy => ?_) hpush
      by_cases he : ch' = ch
      · subst he
        rw [Function.update_self, Nat.add_assoc, Nat.add_comm 1 n]
        exact hpop ch' (n + 1) y (by simpa using hy)
      · rw [Function.update_of_ne he]
        exact hpop ch' n y (by simpa [Ne.symm he] using hy)
    | push ch x =>
      have hx : S ch (q ch) = val x := hpush ch 0 x (by simp)
      refine ⟨(hregs x h.1).trans hx.symm, ih h.2 hregs hpop fun ch' n y hy => ?_⟩
      by_cases he : ch' = ch
      · subst he
        rw [Function.update_self, Nat.add_assoc, Nat.add_comm 1 n]
        exact hpush ch' (n + 1) y (by simpa using hy)
      · rw [Function.update_of_ne he]
        exact hpush ch' n y (by simpa [Ne.symm he] using hy)

end

/-! ## The invariant -/

/-- Two threads share no queue that both pop or both push. -/
def Apart (progs : ι → List (Instr C X V)) : Prop :=
  ∀ i j, i ≠ j → ∀ ch, (popRegs ch (progs i) = [] ∨ popRegs ch (progs j) = []) ∧
    (pushRegs ch (progs i) = [] ∨ pushRegs ch (progs j) = [])

structure Inv (S : C → Nat → V) (s : Net ι C X V) : Prop where
  stream : ∀ ch n v, (s.pushed ch)[n]? = some v → v = S ch n
  obeys : ∀ i, Obeys S (s.threads i).prog s.popped (fun ch => (s.pushed ch).length)
    (s.threads i).regs
  apart : Apart fun i => (s.threads i).prog

omit [DecidableEq ι] in
theorem inv_start {progs : ι → List (Instr C X V)} {regs : ι → X → V} (hapart : Apart progs)
    (h : ∀ i, Obeys S (progs i) (fun _ => 0) (fun _ => 0) (regs i)) :
    Inv S (Net.start progs regs) := by
  refine ⟨fun ch n v hv => ?_, h, hapart⟩
  cases hv

omit [DecidableEq X] in
/-- A thread that goes on uses no more queues than before. -/
theorem Apart.update {progs : ι → List (Instr C X V)} (h : Apart progs) (i : ι)
    {l : List (Instr C X V)} (hpop : ∀ ch, popRegs ch (progs i) = [] → popRegs ch l = [])
    (hpush : ∀ ch, pushRegs ch (progs i) = [] → pushRegs ch l = []) :
    Apart (Function.update progs i l) := by
  intro a b hab ch
  by_cases ha : a = i
  · subst ha
    rw [Function.update_self, Function.update_of_ne (Ne.symm hab)]
    exact ⟨(h a b hab ch).1.imp_left (hpop ch), (h a b hab ch).2.imp_left (hpush ch)⟩
  · rw [Function.update_of_ne ha]
    by_cases hb : b = i
    · subst hb
      rw [Function.update_self]
      exact ⟨(h a b hab ch).1.imp_right (hpop ch), (h a b hab ch).2.imp_right (hpush ch)⟩
    · rw [Function.update_of_ne hb]
      exact h a b hab ch

omit [DecidableEq C] [DecidableEq X] in
theorem prog_update (s : Net ι C X V) (i : ι) (t : Thread C X V) :
    (fun j => (Function.update s.threads i t j).prog) =
      Function.update (fun j => (s.threads j).prog) i t.prog := by
  funext j
  by_cases h : j = i
  · subst h
    simp
  · simp [h]

/-- **Every step keeps the invariant.** -/
theorem Inv.step {s s' : Net ι C X V} {i : ι} (hI : Inv S s) (h : step s i = some s') :
    Inv S s' := by
  have hobeys := hI.obeys i
  obtain ⟨x, f, l, hp, rfl⟩ | ⟨ch, x, l, v, hp, hv, rfl⟩ | ⟨ch, x, l, hp, rfl⟩ := step_cases h
  · rw [hp] at hobeys
    refine ⟨hI.stream, fun j => ?_, ?_⟩
    · by_cases hj : j = i
      · subst hj
        simp only [Function.update_self]
        exact hobeys
      · simp only [Function.update_of_ne hj]
        exact hI.obeys j
    · show Apart fun j => (Function.update s.threads i _ j).prog
      rw [prog_update]
      exact hI.apart.update i (fun ch' => by simp [hp]) fun ch' => by simp [hp]
  · rw [hp] at hobeys
    refine ⟨hI.stream, fun j => ?_, ?_⟩
    · by_cases hj : j = i
      · subst hj
        simp only [Function.update_self]
        rw [hI.stream ch _ v hv]
        exact hobeys
      · simp only [Function.update_of_ne hj]
        -- another thread does not pop from this queue
        refine (hI.obeys j).congr (fun ch' hne => ?_) fun _ _ => rfl
        rw [Function.update_of_ne]
        rintro rfl
        refine hne (((hI.apart i j (Ne.symm hj) ch').1).resolve_left ?_)
        simp [hp]
    · show Apart fun j => (Function.update s.threads i _ j).prog
      rw [prog_update]
      refine hI.apart.update i (fun ch' => ?_) fun ch' => by simp [hp]
      rw [hp, popRegs_pop]
      split
      · exact fun h => by cases h
      · exact id
  · rw [hp] at hobeys
    have hlen : ∀ ch', (Function.update s.pushed ch (s.pushed ch ++ [(s.threads i).regs x]) ch').length =
        Function.update (fun ch' => (s.pushed ch').length) ch ((s.pushed ch).length + 1) ch' := by
      intro ch'
      by_cases he : ch' = ch
      · subst he
        simp
      · simp [he]
    refine ⟨fun ch' n v hv => ?_, fun j => ?_, ?_⟩
    · by_cases he : ch' = ch
      · subst he
        simp only [Function.update_self] at hv
        by_cases hn : n < (s.pushed ch').length
        · rw [List.getElem?_append_left hn] at hv
          exact hI.stream ch' n v hv
        · rw [List.getElem?_append_right (by omega)] at hv
          obtain ⟨hn', rfl⟩ := List.getElem?_eq_some_iff.1 hv
          obtain rfl : n = (s.pushed ch').length := by
            simp only [List.length_singleton] at hn'
            omega
          rw [List.getElem_singleton]
          exact hobeys.1
      · simp only [Function.update_of_ne he] at hv
        exact hI.stream ch' n v hv
    · simp only [hlen]
      by_cases hj : j = i
      · subst hj
        simp only [Function.update_self]
        exact hobeys.2
      · simp only [Function.update_of_ne hj]
        refine (hI.obeys j).congr (fun _ _ => rfl) fun ch' hne => ?_
        rw [Function.update_of_ne]
        rintro rfl
        refine hne (((hI.apart i j (Ne.symm hj) ch').2).resolve_left ?_)
        simp [hp]
    · show Apart fun j => (Function.update s.threads i _ j).prog
      rw [prog_update]
      refine hI.apart.update i (fun ch' => by simp [hp]) fun ch' => ?_
      rw [hp, pushRegs_push]
      split
      · exact fun h => by cases h
      · exact id

/-- **The queues hold what they ought to**, under every schedule. -/
theorem inv_run {s s' : Net ι C X V} {schedule : List ι} (hI : Inv S s)
    (h : Lts.run step s schedule = some s') : Inv S s' :=
  Lts.run_inv (fun _ _ _ hI h => hI.step h) hI h

omit [DecidableEq ι] in
/-- All that was pushed to a queue. -/
theorem Inv.pushed_eq {s : Net ι C X V} (hI : Inv S s) (ch : C) :
    s.pushed ch = (List.range (s.pushed ch).length).map (S ch) := by
  refine List.ext_getElem (by simp) fun n h1 h2 => ?_
  rw [List.getElem_map, List.getElem_range]
  exact hI.stream ch n _ (List.getElem?_eq_getElem h1)

/-! ## Counting -/

/-- The threads `ts` are those that use queue `ch`; they pop `P` and push `Q` values in all. -/
structure Counted (ts : List ι) (ch : C) (P Q : Nat) (s : Net ι C X V) : Prop where
  others : ∀ i ∉ ts, popRegs ch (s.threads i).prog = [] ∧ pushRegs ch (s.threads i).prog = []
  popped : s.popped ch + (ts.map fun i => (popRegs ch (s.threads i).prog).length).sum = P
  pushed : (s.pushed ch).length +
    (ts.map fun i => (pushRegs ch (s.threads i).prog).length).sum = Q
  le : s.popped ch ≤ (s.pushed ch).length

omit [DecidableEq ι] [DecidableEq C] [DecidableEq X] in
theorem sum_map_of_update {ts : List ι} (hts : ts.Nodup) {i : ι} (hi : i ∈ ts) (f f' : ι → Nat)
    {δ : Nat} (hne : ∀ j, j ≠ i → f' j = f j) (he : f i = δ + f' i) :
    (ts.map f).sum = δ + (ts.map f').sum := by
  induction ts with
  | nil => cases hi
  | cons a ts ih =>
    obtain ⟨ha, hts⟩ := List.nodup_cons.1 hts
    simp only [List.map_cons, List.sum_cons]
    rcases List.mem_cons.1 hi with rfl | hi
    · rw [List.map_congr_left fun j hj => (hne j fun h => ha (h ▸ hj)).symm]
      omega
    · rw [ih hts hi, hne a fun h => ha (h ▸ hi)]
      omega

theorem Counted.step {ts : List ι} (hts : ts.Nodup) {ch : C} {P Q : Nat} {s s' : Net ι C X V}
    {i : ι} (hc : Counted ts ch P Q s) (h : step s i = some s') : Counted ts ch P Q s' := by
  -- thread `i` goes on to `l`, and makes `δ` pops and `ε` pushes on the queue
  have hkeep : ∀ {l : List (Instr C X V)} {regs : X → V} {δ ε : Nat},
      (popRegs ch (s.threads i).prog).length = δ + (popRegs ch l).length →
      (pushRegs ch (s.threads i).prog).length = ε + (pushRegs ch l).length →
      (∀ j ∉ ts, popRegs ch (Function.update s.threads i ⟨l, regs⟩ j).prog = [] ∧
        pushRegs ch (Function.update s.threads i ⟨l, regs⟩ j).prog = []) ∧
      s.popped ch + δ + (ts.map fun j =>
        (popRegs ch (Function.update s.threads i ⟨l, regs⟩ j).prog).length).sum = P ∧
      (s.pushed ch).length + ε + (ts.map fun j =>
        (pushRegs ch (Function.update s.threads i ⟨l, regs⟩ j).prog).length).sum = Q := by
    intro l regs δ ε hpop hpush
    have hnil : i ∉ ts → popRegs ch l = [] ∧ pushRegs ch l = [] ∧ δ = 0 ∧ ε = 0 := by
      intro hi
      obtain ⟨h1, h2⟩ := hc.others i hi
      rw [h1] at hpop
      rw [h2] at hpush
      simp only [List.length_nil] at hpop hpush
      exact ⟨List.eq_nil_of_length_eq_zero (by omega), List.eq_nil_of_length_eq_zero (by omega),
        by omega, by omega⟩
    refine ⟨fun j hj => ?_, ?_, ?_⟩
    · by_cases he : j = i
      · subst he
        simp only [Function.update_self]
        exact ⟨(hnil hj).1, (hnil hj).2.1⟩
      · simp only [Function.update_of_ne he]
        exact hc.others j hj
    · rw [← hc.popped]
      by_cases hi : i ∈ ts
      · rw [sum_map_of_update hts hi (fun j => (popRegs ch (s.threads j).prog).length)
          (fun j => (popRegs ch (Function.update s.threads i ⟨l, regs⟩ j).prog).length)
          (fun j hj => by simp only [Function.update_of_ne hj])
          (by simp only [Function.update_self]; exact hpop)]
        omega
      · rw [List.map_congr_left (g := fun j => (popRegs ch (s.threads j).prog).length)
          fun j hj => by rw [Function.update_of_ne (show j ≠ i from fun h => hi (h ▸ hj))]]
        have := (hnil hi).2.2.1
        omega
    · rw [← hc.pushed]
      by_cases hi : i ∈ ts
      · rw [sum_map_of_update hts hi (fun j => (pushRegs ch (s.threads j).prog).length)
          (fun j => (pushRegs ch (Function.update s.threads i ⟨l, regs⟩ j).prog).length)
          (fun j hj => by simp only [Function.update_of_ne hj])
          (by simp only [Function.update_self]; exact hpush)]
        omega
      · rw [List.map_congr_left (g := fun j => (pushRegs ch (s.threads j).prog).length)
          fun j hj => by rw [Function.update_of_ne (show j ≠ i from fun h => hi (h ▸ hj))]]
        have := (hnil hi).2.2.2
        omega
  obtain ⟨x, f, l, hp, rfl⟩ | ⟨ch', x, l, v, hp, hv, rfl⟩ | ⟨ch', x, l, hp, rfl⟩ := step_cases h
  · obtain ⟨h1, h2, h3⟩ := hkeep (l := l) (δ := 0) (ε := 0) (by simp [hp]) (by simp [hp])
    exact ⟨h1, h2, h3, hc.le⟩
  · by_cases he : ch' = ch
    · subst he
      obtain ⟨h1, h2, h3⟩ := hkeep (l := l) (δ := 1) (ε := 0)
        (by simp [hp, Nat.add_comm]) (by simp [hp])
      obtain ⟨hlt, -⟩ := List.getElem?_eq_some_iff.1 hv
      refine ⟨h1, ?_, h3, ?_⟩
      · simp only [Function.update_self]
        exact h2
      · simp only [Function.update_self]
        omega
    · obtain ⟨h1, h2, h3⟩ := hkeep (l := l) (δ := 0) (ε := 0) (by simp [hp, he]) (by simp [hp])
      refine ⟨h1, ?_, h3, ?_⟩
      · simp only [Function.update_of_ne (Ne.symm he)]
        exact h2
      · simp only [Function.update_of_ne (Ne.symm he)]
        exact hc.le
  · by_cases he : ch' = ch
    · subst he
      obtain ⟨h1, h2, h3⟩ := hkeep (l := l) (δ := 0) (ε := 1)
        (by simp [hp]) (by simp [hp, Nat.add_comm])
      refine ⟨h1, h2, ?_, ?_⟩
      · simp only [Function.update_self, List.length_append, List.length_singleton]
        exact h3
      · simp only [Function.update_self, List.length_append, List.length_singleton]
        have := hc.le
        omega
    · obtain ⟨h1, h2, h3⟩ := hkeep (l := l) (δ := 0) (ε := 0) (by simp [hp]) (by simp [hp, he])
      refine ⟨h1, h2, ?_, ?_⟩
      · simp only [Function.update_of_ne (Ne.symm he)]
        exact h3
      · simp only [Function.update_of_ne (Ne.symm he)]
        exact hc.le

theorem counted_run {ts : List ι} (hts : ts.Nodup) {ch : C} {progs : ι → List (Instr C X V)}
    {regs : ι → X → V} {schedule : List ι} {s : Net ι C X V}
    (hothers : ∀ i ∉ ts, popRegs ch (progs i) = [] ∧ pushRegs ch (progs i) = [])
    (h : Lts.run step (Net.start progs regs) schedule = some s) :
    Counted ts ch (ts.map fun i => (popRegs ch (progs i)).length).sum
      (ts.map fun i => (pushRegs ch (progs i)).length).sum s := by
  refine Lts.run_inv (fun _ _ _ hc h => hc.step hts h) ?_ h
  exact ⟨hothers, Nat.zero_add _, Nat.zero_add _, Nat.le_refl _⟩

omit [DecidableEq ι] [DecidableEq X] in
/-- When the threads have ended they have popped and pushed all they would. -/
theorem Counted.of_done {ts : List ι} {ch : C} {P Q : Nat} {s : Net ι C X V}
    (hc : Counted ts ch P Q s) (hdone : ∀ i ∈ ts, (s.threads i).prog = []) :
    s.popped ch = P ∧ (s.pushed ch).length = Q := by
  have h1 := hc.popped
  have h2 := hc.pushed
  have hzero : ∀ f : ι → Nat, (∀ i ∈ ts, f i = 0) → (ts.map f).sum = 0 := by
    intro f hf
    exact List.sum_eq_zero (List.forall_mem_map.2 hf)
  rw [hzero _ fun i hi => by rw [hdone i hi]; rfl] at h1 h2
  exact ⟨h1, h2⟩

omit [DecidableEq ι] [DecidableEq X] in
theorem Counted.le_of_done {ts : List ι} {ch : C} {P Q : Nat} {s : Net ι C X V}
    (hc : Counted ts ch P Q s) (hdone : ∀ i ∈ ts, (s.threads i).prog = []) : P ≤ Q := by
  obtain ⟨h1, h2⟩ := hc.of_done hdone
  have := hc.le
  omega

end

end FifoNet

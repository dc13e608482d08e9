import StripeRepair.Lib.FifoNet

/-!
# Threads that talk through queues do not get stuck

Every value of every queue has a stage.  When a program pushes only at later stages than it
has popped before, each queue is emptied by one thread, and no queue is emptied more often
than filled, some thread can always go on: of the threads that wait, one that waits for the
earliest stage would otherwise wait for a thread that waits for an earlier one.

* `exists_step`: a thread that has not ended, or another thread, can take a step.
* `run_length`: every step shortens the programs by one instruction.
* `done_of_stuck`: a run that cannot go on has ended all threads.
* `staged_rounds`: programs of many rounds, where the stages of a round are ranks of the queues.
-/

namespace FifoNet

section
variable {ι C X V : Type} [DecidableEq ι] [DecidableEq C] [DecidableEq X]

/-! ## Stages -/

/-- The program, after `p` pops and `q` pushes on each queue, pushes nothing of a stage below
`m`, and nothing of a stage that it has popped before. -/
def Staged (σ : C → Nat → Nat) : List (Instr C X V) → (p q : C → Nat) → Nat → Prop
  | [], _, _, _ => True
  | .set _ _ :: l, p, q, m => Staged σ l p q m
  | .pop ch _ :: l, p, q, m =>
    Staged σ l (Function.update p ch (p ch + 1)) q (max m (σ ch (p ch) + 1))
  | .push ch _ :: l, p, q, m =>
    m ≤ σ ch (q ch) ∧ Staged σ l p (Function.update q ch (q ch + 1)) m

variable {σ : C → Nat → Nat}

omit [DecidableEq ι] [DecidableEq X] in
/-- Only the pops of the program itself count, and other pushes only raise the stages. -/
theorem Staged.mono (hσ : ∀ ch, Monotone (σ ch)) {l : List (Instr C X V)} {p p' q q' : C → Nat}
    {m m' : Nat} (h : Staged σ l p q m) (hm : m' ≤ m)
    (hp : ∀ ch, popRegs ch l ≠ [] → p' ch = p ch) (hq : ∀ ch, q ch ≤ q' ch) :
    Staged σ l p' q' m' := by
  induction l generalizing p p' q q' m m' with
  | nil => trivial
  | cons i l ih =>
    cases i with
    | set x f => exact ih h hm hp hq
    | pop ch x =>
      have hch : p' ch = p ch := hp ch (by simp)
      unfold Staged
      rw [hch]
      refine ih h (max_le_max hm (Nat.le_refl _)) (fun ch' hne => ?_) hq
      by_cases he : ch' = ch
      · subst he
        simp
      · rw [Function.update_of_ne he, Function.update_of_ne he]
        exact hp ch' (by simpa [Ne.symm he] using hne)
    | push ch x =>
      obtain ⟨h1, h2⟩ := h
      refine ⟨hm.trans (h1.trans (hσ ch (hq ch))), ih h2 hm hp fun ch' => ?_⟩
      by_cases he : ch' = ch
      · subst he
        simpa using hq ch'
      · rw [Function.update_of_ne he, Function.update_of_ne he]
        exact hq ch'

omit [DecidableEq ι] [DecidableEq X] in
/-- The next push to a queue is not below `m`. -/
theorem Staged.le_of_push {l : List (Instr C X V)} {p q : C → Nat} {m : Nat}
    (h : Staged σ l p q m) {ch : C} (hch : pushRegs ch l ≠ []) : m ≤ σ ch (q ch) := by
  induction l generalizing p q m with
  | nil => exact absurd rfl hch
  | cons i l ih =>
    cases i with
    | set x f => exact ih h hch
    | pop ch' x => exact (le_max_left ..).trans (ih h hch)
    | push ch' x =>
      by_cases he : ch' = ch
      · subst he
        exact h.1
      · have hle := ih h.2 (by simpa [he] using hch)
        rwa [Function.update_of_ne (Ne.symm he)] at hle

/-- No two threads pop from one queue. -/
def PopsApart (progs : ι → List (Instr C X V)) : Prop :=
  ∀ i j, i ≠ j → ∀ ch, popRegs ch (progs i) = [] ∨ popRegs ch (progs j) = []

structure Live (σ : C → Nat → Nat) (s : Net ι C X V) : Prop where
  staged : ∀ i, Staged σ (s.threads i).prog s.popped (fun ch => (s.pushed ch).length) 0
  apart : PopsApart fun i => (s.threads i).prog

omit [DecidableEq ι] [DecidableEq X] in
theorem live_start {progs : ι → List (Instr C X V)} {regs : ι → X → V} (hapart : PopsApart progs)
    (h : ∀ i, Staged σ (progs i) (fun _ => 0) (fun _ => 0) 0) :
    Live σ (Net.start progs regs) := ⟨h, hapart⟩

omit [DecidableEq X] in
theorem PopsApart.update {progs : ι → List (Instr C X V)} (h : PopsApart progs) (i : ι)
    {l : List (Instr C X V)} (hpop : ∀ ch, popRegs ch (progs i) = [] → popRegs ch l = []) :
    PopsApart (Function.update progs i l) := by
  intro a b hab ch
  by_cases ha : a = i
  · subst ha
    rw [Function.update_self, Function.update_of_ne (Ne.symm hab)]
    exact (h a b hab ch).imp_left (hpop ch)
  · rw [Function.update_of_ne ha]
    by_cases hb : b = i
    · subst hb
      rw [Function.update_self]
      exact (h a b hab ch).imp_right (hpop ch)
    · rw [Function.update_of_ne hb]
      exact h a b hab ch

/-- **Every step keeps the stages in order.** -/
theorem Live.step (hσ : ∀ ch, Monotone (σ ch)) {s s' : Net ι C X V} {i : ι} (hL : Live σ s)
    (h : step s i = some s') : Live σ s' := by
  have hstaged := hL.staged i
  obtain ⟨x, f, l, hp, rfl⟩ | ⟨ch, x, l, v, hp, hv, rfl⟩ | ⟨ch, x, l, hp, rfl⟩ := step_cases h
  · rw [hp] at hstaged
    refine ⟨fun j => ?_, ?_⟩
    · by_cases hj : j = i
      · subst hj
        simp only [Function.update_self]
        exact hstaged
      · simp only [Function.update_of_ne hj]
        exact hL.staged j
    · show PopsApart fun j => (Function.update s.threads i _ j).prog
      rw [prog_update]
      exact hL.apart.update i fun ch' => by simp [hp]
  · rw [hp] at hstaged
    refine ⟨fun j => ?_, ?_⟩
    · by_cases hj : j = i
      · subst hj
        simp only [Function.update_self]
        exact Staged.mono hσ hstaged (Nat.zero_le _) (fun _ _ => rfl) fun _ => Nat.le_refl _
      · simp only [Function.update_of_ne hj]
        -- another thread does not pop from this queue
        refine (hL.staged j).mono hσ (Nat.le_refl _) (fun ch' hne => ?_) fun _ => Nat.le_refl _
        rw [Function.update_of_ne]
        rintro rfl
        refine hne ((hL.apart i j (Ne.symm hj) ch').resolve_left ?_)
        simp [hp]
    · show PopsApart fun j => (Function.update s.threads i _ j).prog
      rw [prog_update]
      refine hL.apart.update i fun ch' => ?_
      rw [hp, popRegs_pop]
      split
      · exact fun h => by cases h
      · exact id
  · rw [hp] at hstaged
    have hlen : ∀ ch', (Function.update s.pushed ch (s.pushed ch ++ [(s.threads i).regs x])
        ch').length =
        Function.update (fun ch' => (s.pushed ch').length) ch ((s.pushed ch).length + 1) ch' := by
      intro ch'
      by_cases he : ch' = ch
      · subst he
        simp
      · simp [he]
    refine ⟨fun j => ?_, ?_⟩
    · simp only [hlen]
      by_cases hj : j = i
      · subst hj
        simp only [Function.update_self]
        exact hstaged.2
      · simp only [Function.update_of_ne hj]
        refine (hL.staged j).mono hσ (Nat.le_refl _) (fun _ _ => rfl) fun ch' => ?_
        by_cases he : ch' = ch
        · subst he
          simp
        · rw [Function.update_of_ne he]
    · show PopsApart fun j => (Function.update s.threads i _ j).prog
      rw [prog_update]
      exact hL.apart.update i fun ch' => by simp [hp]

/-! ## A step is possible -/

/-- A queue that some thread will pop from, and that is empty, will be pushed to. -/
def Supplied (s : Net ι C X V) : Prop :=
  ∀ ch i, popRegs ch (s.threads i).prog ≠ [] → s.popped ch = (s.pushed ch).length →
    ∃ j, pushRegs ch (s.threads j).prog ≠ []

/-- A thread that can take no step waits for a value. -/
theorem waits_of_step_eq_none {s : Net ι C X V} {i : ι} (h : step s i = none)
    (hi : (s.threads i).prog ≠ []) :
    ∃ ch x l, (s.threads i).prog = .pop ch x :: l ∧ (s.pushed ch).length ≤ s.popped ch := by
  unfold step at h
  split at h
  · next hp => exact absurd hp hi
  · cases h
  · next ch x l hp =>
    split at h
    · next hv =>
      rw [Net.queue, List.head?_drop] at hv
      exact ⟨ch, x, l, hp, List.getElem?_eq_none_iff.1 hv⟩
    · cases h
  · cases h

/-- **Some thread can go on.** -/
theorem exists_step {s : Net ι C X V} (hL : Live σ s) (hs : Supplied s)
    (hle : ∀ ch, s.popped ch ≤ (s.pushed ch).length) {i : ι} (hi : (s.threads i).prog ≠ []) :
    ∃ j s', step s j = some s' := by
  by_contra hno
  have hnone : ∀ j, step s j = none := by
    intro j
    cases h : step s j with
    | none => rfl
    | some s' => exact absurd ⟨j, s', h⟩ hno
  -- by induction on the stage that a thread waits for
  have hall : ∀ m j ch x l, (s.threads j).prog = .pop ch x :: l → σ ch (s.popped ch) ≠ m := by
    intro m
    induction m using Nat.strongRecOn with
    | _ m ih =>
      rintro j ch x l hp rfl
      obtain ⟨ch', x', l', hp', hempty⟩ :=
        waits_of_step_eq_none (hnone j) (by rw [hp]; exact List.cons_ne_nil _ _)
      obtain ⟨⟨rfl, -⟩, -⟩ : (ch = ch' ∧ x = x') ∧ l = l' := by simpa [hp] using hp'
      obtain ⟨k, hk⟩ := hs ch j (by simp [hp]) (Nat.le_antisymm (hle ch) hempty)
      obtain ⟨ch2, x2, l2, hp2, -⟩ := waits_of_step_eq_none (hnone k) fun h => hk (by rw [h]; rfl)
      have hstaged := hL.staged k
      rw [hp2] at hstaged hk
      rw [pushRegs_pop] at hk
      have hlt : max 0 (σ ch2 (s.popped ch2) + 1) ≤ σ ch (s.pushed ch).length :=
        Staged.le_of_push (l := l2) hstaged hk
      refine ih (σ ch2 (s.popped ch2)) ?_ k ch2 x2 l2 hp2 rfl
      rw [Nat.le_antisymm (hle ch) hempty]
      exact Nat.lt_of_succ_le ((le_max_right ..).trans hlt)
  obtain ⟨ch, x, l, hp, -⟩ := waits_of_step_eq_none (hnone i) hi
  exact hall _ i ch x l hp rfl

/-! ## How long a run is -/

/-- All threads have ended. -/
def Net.Done (s : Net ι C X V) : Prop := ∀ i, (s.threads i).prog = []

/-- The instructions that are left. -/
def Net.left (ts : List ι) (s : Net ι C X V) : Nat :=
  (ts.map fun i => (s.threads i).prog.length).sum

theorem step_left {ts : List ι} (hts : ts.Nodup) {s s' : Net ι C X V} {i : ι}
    (hothers : ∀ j ∉ ts, (s.threads j).prog = []) (h : step s i = some s') :
    (∀ j ∉ ts, (s'.threads j).prog = []) ∧ s.left ts = 1 + s'.left ts := by
  have hkeep : ∀ {ins : Instr C X V} {l : List (Instr C X V)} {regs : X → V},
      (s.threads i).prog = ins :: l →
      s'.threads = Function.update s.threads i ⟨l, regs⟩ →
      (∀ j ∉ ts, (s'.threads j).prog = []) ∧ s.left ts = 1 + s'.left ts := by
    intro ins l regs hp hs'
    have hi : i ∈ ts := by
      by_contra hi
      rw [hothers i hi] at hp
      cases hp
    have hne : ∀ j, j ≠ i → s'.threads j = s.threads j := fun j hj => by
      rw [hs', Function.update_of_ne hj]
    constructor
    · intro j hj
      rw [hne j fun h => hj (h ▸ hi)]
      exact hothers j hj
    · refine sum_map_of_update hts hi _ _ (fun j hj => by rw [hne j hj]) ?_
      rw [hp, hs', Function.update_self, List.length_cons, Nat.add_comm]
  obtain ⟨x, f, l, hp, rfl⟩ | ⟨ch, x, l, v, hp, -, rfl⟩ | ⟨ch, x, l, hp, rfl⟩ := step_cases h
  · exact hkeep hp rfl
  · exact hkeep hp rfl
  · exact hkeep hp rfl

/-- **Every step shortens the programs by one instruction.** -/
theorem run_length {ts : List ι} (hts : ts.Nodup) {s s' : Net ι C X V} {schedule : List ι}
    (hothers : ∀ j ∉ ts, (s.threads j).prog = [])
    (h : Lts.run step s schedule = some s') :
    (∀ j ∉ ts, (s'.threads j).prog = []) ∧ s.left ts = schedule.length + s'.left ts := by
  induction schedule generalizing s with
  | nil =>
    obtain rfl : s = s' := Option.some.inj h
    exact ⟨hothers, (Nat.zero_add _).symm⟩
  | cons i schedule ih =>
    obtain ⟨s1, h1, h2⟩ := Lts.run_cons h
    obtain ⟨ho, hl⟩ := step_left hts hothers h1
    obtain ⟨ho', hl'⟩ := ih ho h2
    refine ⟨ho', ?_⟩
    rw [hl, hl', List.length_cons]
    omega

omit [DecidableEq ι] [DecidableEq C] [DecidableEq X] in
/-- When nothing is left all threads have ended. -/
theorem done_of_left {ts : List ι} {s : Net ι C X V}
    (hothers : ∀ j ∉ ts, (s.threads j).prog = []) (h : s.left ts = 0) : s.Done := by
  intro i
  by_cases hi : i ∈ ts
  · rw [Net.left, List.sum_eq_zero_iff, List.forall_mem_map] at h
    exact List.eq_nil_of_length_eq_zero (h i hi)
  · exact hothers i hi

omit [DecidableEq ι] [DecidableEq C] [DecidableEq X] in
theorem left_of_done (ts : List ι) {s : Net ι C X V} (h : s.Done) : s.left ts = 0 := by
  refine List.sum_eq_zero (List.forall_mem_map.2 fun i _ => ?_)
  rw [h i]
  rfl

/-- Every run can be continued until no thread can go on. -/
theorem exists_stuck {ts : List ι} (hts : ts.Nodup) {s : Net ι C X V}
    (hothers : ∀ j ∉ ts, (s.threads j).prog = []) :
    ∃ schedule s', Lts.run step s schedule = some s' ∧ Lts.Stuck step s' := by
  generalize hn : s.left ts = n
  induction n using Nat.strongRecOn generalizing s with
  | _ n ih =>
    by_cases hstuck : Lts.Stuck step s
    · exact ⟨[], s, rfl, hstuck⟩
    · obtain ⟨i, hi⟩ := not_forall.1 hstuck
      obtain ⟨s1, h1⟩ := Option.ne_none_iff_exists'.1 hi
      obtain ⟨ho, hl⟩ := step_left hts hothers h1
      obtain ⟨schedule, s', hrun, hs'⟩ := ih (s1.left ts) (by omega) ho rfl
      exact ⟨i :: schedule, s', by simp only [Lts.run, h1, hrun], hs'⟩

/-! ## Programs that are in order -/

/-- The queue is not popped from more often than pushed to, now and in the end. -/
def Fed (s : Net ι C X V) (ch : C) : Prop :=
  ∃ (ts : List ι) (P Q : Nat), ts.Nodup ∧ P ≤ Q ∧ Counted ts ch P Q s

theorem Fed.step {s s' : Net ι C X V} {ch : C} {i : ι} (hf : Fed s ch)
    (h : step s i = some s') : Fed s' ch := by
  obtain ⟨ts, P, Q, hts, hle, hc⟩ := hf
  exact ⟨ts, P, Q, hts, hle, hc.step hts h⟩

omit [DecidableEq ι] [DecidableEq X] in
theorem Counted.supplied {ts : List ι} {ch : C} {P Q : Nat} {s : Net ι C X V}
    (hc : Counted ts ch P Q s) (hle : P ≤ Q) {i : ι} (hi : popRegs ch (s.threads i).prog ≠ [])
    (he : s.popped ch = (s.pushed ch).length) : ∃ j, pushRegs ch (s.threads j).prog ≠ [] := by
  have hmem : i ∈ ts := by
    by_contra hno
    exact hi (hc.others i hno).1
  by_contra hno
  have hnil : ∀ j, pushRegs ch (s.threads j).prog = [] := fun j => by
    by_contra h
    exact hno ⟨j, h⟩
  have hzero : (ts.map fun i => (pushRegs ch (s.threads i).prog).length).sum = 0 :=
    List.sum_eq_zero (List.forall_mem_map.2 fun j _ => by rw [hnil j]; rfl)
  have hpos : 0 < (ts.map fun i => (popRegs ch (s.threads i).prog).length).sum := by
    refine Nat.pos_of_ne_zero fun h => hi ?_
    rw [List.sum_eq_zero_iff, List.forall_mem_map] at h
    exact List.eq_nil_of_length_eq_zero (h i hmem)
  have h1 := hc.popped
  have h2 := hc.pushed
  omega

section
variable {progs : ι → List (Instr C X V)} {regs : ι → X → V} (hσ : ∀ ch, Monotone (σ ch))
  (hstaged : ∀ i, Staged σ (progs i) (fun _ => 0) (fun _ => 0) 0) (hapart : PopsApart progs)
  (hfed : ∀ ch, Fed (Net.start progs regs) ch)
include hσ hstaged hapart hfed

/-- **No deadlock**: in a state that is reached, a thread can go on, or all have ended. -/
theorem exists_step_of_run {schedule : List ι} {s : Net ι C X V}
    (h : Lts.run step (Net.start progs regs) schedule = some s) {i : ι}
    (hi : (s.threads i).prog ≠ []) : ∃ j s', step s j = some s' := by
  have hcounted : ∀ ch, Fed s ch := fun ch =>
    Lts.run_inv (I := fun s => Fed s ch) (fun _ _ _ hf h => hf.step h) (hfed ch) h
  have hL : Live σ s := Lts.run_inv (fun _ _ _ hL h => hL.step hσ h) (live_start hapart hstaged) h
  refine exists_step hL (fun ch j hj he => ?_) (fun ch => ?_) hi
  · obtain ⟨ts, P, Q, -, hle, hc⟩ := hcounted ch
    exact hc.supplied hle hj he
  · obtain ⟨ts, P, Q, -, -, hc⟩ := hcounted ch
    exact hc.le

/-- **A run that cannot go on has ended all threads.** -/
theorem done_of_stuck {schedule : List ι} {s : Net ι C X V}
    (h : Lts.run step (Net.start progs regs) schedule = some s) (hstuck : Lts.Stuck step s) :
    s.Done := by
  intro i
  by_contra hi
  obtain ⟨j, s', hs'⟩ := exists_step_of_run hσ hstaged hapart hfed h hi
  rw [hstuck j] at hs'
  cases hs'

end

/-! ## The threads of a queue -/

section
variable {progs : ι → List (Instr C X V)}

omit [DecidableEq ι] [DecidableEq X] in
/-- With one thread that uses it, the uses of a queue are those of this thread. -/
theorem sum_uses {ts : List ι} (hts : ts.Nodup) {f : ι → Nat} {i : ι} (hi : ∀ j, f j ≠ 0 → j = i)
    (hmem : f i ≠ 0 → i ∈ ts) : (ts.map f).sum = f i := by
  induction ts with
  | nil =>
    by_contra hno
    exact absurd (hmem fun h => hno h.symm) List.not_mem_nil
  | cons a ts ih =>
    obtain ⟨ha, hts⟩ := List.nodup_cons.1 hts
    rw [List.map_cons, List.sum_cons]
    by_cases hai : a = i
    · subst hai
      have hzero : (ts.map f).sum = 0 := by
        refine List.sum_eq_zero (List.forall_mem_map.2 fun j hj => ?_)
        by_contra hne
        exact ha (hi j hne ▸ hj)
      omega
    · have hfa : f a = 0 := by
        by_contra hne
        exact hai (hi a hne)
      rw [hfa, Nat.zero_add]
      exact ih hts fun hne => (List.mem_cons.1 (hmem hne)).resolve_left (Ne.symm hai)

variable [Nonempty ι]

/-- The thread that pops from a queue. -/
noncomputable def popper (progs : ι → List (Instr C X V)) (ch : C) : ι :=
  Classical.epsilon fun i => popRegs ch (progs i) ≠ []

/-- The thread that pushes to a queue. -/
noncomputable def pusher (progs : ι → List (Instr C X V)) (ch : C) : ι :=
  Classical.epsilon fun i => pushRegs ch (progs i) ≠ []

section
variable (hapart : Apart progs) {ch : C}
include hapart

omit [DecidableEq ι] [DecidableEq X] in
theorem Apart.popper_eq {i : ι} (hi : popRegs ch (progs i) ≠ []) : popper progs ch = i := by
  by_contra hno
  have hspec : popRegs ch (progs (popper progs ch)) ≠ [] :=
    Classical.epsilon_spec (p := fun i => popRegs ch (progs i) ≠ []) ⟨i, hi⟩
  exact ((hapart _ _ hno ch).1).elim hspec hi

omit [DecidableEq ι] [DecidableEq X] in
theorem Apart.pusher_eq {i : ι} (hi : pushRegs ch (progs i) ≠ []) : pusher progs ch = i := by
  by_contra hno
  have hspec : pushRegs ch (progs (pusher progs ch)) ≠ [] :=
    Classical.epsilon_spec (p := fun i => pushRegs ch (progs i) ≠ []) ⟨i, hi⟩
  exact ((hapart _ _ hno ch).2).elim hspec hi

omit [DecidableEq ι] [DecidableEq X] in
/-- The counts of a queue are those of its two threads. -/
theorem Apart.length_uses {ts : List ι} (hts : ts.Nodup) {P Q : Nat} {regs : ι → X → V}
    (hc : Counted ts ch P Q (Net.start progs regs)) :
    (popRegs ch (progs (popper progs ch))).length = P ∧
      (pushRegs ch (progs (pusher progs ch))).length = Q := by
  constructor
  · have hsum : 0 + (ts.map fun i => (popRegs ch (progs i)).length).sum = P := hc.popped
    rw [← hsum, Nat.zero_add]
    refine (sum_uses (f := fun i => (popRegs ch (progs i)).length) hts (fun j hj => ?_)
      fun hne => ?_).symm
    · exact (hapart.popper_eq fun h => hj (by rw [h]; rfl)).symm
    · by_contra hno
      exact hne (congrArg List.length (hc.others _ hno).1)
  · have hsum : 0 + (ts.map fun i => (pushRegs ch (progs i)).length).sum = Q := hc.pushed
    rw [← hsum, Nat.zero_add]
    refine (sum_uses (f := fun i => (pushRegs ch (progs i)).length) hts (fun j hj => ?_)
      fun hne => ?_).symm
    · exact (hapart.pusher_eq fun h => hj (by rw [h]; rfl)).symm
    · by_contra hno
      exact hne (congrArg List.length (hc.others _ hno).2)

end

end

/-! ## Rounds -/

/-- The stage of the `n`-th value of a queue, when the queues of a round have ranks below `K`. -/
def stageOf (K : Nat) (rank : C → Nat) (ch : C) (n : Nat) : Nat := n * K + rank ch

omit [DecidableEq C] in
theorem monotone_stageOf (K : Nat) (rank : C → Nat) (ch : C) : Monotone (stageOf K rank ch) :=
  fun _ _ h => Nat.add_le_add_right (Nat.mul_le_mul_right K h) _

/-- The program pops from queues of rank below `b` and pushes to the others. -/
structure Split (rank : C → Nat) (b : Nat) (l : List (Instr C X V)) : Prop where
  pops : ∀ ch, popRegs ch l ≠ [] → rank ch < b
  pushes : ∀ ch, pushRegs ch l ≠ [] → b ≤ rank ch

variable {K : Nat} {rank : C → Nat}

omit [DecidableEq ι] [DecidableEq X] in
/-- Round `r`, and what comes after it. -/
theorem Split.staged_append {l l' : List (Instr C X V)} {b r m : Nat} {p q : C → Nat}
    (h : Split rank b l) (hb : b ≤ K) (hm : m ≤ b) (hone : ∀ ch, (popRegs ch l).length ≤ 1)
    (hp : ∀ ch, popRegs ch l ≠ [] → p ch = r) (hq : ∀ ch, pushRegs ch l ≠ [] → r ≤ q ch)
    (h' : Staged (stageOf K rank) l' (fun ch => p ch + (popRegs ch l).length)
      (fun ch => q ch + (pushRegs ch l).length) ((r + 1) * K)) :
    Staged (stageOf K rank) (l ++ l') p q (r * K + m) := by
  induction l generalizing p q m with
  | nil =>
    refine h'.mono (monotone_stageOf K rank) ?_ (fun _ _ => rfl) fun _ => Nat.le_refl _
    rw [Nat.succ_mul]
    omega
  | cons i l ih =>
    cases i with
    | set x f => exact ih ⟨h.pops, h.pushes⟩ hm hone hp hq h'
    | pop ch x =>
      have hch : p ch = r := hp ch (by simp)
      have hlt : rank ch < b := h.pops ch (by simp)
      have hmore : ∀ ch', popRegs ch' l ≠ [] → popRegs ch' (Instr.pop ch x :: l) ≠ [] := by
        intro ch' hne
        rw [popRegs_pop]
        split
        · exact List.cons_ne_nil _ _
        · exact hne
      have hnil : popRegs ch l = [] := by
        have := hone ch
        rw [popRegs_pop, if_pos rfl, List.length_cons] at this
        exact List.eq_nil_of_length_eq_zero (by omega)
      show Staged _ (l ++ l') _ q (max (r * K + m) (stageOf K rank ch (p ch) + 1))
      rw [hch, stageOf, Nat.add_assoc, Nat.add_max_add_left]
      refine ih ⟨fun ch' hne => h.pops ch' (hmore ch' hne), h.pushes⟩ (max_le hm hlt)
        (fun ch' => ?_) (fun ch' hne => ?_) hq ?_
      · refine Nat.le_trans ?_ (hone ch')
        rw [popRegs_pop]
        split
        · exact Nat.le_succ _
        · exact Nat.le_refl _
      · have hne' : ch' ≠ ch := by
          rintro rfl
          exact hne hnil
        rw [Function.update_of_ne hne']
        exact hp ch' (hmore ch' hne)
      · refine h'.mono (monotone_stageOf K rank) (Nat.le_refl _) (fun ch' _ => ?_)
          fun _ => Nat.le_refl _
        by_cases he : ch' = ch
        · subst he
          simp only [Function.update_self, popRegs_pop, if_pos, List.length_cons]
          omega
        · simp [he, Ne.symm he]
    | push ch x =>
      have hle : b ≤ rank ch := h.pushes ch (by simp)
      have hmore : ∀ ch', pushRegs ch' l ≠ [] → pushRegs ch' (Instr.push ch x :: l) ≠ [] := by
        intro ch' hne
        rw [pushRegs_push]
        split
        · exact List.cons_ne_nil _ _
        · exact hne
      refine ⟨?_, ih ⟨h.pops, fun ch' hne => h.pushes ch' (hmore ch' hne)⟩ hm hone hp
        (fun ch' hne => ?_) ?_⟩
      · have hr := Nat.mul_le_mul_right K (hq ch (by simp))
        unfold stageOf
        omega
      · refine (hq ch' (hmore ch' hne)).trans ?_
        by_cases he : ch' = ch
        · subst he
          rw [Function.update_self]
          exact Nat.le_succ _
        · rw [Function.update_of_ne he]
      · refine h'.mono (monotone_stageOf K rank) (Nat.le_refl _) (fun _ _ => rfl) fun ch' => ?_
        by_cases he : ch' = ch
        · subst he
          simp only [Function.update_self, pushRegs_push, if_pos, List.length_cons]
          omega
        · simp [he, Ne.symm he]

omit [DecidableEq ι] [DecidableEq X] in
/-- **Round by round**, when a round pops from no queue twice. -/
theorem staged_rounds {body : Nat → List (Instr C X V)} {cp cq : C → Nat} {b : Nat} (hb : b ≤ K)
    (hp : ∀ r ch, (popRegs ch (body r)).length = cp ch)
    (hq : ∀ r ch, (pushRegs ch (body r)).length = cq ch) (hone : ∀ ch, cp ch ≤ 1)
    (h : ∀ r, Split rank b (body r)) (R : Nat) :
    Staged (stageOf K rank) ((List.range R).flatMap body) (fun _ => 0) (fun _ => 0) 0 := by
  have hfrom : ∀ k r, Staged (stageOf K rank) ((List.range' r k).flatMap body)
      (fun ch => r * cp ch) (fun ch => r * cq ch) (r * K) := by
    intro k
    induction k with
    | zero => exact fun r => trivial
    | succ k ih =>
      intro r
      rw [List.range'_succ, List.flatMap_cons]
      refine (h r).staged_append hb (Nat.zero_le b) (fun ch => hp r ch ▸ hone ch)
        (fun ch hne => ?_) (fun ch hne => ?_) ?_
      · have hpos := List.length_pos_iff.2 hne
        rw [hp] at hpos
        rw [Nat.le_antisymm (hone ch) hpos, Nat.mul_one]
      · have hpos := List.length_pos_iff.2 hne
        rw [hq] at hpos
        exact Nat.le_mul_of_pos_right r hpos
      · simp only [hp, hq, ← Nat.succ_mul]
        exact ih (r + 1)
  have h0 := hfrom R 0
  simp only [Nat.zero_mul, ← List.range_eq_range'] at h0
  exact h0

end

end FifoNet

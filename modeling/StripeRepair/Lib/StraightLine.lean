import StripeRepair.Lib.FifoLive
import StripeRepair.Lib.Script

/-!
# Straight-line programs as code

A program of a network of queues can be run by a thread of a larger system, whose channels
`emb ch` are the queues of the network.  When the program obeys `S` and is staged, what the
thread does is known beforehand.

* `does_ofProgram`: it does `programEvents`.
* `timed_programEvents`: nothing is passed on before what is waited for first.
* `pushesAt_programEvents`: each queue gets what `S` says, in order.
-/

namespace Proc

variable {C K X W : Type} {V : C → Type} [DecidableEq K]
  (emb : K → C) (put : ∀ k, W → V (emb k)) (get : ∀ k, V (emb k) → W)

/-- Run the program, then go on as `k`. -/
def ofProgram [DecidableEq X] (k : Proc C V) : List (FifoNet.Instr K X W) → (X → W) → Proc C V
  | [], _ => k
  | .set x f :: l, regs => .tau (ofProgram k l (Function.update regs x (f regs)))
  | .pop ch x :: l, regs =>
    .pop (emb ch) fun v => ofProgram k l (Function.update regs x (get ch v))
  | .push ch x :: l, regs => .push (emb ch) (put ch (regs x)) (ofProgram k l regs)

/-- What the program does after `p` pops and `q` pushes on each queue. -/
def programEvents (S : K → Nat → W) (σ : K → Nat → Nat) :
    List (FifoNet.Instr K X W) → (p q : K → Nat) → List (Act C V × Nat)
  | [], _, _ => []
  | .set _ _ :: l, p, q => (.tau, 0) :: programEvents S σ l p q
  | .pop ch _ :: l, p, q => (.pop (emb ch) (put ch (S ch (p ch))), σ ch (p ch)) ::
    programEvents S σ l (Function.update p ch (p ch + 1)) q
  | .push ch _ :: l, p, q => (.push (emb ch) (put ch (S ch (q ch))), σ ch (q ch)) ::
    programEvents S σ l p (Function.update q ch (q ch + 1))

variable {emb put get} {S : K → Nat → W} {σ : K → Nat → Nat}

theorem programEvents_append {l l' : List (FifoNet.Instr K X W)} {p q : K → Nat} :
    programEvents emb put S σ (l ++ l') p q = programEvents emb put S σ l p q ++
      programEvents emb put S σ l' (fun ch => p ch + (FifoNet.popRegs ch l).length)
        fun ch => q ch + (FifoNet.pushRegs ch l).length := by
  have hadd : ∀ (f : K → Nat) (g : K → List X) (ch : K) (x : X),
      (fun ch' => Function.update f ch (f ch + 1) ch' + (g ch').length) =
        fun ch' => f ch' + (if ch = ch' then x :: g ch' else g ch').length := by
    intro f g ch x
    funext ch'
    by_cases he : ch' = ch
    · subst he
      simp only [Function.update_self, if_pos, List.length_cons]
      omega
    · rw [Function.update_of_ne he, if_neg (Ne.symm he)]
  induction l generalizing p q with
  | nil => rfl
  | cons ins l ih =>
    cases ins with
    | set x f => exact congrArg (List.cons _) ih
    | pop ch x =>
      refine congrArg (List.cons _) (ih.trans ?_)
      rw [hadd p (fun ch' => FifoNet.popRegs ch' l) ch x]
      simp only [FifoNet.popRegs_pop, FifoNet.pushRegs_pop]
      rfl
    | push ch x =>
      refine congrArg (List.cons _) (ih.trans ?_)
      rw [hadd q (fun ch' => FifoNet.pushRegs ch' l) ch x]
      simp only [FifoNet.popRegs_push, FifoNet.pushRegs_push]
      rfl

/-- **A program that obeys `S` does these events.** -/
theorem does_ofProgram [DecidableEq X] (hget : ∀ k w, get k (put k w) = w) {body k : Proc C V}
    {l : List (FifoNet.Instr K X W)} {p q : K → Nat} {regs : X → W}
    (h : FifoNet.Obeys S l p q regs) :
    Does body (ofProgram emb put get k l regs)
      ((programEvents emb put S σ l p q).map Prod.fst) k := by
  induction l generalizing p q regs with
  | nil => exact .nil k
  | cons ins l ih =>
    cases ins with
    | set x f => exact .tau (ih h)
    | pop ch x =>
      refine .pop ?_
      rw [hget]
      exact ih h
    | push ch x =>
      obtain ⟨h1, h2⟩ := h
      rw [ofProgram, h1]
      exact .push (ih h2)

/-- **A program that is run again and again**, for a packet each time. -/
theorem does_rounds [DecidableEq X] (hget : ∀ k w, get k (put k w) = w)
    {l : List (FifoNet.Instr K X W)} {cp cq : K → Nat} {regs : X → W}
    (hp : ∀ ch, (FifoNet.popRegs ch l).length = cp ch)
    (hq : ∀ ch, (FifoNet.pushRegs ch l).length = cq ch)
    (h : ∀ r, FifoNet.Obeys S l (fun ch => r * cp ch) (fun ch => r * cq ch) regs) (R : Nat) :
    Does (ofProgram emb put get .loop l regs) (ofProgram emb put get .loop l regs)
      ((programEvents emb put S σ ((List.range R).flatMap fun _ => l) (fun _ => 0)
        fun _ => 0).map Prod.fst) (ofProgram emb put get .loop l regs) := by
  induction R with
  | zero => exact .nil _
  | succ R ih =>
    rw [List.range_succ, List.flatMap_append, List.flatMap_singleton, programEvents_append,
      List.map_append]
    simp only [FifoNet.length_popRegs_rounds (fun _ => hp), Nat.zero_add,
      FifoNet.length_pushRegs_rounds (fun _ => hq)]
    refine ih.append ?_
    rw [← List.append_nil (List.map Prod.fst _)]
    exact (does_ofProgram hget (h R)).append does_loop

/-- What is pushed is not of an earlier stage than `m`. -/
theorem le_programEvents {l : List (FifoNet.Instr K X W)} {p q : K → Nat} {m : Nat}
    (h : FifoNet.Staged σ l p q m) {ch : C} {v : V ch} {time : Nat}
    (hmem : (.push ch v, time) ∈ programEvents emb put S σ l p q) : m ≤ time := by
  induction l generalizing p q m with
  | nil => cases hmem
  | cons ins l ih =>
    cases ins with
    | set x f =>
      rcases List.mem_cons.1 hmem with he | hmem
      · cases he
      · exact ih h hmem
    | pop ch' x =>
      rcases List.mem_cons.1 hmem with he | hmem
      · cases he
      · exact (le_max_left ..).trans (ih h hmem)
    | push ch' x =>
      rcases List.mem_cons.1 hmem with he | hmem
      · cases he
        exact h.1
      · exact ih h.2 hmem

/-- **Nothing is passed on before what is waited for first.** -/
theorem timed_programEvents {l : List (FifoNet.Instr K X W)} {p q : K → Nat} {m : Nat}
    (h : FifoNet.Staged σ l p q m) : (programEvents emb put S σ l p q).Pairwise Before := by
  induction l generalizing p q m with
  | nil => exact List.Pairwise.nil
  | cons ins l ih =>
    cases ins with
    | set x f => exact List.pairwise_cons.2 ⟨fun _ _ => trivial, ih h⟩
    | pop ch x =>
      have hrest : FifoNet.Staged σ l (Function.update p ch (p ch + 1)) q
        (max m (σ ch (p ch) + 1)) := h
      refine List.pairwise_cons.2 ⟨?_, ih hrest⟩
      rintro ⟨a, time⟩ hmem
      cases a with
      | push ch' v' => exact (le_max_right ..).trans (le_programEvents hrest hmem)
      | _ => trivial
    | push ch x => exact List.pairwise_cons.2 ⟨fun _ _ => trivial, ih h.2⟩

section
variable [DecidableEq C]

/-- **What each queue gets.** -/
theorem pushesAt_programEvents (hemb : Function.Injective emb) (ch : K)
    (l : List (FifoNet.Instr K X W)) (p q : K → Nat) :
    pushesAt (emb ch) (programEvents emb put S σ l p q) =
      (List.range' (q ch) (FifoNet.pushRegs ch l).length).map fun n =>
        (put ch (S ch n), σ ch n) := by
  induction l generalizing p q with
  | nil => rfl
  | cons ins l ih =>
    cases ins with
    | set x f => exact ih p q
    | pop ch' x => exact ih _ q
    | push ch' x =>
      rw [programEvents, FifoNet.pushRegs_push]
      by_cases he : ch' = ch
      · subst he
        rw [pushesAt_self, if_pos rfl, ih, Function.update_self, List.length_cons,
          List.range'_succ, List.map_cons]
      · rw [pushesAt_ne fun h => he (hemb h), if_neg he, ih, Function.update_of_ne (Ne.symm he)]

/-- **What is taken from each queue.** -/
theorem popsAt_programEvents (hemb : Function.Injective emb) (ch : K)
    (l : List (FifoNet.Instr K X W)) (p q : K → Nat) :
    popsAt (emb ch) (programEvents emb put S σ l p q) =
      (List.range' (p ch) (FifoNet.popRegs ch l).length).map fun n =>
        (put ch (S ch n), σ ch n) := by
  induction l generalizing p q with
  | nil => rfl
  | cons ins l ih =>
    cases ins with
    | set x f => exact ih p q
    | push ch' x => exact ih p _
    | pop ch' x =>
      rw [programEvents, FifoNet.popRegs_pop]
      by_cases he : ch' = ch
      · subst he
        rw [popsAt_self, if_pos rfl, ih, Function.update_self, List.length_cons,
          List.range'_succ, List.map_cons]
      · rw [popsAt_ne fun h => he (hemb h), if_neg he, ih, Function.update_of_ne (Ne.symm he)]

/-- No other queue is used. -/
theorem usesAt_programEvents {ch : C} (hch : ∀ k, emb k ≠ ch) (l : List (FifoNet.Instr K X W))
    (p q : K → Nat) : pushesAt ch (programEvents emb put S σ l p q) = [] ∧
      popsAt ch (programEvents emb put S σ l p q) = [] := by
  induction l generalizing p q with
  | nil => exact ⟨rfl, rfl⟩
  | cons ins l ih =>
    cases ins with
    | set x f => exact ih p q
    | pop ch' x =>
      rw [programEvents, pushesAt_pop, popsAt_ne (hch ch')]
      exact ih _ q
    | push ch' x =>
      rw [programEvents, popsAt_push, pushesAt_ne (hch ch')]
      exact ih p _

end

end Proc

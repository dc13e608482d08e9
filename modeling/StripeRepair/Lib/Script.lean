import StripeRepair.Lib.FifoNet

/-!
# Threads that follow scripts

The code of a thread takes values out of queues and goes on as they say; code that is done with
a job may start over.  A script says beforehand what each thread will do, with every value and
the logical time at which it is passed on.  It is a script of the threads when each of them
behaves so on its own, the values match queue by queue, and nothing is passed on before what is
waited for first.

* `Script.followed`: under every schedule the threads have done a first part of the script.
* `Script.stuck_iff`: a run goes on until the script is at its end.
* `Script.length_le`: it is no longer than the script.
-/

/-- The code of a thread; at `loop` it starts over. -/
inductive Proc (C : Type) (V : C → Type)
  | done
  | loop
  | tau (k : Proc C V)
  | push (ch : C) (v : V ch) (k : Proc C V)
  | pop (ch : C) (k : V ch → Proc C V)

/-- What a thread does in a step. -/
inductive Act (C : Type) (V : C → Type)
  | tau
  | push (ch : C) (v : V ch)
  | pop (ch : C) (v : V ch)

namespace Proc

variable {ι C T : Type} {V : C → Type}

/-- All that was pushed to each queue, and how much of it was popped. -/
structure Net (ι C : Type) (V : C → Type) where
  code : ι → Proc C V
  pushed : ∀ ch, List (V ch)
  popped : C → Nat

/-- No queue holds anything yet. -/
def Net.start (code : ι → Proc C V) : Net ι C V := ⟨code, fun _ => [], fun _ => 0⟩

/-! ## Code -/

/-- Push the values one after another. -/
def pushes (l : List (Sigma V)) (k : Proc C V) : Proc C V :=
  l.foldr (fun e k => .push e.1 e.2 k) k

/-- Wait for a value in each of the queues, whatever it is. -/
def awaits (chs : List C) (k : Proc C V) : Proc C V := chs.foldr (fun ch k => .pop ch fun _ => k) k

/-- Code that starts over as `body` goes on like this. -/
def head (body : Proc C V) : Proc C V → Proc C V
  | .loop => body
  | p => p

theorem head_self (body : Proc C V) : head body body = body := by
  unfold head
  split <;> rfl

/-! ## What a thread does on its own -/

/-- Code that starts over as `body` does `l`, and then is at `r`. -/
inductive Does (body : Proc C V) : Proc C V → List (Act C V) → Proc C V → Prop
  | nil (p : Proc C V) : Does body p [] p
  | loop {l : List (Act C V)} {r : Proc C V} (h : Does body body l r) : Does body .loop l r
  | tau {k : Proc C V} {l : List (Act C V)} {r : Proc C V} (h : Does body k l r) :
    Does body (.tau k) (.tau :: l) r
  | push {ch : C} {v : V ch} {k : Proc C V} {l : List (Act C V)} {r : Proc C V}
    (h : Does body k l r) : Does body (.push ch v k) (.push ch v :: l) r
  | pop {ch : C} {v : V ch} {k : V ch → Proc C V} {l : List (Act C V)} {r : Proc C V}
    (h : Does body (k v) l r) : Does body (.pop ch k) (.pop ch v :: l) r

section
variable {body p q r : Proc C V}

theorem Does.append {l l' : List (Act C V)} (h : Does body p l q) (h' : Does body q l' r) :
    Does body p (l ++ l') r := by
  induction h with
  | nil p => exact h'
  | loop _ ih => exact .loop (ih h')
  | tau _ ih => exact .tau (ih h')
  | push _ ih => exact .push (ih h')
  | pop _ ih => exact .pop (ih h')

theorem does_loop : Does body .loop [] body := .loop (.nil body)

theorem does_pushes (l : List (Sigma V)) (k : Proc C V) :
    Does body (pushes l k) (l.map fun e => .push e.1 e.2) k := by
  induction l with
  | nil => exact .nil k
  | cons e l ih => exact .push ih

theorem does_awaits (l : List (Sigma V)) (k : Proc C V) :
    Does body (awaits (l.map Sigma.fst) k) (l.map fun e => .pop e.1 e.2) k := by
  induction l with
  | nil => exact .nil k
  | cons e l ih => exact .pop ih

/-- **Turn by turn**, when the code starts over after each. -/
theorem does_turns {α : Type*} {turns : List α} {f : α → List (Act C V)}
    (h : ∀ t ∈ turns, Does body body (f t) body) : Does body body (turns.flatMap f) body := by
  induction turns with
  | nil => exact .nil body
  | cons t turns ih =>
    rw [List.flatMap_cons]
    exact (h t List.mem_cons_self).append (ih fun u hu => h u (List.mem_cons_of_mem t hu))

theorem Does.nil_inv {l : List (Act C V)} (h : Does body p l r) (hl : l = []) :
    head body p = head body r := by
  induction h with
  | nil p => rfl
  | loop _ ih => exact (head_self body).symm.trans (ih hl)
  | tau _ _ => cases hl
  | push _ _ => cases hl
  | pop _ _ => cases hl

/-- The first act. -/
theorem Does.cons_inv {l : List (Act C V)} {a : Act C V} {l' : List (Act C V)}
    (h : Does body p l r) (hl : l = a :: l') :
    (∃ k, head body p = .tau k ∧ a = .tau ∧ Does body k l' r) ∨
    (∃ ch v k, head body p = .push ch v k ∧ a = .push ch v ∧ Does body k l' r) ∨
    ∃ ch v k, head body p = .pop ch k ∧ a = .pop ch v ∧ Does body (k v) l' r := by
  induction h with
  | nil p => cases hl
  | loop _ ih =>
    have := ih hl
    rwa [head_self] at this
  | tau h _ =>
    cases hl
    exact Or.inl ⟨_, rfl, rfl, h⟩
  | push h _ =>
    cases hl
    exact Or.inr (Or.inl ⟨_, _, _, rfl, rfl, h⟩)
  | pop h _ =>
    cases hl
    exact Or.inr (Or.inr ⟨_, _, _, rfl, rfl, h⟩)

end

/-! ## The uses of a queue in a script -/

section
variable [DecidableEq C]

def Act.pushAt (ch : C) : Act C V → Option (V ch)
  | .push ch' v => if h : ch' = ch then some (h ▸ v) else none
  | _ => none

def Act.popAt (ch : C) : Act C V → Option (V ch)
  | .pop ch' v => if h : ch' = ch then some (h ▸ v) else none
  | _ => none

/-- The values pushed to `ch` with their times, in order. -/
def pushesAt (ch : C) (l : List (Act C V × T)) : List (V ch × T) :=
  l.filterMap fun e => (Act.pushAt ch e.1).map (·, e.2)

/-- The values popped from `ch` with their times, in order. -/
def popsAt (ch : C) (l : List (Act C V × T)) : List (V ch × T) :=
  l.filterMap fun e => (Act.popAt ch e.1).map (·, e.2)

section
variable (ch : C) (time : T) (l l' : List (Act C V × T))

@[simp] theorem pushesAt_nil : pushesAt ch ([] : List (Act C V × T)) = [] := rfl

@[simp] theorem popsAt_nil : popsAt ch ([] : List (Act C V × T)) = [] := rfl

@[simp] theorem pushesAt_tau : pushesAt ch ((.tau, time) :: l) = pushesAt ch l := rfl

@[simp] theorem popsAt_tau : popsAt ch ((.tau, time) :: l) = popsAt ch l := rfl

@[simp] theorem pushesAt_pop (ch' : C) (v : V ch') :
    pushesAt ch ((.pop ch' v, time) :: l) = pushesAt ch l := rfl

@[simp] theorem popsAt_push (ch' : C) (v : V ch') :
    popsAt ch ((.push ch' v, time) :: l) = popsAt ch l := rfl

@[simp] theorem pushesAt_self (v : V ch) :
    pushesAt ch ((.push ch v, time) :: l) = (v, time) :: pushesAt ch l := by
  simp [pushesAt, Act.pushAt]

@[simp] theorem popsAt_self (v : V ch) :
    popsAt ch ((.pop ch v, time) :: l) = (v, time) :: popsAt ch l := by
  simp [popsAt, Act.popAt]

theorem pushesAt_append : pushesAt ch (l ++ l') = pushesAt ch l ++ pushesAt ch l' :=
  List.filterMap_append ..

theorem popsAt_append : popsAt ch (l ++ l') = popsAt ch l ++ popsAt ch l' :=
  List.filterMap_append ..

end

theorem pushesAt_ne {ch ch' : C} (h : ch' ≠ ch) (v : V ch') (time : T) (l : List (Act C V × T)) :
    pushesAt ch ((.push ch' v, time) :: l) = pushesAt ch l := by
  simp [pushesAt, Act.pushAt, h]

theorem popsAt_ne {ch ch' : C} (h : ch' ≠ ch) (v : V ch') (time : T) (l : List (Act C V × T)) :
    popsAt ch ((.pop ch' v, time) :: l) = popsAt ch l := by
  simp [popsAt, Act.popAt, h]

end

theorem mem_pushesAt [DecidableEq C] {ch : C} {v : V ch} {time : T} {l : List (Act C V × T)} :
    (v, time) ∈ pushesAt ch l ↔ (.push ch v, time) ∈ l := by
  induction l with
  | nil => simp
  | cons e l ih =>
    obtain ⟨a, time'⟩ := e
    cases a with
    | tau => simpa using ih
    | pop ch' v' => simpa using ih
    | push ch' v' =>
      by_cases hch : ch' = ch
      · subst hch
        simp [ih]
      · rw [pushesAt_ne hch, ih, List.mem_cons, iff_or_self]
        intro h
        injection h with h1
        injection h1 with h2
        exact absurd h2.symm hch

/-- Nothing is passed on before what the thread waits for first. -/
def Before [LT T] : Act C V × T → Act C V × T → Prop
  | (.pop _ _, time), (.push _ _, time') => time < time'
  | _, _ => True

theorem lt_of_before [DecidableEq C] [LT T] {ch ch' : C} {v : V ch} {w : V ch'} {time time' : T}
    {l : List (Act C V × T)} (h : ∀ e ∈ l, Before (.pop ch v, time) e)
    (hw : (w, time') ∈ pushesAt ch' l) : time < time' := h _ (mem_pushesAt.1 hw)

/-! ## Steps -/

section
variable [DecidableEq ι] [DecidableEq C] (body : ι → Proc C V)

/-- The next act of thread `i`. -/
def step (s : Net ι C V) (i : ι) : Option (Net ι C V) :=
  match head (body i) (s.code i) with
  | .done => none
  | .loop => none
  | .tau k => some { s with code := Function.update s.code i k }
  | .push ch v k =>
    some { s with
      code := Function.update s.code i k
      pushed := Function.update s.pushed ch (s.pushed ch ++ [v]) }
  | .pop ch k =>
    match (s.pushed ch)[s.popped ch]? with
    | none => none
    | some v =>
      some { s with
        code := Function.update s.code i (k v)
        popped := Function.update s.popped ch (s.popped ch + 1) }

/-- What each thread does, to where it rests in the end. -/
structure Script (T : Type) [LT T] where
  events : ι → List (Act C V × T)
  rest : ι → Proc C V
  does : ∀ i, Does (body i) (body i) ((events i).map Prod.fst) (rest i)
  timed : ∀ i, (events i).Pairwise Before
  /-- No two threads push to one queue. -/
  writer : ∀ i j, i ≠ j → ∀ ch, pushesAt ch (events i) = [] ∨ pushesAt ch (events j) = []
  /-- No two threads pop from one queue. -/
  reader : ∀ i j, i ≠ j → ∀ ch, popsAt ch (events i) = [] ∨ popsAt ch (events j) = []
  /-- What is popped has been pushed, at this time. -/
  matched : ∀ i ch, popsAt ch (events i) ≠ [] →
    ∃ j, popsAt ch (events i) <+: pushesAt ch (events j)
  /-- A thread that rests waits in vain. -/
  resting : ∀ i, head (body i) (rest i) = .done ∨ ∃ ch k, head (body i) (rest i) = .pop ch k ∧
    ∀ j, (pushesAt ch (events j)).length ≤ (popsAt ch (events i)).length
  /-- All threads that do anything. -/
  threads : List ι
  nodup : threads.Nodup
  others : ∀ i ∉ threads, events i = []

variable {body} [LT T] (S : Script body T)

/-- The threads have done what is in the script but `left`. -/
structure Script.At (s : Net ι C V) (left : ι → List (Act C V × T)) : Prop where
  suffix : ∀ i, left i <:+ S.events i
  does : ∀ i, Does (body i) (s.code i) ((left i).map Prod.fst) (S.rest i)
  pushed : ∀ i ch, pushesAt ch (S.events i) ≠ [] →
    s.pushed ch ++ (pushesAt ch (left i)).map Prod.fst = (pushesAt ch (S.events i)).map Prod.fst
  popped : ∀ i ch, popsAt ch (S.events i) ≠ [] →
    s.popped ch + (popsAt ch (left i)).length = (popsAt ch (S.events i)).length
  unpushed : ∀ ch, (∀ i, pushesAt ch (S.events i) = []) → s.pushed ch = []
  le : ∀ ch, s.popped ch ≤ (s.pushed ch).length

omit [DecidableEq ι] in
theorem Script.at_start : S.At (Net.start body) S.events :=
  ⟨fun _ => List.suffix_refl _, S.does, fun _ _ _ => rfl, fun _ _ _ => Nat.zero_add _,
    fun _ _ => rfl, fun _ => Nat.le_refl _⟩

variable {S} {s s' : Net ι C V} {left : ι → List (Act C V × T)} {i : ι}

omit [DecidableEq ι] in
/-- What has been pushed is what the script says. -/
theorem Script.At.pushed_isPrefix (h : S.At s left) (j : ι) {ch : C}
    (hch : pushesAt ch (S.events j) ≠ []) :
    s.pushed ch <+: (pushesAt ch (S.events j)).map Prod.fst := ⟨_, h.pushed j ch hch⟩

omit [DecidableEq ι] in
/-- The value that is popped next, and who pushes it. -/
theorem Script.At.next_pop (h : S.At s left) {ch : C} {v : V ch} {time : T}
    {l : List (Act C V × T)} (hi : left i = (.pop ch v, time) :: l) :
    ∃ j, pushesAt ch (S.events j) ≠ [] ∧ (pushesAt ch (S.events j))[s.popped ch]? = some (v, time)
    := by
  obtain ⟨pre, hpre⟩ := h.suffix i
  have hpops : popsAt ch (S.events i) = popsAt ch pre ++ (v, time) :: popsAt ch l := by
    rw [← hpre, popsAt_append, hi, popsAt_self]
  have hne : popsAt ch (S.events i) ≠ [] := by
    rw [hpops]
    exact List.append_ne_nil_of_right_ne_nil _ (List.cons_ne_nil _ _)
  have hlen : s.popped ch = (popsAt ch pre).length := by
    have := h.popped i ch hne
    rw [hpops, hi, popsAt_self, List.length_append] at this
    omega
  obtain ⟨j, hj⟩ := S.matched i ch hne
  have hget : (pushesAt ch (S.events j))[s.popped ch]? = some (v, time) := by
    obtain ⟨post, hpost⟩ := hj
    rw [← hpost, hpops, hlen, List.append_assoc, List.getElem?_append_right (Nat.le_refl _),
      Nat.sub_self]
    rfl
  refine ⟨j, fun h0 => ?_, hget⟩
  rw [h0] at hget
  cases hget

omit [DecidableEq ι] in
/-- What is left of a script is in it. -/
theorem Script.At.uses_nil (h : S.At s left) {e : Act C V × T} {l : List (Act C V × T)}
    (hi : left i = e :: l) (ch : C) :
    (pushesAt ch (S.events i) = [] → pushesAt ch [e] = []) ∧
      (popsAt ch (S.events i) = [] → popsAt ch [e] = []) := by
  obtain ⟨pre, hpre⟩ := h.suffix i
  rw [hi, show e :: l = [e] ++ l from rfl] at hpre
  rw [← hpre, pushesAt_append, pushesAt_append, popsAt_append, popsAt_append]
  simp only [List.append_eq_nil_iff]
  exact ⟨fun h => h.2.1, fun h => h.2.1⟩

/-- Thread `i` does the event. -/
theorem Script.At.next (h : S.At s left) {e : Act C V × T} {l : List (Act C V × T)} {c : Proc C V}
    (hi : left i = e :: l) (hcode : s'.code = Function.update s.code i c)
    (hdoes : Does (body i) c (l.map Prod.fst) (S.rest i))
    (hpush : ∀ ch, s'.pushed ch = s.pushed ch ++ (pushesAt ch [e]).map Prod.fst)
    (hpop : ∀ ch, s'.popped ch = s.popped ch + (popsAt ch [e]).length)
    (hle : ∀ ch, s'.popped ch ≤ (s'.pushed ch).length) : S.At s' (Function.update left i l) := by
  have hcons : e :: l = [e] ++ l := rfl
  refine ⟨fun j => ?_, fun j => ?_, fun j ch hch => ?_, fun j ch hch => ?_, fun ch hch => ?_, hle⟩
  · by_cases hj : j = i
    · subst hj
      rw [Function.update_self]
      exact (List.suffix_cons e l).trans (hi ▸ h.suffix j)
    · rw [Function.update_of_ne hj]
      exact h.suffix j
  · rw [hcode]
    by_cases hj : j = i
    · subst hj
      rw [Function.update_self, Function.update_self]
      exact hdoes
    · rw [Function.update_of_ne hj, Function.update_of_ne hj]
      exact h.does j
  · rw [hpush]
    by_cases hj : j = i
    · subst hj
      rw [Function.update_self, List.append_assoc, ← List.map_append, ← pushesAt_append, ← hcons,
        ← hi]
      exact h.pushed j ch hch
    · have hnil := (h.uses_nil hi ch).1 ((S.writer i j (Ne.symm hj) ch).resolve_right hch)
      rw [Function.update_of_ne hj, hnil, List.map_nil, List.append_nil]
      exact h.pushed j ch hch
  · rw [hpop]
    by_cases hj : j = i
    · subst hj
      rw [Function.update_self, Nat.add_assoc, ← List.length_append, ← popsAt_append, ← hcons, ← hi]
      exact h.popped j ch hch
    · have hnil := (h.uses_nil hi ch).2 ((S.reader i j (Ne.symm hj) ch).resolve_right hch)
      rw [Function.update_of_ne hj, hnil, List.length_nil, Nat.add_zero]
      exact h.popped j ch hch
  · rw [hpush, h.unpushed ch hch, (h.uses_nil hi ch).1 (hch i)]
    rfl

/-- A thread that rests takes no step. -/
theorem Script.At.rests (h : S.At s left) (hi : left i = []) : step body s i = none := by
  have hcode : head (body i) (s.code i) = head (body i) (S.rest i) :=
    (h.does i).nil_inv (by rw [hi]; rfl)
  unfold step
  rcases S.resting i with hrest | ⟨ch, k, hrest, hle⟩
  · rw [hcode, hrest]
  · rw [hcode, hrest]
    have hnone : (s.pushed ch)[s.popped ch]? = none := by
      rw [List.getElem?_eq_none_iff]
      by_cases hpush : ∀ j, pushesAt ch (S.events j) = []
      · rw [h.unpushed ch hpush]
        exact Nat.zero_le _
      · obtain ⟨j, hj⟩ := not_forall.1 hpush
        have hlen := congrArg List.length (h.pushed j ch hj)
        have hpos := List.length_pos_iff.2 hj
        have hpops := h.popped i ch (List.length_pos_iff.1 (hpos.trans_le (hle j)))
        rw [List.length_append, List.length_map, List.length_map] at hlen
        rw [hi, popsAt_nil, List.length_nil] at hpops
        have := hle j
        omega
    simp only [hnone]

/-- **Every step follows the script.** -/
theorem Script.At.step (h : S.At s left) (hs : step body s i = some s') :
    ∃ e l, left i = e :: l ∧ S.At s' (Function.update left i l) := by
  cases hi : left i with
  | nil =>
    rw [h.rests hi] at hs
    cases hs
  | cons e l =>
    refine ⟨e, l, rfl, ?_⟩
    obtain ⟨a, time⟩ := e
    unfold Proc.step at hs
    rcases (h.does i).cons_inv (by rw [hi]; rfl) with
      ⟨k, hhead, rfl, hdoes⟩ | ⟨ch, v, k, hhead, rfl, hdoes⟩ | ⟨ch, v, k, hhead, rfl, hdoes⟩
    · rw [hhead] at hs
      obtain rfl := Option.some.inj hs
      exact h.next hi rfl hdoes (fun ch => (List.append_nil _).symm) (fun ch => rfl) h.le
    · rw [hhead] at hs
      obtain rfl := Option.some.inj hs
      refine h.next hi rfl hdoes (fun ch' => ?_) (fun ch' => rfl) fun ch' => ?_
      · by_cases hch : ch' = ch
        · subst hch
          simp
        · simp [Function.update_of_ne hch, pushesAt_ne (Ne.symm hch)]
      · refine (h.le ch').trans ?_
        by_cases hch : ch' = ch
        · subst hch
          simp
        · simp [Function.update_of_ne hch]
    · rw [hhead] at hs
      obtain ⟨j, hj, hget⟩ := h.next_pop hi
      -- the value that is there is the one of the script
      obtain ⟨post, hpost⟩ := h.pushed_isPrefix j hj
      dsimp only at hs
      split at hs
      · cases hs
      · next w hw =>
        have hwv : w = v := by
          have h1 : ((pushesAt ch (S.events j)).map Prod.fst)[s.popped ch]? = some w := by
            rw [← hpost, List.getElem?_append_left (List.getElem?_eq_some_iff.1 hw).1, hw]
          rw [List.getElem?_map, hget] at h1
          exact (Option.some.inj h1).symm
        subst hwv
        obtain rfl := Option.some.inj hs
        refine h.next hi rfl hdoes (fun ch' => (List.append_nil _).symm) (fun ch' => ?_)
          fun ch' => ?_
        · by_cases hch : ch' = ch
          · subst hch
            simp
          · simp [Function.update_of_ne hch, popsAt_ne (Ne.symm hch)]
        · by_cases hch : ch' = ch
          · subst hch
            simpa using (List.getElem?_eq_some_iff.1 hw).1
          · simpa [Function.update_of_ne hch] using h.le ch'

/-! ## Runs -/

variable (S) in
/-- What is left to do. -/
def Script.amount (left : ι → List (Act C V × T)) : Nat :=
  (S.threads.map fun i => (left i).length).sum

variable (S) in
/-- The steps of a run from start to end. -/
def Script.length : Nat := S.amount S.events

theorem Script.amount_update {e : Act C V × T} {l : List (Act C V × T)} (h : S.At s left)
    (hi : left i = e :: l) : S.amount left = 1 + S.amount (Function.update left i l) := by
  have hmem : i ∈ S.threads := by
    by_contra hno
    have hsuffix := h.suffix i
    rw [S.others i hno, hi] at hsuffix
    cases List.suffix_nil.1 hsuffix
  refine FifoNet.sum_map_of_update S.nodup hmem _ _ (fun j hj => ?_) ?_
  · rw [Function.update_of_ne hj]
  · rw [hi, Function.update_self, List.length_cons, Nat.add_comm]

/-- **Every run follows the script.** -/
theorem Script.At.run {schedule : List ι} (h : S.At s left)
    (hrun : Lts.run (Proc.step body) s schedule = some s') :
    ∃ left', S.At s' left' ∧ S.amount left = schedule.length + S.amount left' := by
  induction schedule generalizing s left with
  | nil =>
    obtain rfl : s = s' := Option.some.inj hrun
    exact ⟨left, h, (Nat.zero_add _).symm⟩
  | cons i schedule ih =>
    obtain ⟨s1, h1, h2⟩ := Lts.run_cons hrun
    obtain ⟨e, l, hi, hat⟩ := h.step h1
    obtain ⟨left', hat', hlen⟩ := ih hat h2
    refine ⟨left', hat', ?_⟩
    rw [amount_update h hi, hlen, List.length_cons]
    omega

variable (S) in
/-- **Under every schedule** the threads have done a first part of the script. -/
theorem Script.followed {schedule : List ι}
    (hrun : Lts.run (step body) (Net.start body) schedule = some s) :
    ∃ left, S.At s left ∧ S.length = schedule.length + S.amount left := S.at_start.run hrun

variable (S) in
/-- **A run is no longer than the script.** -/
theorem Script.length_le {schedule : List ι}
    (hrun : Lts.run (step body) (Net.start body) schedule = some s) : schedule.length ≤ S.length := by
  obtain ⟨left, -, hlen⟩ := S.followed hrun
  omega

/-! ## No deadlock -/

/-- A thread that can take no step waits for a value. -/
theorem Script.At.waits {e : Act C V × T} {l : List (Act C V × T)} (h : S.At s left)
    (hi : left i = e :: l) (hnone : Proc.step body s i = none) :
    ∃ ch v, e.1 = .pop ch v ∧ (s.pushed ch).length ≤ s.popped ch := by
  unfold Proc.step at hnone
  rcases (h.does i).cons_inv (by rw [hi]; rfl) with
    ⟨k, hhead, -, -⟩ | ⟨ch, v, k, hhead, -, -⟩ | ⟨ch, v, k, hhead, ha, -⟩
  · rw [hhead] at hnone
    cases hnone
  · rw [hhead] at hnone
    cases hnone
  · rw [hhead] at hnone
    dsimp only at hnone
    split at hnone
    · next hget => exact ⟨ch, v, ha, List.getElem?_eq_none_iff.1 hget⟩
    · cases hnone

omit [DecidableEq ι] in
/-- What is waited for is still to be pushed. -/
theorem Script.At.still_pushed (h : S.At s left) {ch : C} {v : V ch} {time : T}
    {l : List (Act C V × T)} (hi : left i = (.pop ch v, time) :: l)
    (hempty : (s.pushed ch).length ≤ s.popped ch) : ∃ j, (v, time) ∈ pushesAt ch (left j) := by
  obtain ⟨j, hj, hget⟩ := h.next_pop hi
  obtain ⟨pre, hpre⟩ := h.suffix j
  have hlen := congrArg List.length (h.pushed j ch hj)
  rw [← hpre, pushesAt_append] at hlen hget
  rw [List.length_append, List.length_map, List.length_map, List.length_append] at hlen
  rw [List.getElem?_append_right (by omega)] at hget
  exact ⟨j, List.mem_of_getElem? hget⟩

/-- **Some thread can go on**, while anything is left. -/
theorem Script.At.exists_step [WellFoundedLT T] (h : S.At s left) (hi : left i ≠ []) :
    ∃ j s', Proc.step body s j = some s' := by
  by_contra hno
  have hnone : ∀ j, Proc.step body s j = none := by
    intro j
    cases hj : Proc.step body s j with
    | none => rfl
    | some s' => exact absurd ⟨j, s', hj⟩ hno
  -- by induction on the time of what a thread waits for
  have hall : ∀ (time : T) j ch (v : V ch) l, left j ≠ (.pop ch v, time) :: l := by
    intro time
    induction time using WellFoundedLT.induction with
    | _ time ih =>
      intro j ch v l hj
      obtain ⟨ch', v', he, hempty⟩ := h.waits hj (hnone j)
      cases he
      obtain ⟨k, hk⟩ := h.still_pushed hj hempty
      obtain ⟨⟨a2, time2⟩, l2, hk2⟩ : ∃ e l, left k = e :: l := by
        refine List.exists_cons_of_ne_nil fun hnil => ?_
        rw [hnil] at hk
        cases hk
      obtain ⟨ch2, v2, rfl, -⟩ := h.waits hk2 (hnone k)
      have htimed := (S.timed k).sublist (h.suffix k).sublist
      rw [hk2] at htimed hk
      exact ih time2 (lt_of_before (List.pairwise_cons.1 htimed).1 hk) k ch2 v2 l2 hk2
  obtain ⟨⟨a, time⟩, l, hel⟩ := List.exists_cons_of_ne_nil hi
  obtain ⟨ch, v, rfl, -⟩ := h.waits hel (hnone i)
  exact hall time i ch v l hel

variable (S) in
/-- **A run goes on until the script is at its end.** -/
theorem Script.stuck_iff [WellFoundedLT T] {schedule : List ι}
    (hrun : Lts.run (step body) (Net.start body) schedule = some s) :
    Lts.Stuck (step body) s ↔ schedule.length = S.length := by
  obtain ⟨left, hat, hlen⟩ := S.followed hrun
  constructor
  · intro hstuck
    have hnil : ∀ i, left i = [] := by
      intro i
      by_contra hi
      obtain ⟨j, s', hs'⟩ := hat.exists_step hi
      rw [hstuck j] at hs'
      cases hs'
    have hzero : S.amount left = 0 :=
      List.sum_eq_zero (List.forall_mem_map.2 fun i _ => by rw [hnil i]; rfl)
    omega
  · intro h i
    refine hat.rests ?_
    by_cases hi : i ∈ S.threads
    · have hzero : S.amount left = 0 := by omega
      rw [Script.amount, List.sum_eq_zero_iff, List.forall_mem_map] at hzero
      exact List.eq_nil_of_length_eq_zero (hzero i hi)
    · have hsuffix := hat.suffix i
      rw [S.others i hi] at hsuffix
      exact List.suffix_nil.1 hsuffix

variable (S) in
/-- At the end all is passed on and all threads rest. -/
theorem Script.at_end [WellFoundedLT T] {schedule : List ι}
    (hrun : Lts.run (step body) (Net.start body) schedule = some s)
    (hstuck : Lts.Stuck (step body) s) : S.At s fun _ => [] := by
  obtain ⟨left, hat, -⟩ := S.followed hrun
  have hnil : left = fun _ => [] := by
    funext i
    by_contra hi
    obtain ⟨j, s', hs'⟩ := hat.exists_step hi
    rw [hstuck j] at hs'
    cases hs'
  exact hnil ▸ hat

variable (S) in
include S in
/-- Some run is as long as the script. -/
theorem Script.exists_stuck [WellFoundedLT T] : ∃ schedule s,
    Lts.run (step body) (Net.start body) schedule = some s ∧ Lts.Stuck (step body) s := by
  -- by induction on what a run leaves to do
  have hgo : ∀ n (schedule : List ι) (s : Net ι C V), Lts.run (step body) (Net.start body) schedule = some s →
      S.length = schedule.length + n → ∃ schedule s,
        Lts.run (step body) (Net.start body) schedule = some s ∧ Lts.Stuck (step body) s := by
    intro n
    induction n with
    | zero =>
      intro schedule s hrun hlen
      exact ⟨schedule, s, hrun, (S.stuck_iff hrun).2 hlen.symm⟩
    | succ n ih =>
      intro schedule s hrun hlen
      by_cases hstuck : Lts.Stuck (step body) s
      · exact ⟨schedule, s, hrun, hstuck⟩
      · obtain ⟨i, hi⟩ := not_forall.1 hstuck
        obtain ⟨s', hs'⟩ := Option.ne_none_iff_exists'.1 hi
        refine ih (schedule ++ [i]) s' ?_ ?_
        · rw [Lts.run_append, hrun]
          show Lts.run (step body) s [i] = some s'
          rw [Lts.run, hs']
          rfl
        · rw [List.length_append, List.length_singleton]
          omega
  exact hgo S.length [] (Net.start body) rfl (Nat.zero_add _).symm

end

end Proc

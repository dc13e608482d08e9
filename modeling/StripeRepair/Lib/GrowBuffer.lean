import Mathlib
import StripeRepair.Lib.Run

/-!
# A buffer that grows by one doubling

The owner of the buffer records a length next to what is allocated. A write that goes beyond
the recorded length doubles it, once, and moves to a buffer of that length. An allocation
starts a new buffer of the first length, and leaves the recorded length as it is.

* `neverOver_iff`: when all writes of a run stay in what is allocated.
* `run_small`: writes that are not longer than the first buffer.
* `run_one`: one write of any length among them.
-/

/-- `cap` is what is allocated and `maxLen` what is recorded. -/
structure GrowBuffer (β : Type) where
  written : List β
  cap : Nat
  maxLen : Nat

namespace GrowBuffer

variable {β : Type}

def grow (b : GrowBuffer β) (n : Nat) : GrowBuffer β :=
  if b.maxLen < b.written.length + n then ⟨b.written, 2 * b.maxLen, 2 * b.maxLen⟩ else b

theorem grow_of_lt {b : GrowBuffer β} {n : Nat} (h : b.maxLen < b.written.length + n) :
    b.grow n = ⟨b.written, 2 * b.maxLen, 2 * b.maxLen⟩ := if_pos h

theorem grow_of_le {b : GrowBuffer β} {n : Nat} (h : b.written.length + n ≤ b.maxLen) :
    b.grow n = b := if_neg (Nat.not_lt.2 h)

/-- What may happen to a buffer. -/
inductive Op (β : Type)
  | alloc
  | write (data : List β)

/-- The copy ends in what is allocated, and the recorded length is not beyond `limit`. -/
def Op.InBounds (limit : Nat) (b : GrowBuffer β) : Op β → Prop
  | .alloc => True
  | .write data => (b.grow data.length).maxLen ≤ limit ∧
      b.written.length + data.length ≤ (b.grow data.length).cap

instance (limit : Nat) (b : GrowBuffer β) (op : Op β) : Decidable (op.InBounds limit b) :=
  match op with
  | .alloc => inferInstanceAs (Decidable True)
  | .write _ => inferInstanceAs (Decidable (_ ∧ _))

/-- A step that is not in bounds has no result. -/
def step (limit init : Nat) (b : GrowBuffer β) (op : Op β) : Option (GrowBuffer β) :=
  if op.InBounds limit b then
    match op with
    | .alloc => some ⟨[], init, b.maxLen⟩
    | .write data => some { b.grow data.length with written := b.written ++ data }
  else none

def run (limit init : Nat) (b : GrowBuffer β) (ops : List (Op β)) : Option (GrowBuffer β) :=
  Lts.run (step limit init) b ops

section
variable {limit init : Nat} {b : GrowBuffer β} {op : Op β} {ops : List (Op β)}

@[simp] theorem run_nil : run limit init b [] = some b := rfl

theorem run_cons : run limit init b (op :: ops) =
    (step limit init b op).bind fun b' => run limit init b' ops := by
  unfold run
  rw [Lts.run]
  cases step limit init b op with
  | none => rfl
  | some b' => rfl

theorem run_append (ops' : List (Op β)) : run limit init b (ops ++ ops') =
    (run limit init b ops).bind fun b' => run limit init b' ops' :=
  Lts.run_append b ops ops'

theorem step_write (data : List β) : step limit init b (.write data) =
    if (b.grow data.length).maxLen ≤ limit ∧
        b.written.length + data.length ≤ (b.grow data.length).cap then
      some ⟨b.written ++ data, (b.grow data.length).cap, (b.grow data.length).maxLen⟩
    else none := rfl

end

/-! ## Runs in bounds -/

/-- A write that does not grow the buffer needs one, and a buffer which is shorter than what
is recorded only holds the first length. A write that grows it is held by one doubling. -/
def Op.Safe (limit init : Nat) (b : GrowBuffer β) : Op β → Prop
  | .alloc => True
  | .write data =>
    if b.written.length + data.length ≤ b.maxLen then
      b.cap ≠ 0 ∧ (b.cap ≠ b.maxLen → b.written.length + data.length ≤ init)
    else b.written.length + data.length ≤ 2 * b.maxLen ∧ 2 * b.maxLen ≤ limit

/-- There is no buffer, or the one of an allocation, or one of the recorded length. -/
structure Inv (limit init : Nat) (b : GrowBuffer β) : Prop where
  cap_eq : b.cap = 0 ∨ b.cap = init ∨ b.cap = b.maxLen
  maxLen_pos : 0 < b.maxLen
  maxLen_le : b.maxLen ≤ limit

section
variable {limit init : Nat} {b b' : GrowBuffer β} {op : Op β}

theorem Inv.inBounds_iff (hb : Inv limit init b) (hinit : 0 < init)
    (hop : ∀ data, op = .write data → 0 < data.length) :
    op.InBounds limit b ↔ op.Safe limit init b := by
  cases op with
  | alloc => exact Iff.rfl
  | write data =>
    have hpos := hop data rfl
    have hle := hb.maxLen_le
    have hmax := hb.maxLen_pos
    show (b.grow data.length).maxLen ≤ limit ∧ _ ≤ (b.grow data.length).cap ↔ ite _ _ _
    by_cases hfit : b.written.length + data.length ≤ b.maxLen
    · rw [grow_of_le hfit, if_pos hfit]
      rcases hb.cap_eq with hcap | hcap | hcap <;> omega
    · rw [grow_of_lt (by omega), if_neg hfit]
      exact and_comm

theorem Inv.step (hb : Inv limit init b) (h : step limit init b op = some b') :
    Inv limit init b' := by
  unfold GrowBuffer.step at h
  split at h
  next hin =>
    cases op with
    | alloc =>
      cases h
      exact ⟨.inr (.inl rfl), hb.maxLen_pos, hb.maxLen_le⟩
    | write data =>
      cases h
      have hgrow : (b.grow data.length).maxLen ≤ limit := hin.1
      have hpos := hb.maxLen_pos
      by_cases hfit : b.written.length + data.length ≤ b.maxLen
      · rw [grow_of_le hfit] at hgrow ⊢
        exact ⟨hb.cap_eq, hpos, hgrow⟩
      · rw [grow_of_lt (by omega)] at hgrow ⊢
        exact ⟨.inr (.inr rfl), show 0 < 2 * b.maxLen by omega, hgrow⟩
  next => exact absurd h (by simp)

end

/-- No copy of the run goes beyond what is allocated at that time. A step in bounds has a
result, so this is about all steps. -/
def NeverOver (limit init : Nat) (b : GrowBuffer β) (ops : List (Op β)) : Prop :=
  Lts.Meets (step limit init) (fun b' op => op.InBounds limit b') b ops

/-- Every step is safe in the state that it finds. -/
def StepsSafe (limit init : Nat) (b : GrowBuffer β) (ops : List (Op β)) : Prop :=
  Lts.Meets (step limit init) (fun b' op => op.Safe limit init b') b ops

/-- **The copies of a run** stay in bounds exactly when all its steps are safe. -/
theorem neverOver_iff {limit init : Nat} {b : GrowBuffer β} (hinit : 0 < init)
    (ops : List (Op β)) (hops : ∀ data, .write data ∈ ops → 0 < data.length)
    (hb : Inv limit init b) : NeverOver limit init b ops ↔ StepsSafe limit init b ops := by
  refine Lts.meets_congr (fun _ _ _ hinv h => hinv.step h) (fun op hop b' hinv => ?_) hb
  exact hinv.inBounds_iff hinit fun data hdata => hops data (hdata ▸ hop)

/-! ## A buffer of the recorded length -/

/-- The length of the buffer, once it has grown to hold `n`. -/
def room (m n : Nat) : Nat := 2 ^ max m (Nat.clog 2 n)

/-- The buffer that holds `data`, when each write was held by one doubling. -/
def full (m : Nat) (data : List β) : GrowBuffer β :=
  ⟨data, room m data.length, room m data.length⟩

theorem le_room (m n : Nat) : n ≤ room m n :=
  (Nat.le_pow_clog Nat.one_lt_two n).trans
    (Nat.pow_le_pow_right Nat.two_pos (le_max_right _ _))

theorem pow_le_room (m n : Nat) : 2 ^ m ≤ room m n :=
  Nat.pow_le_pow_right Nat.two_pos (le_max_left _ _)

theorem room_of_le {m n k : Nat} (hnk : n ≤ k) (h : k ≤ room m n) : room m k = room m n := by
  unfold room at h ⊢
  have hk : Nat.clog 2 k ≤ max m (Nat.clog 2 n) := Nat.clog_le_of_le_pow h
  have hn : Nat.clog 2 n ≤ Nat.clog 2 k := Nat.clog_mono_right 2 hnk
  congr 1
  omega

theorem room_of_lt {m n k : Nat} (hlt : room m n < k) (h : k ≤ 2 * room m n) :
    room m k = 2 * room m n := by
  unfold room at hlt h ⊢
  rw [← Nat.pow_succ'] at h ⊢
  have hle : Nat.clog 2 k ≤ max m (Nat.clog 2 n) + 1 := Nat.clog_le_of_le_pow h
  have hlt' : max m (Nat.clog 2 n) < Nat.clog 2 k :=
    (Nat.lt_clog_iff_pow_lt Nat.one_lt_two).2 hlt
  congr 1
  omega

theorem room_of_le_pow {m n : Nat} (h : n ≤ 2 ^ m) : room m n = 2 ^ m := by
  have hn : Nat.clog 2 n ≤ m := Nat.clog_le_of_le_pow h
  rw [room, max_eq_left hn]

theorem full_nil (m : Nat) : full m ([] : List β) = ⟨[], 2 ^ m, 2 ^ m⟩ := by
  rw [full, List.length_nil, room_of_le_pow (Nat.zero_le _)]

theorem two_mul_room_le_iff {m n p limit : Nat} (hlimit : 2 ^ p ≤ limit)
    (hlimit' : limit < 2 ^ (p + 1)) : 2 * room m n ≤ limit ↔ room m n < 2 ^ p := by
  unfold room
  rw [← Nat.pow_succ', Nat.pow_lt_pow_iff_right Nat.one_lt_two]
  constructor
  · intro h
    have := (Nat.pow_lt_pow_iff_right Nat.one_lt_two).1 (h.trans_lt hlimit')
    omega
  · intro h
    exact (Nat.pow_le_pow_right Nat.two_pos h).trans hlimit

section
variable {limit init m p : Nat} (hlimit : 2 ^ p ≤ limit) (hlimit' : limit < 2 ^ (p + 1))
  (hmp : m ≤ p)
include hlimit hlimit' hmp

/-- **One write**: twice the buffer holds it, and the length stays a power within `limit`. -/
theorem step_full (data w : List β) (hdata : data.length ≤ 2 ^ p) :
    step limit init (full m data) (.write w) =
      if (data ++ w).length ≤ 2 * room m data.length ∧ (data ++ w).length ≤ 2 ^ p then
        some (full m (data ++ w)) else none := by
  have hroom : room m data.length ≤ 2 ^ p :=
    Nat.pow_le_pow_right Nat.two_pos (max_le hmp (Nat.clog_le_of_le_pow hdata))
  have hnk : data.length ≤ data.length + w.length := Nat.le_add_right _ _
  have hdouble := two_mul_room_le_iff (m := m) (n := data.length) hlimit hlimit'
  have hfull : full m (data ++ w) =
      ⟨data ++ w, room m (data.length + w.length), room m (data.length + w.length)⟩ := by
    rw [full, List.length_append]
  rw [step_write, hfull, List.length_append]
  by_cases hlt : room m data.length < data.length + w.length
  · rw [grow_of_lt (show (full m data).maxLen < _ from hlt)]
    by_cases hfit : data.length + w.length ≤ 2 * room m data.length ∧
        data.length + w.length ≤ 2 ^ p
    · rw [if_pos hfit, room_of_lt hlt hfit.1]
      exact if_pos ⟨hdouble.2 (by omega), hfit.1⟩
    · rw [if_neg hfit]
      refine if_neg fun ⟨hle, hcap⟩ => hfit ⟨hcap, ?_⟩
      have hroom' : 2 * room m data.length ≤ 2 ^ p := by
        have hpow := hdouble.1 hle
        unfold room at hpow ⊢
        rw [Nat.pow_lt_pow_iff_right Nat.one_lt_two] at hpow
        rw [← Nat.pow_succ']
        exact Nat.pow_le_pow_right Nat.two_pos hpow
      exact hcap.trans hroom'
  · have hle := Nat.not_lt.1 hlt
    have hfit : data.length + w.length ≤ 2 * room m data.length ∧
        data.length + w.length ≤ 2 ^ p := by omega
    rw [grow_of_le (show _ ≤ (full m data).maxLen from hle), room_of_le hnk hle, if_pos hfit]
    exact if_pos ⟨hroom.trans hlimit, hle⟩

/-- **Small writes** only have to end within `limit`. -/
theorem run_small (ws : List (List β)) (hws : ∀ w ∈ ws, w.length ≤ 2 ^ m) (data : List β)
    (hdata : data.length ≤ 2 ^ p) :
    run limit init (full m data) (ws.map .write) =
      if (data ++ ws.flatten).length ≤ 2 ^ p then some (full m (data ++ ws.flatten)) else none := by
  induction ws generalizing data with
  | nil =>
    rw [List.flatten_nil, List.append_nil, if_pos hdata]
    rfl
  | cons w ws ih =>
    have hw : w.length ≤ 2 ^ m := hws w List.mem_cons_self
    have hle := le_room m data.length
    have hpow := pow_le_room m data.length
    have hsum : (data ++ w).length ≤ 2 * room m data.length := by
      rw [List.length_append]
      omega
    rw [List.map_cons, run_cons, step_full hlimit hlimit' hmp data w hdata, List.flatten_cons,
      ← List.append_assoc]
    by_cases hfit : (data ++ w).length ≤ 2 ^ p
    · rw [if_pos ⟨hsum, hfit⟩]
      exact ih (fun w' hw' => hws w' (List.mem_cons_of_mem _ hw')) (data ++ w) hfit
    · rw [if_neg (fun h => hfit h.2), if_neg]
      · rfl
      · rw [List.length_append]
        omega

/-- One write of any length among small ones. -/
theorem run_one (ws ws' : List (List β)) (hws : ∀ w ∈ ws ++ ws', w.length ≤ 2 ^ m) (w : List β) :
    run limit init (full m []) ((ws ++ w :: ws').map .write) =
      if (ws.flatten ++ w).length ≤ 2 * room m ws.flatten.length ∧
          (ws ++ w :: ws').flatten.length ≤ 2 ^ p then
        some (full m (ws ++ w :: ws').flatten) else none := by
  have hflat : (ws ++ w :: ws').flatten = ws.flatten ++ w ++ ws'.flatten := by
    rw [List.flatten_append, List.flatten_cons, List.append_assoc]
  rw [List.map_append, List.map_cons, run_append, run_small hlimit hlimit' hmp ws
    (fun w' hw' => hws w' (List.mem_append_left _ hw')) [] (Nat.zero_le _), List.nil_append, hflat]
  by_cases hdata : ws.flatten.length ≤ 2 ^ p
  · rw [if_pos hdata, Option.bind_some, run_cons, step_full hlimit hlimit' hmp _ w hdata]
    by_cases hw : (ws.flatten ++ w).length ≤ 2 * room m ws.flatten.length ∧
        (ws.flatten ++ w).length ≤ 2 ^ p
    · rw [if_pos hw, Option.bind_some, run_small hlimit hlimit' hmp ws'
        (fun w' hw' => hws w' (List.mem_append_right _ hw')) _ hw.2]
      simp only [hw.1, true_and]
    · rw [if_neg hw, if_neg]
      · rfl
      · rw [@List.length_append _ _ ws'.flatten]
        omega
  · rw [if_neg hdata, if_neg]
    · rfl
    · simp only [List.length_append]
      omega

end

end GrowBuffer

import StripeRepair.Lib.Run
import Mathlib.Data.List.Range
import Mathlib.Data.List.Perm.Basic

/-!
# The batch queue between a solution's generator thread and the coordinator

`SolutionBase` holds two containers (`_batch_queue`, `_batch_list`) and two flags
(`_batch_request`, `_finish_gen_batches`).  `genRepairBatches` runs in one thread
and makes `numBatches` batches; `Coordinator::repair` runs in another one and
loops over `hasNext` and `getRepairBatchFromQueue`.  A batch is named by its
`batchid`.

Each step below is one access to the shared fields, so a list of `Thread`s is an
interleaving of the two loops.  The solutions differ only in where a finished
batch goes: `ParallelSolution` asks `_batch_request`, `CentSolution` and
`OfflineSolution` their argument `enqueue`.

    every run is finite                                   (run_length_le)
    parallel: each batch delivered once in a complete run
      ↔ `_batch_request` was set at every one of its tests (parallel_handOff)
    enqueue: the coordinator hangs at the end of a complete run
      ↔ it saw the finish flag unset after the last batch  (enqueue_notStuck)
-/

namespace StripeRepair

/-! ## The two threads -/

/-- Where the generator thread is in `genRepairBatches…`. -/
inductive GenPc where
  /-- the batch `batchid` is finished (or the loop is over): next, test where it goes -/
  | loop (batchid : Nat)
  /-- the test is done: next, push the batch -/
  | push (batchid : Nat) (toQueue : Bool)
  /-- `_finish_gen_batches` is set -/
  | done
  deriving DecidableEq, Repr

/-- Where the coordinator thread is in `Coordinator::repair`. -/
inductive CoorPc where
  /-- `hasNext`: about to read `_finish_gen_batches` -/
  | hasNext
  /-- `hasNext`: about to read the size of `_batch_queue` -/
  | hasNextSize
  /-- `getRepairBatchFromQueue`: about to read the size of `_batch_queue` -/
  | getSize
  /-- `getRepairBatchFromQueue`: about to set `_batch_request` -/
  | request
  /-- inside `BlockingQueue::pop` -/
  | pop
  /-- the loop is left: `hasNext` returned false -/
  | exit
  deriving DecidableEq, Repr

/-- The fields of `SolutionBase` the two threads share, their positions, and the
batches `getRepairBatchFromQueue` has returned so far (`batch_list` of `repair`). -/
structure SolState where
  batchQueue : List Nat
  batchList : List Nat
  batchRequest : Bool
  finishGenBatches : Bool
  delivered : List Nat
  gen : GenPc
  coor : CoorPc
  deriving DecidableEq, Repr

/-- The state `SolutionBase::SolutionBase` leaves, both threads at their start. -/
def SolState.init : SolState where
  batchQueue := []
  batchList := []
  batchRequest := false
  finishGenBatches := false
  delivered := []
  gen := .loop 0
  coor := .hasNext

inductive Thread where
  | gen
  | coor
  deriving DecidableEq, Repr

/-- One step of the generator; `dest` is the test that sends a batch to the queue. -/
def genStep (dest : SolState → Bool) (numBatches : Nat) (s : SolState) : Option SolState :=
  match s.gen with
  | .loop b =>
    if b < numBatches then some { s with gen := .push b (dest s) }
    else some { s with finishGenBatches := true, gen := .done }
  | .push b true => some { s with batchQueue := s.batchQueue ++ [b], gen := .loop (b + 1) }
  | .push b false => some { s with batchList := s.batchList ++ [b], gen := .loop (b + 1) }
  | .done => none

/-- One step of `Coordinator::repair`; `pop` waits while the queue is empty. -/
def coorStep (s : SolState) : Option SolState :=
  match s.coor with
  | .hasNext => some { s with coor := if s.finishGenBatches then .hasNextSize else .getSize }
  | .hasNextSize => some { s with coor := if s.batchQueue = [] then .exit else .getSize }
  | .getSize => some { s with coor := if s.batchQueue = [] then .request else .pop }
  | .request => some { s with batchRequest := true, coor := .pop }
  | .pop =>
    match s.batchQueue with
    | [] => none
    | b :: q => some { s with batchQueue := q, delivered := s.delivered ++ [b], coor := .hasNext }
  | .exit => none

def solStep (dest : SolState → Bool) (numBatches : Nat) (s : SolState) : Thread → Option SolState
  | .gen => genStep dest numBatches s
  | .coor => coorStep s

/-- `ParallelSolution`: `if (_batch_request)` decides for the queue. -/
def ParallelSolution.dest (s : SolState) : Bool := s.batchRequest

/-- `CentSolution` and `OfflineSolution`: `if (enqueue)` decides for the queue. -/
def CentSolution.dest (enqueue : Bool) (_ : SolState) : Bool := enqueue

/-! ## What a step can do -/

/-- The batches the generator has put into one of the two containers. -/
def produced (numBatches : Nat) : GenPc → Nat
  | .loop b => b
  | .push b _ => b
  | .done => numBatches

/-- Every batch produced so far is in exactly one place, and the finish flag is
the generator's last step. -/
structure Accounted (n : Nat) (s : SolState) : Prop where
  places : (s.delivered ++ s.batchQueue ++ s.batchList).Perm (List.range (produced n s.gen))
  le : produced n s.gen ≤ n
  push_lt : ∀ b q, s.gen = .push b q → b < n
  finish : s.finishGenBatches = true ↔ s.gen = .done
  exit : s.coor = .exit → s.finishGenBatches = true ∧ s.batchQueue = []
  size : s.coor = .hasNextSize → s.finishGenBatches = true

theorem Accounted.init (n : Nat) : Accounted n .init where
  places := by simp [SolState.init, produced]
  le := Nat.zero_le n
  push_lt := by simp [SolState.init]
  finish := by simp [SolState.init]
  exit := by simp [SolState.init]
  size := by simp [SolState.init]

theorem genStep_cases {dest : SolState → Bool} {n : Nat} {s s' : SolState}
    (h : genStep dest n s = some s') :
    (∃ b, s.gen = .loop b ∧ b < n ∧ s' = { s with gen := .push b (dest s) }) ∨
    (∃ b, s.gen = .loop b ∧ n ≤ b ∧ s' = { s with finishGenBatches := true, gen := .done }) ∨
    (∃ b, s.gen = .push b true ∧
      s' = { s with batchQueue := s.batchQueue ++ [b], gen := .loop (b + 1) }) ∨
    (∃ b, s.gen = .push b false ∧
      s' = { s with batchList := s.batchList ++ [b], gen := .loop (b + 1) }) := by
  unfold genStep at h
  split at h
  · next b hb =>
    split at h
    · next hlt => exact Or.inl ⟨b, hb, hlt, (Option.some.inj h).symm⟩
    · next hge => exact Or.inr (Or.inl ⟨b, hb, by omega, (Option.some.inj h).symm⟩)
  · next b hb => exact Or.inr (Or.inr (Or.inl ⟨b, hb, (Option.some.inj h).symm⟩))
  · next b hb => exact Or.inr (Or.inr (Or.inr ⟨b, hb, (Option.some.inj h).symm⟩))
  · cases h

theorem coorStep_cases {s s' : SolState} (h : coorStep s = some s') :
    (s.coor = .hasNext ∧ s.finishGenBatches = true ∧ s' = { s with coor := .hasNextSize }) ∨
    (s.coor = .hasNext ∧ s.finishGenBatches = false ∧ s' = { s with coor := .getSize }) ∨
    (s.coor = .hasNextSize ∧ s.batchQueue = [] ∧ s' = { s with coor := .exit }) ∨
    (s.coor = .hasNextSize ∧ s.batchQueue ≠ [] ∧ s' = { s with coor := .getSize }) ∨
    (s.coor = .getSize ∧ s.batchQueue = [] ∧ s' = { s with coor := .request }) ∨
    (s.coor = .getSize ∧ s.batchQueue ≠ [] ∧ s' = { s with coor := .pop }) ∨
    (s.coor = .request ∧ s' = { s with batchRequest := true, coor := .pop }) ∨
    (∃ b q, s.coor = .pop ∧ s.batchQueue = b :: q ∧
      s' = { s with batchQueue := q, delivered := s.delivered ++ [b], coor := .hasNext }) := by
  unfold coorStep at h
  split at h
  · next hc => cases hf : s.finishGenBatches <;> simp [hf] at h <;> simp [hc, ← h]
  · next hc => by_cases hq : s.batchQueue = [] <;> simp [hq] at h <;> simp [hc, hq, ← h]
  · next hc => by_cases hq : s.batchQueue = [] <;> simp [hq] at h <;> simp [hc, hq, ← h]
  · next hc => simp at h; simp [hc, ← h]
  · next hc =>
    split at h
    · cases h
    · next b q hq => simp at h; simp [hc, hq, ← h]
  · cases h

theorem Accounted.step {dest : SolState → Bool} {n : Nat} {s s' : SolState} {t : Thread}
    (hI : Accounted n s) (h : solStep dest n s t = some s') : Accounted n s' := by
  obtain ⟨hp, hle, hlt, hf, he, hz⟩ := hI
  cases t with
  | gen =>
    -- a push moves one new batch into a container: the other places stay as they are
    have hpush : ∀ b, produced n s.gen = b → ∀ l : List Nat, l.Perm ((s.delivered ++ s.batchQueue ++
        s.batchList) ++ [b]) → l.Perm (List.range (b + 1)) := by
      intro b hb l hl
      rw [hb] at hp
      rw [List.range_succ]
      exact hl.trans (hp.append_right [b])
    obtain ⟨b, hg, hb, rfl⟩ | ⟨b, hg, hb, rfl⟩ | ⟨b, hg, rfl⟩ | ⟨b, hg, rfl⟩ := genStep_cases h
    · refine ⟨by simpa [hg, produced] using hp, by simpa [produced] using hb.le, ?_, ?_, he, hz⟩
      · rintro b' q h1; cases h1; exact hb
      · simpa [hg] using hf
    · have hbn : b = n := by simp [hg, produced] at hle; omega
      subst hbn
      exact ⟨by simpa [hg, produced] using hp, by simp [produced], by simp, by simp,
        fun h => ⟨rfl, (he h).2⟩, fun _ => rfl⟩
    · refine ⟨?_, hlt b _ hg, by simp, by simpa [hg] using hf, ?_, hz⟩
      · apply hpush b (by simp [hg, produced])
        simp only [List.append_assoc]
        exact List.Perm.append_left _ (List.Perm.append_left _ List.perm_append_comm)
      · intro hc
        have := hf.1 (he hc).1
        rw [hg] at this; cases this
    · refine ⟨?_, hlt b _ hg, by simp, by simpa [hg] using hf, he, hz⟩
      apply hpush b (by simp [hg, produced])
      simp only [List.append_assoc]; exact List.Perm.refl _
  | coor =>
    obtain ⟨hc, hx, rfl⟩ | ⟨hc, hx, rfl⟩ | ⟨hc, hx, rfl⟩ | ⟨hc, hx, rfl⟩ | ⟨hc, hx, rfl⟩ |
      ⟨hc, hx, rfl⟩ | ⟨hc, rfl⟩ | ⟨b, q, hc, hq, rfl⟩ := coorStep_cases h
    · exact ⟨hp, hle, hlt, hf, by simp, fun _ => hx⟩
    · exact ⟨hp, hle, hlt, hf, by simp, by simp⟩
    · exact ⟨hp, hle, hlt, hf, fun _ => ⟨hz hc, hx⟩, by simp⟩
    · exact ⟨hp, hle, hlt, hf, by simp, by simp⟩
    · exact ⟨hp, hle, hlt, hf, by simp, by simp⟩
    · exact ⟨hp, hle, hlt, hf, by simp, by simp⟩
    · exact ⟨hp, hle, hlt, hf, by simp, by simp⟩
    · refine ⟨?_, hle, hlt, hf, by simp, by simp⟩
      rw [hq] at hp
      simpa using hp

theorem accounted_of_run {dest : SolState → Bool} {n : Nat} {r : List Thread} {s : SolState}
    (h : Lts.run (solStep dest n) .init r = some s) : Accounted n s :=
  Lts.run_inv (fun _ _ _ hI h => hI.step h) (Accounted.init n) h

/-- Steps left: two for each batch still to make and the flag, five for each batch
still to deliver and the last round of the loop. -/
def stepsLeft (n : Nat) (s : SolState) : Nat :=
  (match s.gen with
    | .loop b => 2 * (n - b) + 1
    | .push b _ => 2 * (n - b)
    | .done => 0) +
  5 * (n - s.delivered.length) +
  (match s.coor with
    | .hasNext => 4
    | .hasNextSize => 3
    | .getSize => 2
    | .request => 1
    | .pop => 0
    | .exit => 0)

theorem Accounted.length_le {n : Nat} {s : SolState} (hI : Accounted n s) :
    s.delivered.length + s.batchQueue.length + s.batchList.length ≤ n := by
  have := hI.places.length_eq
  simp only [List.length_append, List.length_range] at this
  have := hI.le
  omega

theorem stepsLeft_lt {dest : SolState → Bool} {n : Nat} {s s' : SolState} {t : Thread}
    (hI : Accounted n s) (h : solStep dest n s t = some s') : stepsLeft n s' < stepsLeft n s := by
  cases t with
  | gen =>
    obtain ⟨b, hg, hb, rfl⟩ | ⟨b, hg, hb, rfl⟩ | ⟨b, hg, rfl⟩ | ⟨b, hg, rfl⟩ := genStep_cases h
    · simp only [stepsLeft, hg]; omega
    · simp only [stepsLeft, hg]; omega
    · have := hI.push_lt b _ hg
      simp only [stepsLeft, hg]; omega
    · have := hI.push_lt b _ hg
      simp only [stepsLeft, hg]; omega
  | coor =>
    obtain ⟨hc, hx, rfl⟩ | ⟨hc, hx, rfl⟩ | ⟨hc, hx, rfl⟩ | ⟨hc, hx, rfl⟩ | ⟨hc, hx, rfl⟩ |
      ⟨hc, hx, rfl⟩ | ⟨hc, rfl⟩ | ⟨b, q, hc, hq, rfl⟩ := coorStep_cases h
    all_goals simp only [stepsLeft, hc]
    case inr.inr.inr.inr.inr.inr.inr =>
      have := hI.length_le
      simp only [hq, List.length_cons] at this
      simp only [List.length_append, List.length_singleton]
      omega
    all_goals omega

/-- Every interleaving ends: it has at most `7n + 5` steps. -/
theorem run_length_le {dest : SolState → Bool} {n : Nat} {r : List Thread} {s : SolState}
    (h : Lts.run (solStep dest n) .init r = some s) : r.length ≤ 7 * n + 5 := by
  have := Lts.length_le_of_decreasing (fun _ _ _ hI h => Accounted.step hI h)
    (fun _ _ _ hI h => stepsLeft_lt hI h) (Accounted.init n) h
  have h0 : stepsLeft n .init = 2 * n + 1 + 5 * n + 4 := by simp [stepsLeft, SolState.init]
  omega

/-- In a complete run the generator is done and the queue is empty. -/
theorem complete_cases {dest : SolState → Bool} {n : Nat} {s : SolState} (hI : Accounted n s)
    (h : Lts.Stuck (solStep dest n) s) :
    s.gen = .done ∧ s.batchQueue = [] ∧ (s.coor = .pop ∨ s.coor = .exit) := by
  have hgen : s.gen = .done := by
    have hg : genStep dest n s = none := h .gen
    unfold genStep at hg
    split at hg
    · split at hg <;> cases hg
    · cases hg
    · cases hg
    · assumption
  have hc : coorStep s = none := h .coor
  unfold coorStep at hc
  split at hc
  · cases hc
  · cases hc
  · cases hc
  · cases hc
  · next hpop =>
    split at hc
    · next hq => exact ⟨hgen, hq, Or.inl hpop⟩
    · cases hc
  · next hx => exact ⟨hgen, (hI.exit hx).2, Or.inr hx⟩

/-! ## Exactly-once hand-off -/

/-- `hasNext` returns false from now on: nothing is left in the queue and the
generator will not add to it. -/
def HasNextFalseForGood (s : SolState) : Prop :=
  s.finishGenBatches = true ∧ s.batchQueue = []

/-- Nothing delivered twice, and all `n` batches delivered when `hasNext` is
false for good. -/
def HandOff (n : Nat) (s : SolState) : Prop :=
  s.delivered.Nodup ∧ (∀ b ∈ s.delivered, b < n) ∧
    (HasNextFalseForGood s → s.delivered.Perm (List.range n))

/-- `_batch_request` is set when the generator tests it for a batch. -/
def RequestSet (n : Nat) (s : SolState) (t : Thread) : Prop :=
  t = .gen → ∀ b, s.gen = .loop b → b < n → s.batchRequest = true

/-- No batch went to `_batch_list`, and none is about to. -/
def NoneInList (s : SolState) : Prop :=
  s.batchList = [] ∧ ∀ b, s.gen ≠ .push b false

theorem noneInList_step {n : Nat} {s s' : SolState} {t : Thread} (hI : NoneInList s)
    (hC : RequestSet n s t) (h : solStep ParallelSolution.dest n s t = some s') :
    NoneInList s' := by
  obtain ⟨hl, hp⟩ := hI
  cases t with
  | gen =>
    obtain ⟨b, hg, hb, rfl⟩ | ⟨b, hg, hb, rfl⟩ | ⟨b, hg, rfl⟩ | ⟨b, hg, rfl⟩ := genStep_cases h
    · refine ⟨hl, fun b' h1 => ?_⟩
      have := hC rfl b hg hb
      simp [ParallelSolution.dest, this] at h1
    · exact ⟨hl, by simp⟩
    · exact ⟨hl, by simp⟩
    · exact absurd hg (hp b)
  | coor =>
    obtain ⟨hc, hx, rfl⟩ | ⟨hc, hx, rfl⟩ | ⟨hc, hx, rfl⟩ | ⟨hc, hx, rfl⟩ | ⟨hc, hx, rfl⟩ |
      ⟨hc, hx, rfl⟩ | ⟨hc, rfl⟩ | ⟨b, q, hc, hq, rfl⟩ := coorStep_cases h <;> exact ⟨hl, hp⟩

theorem Accounted.nodup {n : Nat} {s : SolState} (hI : Accounted n s) :
    (s.delivered ++ s.batchQueue ++ s.batchList).Nodup :=
  hI.places.nodup_iff.2 List.nodup_range

theorem Accounted.delivered_lt {n : Nat} {s : SolState} (hI : Accounted n s) :
    ∀ b ∈ s.delivered, b < n := by
  intro b hb
  have : b ∈ List.range (produced n s.gen) := hI.places.mem_iff.1 (by simp [hb])
  have := List.mem_range.1 this
  have := hI.le
  omega

theorem handOff_of_noneInList {n : Nat} {s : SolState} (hI : Accounted n s)
    (hl : s.batchList = []) : HandOff n s := by
  refine ⟨?_, hI.delivered_lt, fun ⟨hf, hq⟩ => ?_⟩
  · exact (List.nodup_append.1 (List.nodup_append.1 hI.nodup).1).1
  · have := hI.places
    rw [hI.finish.1 hf, hq, hl] at this
    simpa [produced] using this

/-- A batch that is in the list, or on its way there, never leaves it. -/
theorem inList_stays {n : Nat} {s s' : SolState} {t : Thread}
    (hI : s.batchList ≠ [] ∨ ∃ b, s.gen = .push b false)
    (h : solStep ParallelSolution.dest n s t = some s') :
    s'.batchList ≠ [] ∨ ∃ b, s'.gen = .push b false := by
  cases t with
  | gen =>
    obtain ⟨b, hg, hb, rfl⟩ | ⟨b, hg, hb, rfl⟩ | ⟨b, hg, rfl⟩ | ⟨b, hg, rfl⟩ := genStep_cases h
    all_goals simp [hg] at hI ⊢
    · exact Or.inl hI
    · exact hI
    · exact hI
  | coor =>
    obtain ⟨hc, hx, rfl⟩ | ⟨hc, hx, rfl⟩ | ⟨hc, hx, rfl⟩ | ⟨hc, hx, rfl⟩ | ⟨hc, hx, rfl⟩ |
      ⟨hc, hx, rfl⟩ | ⟨hc, rfl⟩ | ⟨b, q, hc, hq, rfl⟩ := coorStep_cases h <;> exact hI

/-- **Hand-off of `ParallelSolution`.**  In a run whose every test of
`_batch_request` finds it set, every state hands over exactly once; and a
complete run does so only if every test found it set. -/
theorem parallel_handOff (n : Nat) (r : List Thread) (s : SolState)
    (h : Lts.run (solStep ParallelSolution.dest n) .init r = some s) :
    (Lts.Meets (solStep ParallelSolution.dest n) (RequestSet n) .init r → HandOff n s) ∧
    (Lts.Stuck (solStep ParallelSolution.dest n) s →
      HasNextFalseForGood s ∧
      (HandOff n s ↔ Lts.Meets (solStep ParallelSolution.dest n) (RequestSet n) .init r)) := by
  have hI := accounted_of_run h
  have hmeets : Lts.Meets (solStep ParallelSolution.dest n) (RequestSet n) .init r →
      HandOff n s := by
    intro hm
    have h0 : NoneInList SolState.init := ⟨rfl, by simp [SolState.init]⟩
    have := Lts.run_inv_of_meets (fun _ _ _ hI hC h => noneInList_step hI hC h) h0 hm h
    exact handOff_of_noneInList hI this.1
  refine ⟨hmeets, fun hstuck => ?_⟩
  obtain ⟨hgen, hq, -⟩ := complete_cases hI hstuck
  have hfin : HasNextFalseForGood s := ⟨hI.finish.2 hgen, hq⟩
  refine ⟨hfin, fun hand => ?_, hmeets⟩
  by_contra hm
  -- the first test that finds the flag unset sends its batch to the list
  obtain ⟨pre, a, post, s1, rfl, hpre, hC, hpost⟩ := Lts.exists_not_of_not_meets h hm
  simp only [RequestSet, Classical.not_imp, not_forall] at hC
  obtain ⟨rfl, b, hg, hb, hreq⟩ := hC
  obtain ⟨s2, h2, hpost⟩ := Lts.run_cons hpost
  have hs2 : s2.gen = .push b false := by
    simp only [solStep, genStep, hg, hb, if_true, ParallelSolution.dest, Option.some.injEq] at h2
    simp [← h2, hreq]
  have := Lts.run_inv (I := fun s => s.batchList ≠ [] ∨ ∃ b, s.gen = .push b false)
    (fun _ _ _ hI h => inList_stays hI h) (Or.inr ⟨b, hs2⟩) hpost
  rw [hgen] at this
  simp only [reduceCtorEq, exists_false, or_false] at this
  have hlen := hI.places.length_eq
  have hlen2 := (hand.2.2 hfin).length_eq
  rw [hgen, hq] at hlen
  simp only [List.append_nil, List.length_append, produced, List.length_range] at hlen hlen2
  exact this (List.eq_nil_of_length_eq_zero (by omega))

/-- One batch, made while nobody waits: it goes to `_batch_list` and `repair`
leaves its loop without it. -/
theorem parallel_loses_batch :
    ¬ ∀ (n : Nat) (r : List Thread) (s : SolState),
      Lts.run (solStep ParallelSolution.dest n) .init r = some s → HandOff n s := by
  intro hall
  have := hall 1 [.gen, .gen, .gen, .coor, .coor] _ rfl
  have := (this.2.2 ⟨rfl, rfl⟩).length_eq
  revert this
  decide

/-- The same batch when the coordinator waits first. -/
theorem parallel_handOff_waiting :
    HandOff 1 ⟨[], [], true, true, [0], .done, .exit⟩ :=
  (parallel_handOff 1 [.coor, .coor, .coor, .gen, .gen, .gen, .coor, .coor, .coor] _ rfl).1
    (by simp [Lts.Meets, RequestSet, solStep, genStep, coorStep, SolState.init,
      ParallelSolution.dest])

/-! ## The coordinator that hangs -/

/-- Everything is generated and delivered, and the coordinator waits in `pop`. -/
def StuckCoordinator (s : SolState) : Prop :=
  s.gen = .done ∧ s.batchQueue = [] ∧ s.coor = .pop

/-- When `hasNext` finds the finish flag unset, a batch is still to be delivered. -/
def BatchLeft (n : Nat) (s : SolState) (t : Thread) : Prop :=
  t = .coor → s.coor = .hasNext → s.finishGenBatches = false → s.delivered.length < n

/-- Past `hasNext`'s test there is a batch to wait for. -/
def WorthWaiting (n : Nat) (s : SolState) : Prop :=
  (s.coor = .getSize ∨ s.coor = .request ∨ s.coor = .pop) → s.delivered.length < n

/-- With `enqueue` nothing goes to `_batch_list`. -/
theorem enqueue_noneInList {n : Nat} {s s' : SolState} {t : Thread} (hI : NoneInList s)
    (h : solStep (CentSolution.dest true) n s t = some s') : NoneInList s' := by
  obtain ⟨hl, hp⟩ := hI
  cases t with
  | gen =>
    obtain ⟨b, hg, hb, rfl⟩ | ⟨b, hg, hb, rfl⟩ | ⟨b, hg, rfl⟩ | ⟨b, hg, rfl⟩ := genStep_cases h
    · exact ⟨hl, by simp [CentSolution.dest]⟩
    · exact ⟨hl, by simp⟩
    · exact ⟨hl, by simp⟩
    · exact absurd hg (hp b)
  | coor =>
    obtain ⟨hc, hx, rfl⟩ | ⟨hc, hx, rfl⟩ | ⟨hc, hx, rfl⟩ | ⟨hc, hx, rfl⟩ | ⟨hc, hx, rfl⟩ |
      ⟨hc, hx, rfl⟩ | ⟨hc, rfl⟩ | ⟨b, q, hc, hq, rfl⟩ := coorStep_cases h <;> exact ⟨hl, hp⟩

theorem enqueue_length {n : Nat} {s : SolState} (hI : Accounted n s) (hl : NoneInList s)
    (hgen : s.gen = .done) : s.delivered.length + s.batchQueue.length = n := by
  have := hI.places.length_eq
  rw [hl.1, hgen] at this
  simpa [produced] using this

theorem worthWaiting_step {n : Nat} {s s' : SolState} {t : Thread}
    (hI : (Accounted n s ∧ NoneInList s) ∧ WorthWaiting n s) (hC : BatchLeft n s t)
    (h : solStep (CentSolution.dest true) n s t = some s') :
    (Accounted n s' ∧ NoneInList s') ∧ WorthWaiting n s' := by
  obtain ⟨⟨hA, hN⟩, hW⟩ := hI
  refine ⟨⟨hA.step h, enqueue_noneInList hN h⟩, ?_⟩
  cases t with
  | gen =>
    obtain ⟨b, hg, hb, rfl⟩ | ⟨b, hg, hb, rfl⟩ | ⟨b, hg, rfl⟩ | ⟨b, hg, rfl⟩ := genStep_cases h <;>
      exact hW
  | coor =>
    obtain ⟨hc, hx, rfl⟩ | ⟨hc, hx, rfl⟩ | ⟨hc, hx, rfl⟩ | ⟨hc, hx, rfl⟩ | ⟨hc, hx, rfl⟩ |
      ⟨hc, hx, rfl⟩ | ⟨hc, rfl⟩ | ⟨b, q, hc, hq, rfl⟩ := coorStep_cases h
    · simp [WorthWaiting]
    · exact fun _ => hC rfl hc hx
    · simp [WorthWaiting]
    · -- the size was read as nonzero after the flag: the queue still holds a batch
      intro _
      have hlen := hA.length_le
      have := List.length_pos_iff.2 hx
      show s.delivered.length < n
      omega
    · exact fun _ => hW (Or.inl hc)
    · exact fun _ => hW (Or.inl hc)
    · exact fun _ => hW (Or.inr (Or.inl hc))
    · simp [WorthWaiting]

/-- Once past the test with nothing left to come, the coordinator never gets out. -/
theorem doomed_step {n : Nat} {s s' : SolState} {t : Thread}
    (hI : (Accounted n s ∧ s.delivered.length = n) ∧
      (s.coor = .getSize ∨ s.coor = .request ∨ s.coor = .pop))
    (h : solStep (CentSolution.dest true) n s t = some s') :
    (Accounted n s' ∧ s'.delivered.length = n) ∧
      (s'.coor = .getSize ∨ s'.coor = .request ∨ s'.coor = .pop) := by
  obtain ⟨⟨hA, hd⟩, hW⟩ := hI
  have hA' := hA.step h
  cases t with
  | gen =>
    obtain ⟨b, hg, hb, rfl⟩ | ⟨b, hg, hb, rfl⟩ | ⟨b, hg, rfl⟩ | ⟨b, hg, rfl⟩ := genStep_cases h <;>
      exact ⟨⟨hA', hd⟩, hW⟩
  | coor =>
    obtain ⟨hc, hx, rfl⟩ | ⟨hc, hx, rfl⟩ | ⟨hc, hx, rfl⟩ | ⟨hc, hx, rfl⟩ | ⟨hc, hx, rfl⟩ |
      ⟨hc, hx, rfl⟩ | ⟨hc, rfl⟩ | ⟨b, q, hc, hq, rfl⟩ := coorStep_cases h
    · simp [hc] at hW
    · simp [hc] at hW
    · simp [hc] at hW
    · simp [hc] at hW
    · exact ⟨⟨hA', hd⟩, Or.inr (Or.inl rfl)⟩
    · exact ⟨⟨hA', hd⟩, Or.inr (Or.inr rfl)⟩
    · exact ⟨⟨hA', hd⟩, Or.inr (Or.inr rfl)⟩
    · have := hA.length_le
      simp only [hq, List.length_cons] at this
      omega

/-- **No stuck coordinator, exactly.**  With `enqueue`, no state of a run is stuck
when each `hasNext` that finds the flag unset has a batch left to deliver; and a
complete run ends stuck when one had none. -/
theorem enqueue_notStuck (n : Nat) (r : List Thread) (s : SolState)
    (h : Lts.run (solStep (CentSolution.dest true) n) .init r = some s) :
    (Lts.Meets (solStep (CentSolution.dest true) n) (BatchLeft n) .init r →
      ¬ StuckCoordinator s) ∧
    (Lts.Stuck (solStep (CentSolution.dest true) n) s →
      (¬ StuckCoordinator s ↔
        Lts.Meets (solStep (CentSolution.dest true) n) (BatchLeft n) .init r)) := by
  have hI := accounted_of_run h
  have hN : NoneInList s := Lts.run_inv (I := NoneInList)
    (fun _ _ _ hI h => enqueue_noneInList hI h) ⟨rfl, by simp [SolState.init]⟩ h
  have hmeets : Lts.Meets (solStep (CentSolution.dest true) n) (BatchLeft n) .init r →
      ¬ StuckCoordinator s := by
    rintro hm ⟨hgen, hq, hc⟩
    have h0 : (Accounted n .init ∧ NoneInList SolState.init) ∧ WorthWaiting n .init :=
      ⟨⟨Accounted.init n, rfl, by simp [SolState.init]⟩, by simp [WorthWaiting, SolState.init]⟩
    have hW := (Lts.run_inv_of_meets (fun _ _ _ hI hC h => worthWaiting_step hI hC h) h0 hm h).2
    have := hW (Or.inr (Or.inr hc))
    have hlen := enqueue_length hI hN hgen
    simp only [hq, List.length_nil] at hlen
    omega
  refine ⟨hmeets, fun hstuck => ⟨fun hns => ?_, hmeets⟩⟩
  by_contra hm
  obtain ⟨pre, a, post, s1, rfl, hpre, hC, hpost⟩ := Lts.exists_not_of_not_meets h hm
  simp only [BatchLeft, Classical.not_imp, not_lt] at hC
  obtain ⟨rfl, hc, hf, hd⟩ := hC
  have hA1 := accounted_of_run hpre
  have hlen := hA1.length_le
  obtain ⟨s2, h2, hpost⟩ := Lts.run_cons hpost
  have hA2 := hA1.step h2
  simp only [solStep, coorStep, hc, hf, Bool.false_eq_true, if_false, Option.some.injEq] at h2
  have h0 : (Accounted n s2 ∧ s2.delivered.length = n) ∧
      (s2.coor = .getSize ∨ s2.coor = .request ∨ s2.coor = .pop) := by
    refine ⟨⟨hA2, ?_⟩, ?_⟩
    · rw [← h2]
      show s1.delivered.length = n
      omega
    · simp [← h2]
  have hW := (Lts.run_inv (fun _ _ _ hI h => doomed_step hI h) h0 hpost).2
  obtain ⟨hgen, hq, hpop | hexit⟩ := complete_cases hI hstuck
  · exact hns ⟨hgen, hq, hpop⟩
  · simp [hexit] at hW

/-- No batch at all, and `hasNext` is asked before the generator sets its flag. -/
theorem enqueue_gets_stuck :
    ¬ ∀ (n : Nat) (r : List Thread) (s : SolState),
      Lts.run (solStep (CentSolution.dest true) n) .init r = some s → ¬ StuckCoordinator s := by
  intro hall
  exact hall 0 [.coor, .gen, .coor, .coor] _ rfl ⟨rfl, rfl, rfl⟩

/-- One batch that is still to come when `hasNext` is asked, the flag set before it is
asked again. -/
theorem enqueue_notStuck_one :
    ¬ StuckCoordinator ⟨[], [], true, true, [0], .done, .exit⟩ :=
  (enqueue_notStuck 1 [.coor, .coor, .coor, .gen, .gen, .gen, .coor, .coor, .coor] _ rfl).1
    (by simp [Lts.Meets, BatchLeft, solStep, genStep, coorStep, SolState.init,
      CentSolution.dest])

end StripeRepair

import StripeRepair.Lib.Script

/-!
# Scripts from one order of all messages

A choreography lists the messages of a system in one order.  Each queue has a thread that fills
it and at most one that empties it, so what a thread does in the choreography is to send and to
wait for the messages of its queues, in this order.  In some places there is a part with an
order of its own instead of a message.

* `script`: threads that do what the choreography has for them follow a script; a message has
  its position as its time, so they never wait for each other in a circle.
* `At.reached_writer`: who has gone past a message it waits for knows that its sender has come
  to it.
* `At.pushed_of_reached`: who has come to a place has sent what it had to send before it.
-/

namespace Proc

variable {ι C : Type} {V : C → Type} [DecidableEq ι] [DecidableEq C]

/-- A message, or a part of its own in which the threads that are named take part. -/
inductive Item (ι C : Type) (V : C → Type)
  | msg (ch : C) (v : V ch)
  | part (p : ι → List (Act C V × Nat)) (threads : List ι)

section
variable (writer : C → ι) (reader : C → Option ι)

/-- What thread `i` does for an item. -/
def Item.events (i : ι) : Item ι C V → List (Act C V × Nat)
  | .msg ch v => (if writer ch = i then [(.push ch v, 0)] else []) ++
    if reader ch = some i then [(.pop ch v, 0)] else []
  | .part p _ => p i

/-- The threads of an item. -/
def Item.threads : Item ι C V → List ι
  | .msg ch _ => writer ch :: (reader ch).toList
  | .part _ ts => ts

/-- What thread `i` does. -/
def acts (i : ι) (G : List (Item ι C V)) : List (Act C V) :=
  G.flatMap fun it => (it.events writer reader i).map Prod.fst

/-- Place `n` of the choreography. -/
def place (n : Nat) (l : List (Act C V × Nat)) : List (Act C V × ℕ ×ₗ ℕ) :=
  l.map fun e => (e.1, toLex (n, e.2))

/-- What thread `i` does, with the times, from place `n` on. -/
def eventsFrom (i : ι) : Nat → List (Item ι C V) → List (Act C V × ℕ ×ₗ ℕ)
  | _, [] => []
  | n, it :: G => place n (it.events writer reader i) ++ eventsFrom i (n + 1) G

/-- All that thread `i` pushes to `ch`. -/
def sent (i : ι) (ch : C) (G : List (Item ι C V)) : List (V ch) :=
  G.flatMap fun it => (pushesAt ch (it.events writer reader i)).map Prod.fst

/-- Only the writer and the reader of a queue use it, and all that is sent to a reader is
waited for. -/
structure Item.Sound (it : Item ι C V) : Prop where
  timed : ∀ i, (it.events writer reader i).Pairwise Before
  pushed_by : ∀ i ch, pushesAt ch (it.events writer reader i) ≠ [] → writer ch = i
  popped_by : ∀ i ch, popsAt ch (it.events writer reader i) ≠ [] → reader ch = some i
  matched : ∀ i ch, reader ch = some i →
    popsAt ch (it.events writer reader i) = pushesAt ch (it.events writer reader (writer ch))
  others : ∀ i ∉ it.threads writer reader, it.events writer reader i = []

end

section
variable {writer : C → ι} {reader : C → Option ι}

omit [DecidableEq C] in
theorem events_msg (i : ι) (ch : C) (v : V ch) : Item.events writer reader i (.msg ch v) =
    (if writer ch = i then [(.push ch v, 0)] else []) ++
      if reader ch = some i then [(.pop ch v, 0)] else [] := rfl

theorem pushesAt_msg (i : ι) (ch ch' : C) (v : V ch) :
    pushesAt ch' (Item.events writer reader i (.msg ch v)) =
      if writer ch = i then pushesAt ch' [(.push ch v, 0)] else [] := by
  rw [events_msg]
  by_cases h1 : writer ch = i
  · rw [if_pos h1, if_pos h1, pushesAt_append]
    split
    · exact List.append_nil _
    · exact List.append_nil _
  · rw [if_neg h1, if_neg h1]
    split
    · rfl
    · rfl

theorem popsAt_msg (i : ι) (ch ch' : C) (v : V ch) :
    popsAt ch' (Item.events writer reader i (.msg ch v)) =
      if reader ch = some i then popsAt ch' [(.pop ch v, 0)] else [] := by
  rw [events_msg, popsAt_append]
  by_cases h1 : writer ch = i
  · rw [if_pos h1]
    split
    · rfl
    · rfl
  · rw [if_neg h1]
    split
    · rfl
    · rfl

/-- **A message is sound.** -/
theorem sound_msg (ch : C) (v : V ch) : (Item.msg ch v).Sound writer reader where
  timed i := by
    rw [events_msg]
    split
    · split
      · exact List.pairwise_pair.2 trivial
      · exact List.pairwise_singleton _ _
    · split
      · exact List.pairwise_singleton _ _
      · exact List.Pairwise.nil
  pushed_by i ch' h := by
    rw [pushesAt_msg] at h
    by_cases h1 : writer ch = i
    · by_cases h2 : ch = ch'
      · exact h2 ▸ h1
      · rw [if_pos h1, pushesAt_ne h2] at h
        exact absurd rfl h
    · rw [if_neg h1] at h
      exact absurd rfl h
  popped_by i ch' h := by
    rw [popsAt_msg] at h
    by_cases h1 : reader ch = some i
    · by_cases h2 : ch = ch'
      · exact h2 ▸ h1
      · rw [if_pos h1, popsAt_ne h2] at h
        exact absurd rfl h
    · rw [if_neg h1] at h
      exact absurd rfl h
  matched i ch' hr := by
    rw [popsAt_msg, pushesAt_msg]
    by_cases h2 : ch = ch'
    · subst h2
      rw [if_pos hr, if_pos rfl, popsAt_self, pushesAt_self]
      rfl
    · rw [popsAt_ne h2, pushesAt_ne h2]
      simp
  others i hi := by
    unfold Item.threads at hi
    rw [List.mem_cons, not_or, Option.mem_toList] at hi
    rw [events_msg, if_neg (Ne.symm hi.1), if_neg fun h => hi.2 h]
    rfl

/-! ## Places -/

theorem pushesAt_place (ch : C) (n : Nat) (l : List (Act C V × Nat)) :
    pushesAt ch (place n l) = (pushesAt ch l).map fun e => (e.1, toLex (n, e.2)) := by
  unfold pushesAt place
  rw [List.filterMap_map, List.map_filterMap]
  refine List.filterMap_congr fun e _ => ?_
  show Option.map _ (Act.pushAt ch e.1) = Option.map _ (Option.map _ (Act.pushAt ch e.1))
  rw [Option.map_map]
  rfl

theorem popsAt_place (ch : C) (n : Nat) (l : List (Act C V × Nat)) :
    popsAt ch (place n l) = (popsAt ch l).map fun e => (e.1, toLex (n, e.2)) := by
  unfold popsAt place
  rw [List.filterMap_map, List.map_filterMap]
  refine List.filterMap_congr fun e _ => ?_
  show Option.map _ (Act.popAt ch e.1) = Option.map _ (Option.map _ (Act.popAt ch e.1))
  rw [Option.map_map]
  rfl

omit [DecidableEq ι] [DecidableEq C] in
theorem of_mem_place {e : Act C V × ℕ ×ₗ ℕ} {n : Nat} {l : List (Act C V × Nat)}
    (h : e ∈ place n l) : (ofLex e.2).1 = n := by
  obtain ⟨a, -, rfl⟩ := List.mem_map.1 h
  rfl

variable {i : ι} {n : Nat} {G G' : List (Item ι C V)}

omit [DecidableEq C] in
theorem le_of_mem_eventsFrom {e : Act C V × ℕ ×ₗ ℕ}
    (h : e ∈ eventsFrom writer reader i n G) :
    n ≤ (ofLex e.2).1 ∧ (ofLex e.2).1 < n + G.length := by
  induction G generalizing n with
  | nil => cases h
  | cons it G ih =>
    rw [List.length_cons]
    rcases List.mem_append.1 h with h | h
    · have := of_mem_place h
      omega
    · have := ih h
      omega

omit [DecidableEq C] in
theorem eventsFrom_append : eventsFrom writer reader i n (G ++ G') =
    eventsFrom writer reader i n G ++ eventsFrom writer reader i (n + G.length) G' := by
  induction G generalizing n with
  | nil => rfl
  | cons it G ih =>
    rw [List.cons_append, eventsFrom, eventsFrom, ih, List.append_assoc, List.length_cons]
    congr 3
    omega

omit [DecidableEq C] in
theorem map_fst_eventsFrom : (eventsFrom writer reader i n G).map Prod.fst =
    acts writer reader i G := by
  induction G generalizing n with
  | nil => rfl
  | cons it G ih =>
    rw [eventsFrom, List.map_append, ih, place, List.map_map]
    rfl

theorem pushesAt_eventsFrom_map (ch : C) :
    (pushesAt ch (eventsFrom writer reader i n G)).map Prod.fst = sent writer reader i ch G := by
  induction G generalizing n with
  | nil => rfl
  | cons it G ih =>
    rw [eventsFrom, pushesAt_append, List.map_append, ih, pushesAt_place, List.map_map]
    rfl

section
variable (hG : ∀ it ∈ G, it.Sound writer reader)
include hG

theorem timed_eventsFrom : (eventsFrom writer reader i n G).Pairwise Before := by
  induction G generalizing n with
  | nil => exact List.Pairwise.nil
  | cons it G ih =>
    refine List.pairwise_append.2 ⟨?_, ih (fun u hu => hG u (List.mem_cons_of_mem it hu)), ?_⟩
    · refine List.pairwise_map.2 (((hG it List.mem_cons_self).timed i).imp ?_)
      rintro ⟨a, time⟩ ⟨a', time'⟩ h
      cases a with
      | pop ch v =>
        cases a' with
        | push ch' v' => exact Prod.Lex.toLex_lt_toLex.2 (Or.inr ⟨rfl, h⟩)
        | _ => trivial
      | _ => trivial
    · intro e he e' he'
      obtain ⟨a, time⟩ := e
      obtain ⟨a', time'⟩ := e'
      have h1 : (ofLex time).1 = n := of_mem_place he
      have h2 : n + 1 ≤ (ofLex time').1 := (le_of_mem_eventsFrom he').1
      cases a with
      | pop ch v =>
        cases a' with
        | push ch' v' => exact Prod.Lex.lt_iff.2 (Or.inl (by omega))
        | _ => trivial
      | _ => trivial

theorem writer_eventsFrom {ch : C} (h : pushesAt ch (eventsFrom writer reader i n G) ≠ []) :
    writer ch = i := by
  induction G generalizing n with
  | nil => exact absurd rfl h
  | cons it G ih =>
    rw [eventsFrom, pushesAt_append, pushesAt_place] at h
    by_cases h1 : pushesAt ch (it.events writer reader i) = []
    · rw [h1] at h
      exact ih (fun u hu => hG u (List.mem_cons_of_mem it hu)) h
    · exact (hG it List.mem_cons_self).pushed_by i ch h1

theorem reader_eventsFrom {ch : C} (h : popsAt ch (eventsFrom writer reader i n G) ≠ []) :
    reader ch = some i := by
  induction G generalizing n with
  | nil => exact absurd rfl h
  | cons it G ih =>
    rw [eventsFrom, popsAt_append, popsAt_place] at h
    by_cases h1 : popsAt ch (it.events writer reader i) = []
    · rw [h1] at h
      exact ih (fun u hu => hG u (List.mem_cons_of_mem it hu)) h
    · exact (hG it List.mem_cons_self).popped_by i ch h1

theorem matched_eventsFrom {ch : C} (hr : reader ch = some i) :
    popsAt ch (eventsFrom writer reader i n G) =
      pushesAt ch (eventsFrom writer reader (writer ch) n G) := by
  induction G generalizing n with
  | nil => rfl
  | cons it G ih =>
    rw [eventsFrom, eventsFrom, popsAt_append, pushesAt_append, popsAt_place, pushesAt_place,
      (hG it List.mem_cons_self).matched i ch hr, ih fun u hu => hG u (List.mem_cons_of_mem it hu)]

theorem others_eventsFrom (hi : i ∉ G.flatMap (Item.threads writer reader)) :
    eventsFrom writer reader i n G = [] := by
  induction G generalizing n with
  | nil => rfl
  | cons it G ih =>
    rw [List.flatMap_cons, List.mem_append, not_or] at hi
    rw [eventsFrom, (hG it List.mem_cons_self).others i hi.1,
      ih (fun u hu => hG u (List.mem_cons_of_mem it hu)) hi.2]
    rfl

end

end

/-! ## Lists of messages -/

section
variable {writer : C → ι} {reader : C → Option ι} {i : ι}

/-- The messages, one after another. -/
def say (l : List (Sigma V)) : List (Item ι C V) := l.map fun e => .msg e.1 e.2

omit [DecidableEq C] in
theorem acts_append (G G' : List (Item ι C V)) :
    acts writer reader i (G ++ G') = acts writer reader i G ++ acts writer reader i G' :=
  List.flatMap_append

omit [DecidableEq C] in
theorem acts_flatMap {α : Type*} (l : List α) (f : α → List (Item ι C V)) :
    acts writer reader i (l.flatMap f) = l.flatMap fun a => acts writer reader i (f a) :=
  List.flatMap_assoc

omit [DecidableEq ι] [DecidableEq C] in
theorem say_append (l l' : List (Sigma V)) :
    (say (l ++ l') : List (Item ι C V)) = say l ++ say l' := List.map_append

omit [DecidableEq ι] [DecidableEq C] in
theorem say_flatMap {α : Type*} (l : List α) (f : α → List (Sigma V)) :
    (say (l.flatMap f) : List (Item ι C V)) = l.flatMap fun a => say (f a) := List.map_flatMap

omit [DecidableEq C] in
theorem acts_say_map {α : Type*} (l : List α) (f : α → Sigma V) :
    acts writer reader i (say (l.map f)) = l.flatMap fun a => acts writer reader i (say [f a]) := by
  rw [← acts_flatMap, ← say_flatMap]
  exact congrArg (fun l => acts writer reader i (say l)) (List.flatMap_pure_eq_map f l).symm

omit [DecidableEq C] in
/-- What a thread says. -/
theorem acts_say_writer {l : List (Sigma V)}
    (h : ∀ e ∈ l, writer e.1 = i ∧ reader e.1 ≠ some i) :
    acts writer reader i (say l) = l.map fun e => .push e.1 e.2 := by
  induction l with
  | nil => rfl
  | cons e l ih =>
    obtain ⟨hw, hr⟩ := h e List.mem_cons_self
    have hrest := ih fun u hu => h u (List.mem_cons_of_mem e hu)
    show ((Item.events writer reader i (.msg e.1 e.2)).map Prod.fst) ++ acts writer reader i (say l) = _
    rw [hrest, events_msg, if_pos hw, if_neg hr]
    rfl

omit [DecidableEq C] in
/-- What a thread is told. -/
theorem acts_say_reader {l : List (Sigma V)}
    (h : ∀ e ∈ l, writer e.1 ≠ i ∧ reader e.1 = some i) :
    acts writer reader i (say l) = l.map fun e => .pop e.1 e.2 := by
  induction l with
  | nil => rfl
  | cons e l ih =>
    obtain ⟨hw, hr⟩ := h e List.mem_cons_self
    have hrest := ih fun u hu => h u (List.mem_cons_of_mem e hu)
    show ((Item.events writer reader i (.msg e.1 e.2)).map Prod.fst) ++ acts writer reader i (say l) = _
    rw [hrest, events_msg, if_neg hw, if_pos hr]
    rfl

omit [DecidableEq C] in
/-- What does not concern a thread. -/
theorem acts_say_other {l : List (Sigma V)}
    (h : ∀ e ∈ l, writer e.1 ≠ i ∧ reader e.1 ≠ some i) : acts writer reader i (say l) = [] := by
  refine List.flatMap_eq_nil_iff.2 fun it hit => ?_
  obtain ⟨e, he, rfl⟩ := List.mem_map.1 hit
  rw [events_msg, if_neg (h e he).1, if_neg (h e he).2]
  rfl

/-- With keys of their own, only one element counts. -/
theorem flatMap_of_key {α κ β : Type*} {key : α → κ} {l : List α} (hl : (l.map key).Nodup)
    {f : α → List β} {a : α} (ha : a ∈ l) (hf : ∀ b ∈ l, key b ≠ key a → f b = []) :
    l.flatMap f = f a := by
  induction l with
  | nil => cases ha
  | cons b l ih =>
    rw [List.map_cons, List.nodup_cons] at hl
    rw [List.flatMap_cons]
    rcases List.mem_cons.1 ha with rfl | ha
    · rw [List.flatMap_eq_nil_iff.2 fun c hc => hf c (List.mem_cons_of_mem a hc) fun he =>
        hl.1 (he ▸ List.mem_map_of_mem hc), List.append_nil]
    · rw [hf b List.mem_cons_self fun he => hl.1 (he ▸ List.mem_map_of_mem ha),
        ih hl.2 ha fun c hc => hf c (List.mem_cons_of_mem b hc)]
      rfl

section
variable {ch : C}

theorem sent_append (G G' : List (Item ι C V)) : sent writer reader i ch (G ++ G') =
    sent writer reader i ch G ++ sent writer reader i ch G' := List.flatMap_append

theorem sent_flatMap {α : Type*} (l : List α) (f : α → List (Item ι C V)) :
    sent writer reader i ch (l.flatMap f) = l.flatMap fun a => sent writer reader i ch (f a) :=
  List.flatMap_assoc

theorem mem_sent {v : V ch} {G : List (Item ι C V)} (h : .msg ch v ∈ G) :
    v ∈ sent writer reader (writer ch) ch G := by
  refine List.mem_flatMap.2 ⟨_, h, ?_⟩
  rw [pushesAt_msg, if_pos rfl, pushesAt_self]
  exact List.mem_singleton_self _

theorem mem_sent_say {l : List (Sigma V)} {v : V ch}
    (h : v ∈ sent writer reader i ch (say l)) : ⟨ch, v⟩ ∈ l := by
  obtain ⟨it, hit, hv⟩ := List.mem_flatMap.1 h
  obtain ⟨e, he, rfl⟩ := List.mem_map.1 hit
  rw [pushesAt_msg] at hv
  split at hv
  · by_cases hch : e.1 = ch
    · subst hch
      rw [pushesAt_self] at hv
      rw [List.mem_singleton.1 hv]
      exact he
    · rw [pushesAt_ne hch] at hv
      cases hv
  · cases hv

end

end

/-! ## The script -/

section
variable (writer : C → ι) (reader : C → Option ι) (body rest : ι → Proc C V)
  (G : List (Item ι C V)) (hG : ∀ it ∈ G, it.Sound writer reader)
  (hdoes : ∀ i, Does (body i) (body i) (acts writer reader i G) (rest i))
  (hrest : ∀ i, head (body i) (rest i) = .done ∨
    ∃ ch k, head (body i) (rest i) = .pop ch k ∧ reader ch = some i)

/-- **Threads that do what the choreography has for them follow a script.** -/
def script : Script body (ℕ ×ₗ ℕ) where
  events i := eventsFrom writer reader i 0 G
  rest := rest
  does i := by
    rw [map_fst_eventsFrom]
    exact hdoes i
  timed _ := timed_eventsFrom hG
  writer i j hij ch := by
    by_contra hno
    rw [not_or] at hno
    exact hij ((writer_eventsFrom hG hno.1).symm.trans (writer_eventsFrom hG hno.2))
  reader i j hij ch := by
    by_contra hno
    rw [not_or] at hno
    refine hij (Option.some.inj ?_)
    exact (reader_eventsFrom hG hno.1).symm.trans (reader_eventsFrom hG hno.2)
  matched i ch h := ⟨writer ch, by rw [matched_eventsFrom hG (reader_eventsFrom hG h)]⟩
  resting i := by
    rcases hrest i with h | ⟨ch, k, h, hr⟩
    · exact Or.inl h
    · refine Or.inr ⟨ch, k, h, fun j => ?_⟩
      rw [matched_eventsFrom hG hr]
      by_cases hj : pushesAt ch (eventsFrom writer reader j 0 G) = []
      · rw [hj]
        exact Nat.zero_le _
      · rw [writer_eventsFrom hG hj]
  threads := (G.flatMap (Item.threads writer reader)).dedup
  nodup := List.nodup_dedup _
  others i hi := others_eventsFrom hG fun h => hi (List.mem_dedup.2 h)

/-! ## What comes first -/

variable {writer reader body rest G hG hdoes hrest}
  {s : Net ι C V} {left : ι → List (Act C V × ℕ ×ₗ ℕ)}

/-- The thread has come to place `n`. -/
def Reached (left : ι → List (Act C V × ℕ ×ₗ ℕ)) (i : ι) (n : Nat) : Prop :=
  ∀ e ∈ left i, n ≤ (ofLex e.2).1

omit [DecidableEq ι] [DecidableEq C] in
theorem Reached.mono {i : ι} {m n : Nat} (h : Reached left i n) (hmn : m ≤ n) : Reached left i m :=
  fun e he => hmn.trans (h e he)

section
variable (h : (script writer reader body rest G hG hdoes hrest).At s left)
include h

/-- The uses of a queue that are left, when the thread has come to a place. -/
theorem At.left_of_reached {G1 G2 : List (Item ι C V)} (hsplit : G = G1 ++ G2) {i : ι}
    (hi : Reached left i G1.length) : left i <:+ eventsFrom writer reader i G1.length G2 := by
  have hsuffix : left i <:+ eventsFrom writer reader i 0 G := h.suffix i
  rw [hsplit, eventsFrom_append, Nat.zero_add] at hsuffix
  rcases List.suffix_or_suffix_of_suffix hsuffix (List.suffix_append _ _) with hle | hle
  · exact hle
  · obtain ⟨mid, hmid⟩ := hle
    -- what would be left of the first part is too early
    have hnil : mid = [] := by
      refine List.eq_nil_iff_forall_not_mem.2 fun e he => ?_
      have hmem : e ∈ eventsFrom writer reader i 0 G1 := by
        obtain ⟨pre, hpre⟩ := hsuffix
        rw [← hmid, ← List.append_assoc, List.append_cancel_right_eq] at hpre
        rw [← hpre]
        exact List.mem_append_right _ he
      have h1 := (le_of_mem_eventsFrom hmem).2
      have h2 := hi e (hmid ▸ List.mem_append_left _ he)
      omega
    rw [← hmid, hnil]
    exact List.suffix_refl _

/-- A queue that nobody fills. -/
theorem At.unpushed_of_nil {ch : C}
    (hnil : pushesAt ch (eventsFrom writer reader (writer ch) 0 G) = []) : s.pushed ch = [] := by
  refine h.unpushed ch fun i => ?_
  by_contra hi
  rw [← writer_eventsFrom hG hi] at hi
  exact hi hnil

/-- **What has been sent** is what is sent in all, as far as it goes. -/
theorem At.pushed_isPrefix (ch : C) : s.pushed ch <+: sent writer reader (writer ch) ch G := by
  rw [← pushesAt_eventsFrom_map (n := 0)]
  by_cases hne : pushesAt ch (eventsFrom writer reader (writer ch) 0 G) = []
  · rw [At.unpushed_of_nil h hne]
    exact List.nil_prefix
  · exact h.pushed_isPrefix (writer ch) hne

/-- **Who has come to a place has sent what it had to send before it.** -/
theorem At.pushed_of_reached {G1 G2 : List (Item ι C V)} (hsplit : G = G1 ++ G2) {ch : C}
    (hi : Reached left (writer ch) G1.length) :
    sent writer reader (writer ch) ch G1 <+: s.pushed ch := by
  rw [← pushesAt_eventsFrom_map (n := 0)]
  by_cases hne : pushesAt ch (eventsFrom writer reader (writer ch) 0 G) = []
  · rw [hsplit, eventsFrom_append, pushesAt_append, List.append_eq_nil_iff] at hne
    rw [hne.1]
    exact List.nil_prefix
  · have hpushed := h.pushed (writer ch) ch hne
    obtain ⟨mid, hmid⟩ := At.left_of_reached h hsplit hi
    have hevents : (script writer reader body rest G hG hdoes hrest).events (writer ch) =
        eventsFrom writer reader (writer ch) 0 G1 ++ (mid ++ left (writer ch)) := by
      rw [hmid]
      show eventsFrom writer reader (writer ch) 0 G = _
      rw [hsplit, eventsFrom_append, Nat.zero_add]
    rw [hevents, pushesAt_append, pushesAt_append, List.map_append, List.map_append,
      ← List.append_assoc, List.append_cancel_right_eq] at hpushed
    rw [hpushed]
    exact List.prefix_append _ _

/-- The sender of a value that is not sent in a first part has come to the end of the part. -/
theorem At.reached_of_mem {G1 G2 : List (Item ι C V)} (hsplit : G = G1 ++ G2) {ch : C} {v : V ch}
    (hv : v ∈ s.pushed ch)
    (hno : v ∉ sent writer reader (writer ch) ch G1) : Reached left (writer ch) G1.length := by
  have hsuffix : left (writer ch) <:+ eventsFrom writer reader (writer ch) 0 G := h.suffix (writer ch)
  have hevents : eventsFrom writer reader (writer ch) 0 G =
      eventsFrom writer reader (writer ch) 0 G1 ++
        eventsFrom writer reader (writer ch) G1.length G2 := by
    rw [hsplit, eventsFrom_append, Nat.zero_add]
  rw [← pushesAt_eventsFrom_map (n := 0)] at hno
  rw [hevents] at hsuffix
  rcases List.suffix_or_suffix_of_suffix hsuffix (List.suffix_append _ _) with hle | hle
  · intro e he
    exact (le_of_mem_eventsFrom (hle.subset he)).1
  · -- all that was sent would be in the first part
    obtain ⟨mid, hmid⟩ := hle
    obtain ⟨pre, hpre⟩ := hsuffix
    rw [← hmid, ← List.append_assoc, List.append_cancel_right_eq] at hpre
    have hne : pushesAt ch (eventsFrom writer reader (writer ch) 0 G) ≠ [] := by
      intro hnil
      rw [At.unpushed_of_nil h hnil] at hv
      cases hv
    have hpushed : s.pushed ch ++ (pushesAt ch (left (writer ch))).map Prod.fst =
      (pushesAt ch (eventsFrom writer reader (writer ch) 0 G)).map Prod.fst :=
        h.pushed (writer ch) ch hne
    rw [hevents, ← hpre, List.append_assoc, hmid, pushesAt_append, List.map_append,
      List.append_cancel_right_eq] at hpushed
    refine absurd ?_ hno
    rw [← hpre, pushesAt_append, List.map_append]
    exact List.mem_append_left _ (hpushed ▸ hv)

/-- The sender has come to a message of which more is there than was sent before it. -/
theorem At.reached_of_pushed {G1 G2 : List (Item ι C V)} {ch : C} {v : V ch}
    (hsplit : G = G1 ++ .msg ch v :: G2)
    (hlt : (pushesAt ch (eventsFrom writer reader (writer ch) 0 G1)).length <
      (s.pushed ch).length) : Reached left (writer ch) G1.length := by
  have hevents : (script writer reader body rest G hG hdoes hrest).events (writer ch) =
      eventsFrom writer reader (writer ch) 0 G1 ++
        eventsFrom writer reader (writer ch) G1.length (.msg ch v :: G2) := by
    show eventsFrom writer reader (writer ch) 0 G = _
    rw [hsplit, eventsFrom_append, Nat.zero_add]
  have hmsg : pushesAt ch (eventsFrom writer reader (writer ch) G1.length (.msg ch v :: G2)) =
      (v, toLex (G1.length, 0)) ::
        pushesAt ch (eventsFrom writer reader (writer ch) (G1.length + 1) G2) := by
    rw [eventsFrom, pushesAt_append, pushesAt_place, pushesAt_msg, if_pos rfl, pushesAt_self]
    rfl
  have hne : pushesAt ch ((script writer reader body rest G hG hdoes hrest).events (writer ch)) ≠
      [] := by
    rw [hevents, pushesAt_append, hmsg]
    exact List.append_ne_nil_of_right_ne_nil _ (List.cons_ne_nil _ _)
  have hlen := congrArg List.length (h.pushed (writer ch) ch hne)
  rw [List.length_append, List.length_map, List.length_map, hevents, pushesAt_append, hmsg,
    List.length_append, List.length_cons] at hlen
  -- what is left does not hold all messages from this one on
  have hsuffix := h.suffix (writer ch)
  rw [hevents] at hsuffix
  rcases List.suffix_or_suffix_of_suffix hsuffix (List.suffix_append _ _) with hle | hle
  · intro e he
    exact (le_of_mem_eventsFrom (hle.subset he)).1
  · obtain ⟨mid, hmid⟩ := hle
    rw [← hmid, pushesAt_append, hmsg, List.length_append, List.length_cons] at hlen
    omega

/-- **Who has gone past a message it waits for** knows that its sender has come to it. -/
theorem At.reached_writer {G1 G2 : List (Item ι C V)} {ch : C} {v : V ch}
    (hsplit : G = G1 ++ .msg ch v :: G2) {j : ι} (hr : reader ch = some j)
    (hj : Reached left j (G1.length + 1)) : Reached left (writer ch) G1.length := by
  refine At.reached_of_pushed h hsplit ?_
  have hsplit' : G = (G1 ++ [.msg ch v]) ++ G2 := by
    rw [hsplit, List.append_assoc]
    rfl
  obtain ⟨mid, hmid⟩ := At.left_of_reached h hsplit' (i := j) (by
    rw [List.length_append]
    exact hj)
  have hfirst : popsAt ch (eventsFrom writer reader j 0 (G1 ++ [.msg ch v])) =
      popsAt ch (eventsFrom writer reader j 0 G1) ++ [(v, toLex (G1.length, 0))] := by
    rw [eventsFrom_append, popsAt_append, Nat.zero_add, eventsFrom, popsAt_append, popsAt_place,
      popsAt_msg, if_pos hr, popsAt_self]
    rfl
  have hevents : (script writer reader body rest G hG hdoes hrest).events j =
      eventsFrom writer reader j 0 (G1 ++ [.msg ch v]) ++ (mid ++ left j) := by
    rw [hmid]
    show eventsFrom writer reader j 0 G = _
    rw [hsplit', eventsFrom_append, Nat.zero_add]
  have hne : popsAt ch ((script writer reader body rest G hG hdoes hrest).events j) ≠ [] := by
    rw [hevents, popsAt_append, hfirst]
    simp
  have hpopped := h.popped j ch hne
  rw [hevents, popsAt_append, popsAt_append, hfirst, List.length_append, List.length_append,
    List.length_append, List.length_singleton] at hpopped
  have hmatched : (popsAt ch (eventsFrom writer reader j 0 G1)).length =
      (pushesAt ch (eventsFrom writer reader (writer ch) 0 G1)).length := by
    rw [matched_eventsFrom (fun it hit => hG it ?_) hr]
    rw [hsplit]
    exact List.mem_append_left _ hit
  have := h.le ch
  omega

/-- **A phase of messages**: who has gone past it knows that all who send to it in this phase
have come to it. -/
theorem At.reached_phase {G1 G2 : List (Item ι C V)} {l : List (Sigma V)}
    (hsplit : G = G1 ++ say l ++ G2) {e : Sigma V} (he : e ∈ l) {j : ι} (hr : reader e.1 = some j)
    (hj : Reached left j (G1 ++ say l).length) : Reached left (writer e.1) G1.length := by
  obtain ⟨l1, l2, rfl⟩ := List.append_of_mem he
  have hsplit' : G = (G1 ++ say l1) ++ .msg e.1 e.2 :: (say l2 ++ G2) := by
    rw [hsplit, say_append]
    simp [say]
  refine (At.reached_writer h hsplit' hr (hj.mono ?_)).mono ?_
  · rw [say_append, List.length_append, List.length_append, List.length_append]
    show _ ≤ _ + (_ + (say l2).length + 1)
    omega
  · rw [List.length_append]
    omega

omit h in
/-- **In the end all has been sent.** -/
theorem At.pushed_of_end (hend : (script writer reader body rest G hG hdoes hrest).At s fun _ => [])
    (ch : C) : s.pushed ch = sent writer reader (writer ch) ch G := by
  rw [← pushesAt_eventsFrom_map (n := 0)]
  by_cases hne : pushesAt ch (eventsFrom writer reader (writer ch) 0 G) = []
  · rw [At.unpushed_of_nil hend hne, hne]
    rfl
  · have hpushed := hend.pushed (writer ch) ch hne
    rw [pushesAt_nil, List.map_nil, List.append_nil] at hpushed
    exact hpushed

omit h in
/-- **In the end all has been received.** -/
theorem At.popped_of_end (hend : (script writer reader body rest G hG hdoes hrest).At s fun _ => [])
    {ch : C} {r : ι} (hr : reader ch = some r) : s.popped ch = (s.pushed ch).length := by
  have hmatched := matched_eventsFrom (n := 0) hG hr
  rw [At.pushed_of_end hend, ← pushesAt_eventsFrom_map (n := 0), List.length_map, ← hmatched]
  by_cases hne : popsAt ch (eventsFrom writer reader r 0 G) = []
  · have hle := hend.le ch
    rw [At.pushed_of_end hend, ← pushesAt_eventsFrom_map (n := 0), List.length_map, ← hmatched,
      hne] at hle
    rw [hne]
    exact Nat.le_antisymm hle (Nat.zero_le _)
  · have hpopped := hend.popped r ch hne
    rw [popsAt_nil, List.length_nil, Nat.add_zero] at hpopped
    exact hpopped

end

end

end Proc
